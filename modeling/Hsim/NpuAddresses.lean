import Hsim.BridgeAddresses
import Hsim.Schedule
import Hsim.StageIsolation
import Hsim.Transit

/-! The addresses of the NPU's requests.

`next_address` grows by the request size with every request of a detailed replay
and is never set back, so until it passes 2^64 no two requests of a run have the
same address. All that a bridge ever has queued is requests of the NPU, so its
lookup by address finds what the memory system called back for. -/
namespace Hsim

/-! ### The bridges of the modules -/

namespace MemWrapper

theorem takeCompleted_ordered (cfg : Config) {s : State} (h : Bridge.Ordered s.bridge) (now : Time) :
    Bridge.Ordered (takeCompleted cfg now s).1.bridge := by
  have hback := h.getCompletedCommand
  unfold takeCompleted acknowledgeHostWrite
  split
  · exact h
  · next t bridge hget =>
    rw [hget] at hback
    dsimp only
    repeat' split
    all_goals exact hback

theorem sendRequests_ordered (cfg : Config) {s : State} (h : Bridge.Ordered s.bridge) (now : Time) :
    Bridge.Ordered (sendRequests cfg now s).1.bridge := by
  refine sendRequests_rule cfg now s (fun _ s _ => Bridge.Ordered s.bridge) h ?_
  intro t _ s _ hs
  simp only [sendRequest]
  split
  · exact hs
  · exact hs.sendCommand cfg.memorySystem now t

theorem iterate_ordered {cfg : Config} {s : State} (h : Bridge.Ordered s.bridge) (env : Env)
    (now : Time) : Bridge.Ordered (iterate cfg env now s).1.bridge := by
  have h₁ : Bridge.Ordered (completeFastMemoryRequests now s).1.bridge := h
  have h₂ := takeCompleted_ordered cfg h₁ now
  simp only [iterate, Action.seq_fst]
  split
  · exact h₂
  · have h₃ := sendRequests_ordered cfg h₂ now
    obtain ⟨thread, -, hs, -⟩ := finishIteration_cases (s := (sendRequests cfg now
      (takeCompleted cfg now (completeFastMemoryRequests now s).1).1).1) cfg env now
    rw [Action.seq_fst, hs]
    show Bridge.Ordered (tick cfg env now _).bridge
    simp only [tick]
    split
    · exact h₃
    · exact h₃.clockTick _ _ _

end MemWrapper

namespace PimWrapper

section
variable {cfg : Config} {s : State} (h : Bridge.Ordered s.bridge)
include h

theorem collect_ordered (now : Time) : Bridge.Ordered (collect now s).1.bridge := by
  have hback := h.getCompletedCommand
  simp only [collect, Action.seq_fst]
  unfold takeCompleted
  split
  · exact h
  · next t bridge hget =>
    have hget' : Bridge.getCompletedCommand s.bridge = (some t, bridge) := hget
    rw [hget'] at hback
    split <;> exact hback

theorem finishIteration_ordered (env : Env) (now : Time) (blocked : Bool) :
    Bridge.Ordered (finishIteration cfg env now blocked s).1.bridge := by
  obtain ⟨thread, -, hs, -⟩ := finishIteration_spec cfg env now blocked s
  rw [hs]
  show Bridge.Ordered (tick cfg env now s).bridge
  simp only [tick]
  split
  · exact h
  · exact h.clockTick _ _ _

theorem handOver_ordered (now : Time) (t : Payload) :
    Bridge.Ordered (handOver cfg now t s).1.bridge := by
  have hsent := h.sendCommand cfg.memorySystem now t
  unfold handOver handOverCompute handOverMemory
  split <;> dsimp only <;> split <;> first | exact h | exact hsent

theorem sendTransaction_ordered (env : Env) (now : Time) (t : Payload) :
    Bridge.Ordered (sendTransaction cfg env now t s).1.bridge := by
  unfold sendTransaction
  split
  · exact finishIteration_ordered (handOver_ordered h now t) env now false
  · exact h

theorem iterate_ordered (env : Env) (now : Time) :
    Bridge.Ordered (iterate cfg env now s).1.bridge := by
  have hcollect := collect_ordered h now
  rw [iterate, Action.seq_fst]
  generalize (collect now s).1 = c at hcollect ⊢
  rcases process_cases cfg env now c with
    ⟨-, hp⟩ | ⟨t, rest, -, -, -, hp⟩ | ⟨t, rest, s₀, effects, -, -, hdeq, -, hp⟩
  · rw [hp]
    exact finishIteration_ordered hcollect env now _
  · rw [hp]
    refine finishIteration_ordered ?_ env now _
    unfold noteContention
    split <;> exact hcollect
  · have hbridge : s₀.bridge = c.bridge := by
      obtain ⟨waits, target, draft, rfl⟩ := hdeq
      rfl
    rw [← hbridge] at hcollect
    rw [hp]
    exact sendTransaction_ordered hcollect env now t

theorem resume_ordered (env : Env) (now : Time) (t : Payload) :
    Bridge.Ordered (resume cfg env now t s).1.bridge :=
  finishIteration_ordered (handOver_ordered (s := {s with pimMode := targetMode t}) h now t) env now false

end

end PimWrapper

namespace System

/-- The bridges as the wrappers leave them. -/
def Bridged (s : State) : Prop := Bridge.Ordered s.mem.bridge ∧ Bridge.Ordered s.pim.bridge

@[simp] theorem performAll_mem (s : State) (effects : List Effect) :
    (performAll s effects).mem = s.mem := by rw [performAll_eq]

@[simp] theorem performAll_pim (s : State) (effects : List Effect) :
    (performAll s effects).pim = s.pim := by rw [performAll_eq]

theorem Move.bridged {cfg : Config} {s s' : State} (h : Bridged s) (hm : Move cfg s s') :
    Bridged s' := by
  obtain ⟨hmem, hpim⟩ := h
  cases hm with
  | memPeq t rest hq =>
    simpa only [Bridged, runMem, performAll_mem, performAll_pim] using ⟨hmem, hpim⟩
  | memIterate answers wake onEvent _ _ =>
    simpa only [Bridged, runMem, performAll_mem, performAll_pim] using
      ⟨MemWrapper.iterate_ordered hmem _ _, hpim⟩
  | memPosedge =>
    refine ⟨?_, hpim⟩
    show Bridge.Ordered (MemWrapper.clockPosedge s.mem).bridge
    unfold MemWrapper.clockPosedge
    split <;> exact hmem
  | memNegedge =>
    have hedge : (MemWrapper.clockNegedge s.mem).1.bridge = s.mem.bridge := by
      unfold MemWrapper.clockNegedge
      split <;> rfl
    simpa only [Bridged, runMem, performAll_mem, performAll_pim, hedge] using ⟨hmem, hpim⟩
  | pimPeq t rest hq =>
    simpa only [Bridged, runPim, performAll_mem, performAll_pim] using ⟨hmem, hpim⟩
  | pimIterate answers wake onEvent _ _ =>
    simpa only [Bridged, runPim, performAll_mem, performAll_pim] using
      ⟨hmem, PimWrapper.iterate_ordered hpim _ _⟩
  | pimResume answers t wake _ =>
    simpa only [Bridged, runPim, performAll_mem, performAll_pim] using
      ⟨hmem, PimWrapper.resume_ordered hpim _ _ t⟩
  | pimPosedge =>
    have hedge : (PimWrapper.clockPosedge cfg.pim s.now s.pim).1.bridge = s.pim.bridge := by
      unfold PimWrapper.clockPosedge
      split <;> rfl
    simpa only [Bridged, runPim, performAll_mem, performAll_pim, hedge] using ⟨hmem, hpim⟩
  | pimNegedge =>
    have hedge : (PimWrapper.clockNegedge cfg.pim s.now s.pim).1.bridge = s.pim.bridge := by
      unfold PimWrapper.clockNegedge
      split <;> rfl
    simpa only [Bridged, System.pimNegedge, runPim, performAll_mem, performAll_pim, hedge] using
      ⟨hmem, hpim⟩
  | arbiterNegedge t index rest hq =>
    unfold deliverFw
    split <;> exact ⟨hmem, hpim⟩
  | arbiterPosedge t index rest hq =>
    unfold deliverBw
    split <;> exact ⟨hmem, hpim⟩
  | _ =>
    simpa only [Bridged, runHost, System.hostNegedge, runNpu, performAll_mem, performAll_pim] using
      ⟨hmem, hpim⟩

theorem Reachable.bridged {cfg : Config} {controls : List TraceGenerator.SpeculativeControl} {s : State}
    (h : Reachable cfg controls s) : Bridged s := by
  refine h.invariant (P := Bridged) ?_ fun _ _ hs hstep => hstep.2.bridged hs
  rintro _ rfl
  exact ⟨Bridge.ordered_empty, Bridge.ordered_empty⟩

theorem memHeld_le_traffic (s : State) : MemWrapper.held s.mem ≤ traffic s := by
  unfold traffic
  iterate 5 refine le_add_right ?_
  exact le_add_left le_rfl

theorem pimHeld_le_traffic (s : State) : PimWrapper.memoryHeld s.pim ≤ traffic s := by
  unfold traffic
  iterate 3 refine le_add_right ?_
  exact le_add_left le_rfl

/-- What a bridge has queued is part of the NPU's traffic. -/
theorem queued_le_traffic {s : State} (h : Bridged s) :
    Bridge.queued s.mem.bridge ≤ traffic s ∧ Bridge.queued s.pim.bridge ≤ traffic s := by
  constructor
  · refine (Bridge.queued_le_contents _).trans (le_trans ?_ (memHeld_le_traffic s))
    exact (Multiset.le_add_left _ _).trans (Multiset.le_add_left _ _)
  · have hkind : Bridge.queued s.pim.bridge =
        (Bridge.queued s.pim.bridge).filter (fun t => t.isPim = false) :=
      (Multiset.filter_eq_self.mpr h.2.queued_isPim).symm
    have hle := Multiset.filter_le_filter (fun t => t.isPim = false)
      (Bridge.queued_le_contents s.pim.bridge)
    rw [← hkind] at hle
    refine hle.trans (le_trans ?_ (pimHeld_le_traffic s))
    exact (Multiset.le_add_left _ _).trans (Multiset.le_add_right _ _)

/-! ### The address generator -/

/-- `next_address` after a number of requests, in full. -/
def Config.addressAfter (cfg : Config) (n : Nat) : Nat := 0x10000000 + cfg.npu.requestBytes.toNat * n

/-- The addresses given out lie below the next one and are all different. -/
structure Addressed (cfg : Config) (s : State) : Prop where
  next : s.npu.nextAddress.toNat = cfg.addressAfter s.npu.issued % 2 ^ 64
  below : ∀ t ∈ traffic s, t.address.toNat < cfg.addressAfter s.npu.issued
  nodup : ((traffic s).map (·.address)).Nodup

end System

namespace NpuTraceReplayer

/-- The requests of an activation follow each other in the address space. -/
theorem numbered_address {cfg : Config} (hmode : cfg.profile.fastLayerMode = false) (stage : Nat)
    (bodies : List Payload) (n : Nat) {address : UInt64} {base : Nat}
    (haddress : address.toNat = base % 2 ^ 64)
    (hroom : base + cfg.requestBytes.toNat * bodies.length ≤ 2 ^ 64) :
    (∀ t ∈ cfg.numbered stage bodies n address,
      base ≤ t.address.toNat ∧ t.address.toNat < base + cfg.requestBytes.toNat * bodies.length) ∧
    ((cfg.numbered stage bodies n address).map (·.address)).Nodup ∧
    (address + (bodies.map cfg.reserved).sum).toNat =
      (base + cfg.requestBytes.toNat * bodies.length) % 2 ^ 64 := by
  induction bodies generalizing n address base with
  | nil => simpa [Config.numbered] using haddress
  | cons body bodies ih =>
    have hpos := requestBytes_pos cfg
    rw [List.length_cons, Nat.mul_add_one] at hroom ⊢
    have hhere : address.toNat = base := by
      rw [haddress]
      exact Nat.mod_eq_of_lt (by omega)
    have hreserved : cfg.reserved body = cfg.requestBytes.toUInt64 := by
      simp only [Config.reserved, hmode, Bool.false_eq_true, if_false]
    have hnext : (address + cfg.reserved body).toNat = (base + cfg.requestBytes.toNat) % 2 ^ 64 := by
      rw [UInt64.toNat_add, hreserved, UInt32.toNat_toUInt64, hhere]
    obtain ⟨hrange, hnodup, hsum⟩ := ih (n + 1) hnext (by omega)
    refine ⟨?_, ?_, ?_⟩
    · rw [Config.numbered, List.forall_mem_cons]
      refine ⟨⟨hhere.ge, ?_⟩, fun t ht => ?_⟩
      · show address.toNat < _
        omega
      · have hbounds := hrange t ht
        omega
    · rw [Config.numbered, List.map_cons, List.nodup_cons]
      refine ⟨fun hmem => ?_, hnodup⟩
      obtain ⟨t, ht, hsame⟩ := List.mem_map.mp hmem
      have hbounds := hrange t ht
      have hsame' : t.address.toNat = address.toNat := congrArg UInt64.toNat hsame
      omega
    · rw [List.map_cons, List.sum_cons, ← UInt64.add_assoc, hsum]
      congr 1
      omega

end NpuTraceReplayer

namespace System

theorem Flow.addressed {cfg : Config} (hmode : cfg.npu.profile.fastLayerMode = false) {s s' : State}
    (h : cfg.addressAfter s.npu.issued ≤ 2 ^ 64 → Addressed cfg s) (hm : Flow cfg s s')
    (hroom : cfg.addressAfter s'.npu.issued ≤ 2 ^ 64) : Addressed cfg s' := by
  cases hm with
  | aside _ _ _ hnpu htraffic =>
    rw [hnpu.issued] at hroom
    obtain ⟨hnext, hbelow, hnodup⟩ := h hroom
    refine ⟨?_, ?_, ?_⟩
    · rw [hnpu.nextAddress, hnpu.issued]
      exact hnext
    · rw [htraffic, hnpu.issued]
      exact hbelow
    · rw [htraffic]
      exact hnodup
  | lost _ _ hnpu htraffic =>
    rw [hnpu] at hroom
    obtain ⟨hnext, hbelow, hnodup⟩ := h hroom
    refine ⟨?_, ?_, Multiset.nodup_of_le (Multiset.map_le_map htraffic) hnodup⟩
    · rw [hnpu]
      exact hnext
    · rw [hnpu]
      exact fun t ht => hbelow t (Multiset.mem_of_le htraffic ht)
  | ran effects bodies _ hsends _ _ htraffic =>
    have hafter : cfg.addressAfter s'.npu.issued =
        cfg.addressAfter s.npu.issued + cfg.npu.requestBytes.toNat * bodies.length := by
      rw [hsends.issued, Config.addressAfter, Config.addressAfter, Nat.mul_add, Nat.add_assoc]
    rw [hafter] at hroom
    obtain ⟨hnext, hbelow, hnodup⟩ := h (by omega)
    obtain ⟨hrange, hfresh, hsum⟩ := NpuTraceReplayer.numbered_address hmode s.npu.stage bodies
      s.npu.issued hnext hroom
    rw [← hsends.requests] at hrange hfresh
    refine ⟨?_, fun t ht => ?_, ?_⟩
    · rw [hsends.nextAddress, hafter]
      exact hsum
    · rw [hafter]
      rw [htraffic] at ht
      rcases Multiset.mem_add.mp ht with ht | ht
      · exact (hbelow t ht).trans_le (Nat.le_add_right _ _)
      · exact (hrange t ht).2
    · rw [htraffic, Multiset.map_add, Multiset.nodup_add]
      refine ⟨hnodup, hfresh, Multiset.disjoint_left.mpr fun ha hnew => ?_⟩
      obtain ⟨t, ht, rfl⟩ := Multiset.mem_map.mp ha
      obtain ⟨u, hu, hsame⟩ := Multiset.mem_map.mp hnew
      have hlow := hbelow t ht
      have hhigh := (hrange u hu).1
      have hsame' : u.address.toNat = t.address.toNat := congrArg UInt64.toNat hsame
      omega
  | answered t hissued haddress _ _ htraffic =>
    rw [hissued] at hroom
    obtain ⟨hnext, hbelow, hnodup⟩ := h hroom
    rw [htraffic] at hbelow hnodup
    refine ⟨?_, fun u hu => ?_, ?_⟩
    · rw [haddress, hissued]
      exact hnext
    · rw [hissued]
      exact hbelow u (Multiset.mem_cons_of_mem hu)
    · rw [Multiset.map_cons] at hnodup
      exact (Multiset.nodup_cons.mp hnodup).2

theorem addressed_initial (cfg : Config) {controls : List TraceGenerator.SpeculativeControl} {s : State}
    (h : Initial controls s) : Addressed cfg s := by
  have hnone : traffic s = 0 := by
    subst h
    simp [traffic, MemWrapper.held, MemWrapper.sent, PimWrapper.memoryHeld,
      PimWrapper.State.inFlight, PimWrapper.waiting, PimWrapper.State.completedQueue,
      PimWrapper.State.fastCompletedQueue]
  refine ⟨?_, ?_, ?_⟩
  · subst h
    rfl
  · simp [hnone]
  · simp [hnone]

theorem Reachable.addressed {cfg : Config}
    (hmemory : cfg.npu.memory = if cfg.dramEnabled then .dram else .pim)
    (hmode : cfg.npu.profile.fastLayerMode = false)
    {controls : List TraceGenerator.SpeculativeControl} {s : State} (h : Reachable cfg controls s) :
    cfg.addressAfter s.npu.issued ≤ 2 ^ 64 → Addressed cfg s := by
  have hboth : Carried cfg s ∧ (cfg.addressAfter s.npu.issued ≤ 2 ^ 64 → Addressed cfg s) := by
    refine h.invariant (P := fun s => Carried cfg s ∧
      (cfg.addressAfter s.npu.issued ≤ 2 ^ 64 → Addressed cfg s)) ?_ ?_
    · exact fun s hs => ⟨carried_initial cfg hs, fun _ => addressed_initial cfg hs⟩
    · rintro s s' ⟨hcarried, haddressed⟩ hstep
      obtain ⟨hcarried', hflow⟩ := hstep.moved hmemory hcarried
      exact ⟨hcarried', Flow.addressed hmode haddressed hflow⟩
  exact hboth.2

/-- A bridge in which a callback is unambiguous: no two transactions on their way to the
memory system or taken by it have the same address, and the callbacks for some that were
taken complete these, in that order, and leave the others. -/
structure Unambiguous (b : Bridge.State) : Prop where
  distinct : ((Bridge.queued b).map (·.address)).Nodup
  exact : ∀ picks : List Payload, (picks : Multiset Payload) ≤ Bridge.accepted b →
    (Bridge.callBacks b (picks.map Bridge.callOf)).outgoingQueue = b.outgoingQueue ++ picks ∧
      Bridge.accepted b = picks + Bridge.accepted (Bridge.callBacks b (picks.map Bridge.callOf))

theorem unambiguous_of_distinct {b : Bridge.State} (ho : Bridge.Ordered b) (hd : Bridge.Distinct b) :
    Unambiguous b :=
  ⟨hd, fun _ hpicks => Bridge.callBacks_exact ho.keyed hd hpicks⟩

/-- **Completion by address is unambiguous.** In every run of a detailed replay, as long as
`next_address` has not passed 2^64, in both bridges. -/
theorem completions_unambiguous {c : Configurations} (hmode : c.syntheticNpu.fastLayerMode = false)
    (models : Models) {controls : List TraceGenerator.SpeculativeControl} {s : State}
    (h : Reachable (Config.of c models) controls s)
    (hroom : 0x10000000 + (max 1 c.dramReqSize).toNat * s.npu.issued ≤ 2 ^ 64) :
    Unambiguous s.mem.bridge ∧ Unambiguous s.pim.bridge := by
  have haddressed : Addressed (Config.of c models) s := Reachable.addressed rfl hmode h hroom
  have hbridged := h.bridged
  obtain ⟨hmem, hpim⟩ := queued_le_traffic hbridged
  constructor
  · refine unambiguous_of_distinct hbridged.1 ?_
    exact Multiset.nodup_of_le (Multiset.map_le_map hmem) haddressed.nodup
  · refine unambiguous_of_distinct hbridged.2 ?_
    exact Multiset.nodup_of_le (Multiset.map_le_map hpim) haddressed.nodup

/-- The projection in detail: two requests of 32 bytes. -/
def detailedProjection : Configurations := {fastProjection with
  syntheticNpu := {fastProjection.syntheticNpu with fastLayerMode := false}
  syntheticPim := {fastProjection.syntheticPim with fastLayerMode := false}
  dramReqSize := 32}

/-- Both requests of the NPU are taken by the DRAM. -/
def twoTaken : List Process :=
  [.host, .hostNegedge, .npuPeqFw, .npuStart, .arbiterPeqFw, .arbiterPeqFw, .arbiterNegedge,
    .arbiterNegedge, .memPeq, .memPeq, .memPosedge, .memPosedge,
    .memIterate {accepts := fun _ => true}, .memIterate {accepts := fun _ => true}]

/-- Two reads are taken, and `next_address` is far from its end. -/
def readsTaken (s : State) : Bool :=
  s.mem.bridge.readDone.length == 2 && decide (0x10000000 + 32 * s.npu.issued ≤ 2 ^ 64)

def takenSeen : Bool :=
  match TraceGenerator.loadSpeculativeControlTrace detailedProjection.speculative
    [TraceGenerator.warmRecord 1 10 11] with
  | .error _ => false
  | .ok controls => (run (Config.of detailedProjection idleModels) {host := {controls := controls}}
      twoTaken).any readsTaken

theorem completions_unambiguous_twoTaken : ∃ controls s,
    Reachable (Config.of detailedProjection idleModels) controls s ∧
    s.mem.bridge.readDone.length = 2 ∧ Unambiguous s.mem.bridge ∧ Unambiguous s.pim.bridge := by
  have hseen : takenSeen = true := by decide +kernel
  unfold takenSeen at hseen
  split at hseen
  · cases hseen
  · next controls _ =>
    obtain ⟨s, hs, htaken⟩ := (Option.any_eq_true _ _).mp hseen
    have hreach := reachable_of_run hs
    simp only [readsTaken, Bool.and_eq_true, beq_iff_eq, decide_eq_true_eq] at htaken
    exact ⟨controls, s, hreach, htaken.1, completions_unambiguous rfl idleModels hreach htaken.2⟩

end System

end Hsim
