import Hsim.NpuIssue
import Hsim.TrafficMemory

/-! The NPU's requests in transit, whatever the modes.

The staged barrier needs both memory modules to agree with the actors on the
mode. Where a request is does not: in every accepted configuration a request
sent is somewhere on its way to memory and back until the NPU counts its
response, and the response counter is the number of requests under way. -/
namespace Hsim

namespace System

/-- A transaction the host sends to a memory module. -/
def IsCommand (t : Payload) : Prop := t.isPim = true ∧ t.dstId = .pim

theorem IsCommand.notFromNpu {t : Payload} (h : IsCommand t) : ¬ t.FromNpu := by
  intro hnpu
  rw [IsCommand, hnpu.isPim] at h
  exact absurd h.1 (by simp)

theorem IsLaunch.notFromNpu {t : Payload} (h : IsLaunch t) : ¬ t.FromNpu := by
  rintro ⟨-, hcommand⟩
  rw [IsLaunch] at h
  rcases hcommand with hcommand | hcommand <;> simp [hcommand] at h

/-- A transaction on its way to a memory module, in any mode. -/
def Config.Sent (cfg : Config) (t : Payload) : Prop := IsCommand t ∨ cfg.npu.Request t

theorem Config.Sent.request {cfg : Config} {t : Payload} (h : cfg.Sent t) (hpim : t.isPim = false) :
    cfg.npu.Request t := by
  rcases h with h | h
  · rw [h.1] at hpim
    exact absurd hpim (by simp)
  · exact h

/-- Where the requests are. -/
structure Carried (cfg : Config) (s : State) : Prop where
  pendingQ : ∀ t ∈ s.host.pendingQ, IsCommand t ∨ IsLaunch t
  launches : ∀ t ∈ s.npu.peqFw, IsLaunch t
  npu : NpuTraceReplayer.Inv cfg.npu s.npu
  stocked : NpuTraceReplayer.Stocked cfg.npu s.npu
  peqFw : ∀ t ∈ s.arbiter.peqFw, cfg.Sent t
  fwQueue : ∀ e ∈ s.arbiter.fwQueue, cfg.Sent e.1 ∧ e.2 = Arbiter.targetIndex cfg.dramEnabled e.1
  peqBw : ∀ t ∈ s.arbiter.peqBw, t.srcId = .npu
  bwQueue : ∀ e ∈ s.arbiter.bwQueue, e.2 = 1
  memPeq : ∀ t ∈ s.memPeq, t.FromNpu
  mem : MemWrapper.Carries s.mem
  pimPeq : ∀ t ∈ s.pimPeq, cfg.Sent t
  pim : ∀ t ∈ PimWrapper.inside s.pim false, t.FromNpu
  /-- An error report can lose a request; it also ends the simulation. -/
  pending : s.failed = false → (traffic s).card = s.npu.pendingResponses.toNat

theorem carried_initial (cfg : Config) {controls : List TraceGenerator.SpeculativeControl} {s : State}
    (h : Initial controls s) : Carried cfg s := by
  have hwired := wired_initial cfg h
  have hpim := hwired.pimHeld
  rw [PimWrapper.memoryHeld_eq] at hpim
  subst h
  exact ⟨by simp, by simp, hwired.npu, NpuTraceReplayer.stocked_initial _, by simp, by simp, by simp,
    by simp, by simp, MemWrapper.carries_initial, by simp, hpim, fun _ => hwired.pending⟩

/-- The NPU's account of what it has sent is the same. -/
structure SameAccount (a b : NpuTraceReplayer.State) : Prop where
  thread : b.thread = a.thread
  nextAddress : b.nextAddress = a.nextAddress
  pending : b.pendingResponses = a.pendingResponses
  issued : b.issued = a.issued

/-- Calls that are not about the NPU's requests. -/
structure Apart (effects : List Effect) : Prop where
  requests : ∀ t ∈ requestsOf effects, ¬ t.FromNpu
  releases : releasesOf effects = []

theorem apart_of_local {effects : List Effect} (h : Local effects) : Apart effects :=
  ⟨by simp [h.silent.requests], h.releases⟩

/-- What a step does to the traffic. -/
inductive Flow (cfg : Config) (s s' : State) : Prop where
  /-- Requests move on, or nothing happens to them. -/
  | aside (effects : List Effect) (hlog : s'.log = s.log ++ effects) (hapart : Apart effects)
    (hnpu : SameAccount s.npu s'.npu) (htraffic : traffic s' = traffic s)
  /-- A socket that is not bound ends the simulation. -/
  | lost (hlog : s'.log = s.log) (hfailed : s'.failed = true) (hnpu : s'.npu = s.npu)
    (htraffic : traffic s' ≤ traffic s)
  /-- The replay thread runs to its next wait. -/
  | ran (effects : List Effect) (bodies : List Payload)
    (hpending : s'.npu.pendingResponses.toNat =
      s.npu.pendingResponses.toNat + (requestsOf effects).length)
    (hsends : NpuTraceReplayer.Sends cfg.npu s.npu s'.npu effects bodies)
    (hlog : s'.log = s.log ++ effects) (hreleases : releasesOf effects = [])
    (htraffic : traffic s' = traffic s + requestsOf effects)
  /-- A response is counted. -/
  | answered (t : Payload) (hissued : s'.npu.issued = s.npu.issued)
    (haddress : s'.npu.nextAddress = s.npu.nextAddress)
    (hpending : s.npu.pendingResponses.toNat = s'.npu.pendingResponses.toNat + 1)
    (hlog : s'.log = s.log ++ [.release t]) (htraffic : traffic s = t ::ₘ traffic s')

/-- A step without a call. -/
theorem Flow.still {cfg : Config} {s s' : State} (hlog : s'.log = s.log)
    (hnpu : SameAccount s.npu s'.npu) (htraffic : traffic s' = traffic s) : Flow cfg s s' :=
  .aside [] (hlog.trans (List.append_nil _).symm) (apart_of_local (by simp [Local])) hnpu htraffic

/-- A step by what it does to the requests. -/
def Moved (cfg : Config) (s s' : State) : Prop := Carried cfg s' ∧ Flow cfg s s'

section
variable {cfg : Config} {s : State} (h : Carried cfg s)
include h

/-- A process that moves traffic inside the DRAM module. -/
theorem mem_moved {mem : MemWrapper.State} {effects : List Effect}
    (hk : MemWrapper.Moves s.mem mem effects) :
    Moved cfg s (performAll {s with mem := mem} effects) := by
  rw [performAll_silent _ hk.locals.silent]
  have htraffic : traffic {s with mem := mem} = traffic s := by
    simp only [traffic, hk.held]
  exact ⟨⟨h.pendingQ, h.launches, h.npu, h.stocked, h.peqFw, h.fwQueue, h.peqBw, h.bwQueue, h.memPeq,
    hk.carries, h.pimPeq, h.pim, fun hrun => (congrArg Multiset.card htraffic).trans (h.pending hrun)⟩,
    .aside effects rfl (apart_of_local hk.locals) ⟨rfl, rfl, rfl, rfl⟩ htraffic⟩

theorem memPeq_moved {t : Payload} {rest : List Payload} (hq : s.memPeq = t :: rest) :
    Moved cfg s (runMem (MemWrapper.peqCb s.now t) {s with memPeq := rest}) := by
  obtain ⟨ht, hrest⟩ := List.forall_mem_cons.mp (hq ▸ h.memPeq)
  obtain ⟨hcarries, hheld, hlocal⟩ := MemWrapper.peqCb_arrives h.mem s.now ht
  rw [runMem, performAll_silent _ hlocal.silent]
  have htraffic := traffic_memPeq hq hheld
  exact ⟨⟨h.pendingQ, h.launches, h.npu, h.stocked, h.peqFw, h.fwQueue, h.peqBw, h.bwQueue, hrest,
    hcarries, h.pimPeq, h.pim, fun hrun => (congrArg Multiset.card htraffic).trans (h.pending hrun)⟩,
    .aside _ rfl (apart_of_local hlocal) ⟨rfl, rfl, rfl, rfl⟩ htraffic⟩

/-- A memory module answers a request of the NPU. -/
theorem respond_moved {t : Payload} {mem : MemWrapper.State} {pim : PimWrapper.State}
    (ht : t.srcId = .npu) (hmem : MemWrapper.Carries mem)
    (hpim : ∀ t ∈ PimWrapper.inside pim false, t.FromNpu)
    (htraffic : traffic {s with
      mem := mem
      pim := pim
      arbiter := {s.arbiter with peqBw := s.arbiter.peqBw ++ [t]}} = traffic s) :
    Moved cfg s (performAll {s with
      mem := mem
      pim := pim} [.respond t 0]) := by
  have hback : ∀ t' ∈ s.arbiter.peqBw ++ [t], t'.srcId = .npu :=
    List.forall_mem_append.mpr ⟨h.peqBw, List.forall_mem_singleton.mpr ht⟩
  exact ⟨⟨h.pendingQ, h.launches, h.npu, h.stocked, h.peqFw, h.fwQueue, hback, h.bwQueue, h.memPeq,
    hmem, h.pimPeq, hpim, fun hrun => (congrArg Multiset.card htraffic).trans (h.pending hrun)⟩,
    .aside [.respond t 0] rfl ⟨by simp [requestsOf], rfl⟩ ⟨rfl, rfl, rfl, rfl⟩ htraffic⟩

theorem memNegedge_moved : Moved cfg s (runMem MemWrapper.clockNegedge s) := by
  rcases MemWrapper.clockNegedge_answers h.mem with hidle | ⟨t, heffects, hheld, hcarries⟩
  · rw [runMem, hidle]
    exact mem_moved h ⟨h.mem, rfl, by simp [Local]⟩
  · have ht : t.srcId = .npu := by
      refine (h.mem.traffic t ?_).1
      rw [hheld]
      exact Multiset.mem_cons_self t _
    rw [runMem, heffects]
    exact respond_moved h ht hcarries h.pim (traffic_memRespond hheld)

/-- A process that moves transactions inside the PIM module. -/
theorem pim_moved {pim : PimWrapper.State} {effects : List Effect}
    (hk : PimWrapper.Moves s.pim pim effects) :
    Moved cfg s (performAll {s with pim := pim} effects) := by
  rw [performAll_silent _ hk.locals.silent]
  have htraffic : traffic {s with pim := pim} = traffic s := by
    simp only [traffic, PimWrapper.memoryHeld_eq, hk.inside]
  exact ⟨⟨h.pendingQ, h.launches, h.npu, h.stocked, h.peqFw, h.fwQueue, h.peqBw, h.bwQueue, h.memPeq,
    h.mem, h.pimPeq, hk.inside false ▸ h.pim,
    fun hrun => (congrArg Multiset.card htraffic).trans (h.pending hrun)⟩,
    .aside effects rfl (apart_of_local hk.locals) ⟨rfl, rfl, rfl, rfl⟩ htraffic⟩

theorem pimPeq_moved {t : Payload} {rest : List Payload} (hq : s.pimPeq = t :: rest) :
    Moved cfg s (runPim (PimWrapper.peqCb s.now t) {s with pimPeq := rest}) := by
  obtain ⟨ht, hrest⟩ := List.forall_mem_cons.mp (hq ▸ h.pimPeq)
  have hlocal : Local (PimWrapper.peqCb s.now t s.pim).2 := by
    simp [Local, PimWrapper.peqCb, Effect.isLocal]
  have hheld := PimWrapper.peqCb_inside s.now t s.pim false
  have htraffic := traffic_pimPeq hq hheld
  rw [runPim, performAll_silent _ hlocal.silent]
  refine ⟨⟨h.pendingQ, h.launches, h.npu, h.stocked, h.peqFw, h.fwQueue, h.peqBw, h.bwQueue, h.memPeq,
    h.mem, hrest, fun t' ht' => ?_,
    fun hrun => (congrArg Multiset.card htraffic).trans (h.pending hrun)⟩,
    .aside _ rfl (apart_of_local hlocal) ⟨rfl, rfl, rfl, rfl⟩ htraffic⟩
  rw [hheld] at ht'
  rcases Multiset.mem_add.mp ht' with ht' | ht'
  · exact h.pim t' ht'
  · rw [Multiset.mem_coe, List.mem_filter, List.mem_singleton] at ht'
    obtain ⟨rfl, hpim⟩ := ht'
    exact (ht.request (by simpa using hpim)).fromNpu

theorem pimPosedge_moved : Moved cfg s (runPim (PimWrapper.clockPosedge cfg.pim s.now) s) := by
  rcases PimWrapper.clockPosedge_answers cfg.pim s.now (fun t ht => (h.pim t ht).1) with
    hidle | ⟨t, heffects, hheld, -⟩
  · rw [runPim, hidle]
    exact pim_moved h ⟨fun _ => rfl, by simp [Local]⟩
  · have hfrom : ∀ t' ∈ t ::ₘ PimWrapper.inside (PimWrapper.clockPosedge cfg.pim s.now s.pim).1 false,
        t'.FromNpu := hheld ▸ h.pim
    rw [runPim, heffects]
    exact respond_moved h (hfrom t (Multiset.mem_cons_self t _)).1 h.mem
      (fun t' ht' => hfrom t' (Multiset.mem_cons_of_mem ht')) (traffic_pimRespond hheld)

theorem pimNegedge_moved : Moved cfg s (pimNegedge cfg s) := by
  have hsame : PimWrapper.inside (PimWrapper.clockNegedge cfg.pim s.now s.pim).1 false =
      PimWrapper.inside s.pim false := by
    rcases PimWrapper.clockNegedge_serves cfg.pim s.now s.pim with
      ⟨-, hidle⟩ | ⟨t, rest, effects, -, -, -, -, hheld⟩
    · rw [hidle]
    · exact hheld
  obtain ⟨hrequests, hresponses, hreleases, -⟩ := clockNegedge_quiet cfg.pim s.now s.pim
  rw [pimNegedge, runPim, performAll_eq, hrequests, hresponses]
  simp only [List.filter_nil, List.append_nil]
  have htraffic : traffic {s with pim := (PimWrapper.clockNegedge cfg.pim s.now s.pim).1} =
      traffic s := by
    simp only [traffic, PimWrapper.memoryHeld_eq, hsame]
  exact ⟨⟨h.pendingQ, h.launches, h.npu, h.stocked, h.peqFw, h.fwQueue, h.peqBw, h.bwQueue, h.memPeq,
    h.mem, h.pimPeq, hsame ▸ h.pim,
    fun hrun => (congrArg Multiset.card htraffic).trans (h.pending hrun)⟩,
    .aside _ rfl ⟨by simp [hrequests], hreleases⟩ ⟨rfl, rfl, rfl, rfl⟩ htraffic⟩

/-! ### The arbiter's steps -/

theorem arbiterPeqFw_moved {t : Payload} {rest : List Payload} (hq : s.arbiter.peqFw = t :: rest) :
    Moved cfg s {s with
      arbiter := Arbiter.peqFwCb cfg.dramEnabled t {s.arbiter with peqFw := rest}} := by
  obtain ⟨ht, hrest⟩ := List.forall_mem_cons.mp (hq ▸ h.peqFw)
  have hfw : ∀ e ∈ s.arbiter.fwQueue ++ [(t, Arbiter.targetIndex cfg.dramEnabled t)],
      cfg.Sent e.1 ∧ e.2 = Arbiter.targetIndex cfg.dramEnabled e.1 :=
    List.forall_mem_append.mpr ⟨h.fwQueue, List.forall_mem_singleton.mpr ⟨ht, rfl⟩⟩
  have htraffic := traffic_arbiterPeqFw hq cfg.dramEnabled
  exact ⟨⟨h.pendingQ, h.launches, h.npu, h.stocked, hrest, hfw, h.peqBw, h.bwQueue, h.memPeq, h.mem,
    h.pimPeq, h.pim, fun hrun => (congrArg Multiset.card htraffic).trans (h.pending hrun)⟩,
    .still rfl ⟨rfl, rfl, rfl, rfl⟩ htraffic⟩

/-- The front of the arbiter's queue reaches the module bound to its socket, or no module. -/
theorem arbiterNegedge_moved {t : Payload} {index : Nat} {rest : List (Payload × Nat)}
    (hq : s.arbiter.fwQueue = (t, index) :: rest) :
    Moved cfg s (deliverFw cfg t index {s with arbiter := {s.arbiter with fwQueue := rest}}) := by
  obtain ⟨⟨ht, hindex⟩, hrest⟩ := List.forall_mem_cons.mp (hq ▸ h.fwQueue)
  dsimp only at ht hindex
  have htoPim : Moved cfg s {s with
      arbiter := {s.arbiter with fwQueue := rest}
      pimPeq := s.pimPeq ++ [t]} := by
    have htraffic := traffic_forwardPim hq
    exact ⟨⟨h.pendingQ, h.launches, h.npu, h.stocked, h.peqFw, hrest, h.peqBw, h.bwQueue, h.memPeq,
      h.mem, List.forall_mem_append.mpr ⟨h.pimPeq, List.forall_mem_singleton.mpr ht⟩, h.pim,
      fun hrun => (congrArg Multiset.card htraffic).trans (h.pending hrun)⟩,
      .still rfl ⟨rfl, rfl, rfl, rfl⟩ htraffic⟩
  have htoMem (hrequest : cfg.npu.Request t) : Moved cfg s {s with
      arbiter := {s.arbiter with fwQueue := rest}
      memPeq := s.memPeq ++ [t]} := by
    have htraffic := traffic_forwardMem hq hrequest.fromNpu.isPim
    exact ⟨⟨h.pendingQ, h.launches, h.npu, h.stocked, h.peqFw, hrest, h.peqBw, h.bwQueue,
      List.forall_mem_append.mpr ⟨h.memPeq, List.forall_mem_singleton.mpr hrequest.fromNpu⟩, h.mem,
      h.pimPeq, h.pim, fun hrun => (congrArg Multiset.card htraffic).trans (h.pending hrun)⟩,
      .still rfl ⟨rfl, rfl, rfl, rfl⟩ htraffic⟩
  have htoNone : Moved cfg s {s with
      arbiter := {s.arbiter with fwQueue := rest}
      failed := true} := by
    refine ⟨⟨h.pendingQ, h.launches, h.npu, h.stocked, h.peqFw, hrest, h.peqBw, h.bwQueue, h.memPeq,
      h.mem, h.pimPeq, h.pim, by simp⟩, .lost rfl rfl rfl ?_⟩
    rw [traffic_forward hq]
    exact Multiset.le_add_right _ _
  unfold deliverFw
  split
  · next hdram =>
    -- only a request of the NPU names the DRAM
    refine htoMem (ht.resolve_left fun hcommand => ?_)
    rw [hindex] at hdram
    cases hd : cfg.dramEnabled <;> cases hp : cfg.pimEnabled <;>
      simp [Config.targets, Arbiter.targetIndex, hd, hp, hcommand.2] at hdram
  · exact htoPim
  · exact htoNone

theorem arbiterPeqBw_moved {t : Payload} {rest : List Payload} (hq : s.arbiter.peqBw = t :: rest) :
    Moved cfg s {s with arbiter := Arbiter.peqBwCb t {s.arbiter with peqBw := rest}} := by
  obtain ⟨ht, hrest⟩ := List.forall_mem_cons.mp (hq ▸ h.peqBw)
  rw [peqBwCb_npu ht]
  have hbw : ∀ e ∈ s.arbiter.bwQueue ++ [(t, 1)], e.2 = 1 :=
    List.forall_mem_append.mpr ⟨h.bwQueue, List.forall_mem_singleton.mpr rfl⟩
  have htraffic := traffic_arbiterPeqBw hq 1
  exact ⟨⟨h.pendingQ, h.launches, h.npu, h.stocked, h.peqFw, h.fwQueue, hrest, hbw, h.memPeq, h.mem,
    h.pimPeq, h.pim, fun hrun => (congrArg Multiset.card htraffic).trans (h.pending hrun)⟩,
    .still rfl ⟨rfl, rfl, rfl, rfl⟩ htraffic⟩

theorem arbiterPosedge_moved {t : Payload} {index : Nat} {rest : List (Payload × Nat)}
    (hq : s.arbiter.bwQueue = (t, index) :: rest) :
    Moved cfg s (deliverBw t index {s with arbiter := {s.arbiter with bwQueue := rest}}) := by
  obtain ⟨hindex, hrest⟩ := List.forall_mem_cons.mp (hq ▸ h.bwQueue)
  dsimp only at hindex
  subst hindex
  have htraffic := traffic_deliverBw hq
  exact ⟨⟨h.pendingQ, h.launches, ⟨h.npu.settled, h.npu.room, h.npu.requests, h.npu.script⟩,
    ⟨h.stocked.unsent, h.stocked.script⟩, h.peqFw, h.fwQueue, h.peqBw, hrest, h.memPeq, h.mem,
    h.pimPeq, h.pim, fun hrun => (congrArg Multiset.card htraffic).trans (h.pending hrun)⟩,
    .still rfl ⟨rfl, rfl, rfl, rfl⟩ htraffic⟩

/-! ### The NPU's steps -/

theorem npuPeqFw_moved {t : Payload} {rest : List Payload} (hq : s.npu.peqFw = t :: rest) :
    Moved cfg s {s with npu := NpuTraceReplayer.peqFwCb t {s.npu with peqFw := rest}} := by
  obtain ⟨ht, hrest⟩ := List.forall_mem_cons.mp (hq ▸ h.launches)
  rw [NpuTraceReplayer.peqFwCb, if_pos ht.1]
  exact ⟨⟨h.pendingQ, hrest, ⟨h.npu.settled, h.npu.room, h.npu.requests, h.npu.script⟩,
    ⟨h.stocked.unsent, h.stocked.script⟩, h.peqFw, h.fwQueue, h.peqBw, h.bwQueue, h.memPeq, h.mem,
    h.pimPeq, h.pim, h.pending⟩, .still rfl ⟨rfl, rfl, rfl, rfl⟩ rfl⟩

/-- The replay thread runs, and its requests go to the arbiter. -/
theorem npu_moved (hmemory : cfg.npu.memory = if cfg.dramEnabled then .dram else .pim)
    (hrun : s.failed = false) {npu₀ npu : NpuTraceReplayer.State} {effects : List Effect}
    {bodies : List Payload} (hran : NpuTraceReplayer.Ran cfg.npu npu₀ npu effects)
    (hsends : NpuTraceReplayer.Sends cfg.npu s.npu npu effects bodies)
    (hfw : npu₀.peqFw = s.npu.peqFw) (hbw : npu₀.peqBw = s.npu.peqBw)
    (hpending : npu₀.pendingResponses = s.npu.pendingResponses) :
    Moved cfg s (performAll {s with npu := npu} effects) := by
  rw [performAll_ran s hran hmemory]
  have htraffic := traffic_ran hran hbw
  have hcount : npu.pendingResponses.toNat =
      s.npu.pendingResponses.toNat + (requestsOf effects).length := by
    rw [hran.pending, hpending]
  have hpeqFw : ∀ t ∈ s.arbiter.peqFw ++ requestsOf effects, cfg.Sent t :=
    List.forall_mem_append.mpr ⟨h.peqFw, fun t ht => .inr (hran.sent t ht).1⟩
  refine ⟨⟨h.pendingQ, ?_, ⟨hran.inv.settled, hran.inv.room, hran.inv.requests, hran.inv.script⟩,
    ⟨hsends.stocked.unsent, hsends.stocked.script⟩, hpeqFw, h.fwQueue, h.peqBw, h.bwQueue, h.memPeq,
    h.mem, h.pimPeq, h.pim, fun _ => ?_⟩, .ran effects bodies hcount
    ⟨⟨hsends.stocked.unsent, hsends.stocked.script⟩, hsends.drawn, hsends.requests, hsends.issued,
      hsends.nextAddress⟩ rfl hran.releases htraffic⟩
  · show ∀ t ∈ npu.peqFw, IsLaunch t
    rw [hran.peqFw, hfw]
    exact h.launches
  · refine (congrArg Multiset.card htraffic).trans ?_
    rw [Multiset.card_add, h.pending hrun, Multiset.coe_card, hcount]

theorem npuPeqBw_moved (hrun : s.failed = false) {t : Payload} {rest : List Payload}
    (hq : s.npu.peqBw = t :: rest) :
    Moved cfg s
      (runNpu (NpuTraceReplayer.peqBwCb t) {s with npu := {s.npu with peqBw := rest}}) := by
  have htraffic := traffic_npuPeqBw hq
  have hcard := h.pending hrun
  rw [htraffic, Multiset.card_cons] at hcard
  have hsub := Lib.toNat_pred (n := s.npu.pendingResponses) (by omega)
  have hroom := h.npu.room
  refine ⟨⟨h.pendingQ, h.launches, ⟨fun hidle => ?_, ?_, h.npu.requests, h.npu.script⟩,
    ⟨h.stocked.unsent, h.stocked.script⟩, h.peqFw, h.fwQueue, h.peqBw, h.bwQueue, h.memPeq, h.mem,
    h.pimPeq, h.pim, fun _ => ?_⟩, .answered t rfl rfl ?_ rfl htraffic⟩
  · have hzero : s.npu.pendingResponses = 0 := h.npu.settled hidle
    rw [hzero] at hcard
    exact absurd hcard (by simp)
  · show (s.npu.pendingResponses - 1).toNat + s.npu.thread.unsent.length < _
    rw [hsub]
    omega
  · show (traffic {s with npu := {s.npu with peqBw := rest}}).card = (s.npu.pendingResponses - 1).toNat
    rw [hsub]
    omega
  · show s.npu.pendingResponses.toNat = (s.npu.pendingResponses - 1).toNat + 1
    rw [hsub]
    omega

/-! ### The host's steps -/

/-- A step that changes what the NPU's requests do not see. -/
theorem host_moved {host : Host.State} {effects : List Effect} (served : List Payload)
    (hlocal : Local effects) (hpendingQ : ∀ t ∈ host.pendingQ, IsCommand t ∨ IsLaunch t) :
    Moved cfg s (performAll {s with host := host, served := served} effects) := by
  rw [performAll_silent _ hlocal.silent]
  exact ⟨⟨hpendingQ, h.launches, h.npu, h.stocked, h.peqFw, h.fwQueue, h.peqBw, h.bwQueue, h.memPeq,
    h.mem, h.pimPeq, h.pim, h.pending⟩,
    .aside effects rfl (apart_of_local hlocal) ⟨rfl, rfl, rfl, rfl⟩ rfl⟩

omit h in
/-- What a stage adds to the host's queue. -/
theorem stamp_kinds {control : TraceGenerator.SpeculativeControl} {transactions : List Payload}
    (hemission : cfg.host.emission control = .ok transactions) (host : Host.State) :
    ∀ t ∈ Host.stamp cfg.hostAllocate host (Host.Config.launch control :: transactions),
      IsCommand t ∨ IsLaunch t := by
  intro t ht
  obtain ⟨i, hi, rfl⟩ := List.mem_mapIdx.mp ht
  cases i with
  | zero => exact .inr ⟨rfl, rfl⟩
  | succ i =>
    have hmem : (Host.Config.launch control :: transactions)[i + 1] ∈ transactions := by
      rw [List.getElem_cons_succ]
      exact List.getElem_mem _
    obtain ⟨hcommand, hdst⟩ := cfg.host.emission_command hemission _ hmem
    have hpim : Payload.isPim (Host.Config.launch control :: transactions)[i + 1] = true := by
      rw [Payload.isPim, hcommand]
      rfl
    exact .inl ⟨hpim, hdst⟩

omit h in
/-- An activation of the host thread is quiet, and its queue is extended by a stage or kept. -/
theorem processTrace_moves (cfg : Config) (now : Time) (activeDram : Bool) {host : Host.State}
    (hpendingQ : ∀ t ∈ host.pendingQ, IsCommand t ∨ IsLaunch t) :
    Local (Host.processTrace cfg.host cfg.hostAllocate now activeDram host).2 ∧
      ∀ t ∈ (Host.processTrace cfg.host cfg.hostAllocate now activeDram host).1.pendingQ,
        IsCommand t ∨ IsLaunch t := by
  unfold Host.processTrace
  split
  · split
    · next control rest _ =>
      unfold Host.launchStage
      split
      · exact ⟨by simp [Local, Effect.isLocal], hpendingQ⟩
      · next transactions hemission =>
        exact ⟨by simp [Local, Effect.isLocal],
          List.forall_mem_append.mpr ⟨hpendingQ, stamp_kinds hemission host⟩⟩
    · exact ⟨by simp [Local], hpendingQ⟩
  · exact ⟨by simp [Local, Effect.isLocal], hpendingQ⟩
  · exact ⟨by simp [Local], hpendingQ⟩
  · split <;> exact ⟨by simp [Local], hpendingQ⟩
  · exact ⟨by simp [Local], hpendingQ⟩

theorem hostNegedge_moved : Moved cfg s (hostNegedge s) := by
  cases hq : s.host.pendingQ with
  | nil =>
    rw [hostNegedge_idle hq]
    exact host_moved h s.served (by simp [Local]) h.pendingQ
  | cons t rest =>
    obtain ⟨ht, hrest⟩ := List.forall_mem_cons.mp (hq ▸ h.pendingQ)
    rcases ht with ht | ht
    · have hpeq : ∀ t' ∈ s.arbiter.peqFw ++ [t], cfg.Sent t' :=
        List.forall_mem_append.mpr ⟨h.peqFw, List.forall_mem_singleton.mpr (.inl ht)⟩
      have htraffic : traffic {s with
          host := {s.host with pendingQ := rest}
          arbiter := {s.arbiter with peqFw := s.arbiter.peqFw ++ [t]}} = traffic s := by
        simp [traffic, ht.1]
      rw [hostNegedge_command hq (by simp [ht.2])]
      exact ⟨⟨hrest, h.launches, h.npu, h.stocked, hpeq, h.fwQueue, h.peqBw, h.bwQueue, h.memPeq,
        h.mem, h.pimPeq, h.pim, fun hrun => (congrArg Multiset.card htraffic).trans (h.pending hrun)⟩,
        .aside [.request t] rfl ⟨by simpa [requestsOf] using ht.notFromNpu, rfl⟩
          ⟨rfl, rfl, rfl, rfl⟩ htraffic⟩
    · rw [hostNegedge_launch hq ht.2]
      exact ⟨⟨hrest, List.forall_mem_append.mpr ⟨h.launches, List.forall_mem_singleton.mpr ht⟩,
        ⟨h.npu.settled, h.npu.room, h.npu.requests, h.npu.script⟩,
        ⟨h.stocked.unsent, h.stocked.script⟩, h.peqFw, h.fwQueue, h.peqBw, h.bwQueue, h.memPeq, h.mem,
        h.pimPeq, h.pim, h.pending⟩,
        .aside [.request t] rfl ⟨by simpa [requestsOf] using ht.notFromNpu, rfl⟩
          ⟨rfl, rfl, rfl, rfl⟩ rfl⟩

/-- The barrier's events. -/
theorem note_moved {host : Host.State} (pimTraceDone npuTraceDone : Bool)
    (hqueue : host.pendingQ = s.host.pendingQ) :
    Moved cfg s {s with
      pimTraceDone := pimTraceDone
      npuTraceDone := npuTraceDone
      host := host} :=
  ⟨⟨hqueue ▸ h.pendingQ, h.launches, h.npu, h.stocked, h.peqFw, h.fwQueue, h.peqBw, h.bwQueue,
    h.memPeq, h.mem, h.pimPeq, h.pim, h.pending⟩, .still rfl ⟨rfl, rfl, rfl, rfl⟩ rfl⟩

end

/-- **Every step keeps track of the requests**, whatever the modes of the modules. -/
theorem Step.moved {cfg : Config} (hmemory : cfg.npu.memory = if cfg.dramEnabled then .dram else .pim)
    {s s' : State} (h : Carried cfg s) (hstep : Step cfg s s') : Moved cfg s s' := by
  obtain ⟨⟨hrun, -⟩, hm⟩ := hstep
  cases hm with
  | elapse d =>
    exact ⟨⟨h.pendingQ, h.launches, h.npu, h.stocked, h.peqFw, h.fwQueue, h.peqBw, h.bwQueue, h.memPeq,
      h.mem, h.pimPeq, h.pim, h.pending⟩, .still rfl ⟨rfl, rfl, rfl, rfl⟩ rfl⟩
  | host =>
    obtain ⟨hlocal, hpendingQ⟩ := processTrace_moves cfg s.now s.activeDram h.pendingQ
    exact host_moved h _ hlocal hpendingQ
  | hostNegedge => exact hostNegedge_moved h
  | pimTraceDone hdone =>
    refine note_moved h false s.npuTraceDone ?_
    unfold Host.notePim
    split <;> rfl
  | npuTraceDone hdone =>
    refine note_moved h s.pimTraceDone false ?_
    unfold Host.noteNpu
    split <;> rfl
  | arbiterPeqFw t rest hq => exact arbiterPeqFw_moved h hq
  | arbiterNegedge t index rest hq => exact arbiterNegedge_moved h hq
  | arbiterPeqBw t rest hq => exact arbiterPeqBw_moved h hq
  | arbiterPosedge t index rest hq => exact arbiterPosedge_moved h hq
  | npuPeqFw t rest hq => exact npuPeqFw_moved h hq
  | npuStart hstart =>
    obtain ⟨bodies, hsends⟩ := NpuTraceReplayer.startRun_sends h.stocked s.now
    exact npu_moved h hmemory hrun (NpuTraceReplayer.startRun_ran h.npu s.now) hsends rfl rfl rfl
  | npuCompute wake rest hthread =>
    obtain ⟨bodies, hsends⟩ := NpuTraceReplayer.endCompute_sends h.stocked s.now
    exact npu_moved h hmemory hrun (NpuTraceReplayer.endCompute_ran h.npu s.now) hsends rfl rfl rfl
  | npuPeqBw t rest hq => exact npuPeqBw_moved h hrun hq
  | npuResponse hevent =>
    obtain ⟨bodies, hsends⟩ := NpuTraceReplayer.onResponse_sends h.stocked s.now
    exact npu_moved h hmemory hrun (NpuTraceReplayer.onResponse_ran h.npu s.now) hsends rfl rfl rfl
  | memPeq t rest hq => exact memPeq_moved h hq
  | memIterate answers wake onEvent _ _ =>
    exact mem_moved h (MemWrapper.iterate_moves h.mem cfg.mem _ _)
  | memPosedge =>
    have hmoves := MemWrapper.clockPosedge_moves h.mem
    have hs := mem_moved h hmoves
    rw [performAll_silent _ hmoves.locals.silent] at hs
    simpa using hs
  | memNegedge => exact memNegedge_moved h
  | pimPeq t rest hq => exact pimPeq_moved h hq
  | pimIterate answers wake onEvent hthread _ =>
    exact pim_moved h (PimWrapper.iterate_moves hthread cfg.pim _ _)
  | pimResume answers t wake hthread =>
    exact pim_moved h (PimWrapper.resume_moves hthread cfg.pim _ _)
  | pimPosedge => exact pimPosedge_moved h
  | pimNegedge => exact pimNegedge_moved h

theorem Reachable.carried {cfg : Config}
    (hmemory : cfg.npu.memory = if cfg.dramEnabled then .dram else .pim)
    {controls : List TraceGenerator.SpeculativeControl} {s : State} (h : Reachable cfg controls s) :
    Carried cfg s :=
  h.invariant (P := Carried cfg) (fun _ => carried_initial cfg)
    fun _ _ hs hstep => (hstep.moved hmemory hs).1

/-! ### The account of the NPU's requests -/

/-- The memory transactions the NPU has sent. -/
def issuedByNpu (log : List Effect) : List Payload := (requestsOf log).filter (·.FromNpu)

/-- Those it has processed the response of: `complete_memory_response` gives the payload back. -/
def answeredToNpu (log : List Effect) : List Payload := (releasesOf log).filter (·.FromNpu)

theorem issuedByNpu_append (a b : List Effect) :
    issuedByNpu (a ++ b) = issuedByNpu a ++ issuedByNpu b := by
  rw [issuedByNpu, requestsOf_append, List.filter_append]
  rfl

theorem answeredToNpu_append (a b : List Effect) :
    answeredToNpu (a ++ b) = answeredToNpu a ++ answeredToNpu b := by
  rw [answeredToNpu, releasesOf_append, List.filter_append]
  rfl

/-- What an activation of the replay thread sends comes from the NPU. -/
theorem Sends.fromNpu {cfg : NpuTraceReplayer.Config} {npu npu' : NpuTraceReplayer.State}
    {effects : List Effect} {bodies : List Payload}
    (h : NpuTraceReplayer.Sends cfg npu npu' effects bodies) : ∀ t ∈ requestsOf effects, t.FromNpu := by
  intro t ht
  rw [h.requests] at ht
  obtain ⟨body, hbody, i, a, rfl⟩ := NpuTraceReplayer.mem_numbered cfg ht
  exact (h.drawn body hbody).request.fromNpu

/-- What is under way comes from the NPU, is no more than the counter says, and the
counter is the number of transactions sent and not processed. -/
structure Accounted (s : State) : Prop where
  fromNpu : ∀ t ∈ traffic s, t.FromNpu
  under : (traffic s).card ≤ s.npu.pendingResponses.toNat
  pending : s.npu.pendingResponses.toNat + (answeredToNpu s.log).length = (issuedByNpu s.log).length
  conserved : (answeredToNpu s.log : Multiset Payload) + traffic s ≤ issuedByNpu s.log

theorem accounted_initial {controls : List TraceGenerator.SpeculativeControl} {s : State}
    (h : Initial controls s) : Accounted s := by
  have hnone : traffic s = 0 := by
    subst h
    simp [traffic, MemWrapper.held, MemWrapper.sent, PimWrapper.memoryHeld,
      PimWrapper.State.inFlight, PimWrapper.waiting, PimWrapper.State.completedQueue,
      PimWrapper.State.fastCompletedQueue]
  refine ⟨by simp [hnone], by simp [hnone], ?_, ?_⟩
  · subst h
    rfl
  · rw [hnone]
    subst h
    exact le_rfl

theorem Flow.accounted {cfg : Config} {s s' : State} (h : Accounted s) (hm : Flow cfg s s') :
    Accounted s' := by
  have hpending := h.pending
  have hunder := h.under
  have hconserved := h.conserved
  cases hm with
  | aside effects hlog hapart hnpu htraffic =>
    have hrequests : issuedByNpu effects = [] := by
      simpa [issuedByNpu, List.filter_eq_nil_iff] using hapart.requests
    have hreleases : answeredToNpu effects = [] := by
      rw [answeredToNpu, hapart.releases, List.filter_nil]
    have hissued : issuedByNpu s'.log = issuedByNpu s.log := by
      rw [hlog, issuedByNpu_append, hrequests, List.append_nil]
    have hanswered : answeredToNpu s'.log = answeredToNpu s.log := by
      rw [hlog, answeredToNpu_append, hreleases, List.append_nil]
    refine ⟨htraffic ▸ h.fromNpu, ?_, ?_, ?_⟩
    · rw [htraffic, hnpu.pending]
      exact hunder
    · rw [hnpu.pending, hissued, hanswered]
      exact hpending
    · rw [htraffic, hissued, hanswered]
      exact hconserved
  | lost hlog _ hnpu htraffic =>
    refine ⟨fun t ht => h.fromNpu t (Multiset.mem_of_le htraffic ht), ?_, ?_, ?_⟩
    · rw [hnpu]
      exact (Multiset.card_le_card htraffic).trans hunder
    · rw [hnpu, hlog]
      exact hpending
    · rw [hlog]
      exact (add_le_add le_rfl htraffic).trans hconserved
  | ran effects bodies hcount hsends hlog hreleases htraffic =>
    have hsent := Sends.fromNpu hsends
    have hrequests : issuedByNpu effects = requestsOf effects := by
      simpa [issuedByNpu, List.filter_eq_self] using hsent
    have hissued : issuedByNpu s'.log = issuedByNpu s.log ++ requestsOf effects := by
      rw [hlog, issuedByNpu_append, hrequests]
    have hanswered : answeredToNpu s'.log = answeredToNpu s.log := by
      rw [hlog, answeredToNpu_append, answeredToNpu, answeredToNpu, hreleases, List.filter_nil,
        List.append_nil]
    refine ⟨fun t ht => ?_, ?_, ?_, ?_⟩
    · rw [htraffic] at ht
      rcases Multiset.mem_add.mp ht with ht | ht
      · exact h.fromNpu t ht
      · exact hsent t ht
    · rw [htraffic, hcount, Multiset.card_add, Multiset.coe_card]
      omega
    · rw [hcount, hissued, hanswered, List.length_append]
      omega
    · rw [htraffic, hissued, hanswered, ← Multiset.coe_add, ← add_assoc]
      exact add_le_add hconserved le_rfl
  | answered t _ _ hcount hlog htraffic =>
    have hfrom := h.fromNpu
    rw [htraffic] at hfrom hunder hconserved
    have ht : t.FromNpu := hfrom t (Multiset.mem_cons_self t _)
    have hissued : issuedByNpu s'.log = issuedByNpu s.log := by
      rw [hlog, issuedByNpu_append]
      exact List.append_nil _
    have hanswered : answeredToNpu s'.log = answeredToNpu s.log ++ [t] := by
      have hone : answeredToNpu [.release t] = [t] := by simp [answeredToNpu, releasesOf, ht]
      rw [hlog, answeredToNpu_append, hone]
    refine ⟨fun u hu => hfrom u (Multiset.mem_cons_of_mem hu), ?_, ?_, ?_⟩
    · rw [Multiset.card_cons] at hunder
      omega
    · rw [hissued, hanswered, List.length_append, List.length_singleton]
      omega
    · rw [hissued, hanswered, ← Multiset.coe_add, Multiset.coe_singleton, add_assoc,
        Multiset.singleton_add]
      exact hconserved

/-- The transactions sent whose response has not been processed. -/
def unanswered (log : List Effect) : Multiset Payload := (issuedByNpu log : Multiset Payload) - answeredToNpu log

theorem Accounted.answered_le {s : State} (h : Accounted s) :
    (answeredToNpu s.log : Multiset Payload) ≤ issuedByNpu s.log :=
  le_trans (Multiset.le_add_right _ _) h.conserved

theorem Accounted.unanswered {s : State} (h : Accounted s) :
    s.npu.pendingResponses.toNat = (unanswered s.log).card := by
  have hpending := h.pending
  rw [System.unanswered, Multiset.card_sub h.answered_le, Multiset.coe_card, Multiset.coe_card]
  omega

theorem Accounted.traffic_le {s : State} (h : Accounted s) : traffic s ≤ System.unanswered s.log := by
  rw [System.unanswered]
  exact le_tsub_of_add_le_left h.conserved

/-- The calls of a step against what is not answered. -/
theorem unanswered_append {log effects : List Effect}
    (h : (answeredToNpu log : Multiset Payload) ≤ issuedByNpu log)
    (h' : (answeredToNpu (log ++ effects) : Multiset Payload) ≤ issuedByNpu (log ++ effects)) :
    System.unanswered (log ++ effects) + answeredToNpu effects =
      System.unanswered log + issuedByNpu effects := by
  obtain ⟨rest, hrest⟩ := Multiset.le_iff_exists_add.mp h
  obtain ⟨rest', hrest'⟩ := Multiset.le_iff_exists_add.mp h'
  have hold : System.unanswered log = rest := by
    rw [System.unanswered, hrest, add_tsub_cancel_left]
  have hnew : System.unanswered (log ++ effects) = rest' := by
    rw [System.unanswered, hrest', add_tsub_cancel_left]
  rw [hold, hnew]
  rw [issuedByNpu_append, answeredToNpu_append, ← Multiset.coe_add, ← Multiset.coe_add, hrest] at hrest'
  have hcancel : (answeredToNpu log : Multiset Payload) + (rest + issuedByNpu effects) =
      answeredToNpu log + (rest' + answeredToNpu effects) := by
    rw [← add_assoc, hrest']
    abel
  exact (add_left_cancel hcancel).symm

/-- A step gives back nothing, or the payload of the response it counts. -/
theorem Flow.releases {cfg : Config} {s s' : State} (h : Accounted s) (hm : Flow cfg s s') :
    ∃ effects, s'.log = s.log ++ effects ∧ (releasesOf effects = [] ∨
      ∃ t ∈ traffic s, releasesOf effects = [t] ∧ answeredToNpu effects = [t] ∧
        issuedByNpu effects = []) := by
  cases hm with
  | aside effects hlog hapart _ _ => exact ⟨effects, hlog, .inl hapart.releases⟩
  | lost hlog _ _ _ => exact ⟨[], by rw [hlog, List.append_nil], .inl rfl⟩
  | ran effects bodies _ _ hlog hreleases _ => exact ⟨effects, hlog, .inl hreleases⟩
  | answered t _ _ _ hlog htraffic =>
    have ht : t ∈ traffic s := by
      rw [htraffic]
      exact Multiset.mem_cons_self t _
    exact ⟨[.release t], hlog, .inr ⟨t, ht, rfl, by simp [answeredToNpu, releasesOf, h.fromNpu t ht],
      rfl⟩⟩

theorem Reachable.accounted {cfg : Config}
    (hmemory : cfg.npu.memory = if cfg.dramEnabled then .dram else .pim)
    {controls : List TraceGenerator.SpeculativeControl} {s : State} (h : Reachable cfg controls s) :
    Carried cfg s ∧ Accounted s :=
  h.invariant (P := fun s => Carried cfg s ∧ Accounted s)
    (fun _ hs => ⟨carried_initial cfg hs, accounted_initial hs⟩)
    fun _ _ hs hstep => ⟨(hstep.moved hmemory hs.1).1, (hstep.moved hmemory hs.1).2.accounted hs.2⟩

/-! ### The part of the replay thread -/

/-- A step in which the replay thread runs, or one that sends nothing for the NPU. -/
inductive NpuTurn (cfg : Config) (s s' : State) : Prop where
  | ran (process : Action NpuTraceReplayer.State)
    (hprocess : process = NpuTraceReplayer.startRun cfg.npu s.now ∨
      process = NpuTraceReplayer.endCompute cfg.npu s.now ∨
      process = NpuTraceReplayer.onResponse cfg.npu s.now)
    (hs : s' = runNpu process s)
  | still (hthread : s'.npu.thread = s.npu.thread) (hrun : s'.npu.runId = s.npu.runId)
    (effects : List Effect) (hlog : s'.log = s.log ++ effects) (hissued : issuedByNpu effects = [])

/-- A step in which the thread does not run. -/
theorem Flow.still_npu {cfg : Config} {s s' : State} (hm : Flow cfg s s')
    (h : s'.npu.thread = s.npu.thread ∧ s'.npu.runId = s.npu.runId ∧
      s'.npu.pendingResponses = s.npu.pendingResponses) : NpuTurn cfg s s' := by
  obtain ⟨hthread, hrun, hpending⟩ := h
  cases hm with
  | aside effects hlog hapart _ _ =>
    refine .still hthread hrun effects hlog ?_
    simpa [issuedByNpu, List.filter_eq_nil_iff] using hapart.requests
  | lost hlog _ _ _ => exact .still hthread hrun [] (hlog.trans (List.append_nil _).symm) rfl
  | ran effects bodies hcount _ hlog _ _ =>
    rw [hpending] at hcount
    have hlength : (requestsOf effects).length = 0 := by omega
    refine .still hthread hrun effects hlog ?_
    rw [issuedByNpu, List.length_eq_zero_iff.mp hlength, List.filter_nil]
  | answered t _ _ _ hlog _ => exact .still hthread hrun _ hlog rfl

theorem Step.npuTurn {cfg : Config} (hmemory : cfg.npu.memory = if cfg.dramEnabled then .dram else .pim)
    {s s' : State} (hc : Carried cfg s) (hstep : Step cfg s s') : NpuTurn cfg s s' := by
  have hflow := (hstep.moved hmemory hc).2
  have hcalls : ∀ (x : State) (effects : List Effect),
      (performAll x effects).npu.thread = x.npu.thread ∧
        (performAll x effects).npu.runId = x.npu.runId ∧
        (performAll x effects).npu.pendingResponses = x.npu.pendingResponses := by
    intro x effects
    rw [performAll_eq]
    exact ⟨rfl, rfl, rfl⟩
  cases hstep.2 with
  | npuStart _ => exact .ran _ (.inl rfl) rfl
  | npuCompute wake rest _ => exact .ran _ (.inr (.inl rfl)) rfl
  | npuResponse _ => exact .ran _ (.inr (.inr rfl)) rfl
  | npuPeqBw t rest hq => exact .still rfl rfl _ rfl rfl
  | npuPeqFw t rest hq =>
    refine hflow.still_npu ?_
    unfold NpuTraceReplayer.peqFwCb
    split <;> exact ⟨rfl, rfl, rfl⟩
  | arbiterNegedge t index rest hq =>
    refine hflow.still_npu ?_
    unfold deliverFw
    split <;> exact ⟨rfl, rfl, rfl⟩
  | arbiterPosedge t index rest hq =>
    refine hflow.still_npu ?_
    unfold deliverBw
    split <;> exact ⟨rfl, rfl, rfl⟩
  | elapse d => exact hflow.still_npu ⟨rfl, rfl, rfl⟩
  | pimTraceDone _ => exact hflow.still_npu ⟨rfl, rfl, rfl⟩
  | npuTraceDone _ => exact hflow.still_npu ⟨rfl, rfl, rfl⟩
  | arbiterPeqFw t rest hq => exact hflow.still_npu ⟨rfl, rfl, rfl⟩
  | arbiterPeqBw t rest hq => exact hflow.still_npu ⟨rfl, rfl, rfl⟩
  | memPosedge => exact hflow.still_npu ⟨rfl, rfl, rfl⟩
  | _ => exact hflow.still_npu (hcalls _ _)

end System

end Hsim
