import Hsim.BridgeTicked
import Hsim.Pools
import Hsim.StageIsolation

/-! Who holds the payloads.

The NPU gives every payload back when it processes the response, so at a barrier
that has seen its end all of its payloads are free. Nothing gives back the
host's: the launch callback and the PIM's falling edge drop the payload they are
handed, and the host's pool makes a new object for every transaction. -/
namespace Hsim.System.Pooled

/-- What the pools and the reference counts say of each other. The host's objects are out
for good; of the NPU's those of `out` are out, each for one transaction; no object is in
both pools or at the null pointer. -/
structure Owned (x : Pooled) (out : Multiset Payload) : Prop where
  notNull : 0 ∉ x.host.made ∧ 0 ∉ x.npu.made
  apart : ∀ ptr ∈ x.npu.made, ptr ∉ x.host.made
  hostFree : x.host.freeList = []
  hostNodup : x.host.made.Nodup
  npu : x.npu.Balanced (out.map (·.ptr))
  refs : ∀ ptr, x.refs ptr = x.host.made.count ptr + (out.map (·.ptr)).count ptr
  commands : (commands x.system).map (·.ptr) ≤ x.host.made
  acquiredHost : ∀ t ∈ x.acquired, ¬ t.FromNpu → t.ptr ∈ x.host.made
  acquiredNpu : ∀ t ∈ x.acquired, t.FromNpu → t.ptr ∈ x.npu.made
  launched : atBarrier x.system.host.thread = true →
    ∃ t ∈ x.acquired, IsLaunch t ∧ t.stage = x.system.host.stage

theorem owned_initial {controls : List TraceGenerator.SpeculativeControl} :
    Owned {system := {host := {controls := controls}}} 0 := by
  refine ⟨by simp, by simp, rfl, List.nodup_nil, Lib.Pool.balanced_empty, fun _ => rfl, ?_, by simp,
    by simp, by simp [atBarrier]⟩
  simp [System.commands, PimWrapper.inside, PimWrapper.State.inFlight, PimWrapper.waiting,
    PimWrapper.State.completedQueue, PimWrapper.State.fastCompletedQueue]

/-! ### What a step acquires -/

section
variable {cfg : Config} {s s' : State}

theorem mem_stagePayloads {host : Host.State} {control : TraceGenerator.SpeculativeControl}
    {transactions : List Payload} (hemission : cfg.host.emission control = .ok transactions) {t : Payload}
    (ht : t ∈ stagePayloads cfg host control transactions) : IsCommand t ∨ IsLaunch t := by
  rcases List.mem_cons.mp ht with rfl | ht
  · exact .inr ⟨rfl, rfl⟩
  · exact .inl (stageCommands hemission _ _ t ht)

/-- The host acquires launches and commands. -/
theorem hostAcquired_notFromNpu (hm : Move cfg s s') : ∀ t ∈ hostAcquired s s', ¬ t.FromNpu := by
  have hnone (hstage : s'.host.stage = s.host.stage) : ∀ t ∈ hostAcquired s s', ¬ t.FromNpu := by
    rw [hostAcquired, if_pos hstage]
    simp
  cases hm.stage with
  | launched control rest transactions _ hemission hhost =>
    intro t ht
    rw [hostAcquired_launched hhost] at ht
    rcases mem_stagePayloads hemission ht with ht | ht
    · exact ht.notFromNpu
    · exact ht.notFromNpu
  | passed layer _ hhost => exact hnone (by rw [hhost])
  | same hstage _ _ => exact hnone hstage

/-- A barrier is entered with a launch. -/
theorem hostAcquired_launch (hm : Move cfg s s') (hbarrier : atBarrier s'.host.thread = true) :
    s'.host.stage = s.host.stage ∧ atBarrier s.host.thread = true ∨
      ∃ t ∈ hostAcquired s s', IsLaunch t ∧ t.stage = s'.host.stage := by
  cases hm.stage with
  | launched control rest transactions _ _ hhost =>
    rw [hostAcquired_launched hhost, hhost]
    exact .inr ⟨_, List.mem_cons_self, ⟨rfl, rfl⟩, rfl⟩
  | passed layer _ hhost =>
    rw [hhost] at hbarrier
    cases hbarrier
  | same hstage _ hsame => exact .inl ⟨hstage, hsame.symm.trans hbarrier⟩

theorem issuedByNpu_fromNpu (log : List Effect) : ∀ t ∈ issuedByNpu log, t.FromNpu := by
  intro t ht
  exact of_decide_eq_true (List.mem_filter.mp ht).2

end

/-! ### The pools along a run -/

/-- The pools after a step's allocations. -/
def drawn (x : Pooled) (s : State) (host npu : Mm) : Pooled where
  system := s
  host := host
  npu := npu
  refs := fun ptr =>
    x.refs ptr + ((hostAcquired x.system s ++ issuedByNpu (called x.system s)).map (·.ptr)).count ptr
  acquired := x.acquired ++ hostAcquired x.system s ++ issuedByNpu (called x.system s)

theorem advance_drawn {x x' : Pooled} {s : State} (h : x.advance s = some x') :
    ∃ host npu newHost newNpu,
      Lib.Pool.Handed x.host host (0 :: x.npu.made) ((hostAcquired x.system s).map (·.ptr)) newHost ∧
      Lib.Pool.Handed x.npu npu (0 :: host.made)
        ((issuedByNpu (called x.system s)).map (·.ptr)) newNpu ∧
      x' = (releasesOf (called x.system s)).foldl release (x.drawn s host npu) := by
  obtain ⟨host, hhost, h⟩ := Option.bind_eq_some_iff.mp h
  obtain ⟨npu, hnpu, h⟩ := Option.bind_eq_some_iff.mp h
  cases h
  obtain ⟨newHost, hnewHost⟩ := Lib.Pool.allocateAll_handed hhost
  obtain ⟨newNpu, hnewNpu⟩ := Lib.Pool.allocateAll_handed hnpu
  exact ⟨host, npu, newHost, newNpu, hnewHost, hnewNpu, rfl⟩

theorem release_same (x : Pooled) (t : Payload) :
    (x.release t).system = x.system ∧ (x.release t).acquired = x.acquired := by
  unfold release
  dsimp only
  split
  · split <;> exact ⟨rfl, rfl⟩
  · exact ⟨rfl, rfl⟩

/-- Releases leave the system and the account of what was acquired alone. -/
theorem advance_same {x x' : Pooled} {s : State} (h : x.advance s = some x') : x'.system = s ∧
    x'.acquired = x.acquired ++ hostAcquired x.system s ++ issuedByNpu (called x.system s) := by
  obtain ⟨host, npu, _, _, -, -, rfl⟩ := advance_drawn h
  have hfold : ∀ (ts : List Payload) (y : Pooled), (ts.foldl release y).system = y.system ∧
      (ts.foldl release y).acquired = y.acquired := by
    intro ts
    induction ts with
    | nil => exact fun _ => ⟨rfl, rfl⟩
    | cons t rest ih =>
      intro y
      obtain ⟨hsystem, hacquired⟩ := ih (y.release t)
      exact ⟨hsystem.trans (y.release_same t).1, hacquired.trans (y.release_same t).2⟩
  exact hfold _ (x.drawn s host npu)

section
variable {cfg : Config} {x : Pooled} {s : State} {out : Multiset Payload} {host npu : Mm}
  {newHost newNpu : List Nat}

/-- The host's pool has nothing free and makes what it hands out. -/
theorem Owned.host_new (h : x.Owned out)
    (hhost : Lib.Pool.Handed x.host host (0 :: x.npu.made) ((hostAcquired x.system s).map (·.ptr)) newHost) :
    host.freeList = [] ∧ newHost.Perm ((hostAcquired x.system s).map (·.ptr)) := by
  have hleft := hhost.left
  rw [h.hostFree] at hleft
  have hfree : host.freeList = [] := List.suffix_nil.mp hleft
  have hmoved := hhost.moved
  rw [h.hostFree, hfree] at hmoved
  refine ⟨hfree, Multiset.coe_eq_coe.mp ?_⟩
  simpa using hmoved

theorem Owned.drawn (h : x.Owned out) (hc : Carried cfg x.system) (hstep : System.Step cfg x.system s)
    (hhost : Lib.Pool.Handed x.host host (0 :: x.npu.made) ((hostAcquired x.system s).map (·.ptr)) newHost)
    (hnpu : Lib.Pool.Handed x.npu npu (0 :: host.made)
      ((issuedByNpu (called x.system s)).map (·.ptr)) newNpu) :
    (x.drawn s host npu).Owned (out + issuedByNpu (called x.system s)) := by
  obtain ⟨hfree, hperm⟩ := h.host_new hhost
  have hbalanced := h.npu.handed hnpu
  rw [← Multiset.map_coe, ← Multiset.map_add] at hbalanced
  have hout : ∀ t ∈ hostAcquired x.system s, t.ptr ∈ newHost := by
    intro t ht
    exact hperm.symm.subset (List.mem_map_of_mem ht)
  refine ⟨⟨?_, ?_⟩, ?_, hfree, ?_, hbalanced, ?_, ?_, ?_, ?_, ?_⟩
  · show 0 ∉ host.made
    rw [hhost.made, List.mem_append, not_or]
    exact ⟨fun hzero => (hhost.fresh 0 hzero).2 List.mem_cons_self, h.notNull.1⟩
  · show 0 ∉ npu.made
    rw [hnpu.made, List.mem_append, not_or]
    exact ⟨fun hzero => (hnpu.fresh 0 hzero).2 List.mem_cons_self, h.notNull.2⟩
  · show ∀ ptr ∈ npu.made, ptr ∉ host.made
    intro ptr hptr
    rw [hnpu.made] at hptr
    rcases List.mem_append.mp hptr with hptr | hptr
    · exact fun hin => (hnpu.fresh ptr hptr).2 (List.mem_cons_of_mem _ hin)
    · rw [hhost.made, List.mem_append, not_or]
      exact ⟨fun hin => (hhost.fresh ptr hin).2 (List.mem_cons_of_mem _ hptr), h.apart ptr hptr⟩
  · show host.made.Nodup
    rw [hhost.made]
    exact hhost.nodup.append h.hostNodup fun ptr hptr => (hhost.fresh ptr hptr).1
  · intro ptr
    show x.refs ptr + _ = host.made.count ptr + _
    rw [h.refs, hhost.made, List.map_append, List.count_append, List.count_append, hperm.count_eq,
      Multiset.map_add, Multiset.count_add, Multiset.map_coe, Multiset.coe_count]
    omega
  · show (System.commands s).map (·.ptr) ≤ host.made
    have hadded : ((hostAcquired x.system s).filter Payload.isPim : Multiset Payload).map (·.ptr) ≤ newHost := by
      rw [Multiset.coe_eq_coe.mpr hperm, ← Multiset.map_coe]
      exact Multiset.map_le_map (List.filter_sublist.subperm)
    calc (System.commands s).map (·.ptr)
        ≤ (System.commands x.system + ((hostAcquired x.system s).filter Payload.isPim : List Payload)).map
            (·.ptr) := Multiset.map_le_map (hstep.commands hc)
      _ ≤ x.host.made + newHost := by
          rw [Multiset.map_add]
          exact add_le_add h.commands hadded
      _ = host.made := by
          rw [hhost.made, ← Multiset.coe_add, add_comm]
  · intro t ht hnot
    show t.ptr ∈ host.made
    rw [hhost.made]
    rcases List.mem_append.mp ht with ht | ht
    · rcases List.mem_append.mp ht with ht | ht
      · exact List.mem_append_right _ (h.acquiredHost t ht hnot)
      · exact List.mem_append_left _ (hout t ht)
    · exact absurd (issuedByNpu_fromNpu _ t ht) hnot
  · intro t ht hfrom
    show t.ptr ∈ npu.made
    rcases List.mem_append.mp ht with ht | ht
    · rcases List.mem_append.mp ht with ht | ht
      · rw [hnpu.made]
        exact List.mem_append_right _ (h.acquiredNpu t ht hfrom)
      · exact absurd hfrom (hostAcquired_notFromNpu hstep.2 t ht)
    · refine hbalanced.mem_made.mpr (.inr ?_)
      exact Multiset.mem_map_of_mem _ (Multiset.mem_add.mpr (.inr ht))
  · intro hbarrier
    rcases hostAcquired_launch hstep.2 hbarrier with ⟨hsame, hback⟩ | ⟨t, ht, hlaunch, hstage⟩
    · obtain ⟨t, ht, hlaunch, hstage⟩ := h.launched hback
      refine ⟨t, ?_, hlaunch, hstage.trans hsame.symm⟩
      exact List.mem_append_left _ (List.mem_append_left _ ht)
    · exact ⟨t, List.mem_append_left _ (List.mem_append_right _ ht), hlaunch, hstage⟩

/-- The last reference of an NPU payload goes. -/
theorem Owned.release {t : Payload} (h : x.Owned (t ::ₘ out)) : (x.release t).Owned out := by
  have hbalanced := h.npu
  rw [Multiset.map_cons] at hbalanced
  have hmade : t.ptr ∈ x.npu.made := hbalanced.mem_made.mpr (.inr (Multiset.mem_cons_self _ _))
  have hhost : x.host.made.count t.ptr = 0 := List.count_eq_zero.mpr (h.apart _ hmade)
  have honce : (out.map (·.ptr)).count t.ptr = 0 := by
    have hdistinct := hbalanced.distinct
    rw [Multiset.nodup_add] at hdistinct
    exact Multiset.count_eq_zero.mpr (Multiset.nodup_cons.mp hdistinct.2.1).1
  have hcount : x.refs t.ptr - 1 = 0 := by
    rw [h.refs, hhost, Multiset.map_cons, Multiset.count_cons_self, honce]
  have hreleased : x.release t = {x with
      refs := Function.update x.refs t.ptr 0
      npu := x.npu.free t.ptr} := by
    simp only [Pooled.release, hcount, if_true, hmade]
  rw [hreleased]
  refine ⟨h.notNull, h.apart, h.hostFree, h.hostNodup, hbalanced.free, ?_, h.commands, h.acquiredHost,
    h.acquiredNpu, h.launched⟩
  intro ptr
  show Function.update x.refs t.ptr 0 ptr = x.host.made.count ptr + (out.map (·.ptr)).count ptr
  by_cases hptr : ptr = t.ptr
  · rw [hptr, Function.update_self, hhost, honce]
  · rw [Function.update_of_ne hptr, h.refs, Multiset.map_cons, Multiset.count_cons_of_ne hptr]

end

/-- **Every step keeps the accounts.** -/
theorem Step.owned {cfg : Config} (hmemory : cfg.npu.memory = if cfg.dramEnabled then .dram else .pim)
    {x x' : Pooled} (hc : Carried cfg x.system) (ha : Accounted x.system)
    (h : x.Owned (unanswered x.system.log)) (hstep : Step cfg x x') :
    x'.Owned (unanswered x'.system.log) := by
  have hflow := (hstep.1.moved hmemory hc).2
  have ha' := hflow.accounted ha
  obtain ⟨effects, hlog, hreleases⟩ := hflow.releases ha
  obtain ⟨host, npu, newHost, newNpu, hhost, hnpu, hx'⟩ := advance_drawn hstep.2
  have hle := ha'.answered_le
  rw [hlog] at hle
  have hbalance := unanswered_append ha.answered_le hle
  have hdrawn := h.drawn hc hstep.1 hhost hnpu
  rw [called_eq hlog] at hx' hdrawn
  rw [← hlog] at hbalance
  rcases hreleases with hnone | ⟨t, -, hone, hanswered, -⟩
  · rw [hnone] at hx'
    have hzero : answeredToNpu effects = [] := by rw [answeredToNpu, hnone, List.filter_nil]
    rw [hzero, Multiset.coe_nil, add_zero] at hbalance
    rw [hbalance, hx']
    exact hdrawn
  · rw [hone] at hx'
    rw [hanswered, Multiset.coe_singleton, add_comm, Multiset.singleton_add] at hbalance
    rw [← hbalance] at hdrawn
    have hreleased := hdrawn.release
    change x' = (x.drawn x'.system host npu).release t at hx'
    rw [← hx'] at hreleased
    exact hreleased

theorem Reachable.owned {cfg : Config}
    (hmemory : cfg.npu.memory = if cfg.dramEnabled then .dram else .pim)
    {controls : List TraceGenerator.SpeculativeControl} {x : Pooled} (h : Reachable cfg controls x) :
    x.Owned (unanswered x.system.log) := by
  induction h with
  | start hi =>
    rw [hi]
    exact owned_initial
  | next hx hs ih =>
    have haccounted := (Reachable.system hx).accounted hmemory
    exact hs.owned hmemory haccounted.1 haccounted.2 ih

/-! ### At the barrier -/

/-- The payloads acquired for the control the host is at: its launch, its PIM transactions
and the NPU's memory transactions. -/
def ofStage (x : Pooled) : List Payload := x.acquired.filter (·.stage = x.system.host.stage)

/-- `t` has been given back: its reference count is 0 and it is in the free list of the pool
it comes from. -/
def Released (x : Pooled) (t : Payload) : Prop :=
  x.refs t.ptr = 0 ∧ t.ptr ∈ (if t.FromNpu then x.npu.freeList else x.host.freeList)

instance (x : Pooled) (t : Payload) : Decidable (x.Released t) :=
  inferInstanceAs (Decidable (_ ∧ _))

/-- When nothing of the NPU is under way, its payloads are back and the host's are not. -/
theorem Owned.released_iff {x : Pooled} (h : x.Owned 0) {t : Payload} (ht : t ∈ x.acquired) :
    x.Released t ↔ t.FromNpu := by
  have hrefs := h.refs t.ptr
  rw [Multiset.map_zero, Multiset.count_zero, Nat.add_zero] at hrefs
  by_cases hfrom : t.FromNpu
  · have hmade := h.acquiredNpu t ht hfrom
    have hfree : t.ptr ∈ x.npu.freeList := by simpa using h.npu.mem_made.mp hmade
    have hcount : x.refs t.ptr = 0 := by rw [hrefs, List.count_eq_zero.mpr (h.apart _ hmade)]
    simp only [Released, hfrom, if_true, iff_true]
    exact ⟨hcount, hfree⟩
  · have hmade := h.acquiredHost t ht hfrom
    have hcount : 0 < x.refs t.ptr := by
      rw [hrefs]
      exact List.count_pos_iff.mpr hmade
    simp only [hfrom, iff_false]
    exact fun hreleased => hcount.ne' hreleased.1

/-- At a barrier that has seen the NPU nothing of its run is under way. -/
theorem unanswered_barrier {cfg : Config}
    (hmemory : cfg.npu.memory = if cfg.dramEnabled then .dram else .pim)
    {controls : List TraceGenerator.SpeculativeControl} {s : State} (h : System.Reachable cfg controls s)
    (hseen : npuSeen s.host.thread = true) : unanswered s.log = 0 := by
  obtain ⟨hc, ha⟩ := h.accounted hmemory
  have hthread := (h.oneLaunch hmemory).settled hseen
  have hpending := hc.npu.settled (by rw [hthread]; rfl)
  have hcard := ha.unanswered
  rw [hpending] at hcard
  exact Multiset.card_eq_zero.mp hcard.symm

/-- **The host's payloads are never given back.** At a barrier that both events have
reached, what the stage acquired is back in its pool exactly if it is the NPU's. The
launch is there in every stage, and it is not back. -/
theorem payloads_released (c : Configurations) (models : Models)
    {controls : List TraceGenerator.SpeculativeControl} {x : Pooled}
    (h : Reachable (Config.of c models) controls x) {layer : String}
    (hbarrier : x.system.host.thread = .barrier layer true true) :
    (∀ t ∈ x.ofStage, x.Released t ↔ t.FromNpu) ∧ ¬ ∀ t ∈ x.ofStage, x.Released t := by
  have howned := h.owned rfl
  rw [unanswered_barrier rfl h.system (by rw [hbarrier]; rfl)] at howned
  refine ⟨fun t ht => howned.released_iff (List.mem_of_mem_filter ht), fun hall => ?_⟩
  obtain ⟨t, ht, hlaunch, hstage⟩ := howned.launched (by rw [hbarrier]; rfl)
  have hreleased := hall t (List.mem_filter.mpr ⟨ht, by simpa using hstage⟩)
  exact hlaunch.notFromNpu ((howned.released_iff ht).mp hreleased)

/-! ### A run with pools -/

theorem advance_system {x x' : Pooled} {s : State} (h : x.advance s = some x') : x'.system = s :=
  (advance_same h).1

/-- The state a schedule leads to, `none` if the pools would hand out other payloads. -/
def run (cfg : Config) (x : Pooled) : List Process → Option Pooled
  | [] => some x
  | p :: rest =>
    if Running x.system then
      (fire cfg x.system p).bind fun s => (x.advance s).bind fun x' => run cfg x' rest
    else none

theorem run_reachable {cfg : Config} {controls : List TraceGenerator.SpeculativeControl} {x x' : Pooled}
    (h : Reachable cfg controls x) {schedule : List Process} (hrun : run cfg x schedule = some x') :
    Reachable cfg controls x' := by
  induction schedule generalizing x with
  | nil =>
    cases hrun
    exact h
  | cons p rest ih =>
    obtain ⟨hrunning, hrun⟩ := Option.ite_none_right_eq_some.mp hrun
    obtain ⟨s, hfire, hrun⟩ := Option.bind_eq_some_iff.mp hrun
    obtain ⟨x₁, hadvance, hrun⟩ := Option.bind_eq_some_iff.mp hrun
    have hsystem := advance_system hadvance
    refine ih (.next h ⟨?_, ?_⟩) hrun
    · rw [hsystem]
      exact ⟨hrunning, fire_move hfire⟩
    · rw [hsystem]
      exact hadvance

/-- Models of no time, with the pools' objects at addresses of their own. -/
def pooledModels : Models := {idleModels with npuAllocate := fun n => n + 0x100}

/-- A stage of the projection in fast-layer mode, from its launch to its barrier. -/
def stageAcquired : Option Pooled :=
  match initConfigurations (projectionFiles ⟨true, true, false, true⟩ .partitioned) with
  | .error _ => none
  | .ok c =>
    match TraceGenerator.loadSpeculativeControlTrace c.speculative [TraceGenerator.warmRecord 1 10 11] with
    | .error _ => none
    | .ok controls => run (Config.of c pooledModels) {system := {host := {controls := controls}}} wholeStage

/-- Both events are seen, with a payload of the NPU and one that is not back. -/
def bothAcquired (x : Pooled) : Bool :=
  match x.system.host.thread with
  | .barrier _ true true =>
    x.ofStage.any (fun t => t.FromNpu) && x.ofStage.any (fun t => !decide (x.Released t))
  | _ => false

theorem stageAcquired_seen : stageAcquired.any bothAcquired = true := by decide +kernel

theorem stageAcquired_reachable : ∃ c controls x layer,
    initConfigurations (projectionFiles ⟨true, true, false, true⟩ .partitioned) = .ok c ∧
    Reachable (Config.of c pooledModels) controls x ∧ x.system.host.thread = .barrier layer true true ∧
    (∃ t ∈ x.ofStage, t.FromNpu) ∧ ∃ t ∈ x.ofStage, ¬ x.Released t := by
  obtain ⟨x, hx, hboth⟩ := (Option.any_eq_true _ _).mp stageAcquired_seen
  unfold stageAcquired at hx
  split at hx
  · cases hx
  · next c hc =>
    split at hx
    · cases hx
    · next controls _ =>
      unfold bothAcquired at hboth
      split at hboth
      · next layer hthread =>
        simp only [Bool.and_eq_true, List.any_eq_true, Bool.not_eq_true', decide_eq_false_iff_not,
          decide_eq_true_eq] at hboth
        exact ⟨c, controls, x, layer, hc, run_reachable (.start rfl) hx, hthread, hboth.1, hboth.2⟩
      · cases hboth

/-- The launch's payload is out when its stage ends. -/
theorem payloads_released_fails : ¬ ∀ (files : Files) (c : Configurations) (models : Models)
    (controls : List TraceGenerator.SpeculativeControl) (x : Pooled) (layer : String),
    initConfigurations files = .ok c → Reachable (Config.of c models) controls x →
    x.system.host.thread = .barrier layer true true → ∀ t ∈ x.ofStage, x.Released t := by
  intro hall
  obtain ⟨c, controls, x, layer, hc, hx, hthread, -, t, ht, hout⟩ := stageAcquired_reachable
  exact hout (hall _ c pooledModels controls x layer hc hx hthread t ht)

theorem payloads_released_projection : ∃ c controls x layer,
    initConfigurations (projectionFiles ⟨true, true, false, true⟩ .partitioned) = .ok c ∧
    Reachable (Config.of c pooledModels) controls x ∧ x.system.host.thread = .barrier layer true true ∧
    (∃ t ∈ x.ofStage, x.Released t) ∧ ¬ ∀ t ∈ x.ofStage, x.Released t := by
  obtain ⟨c, controls, x, layer, hc, hx, hthread, ⟨t, ht, hfrom⟩, -⟩ := stageAcquired_reachable
  obtain ⟨hiff, hnot⟩ := payloads_released c pooledModels hx hthread
  exact ⟨c, controls, x, layer, hc, hx, hthread, ⟨t, ht, (hiff t ht).mpr hfrom⟩, hnot⟩

end Hsim.System.Pooled
