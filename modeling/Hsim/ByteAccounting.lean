import Hsim.NpuCalls
import Hsim.SystemReports

/-! The bytes of the NPU, from its calls to the report.

The payload of a request is out of its pool from the moment it is sent until the
response is processed, so no two requests at the desks share a pointer, and the
ledger's table, keyed by pointers, has a record for each of them and no stale
one. At a barrier nothing is under way: every request has been counted, once, by
the device that serves the NPU, with the bytes of the call that sent it. -/
namespace Hsim.System

open Metrics (Device Handles completedOf Tallied)
open NpuTraceReplayer (MemoryCall Brisk totalBytes charged)

/-- The ledger after the calls so far, with the devices the wrappers have configured. -/
def ledger (setup : List (Device × UInt32 × String)) (s : State) : Metrics.State :=
  Metrics.applyAll (Metrics.configured setup) (metricsCalls s.log)

/-- The memory requests a device has completed so far. -/
def completedAt (s : State) (d : Device) : List Payload := completedOf d (metricsCalls s.log)

/-- The ledger against the system. -/
structure Audited (cfg : Config) (setup : List (Device × UInt32 × String)) (s : State) : Prop where
  kinds : PimWrapper.Kinds s.pim
  tallied : Tallied (ledger setup s) (waitingAt s) (servingAt s) (completedAt s)
  returned : (answeredToNpu s.log : Multiset Payload) + returning s =
    completedAt s .dram + completedAt s .pim
  /-- A device that does not serve the NPU sees no memory request. -/
  routed : ∀ d, d ≠ cfg.memoryDevice →
    (∀ t ∈ peqAt s d, t.isPim = true) ∧ ∀ t ∈ waitingAt s d + servingAt s d, t.isPim = true
  elsewhere : ∀ d, d ≠ cfg.memoryDevice → completedAt s d = []

theorem audited_initial (cfg : Config) (setup : List (Device × UInt32 × String))
    {controls : List TraceGenerator.SpeculativeControl} {s : State} (h : Initial controls s) :
    Audited cfg setup s := by
  subst h
  have hnone : waitingAt {host := {controls := controls}} = fun _ => 0 := by
    funext d
    cases d with
    | dram => rfl
    | pim => rfl
  have hnone' : servingAt {host := {controls := controls}} = fun _ => 0 := by
    funext d
    cases d with
    | dram => simp [servingAt, MemWrapper.State.serving]
    | pim => simp [servingAt, PimWrapper.State.serving]
  refine ⟨PimWrapper.kinds_initial, ?_, rfl, fun d _ => ?_, fun _ _ => rfl⟩
  · rw [hnone, hnone']
    exact (Metrics.configured_blank setup).tallied
  · rw [hnone, hnone']
    cases d <;> simp [peqAt]

/-- No two transactions on their way to or at the memory modules share a pointer, and none
is at the null pointer. -/
structure Distinct (s : State) : Prop where
  nodup : ((traffic s + commands s).map (·.ptr)).Nodup
  notNull : ∀ t ∈ traffic s + commands s, t.ptr ≠ 0

section
variable {cfg : Config} {setup : List (Device × UInt32 × String)} {s s' : State} {effects : List Effect}

/-- What is delivered to the modules and what is inside is under way. -/
theorem inside_le (s : State) :
    (s.memPeq : Multiset Payload) + s.pimPeq + (MemWrapper.held s.mem +
      (PimWrapper.inside s.pim false + PimWrapper.inside s.pim true)) ≤ traffic s + commands s := by
  have hsplit : (s.pimPeq.filter (fun t => t.isPim = false) : Multiset Payload) +
      (s.pimPeq.filter Payload.isPim : List Payload) = s.pimPeq := by
    rw [Multiset.coe_add, Multiset.coe_eq_coe]
    have hperm := List.filter_append_perm (fun t : Payload => decide (t.isPim = false)) s.pimPeq
    have hnot : (fun t : Payload => !decide (t.isPim = false)) = Payload.isPim := by
      funext t
      simp
    rwa [hnot] at hperm
  refine Multiset.le_iff_exists_add.mpr ⟨(s.arbiter.peqFw.filter (fun t => t.isPim = false) : List Payload) +
    ((s.arbiter.fwQueue.map (·.1)).filter (fun t => t.isPim = false) : List Payload) +
    (s.arbiter.peqBw : Multiset Payload) + (s.arbiter.bwQueue.map (·.1) : List Payload) +
    (s.npu.peqBw : Multiset Payload) + (s.host.pendingQ.filter Payload.isPim : List Payload) +
    (s.arbiter.peqFw.filter Payload.isPim : List Payload) +
    ((s.arbiter.fwQueue.map (·.1)).filter Payload.isPim : List Payload), ?_⟩
  rw [← hsplit]
  simp only [traffic, commands, PimWrapper.memoryHeld_eq]
  abel

theorem desk_le (s : State) (d : Device) :
    waitingAt s d + servingAt s d ≤ MemWrapper.held s.mem +
      (PimWrapper.inside s.pim false + PimWrapper.inside s.pim true) := by
  cases d with
  | dram =>
    rw [MemWrapper.held_eq]
    exact (Multiset.le_add_right _ _).trans (Multiset.le_add_right _ _)
  | pim => exact (PimWrapper.atDesk_le_inside s.pim).trans (Multiset.le_add_left _ _)

/-- A transaction that arrives is none of those at the desks. -/
theorem Distinct.fresh (h : Distinct s) {d : Device} {t : Payload} (ht : t ∈ peqAt s d) :
    t.ptr ≠ 0 ∧ ∀ d', ∀ u ∈ waitingAt s d' + servingAt s d', u.ptr ≠ t.ptr := by
  have hone : ({t} : Multiset Payload) ≤ (s.memPeq : Multiset Payload) + s.pimPeq := by
    rw [Multiset.singleton_le, Multiset.mem_add]
    cases d with
    | dram => exact .inl ht
    | pim => exact .inr ht
  have hle : ∀ d', {t} + (waitingAt s d' + servingAt s d') ≤ traffic s + commands s :=
    fun d' => (add_le_add hone (desk_le s d')).trans (inside_le s)
  have hmem : t ∈ {t} + (waitingAt s d + servingAt s d) :=
    Multiset.mem_add.mpr (.inl (Multiset.mem_singleton_self t))
  refine ⟨h.notNull t (Multiset.mem_of_le (hle d) hmem), fun d' u hu he => ?_⟩
  have hnodup := Multiset.nodup_of_le (Multiset.map_le_map (f := (·.ptr)) (hle d')) h.nodup
  rw [Multiset.map_add, Multiset.map_singleton, Multiset.singleton_add, Multiset.nodup_cons] at hnodup
  exact hnodup.1 (he ▸ Multiset.mem_map_of_mem (·.ptr) hu)

/-- What is on its way back is under way. -/
theorem returning_le (s : State) : returning s ≤ traffic s := by
  have hmem : (s.mem.bwQueue : Multiset Payload) ≤ MemWrapper.held s.mem := by
    rw [MemWrapper.held_eq]
    exact Multiset.le_add_left _ _
  have hpim : (s.pim.memoryCompletedQueue : Multiset Payload) ≤ PimWrapper.memoryHeld s.pim :=
    (Multiset.le_add_right _ _).trans ((Multiset.le_add_right _ _).trans (Multiset.le_add_right _ _))
  have hrest : returning s ≤ MemWrapper.held s.mem + PimWrapper.memoryHeld s.pim + s.arbiter.peqBw +
      (s.arbiter.bwQueue.map (·.1) : List Payload) + s.npu.peqBw :=
    add_le_add_left (add_le_add_left (add_le_add_left (add_le_add hmem hpim) _) _) _
  refine hrest.trans (Multiset.le_iff_exists_add.mpr
    ⟨(s.arbiter.peqFw.filter (fun t => t.isPim = false) : List Payload) +
      ((s.arbiter.fwQueue.map (·.1)).filter (fun t => t.isPim = false) : List Payload) +
      (s.memPeq : Multiset Payload) + (s.pimPeq.filter (fun t => t.isPim = false) : List Payload), ?_⟩)
  simp only [traffic]
  abel

theorem ledger_append (hlog : s'.log = s.log ++ effects) :
    ledger setup s' = Metrics.applyAll (ledger setup s) (metricsCalls effects) := by
  rw [ledger, hlog, metricsCalls_append, Metrics.applyAll_append]
  rfl

theorem completedAt_append (hlog : s'.log = s.log ++ effects) (d : Device) :
    completedAt s' d = completedAt s d ++ completedOf d (metricsCalls effects) := by
  rw [completedAt, hlog, metricsCalls_append, Metrics.completedOf_append]
  rfl

/-- The ledger follows what a module does at its desk. -/
theorem Audited.handled (h : Audited cfg setup s) (hlog : s'.log = s.log ++ effects) {d : Device}
    (hdesk : Handles d (waitingAt s d) (servingAt s d) (metricsCalls effects) (waitingAt s' d)
      (servingAt s' d))
    (hother : ∀ d', d' ≠ d → waitingAt s' d' = waitingAt s d' ∧ servingAt s' d' = servingAt s d') :
    Tallied (ledger setup s') (waitingAt s') (servingAt s') (completedAt s') := by
  have hupdate : waitingAt s' = Function.update (waitingAt s) d (waitingAt s' d) ∧
      servingAt s' = Function.update (servingAt s) d (servingAt s' d) := by
    constructor
    · funext d'
      by_cases hd : d' = d
      · rw [hd, Function.update_self]
      · rw [Function.update_of_ne hd, (hother d' hd).1]
    · funext d'
      by_cases hd : d' = d
      · rw [hd, Function.update_self]
      · rw [Function.update_of_ne hd, (hother d' hd).2]
  have hdone : completedAt s' = fun d' => completedAt s d' ++ completedOf d' (metricsCalls effects) := by
    funext d'
    exact completedAt_append hlog d'
  rw [hupdate.1, hupdate.2, hdone, ledger_append hlog]
  exact Tallied.handles hdesk h.tallied rfl rfl

/-- The memory requests a module completes come from its desk. -/
theorem completedOf_of_none {d : Device} {w w' r r' : Multiset Payload} {calls : List Metrics.Call}
    (hdesk : Handles d w r calls w' r') (hnone : ∀ t ∈ w + r, t.isPim = true) :
    completedOf d calls = [] := by
  have hbalance := hdesk.balance
  have hzero : (w + r).filter (fun t => t.isPim = false) = 0 := by
    rw [Multiset.filter_eq_nil]
    intro t ht
    simp [hnone t ht]
  have hle : (completedOf d calls : Multiset Payload) ≤ 0 := by
    rw [← hzero, hbalance]
    exact Multiset.le_add_right _ _
  exact (Multiset.coe_eq_zero _).mp (Multiset.le_zero.mp hle)

/-- **A step keeps the ledger and the system in agreement.** -/
theorem Reported.audited (hr : Reported cfg s s' effects) (hdistinct : Distinct s)
    (h : Audited cfg setup s) : Audited cfg setup s' := by
  have hreturned : (answeredToNpu s'.log : Multiset Payload) + returning s' =
      completedAt s' .dram + completedAt s' .pim := by
    have hold := h.returned
    have hnew := hr.returned
    rw [completedAt_append hr.log, completedAt_append hr.log, hr.log, answeredToNpu_append]
    simp only [← Multiset.coe_add]
    calc (answeredToNpu s.log : Multiset Payload) + answeredToNpu effects + returning s'
        = answeredToNpu s.log + (answeredToNpu effects + returning s') := add_assoc _ _ _
      _ = answeredToNpu s.log + returning s + completedOf .dram (metricsCalls effects) +
            completedOf .pim (metricsCalls effects) := by
          rw [hnew]
          abel
      _ = _ := by
          rw [hold]
          abel
  have hpeq : ∀ d, d ≠ cfg.memoryDevice → ∀ t ∈ peqAt s' d, t.isPim = true := by
    intro d hd t ht
    rcases hr.peq d t ht with ht | ht | ht
    · exact (h.routed d hd).1 t ht
    · exact ht
    · exact absurd ht hd
  cases hr.desk with
  | handled d hdesk hother =>
    refine ⟨hr.kinds, h.handled hr.log hdesk hother, hreturned, fun d' hd' => ⟨hpeq d' hd', fun t ht => ?_⟩,
      fun d' hd' => ?_⟩
    · by_cases hd : d' = d
      · subst hd
        exact (h.routed d' hd').2 t (Multiset.mem_of_le hdesk.le ht)
      · rw [(hother d' hd).1, (hother d' hd).2] at ht
        exact (h.routed d' hd').2 t ht
    · rw [completedAt_append hr.log, h.elsewhere d' hd', List.nil_append]
      by_cases hd : d' = d
      · subst hd
        exact completedOf_of_none hdesk (h.routed d' hd').2
      · exact hdesk.elsewhere hd
  | arrived d t bytes k now hcalls hk hbytes ht hwaiting hserving =>
    obtain ⟨hptr, hnew⟩ := hdistinct.fresh ht
    have hnone : ∀ d', completedOf d' (metricsCalls effects) = [] := by
      intro d'
      rw [hcalls]
      rfl
    have hdone : completedAt s' = completedAt s := by
      funext d'
      rw [completedAt_append hr.log, hnone, List.append_nil]
    refine ⟨hr.kinds, ?_, hreturned, fun d' hd' => ⟨hpeq d' hd', fun u hu => ?_⟩, fun d' hd' => ?_⟩
    · rw [ledger_append hr.log, hcalls, hwaiting, hserving, hdone]
      exact h.tallied.arrive now hk hbytes hptr hnew
    · rw [hwaiting, hserving] at hu
      by_cases hd : d' = d
      · subst hd
        rw [Function.update_self, Multiset.cons_add] at hu
        rcases Multiset.mem_cons.mp hu with rfl | hu
        · exact (h.routed d' hd').1 u ht
        · exact (h.routed d' hd').2 u hu
      · rw [Function.update_of_ne hd] at hu
        exact (h.routed d' hd').2 u hu
    · rw [hdone]
      exact h.elsewhere d' hd'

end

/-! ### Runs with pools -/

namespace Pooled

variable {cfg : Config} {controls : List TraceGenerator.SpeculativeControl} {x : Pooled}

/-- What is out of the pools has pointers of its own. -/
theorem Owned.distinct (h : x.Owned (unanswered x.system.log)) (ha : Accounted x.system) :
    Distinct x.system := by
  have hle : (traffic x.system).map (·.ptr) ≤ (unanswered x.system.log).map (·.ptr) :=
    Multiset.map_le_map ha.traffic_le
  have hmade : ∀ ptr ∈ (traffic x.system).map (·.ptr), ptr ∈ x.npu.made :=
    fun ptr hptr => h.npu.mem_made.mpr (.inr (Multiset.mem_of_le hle hptr))
  have hhost : ∀ ptr ∈ (System.commands x.system).map (·.ptr), ptr ∈ x.host.made :=
    fun ptr hptr => Multiset.mem_coe.mp (Multiset.mem_of_le h.commands hptr)
  have hdistinct := h.npu.distinct
  rw [Multiset.nodup_add] at hdistinct
  refine ⟨?_, fun t ht hzero => ?_⟩
  · rw [Multiset.map_add, Multiset.nodup_add]
    refine ⟨Multiset.nodup_of_le hle hdistinct.2.1,
      Multiset.nodup_of_le h.commands (Multiset.coe_nodup.mpr h.hostNodup), ?_⟩
    rw [Multiset.disjoint_left]
    intro ptr hptr hptr'
    exact h.apart ptr (hmade ptr hptr) (hhost ptr hptr')
  · rcases Multiset.mem_add.mp ht with ht | ht
    · exact h.notNull.2 (hzero ▸ hmade t.ptr (Multiset.mem_map_of_mem (·.ptr) ht))
    · exact h.notNull.1 (hzero ▸ hhost t.ptr (Multiset.mem_map_of_mem (·.ptr) ht))

theorem Reachable.audited (hmemory : cfg.npu.memory = if cfg.dramEnabled then .dram else .pim)
    (setup : List (Device × UInt32 × String)) (h : Reachable cfg controls x) :
    Audited cfg setup x.system := by
  induction h with
  | start hi =>
    rw [hi]
    exact audited_initial cfg setup rfl
  | next hx hs ih =>
    obtain ⟨hc, ha⟩ := (Reachable.system hx).accounted hmemory
    have howned := Reachable.owned hmemory hx
    obtain ⟨effects, hr⟩ := hs.1.reported hmemory hc ha ih.kinds
    exact hr.audited (howned.distinct ha) ih

/-- At a barrier the device that serves the NPU has completed what the NPU has sent. -/
theorem Reachable.completed_barrier
    (hmemory : cfg.npu.memory = if cfg.dramEnabled then .dram else .pim)
    (h : Reachable cfg controls x) (hseen : npuSeen x.system.host.thread = true) :
    (completedAt x.system cfg.memoryDevice).Perm (issuedByNpu x.system.log) := by
  have haudited := h.audited hmemory []
  obtain ⟨-, ha⟩ := (Reachable.system h).accounted hmemory
  have hzero := unanswered_barrier hmemory (Reachable.system h) hseen
  have htraffic : traffic x.system = 0 := by
    have hle := ha.traffic_le
    rw [hzero] at hle
    exact Multiset.le_zero.mp hle
  have hreturning : returning x.system = 0 := by
    have hback := returning_le x.system
    rw [htraffic] at hback
    exact Multiset.le_zero.mp hback
  have hanswered : (answeredToNpu x.system.log : Multiset Payload) = issuedByNpu x.system.log := by
    refine le_antisymm ha.answered_le ?_
    have hsub := Multiset.sub_le_iff_le_add.mp hzero.le
    rwa [zero_add] at hsub
  have hreturned := haudited.returned
  rw [hreturning, add_zero, hanswered] at hreturned
  have hboth : (completedAt x.system .dram : Multiset Payload) + completedAt x.system .pim =
      completedAt x.system cfg.memoryDevice := by
    have helsewhere := haudited.elsewhere
    unfold Config.memoryDevice at helsewhere ⊢
    cases hd : cfg.dramEnabled with
    | true =>
      rw [hd] at helsewhere
      rw [helsewhere .pim (by simp)]
      simp
    | false =>
      rw [hd] at helsewhere
      rw [helsewhere .dram (by simp)]
      simp
  rw [hboth] at hreturned
  exact (Multiset.coe_eq_coe.mp hreturned).symm

end Pooled

/-! ### What the requests are charged with -/

section
variable {cfg : Config} {s s' : State}

/-- A request sent is the body of a memory operation, but for its identity and address. -/
theorem Flow.bodies (hm : Flow cfg s s') : ∀ t ∈ issuedByNpu s'.log, t ∈ issuedByNpu s.log ∨
    ∃ body, cfg.npu.Body body ∧ t.chargedBytes = body.chargedBytes ∧ t.dataLength = body.dataLength := by
  intro t ht
  cases hm with
  | aside effects hlog hapart _ _ =>
    rw [hlog, issuedByNpu_append] at ht
    rcases List.mem_append.mp ht with ht | ht
    · exact .inl ht
    · obtain ⟨hsent, hfrom⟩ := List.mem_filter.mp ht
      exact absurd (by simpa using hfrom) (hapart.requests t hsent)
  | lost hlog _ _ _ =>
    rw [hlog] at ht
    exact .inl ht
  | ran effects bodies _ hsends hlog _ _ =>
    rw [hlog, issuedByNpu_append] at ht
    rcases List.mem_append.mp ht with ht | ht
    · exact .inl ht
    · have hsent := List.mem_of_mem_filter ht
      rw [hsends.requests] at hsent
      obtain ⟨body, hbody, i, a, rfl⟩ := NpuTraceReplayer.mem_numbered cfg.npu hsent
      exact .inr ⟨body, hsends.drawn body hbody, rfl, rfl⟩
  | answered u _ _ _ hlog _ =>
    rw [hlog, issuedByNpu_append] at ht
    rcases List.mem_append.mp ht with ht | ht
    · exact .inl ht
    · exact absurd ht (by simp [issuedByNpu, requestsOf])

/-- In detailed mode a request is charged with the length of its data. -/
theorem Reachable.detailed (hmemory : cfg.npu.memory = if cfg.dramEnabled then .dram else .pim)
    (hmode : cfg.npu.profile.fastLayerMode = false)
    {controls : List TraceGenerator.SpeculativeControl} (h : Reachable cfg controls s) :
    ∀ t ∈ issuedByNpu s.log, t.chargedBytes = t.dataLength.toUInt64 := by
  induction h with
  | start hi =>
    rw [hi]
    simp [issuedByNpu]
  | next hx hs ih =>
    intro t ht
    have hc := (Reachable.accounted hmemory hx).1
    rcases (hs.moved hmemory hc).2.bodies t ht with ht | ⟨body, hbody, hcharged, hlength⟩
    · exact ih t ht
    · rw [hcharged, hbody.chargedBytes hmode, hlength]

/-- A step in fast-layer mode: what it sends is charged with what it calls for. -/
structure Paid (cfg : Config) (s s' : State) : Prop where
  brisk : Brisk cfg.npu s'.npu
  charged : ∃ effects, s'.log = s.log ++ effects ∧
    charged (issuedByNpu effects) = UInt64.ofNat (totalBytes (cfg.npu.memoryCalls s.npu s'.npu))

/-- The replay thread runs. -/
theorem paid_npu {npu₀ npu : NpuTraceReplayer.State} {effects : List Effect}
    (hran : NpuTraceReplayer.Ran cfg.npu npu₀ npu effects)
    (hpays : NpuTraceReplayer.Pays cfg.npu s.npu npu effects) :
    Paid cfg s (performAll {s with npu := npu} effects) := by
  have hall : issuedByNpu effects = requestsOf effects := by
    simpa [issuedByNpu, List.filter_eq_self] using fun t ht => (hran.sent t ht).1.fromNpu
  have hnpu : (performAll {s with npu := npu} effects).npu.thread = npu.thread ∧
      (performAll {s with npu := npu} effects).npu.runId = npu.runId := by
    rw [performAll_eq]
    exact ⟨rfl, rfl⟩
  refine ⟨⟨hnpu.1 ▸ hpays.brisk.script, hnpu.1 ▸ hpays.brisk.unthrottled⟩, effects, rfl, ?_⟩
  rw [hall, hpays.charged, NpuTraceReplayer.Config.memoryCalls, NpuTraceReplayer.Config.memoryCalls,
    hnpu.1, hnpu.2]

/-- A step that sends nothing. -/
theorem paid_still (hbrisk : Brisk cfg.npu s.npu) (hthread : s'.npu.thread = s.npu.thread)
    (hrun : s'.npu.runId = s.npu.runId) {effects : List Effect} (hlog : s'.log = s.log ++ effects)
    (hissued : issuedByNpu effects = []) : Paid cfg s s' := by
  refine ⟨⟨hthread ▸ hbrisk.script, hthread ▸ hbrisk.unthrottled⟩, effects, hlog, ?_⟩
  rw [hissued, NpuTraceReplayer.memoryCalls_same hrun hthread]
  rfl

end

theorem Step.paid {cfg : Config}
    (hmemory : cfg.npu.memory = if cfg.dramEnabled then .dram else .pim)
    (hmode : cfg.npu.profile.fastLayerMode = true) {s s' : State} (hc : Carried cfg s)
    (hbrisk : Brisk cfg.npu s.npu) (hstep : Step cfg s s') : Paid cfg s s' := by
  cases hstep.npuTurn hmemory hc with
  | ran process hprocess hs =>
    subst hs
    rcases hprocess with rfl | rfl | rfl
    · exact paid_npu (NpuTraceReplayer.startRun_ran hc.npu s.now)
        (NpuTraceReplayer.startRun_pays hmode hbrisk s.now)
    · exact paid_npu (NpuTraceReplayer.endCompute_ran hc.npu s.now)
        (NpuTraceReplayer.endCompute_pays hmode hbrisk s.now)
    · exact paid_npu (NpuTraceReplayer.onResponse_ran hc.npu s.now)
        (NpuTraceReplayer.onResponse_pays hmode hbrisk s.now)
  | still hthread hrun effects hlog hissued => exact paid_still hbrisk hthread hrun hlog hissued

/-! ### At the barrier -/

/-- A run with pools. Ghost: the memory operations the NPU has called for. -/
structure Billed where
  run : Pooled
  calls : List MemoryCall := []

namespace Billed

def Step (cfg : Config) (x x' : Billed) : Prop :=
  Pooled.Step cfg x.run x'.run ∧
    x'.calls = x.calls ++ cfg.npu.memoryCalls x.run.system.npu x'.run.system.npu

abbrev Reachable (cfg : Config) (controls : List TraceGenerator.SpeculativeControl) : Billed → Prop :=
  Lib.Reach (fun x => x = {run := {system := {host := {controls := controls}}}}) (Step cfg)

variable {cfg : Config} {controls : List TraceGenerator.SpeculativeControl}

theorem Reachable.run {x : Billed} (h : Reachable cfg controls x) :
    Pooled.Reachable cfg controls x.run := by
  induction h with
  | start hi =>
    rw [hi]
    exact .start rfl
  | next _ hs ih => exact .next ih hs.1

/-- Every run has its calls. -/
theorem reachable_of_run {run : Pooled} (h : Pooled.Reachable cfg controls run) :
    ∃ calls, Reachable cfg controls ⟨run, calls⟩ := by
  induction h with
  | start hi =>
    rw [hi]
    exact ⟨[], .start rfl⟩
  | @next run run' _ hs ih =>
    obtain ⟨calls, hx⟩ := ih
    exact ⟨calls ++ cfg.npu.memoryCalls run.system.npu run'.system.npu, .next hx ⟨hs, rfl⟩⟩

/-- In fast-layer mode the requests sent are charged with what has been called for. -/
theorem Reachable.paid (hmemory : cfg.npu.memory = if cfg.dramEnabled then .dram else .pim)
    (hmode : cfg.npu.profile.fastLayerMode = true) {x : Billed} (h : Reachable cfg controls x) :
    Brisk cfg.npu x.run.system.npu ∧
      charged (issuedByNpu x.run.system.log) = UInt64.ofNat (totalBytes x.calls) := by
  induction h with
  | start hi =>
    rw [hi]
    exact ⟨NpuTraceReplayer.brisk_initial _, rfl⟩
  | next hx hs ih =>
    have hc := ((Reachable.run hx).system.accounted hmemory).1
    have hpaid := hs.1.1.paid hmemory hmode hc ih.1
    obtain ⟨effects, hlog, hcharged⟩ := hpaid.charged
    refine ⟨hpaid.brisk, ?_⟩
    rw [hlog, issuedByNpu_append, NpuTraceReplayer.charged_append, ih.2, hcharged, hs.2,
      NpuTraceReplayer.totalBytes_append, UInt64.ofNat_add]

/-- **The NPU's bytes are counted.** At a barrier that both events have reached, the device that
serves the NPU has counted every transaction of the NPU once, and its byte counter is, in 64
bits, the sum of what the calls of `issue_fast_memory` have asked for, or of the payload
lengths in detailed mode. -/
theorem npu_bytes_counted (c : Configurations) (models : Models)
    (setup : List (Device × UInt32 × String)) {x : Billed}
    (h : Reachable (Config.of c models) controls x) {layer : String}
    (hbarrier : x.run.system.host.thread = .barrier layer true true) :
    let device : Device := if c.dramEnabled then .dram else .pim
    let memory := ((ledger setup x.run.system).deviceStats device).memory
    (completedAt x.run.system device).Perm (issuedByNpu x.run.system.log) ∧
      memory.requests = (issuedByNpu x.run.system.log).length ∧
      (c.syntheticNpu.fastLayerMode = true → memory.bytes = UInt64.ofNat (totalBytes x.calls)) ∧
      (c.syntheticNpu.fastLayerMode = false → memory.bytes =
        UInt64.ofNat ((issuedByNpu x.run.system.log).map (·.dataLength.toNat)).sum) := by
  intro device memory
  have hperm := (Reachable.run h).completed_barrier rfl (by rw [hbarrier]; rfl)
  have hcounted := ((Reachable.run h).audited rfl setup).tallied.counted device
  have hbytes : memory.bytes = charged (issuedByNpu x.run.system.log) :=
    hcounted.bytes.trans (hperm.map _).sum_eq
  refine ⟨hperm, hcounted.requests.trans hperm.length_eq, fun hmode => ?_, fun hmode => ?_⟩
  · rw [hbytes]
    exact (h.paid rfl hmode).2
  · have hdetailed := (Reachable.run h).system.detailed rfl hmode
    have hlengths : (issuedByNpu x.run.system.log).map Payload.chargedBytes =
        ((issuedByNpu x.run.system.log).map (·.dataLength.toNat)).map UInt64.ofNat := by
      rw [List.map_map]
      refine List.map_congr_left fun t ht => ?_
      rw [hdetailed t ht]
      simp
    rw [hbytes, charged, hlengths, sum_ofNat]

/-- Something has been sent when the barrier is reached. -/
def stageSent (x : Pooled) : Bool :=
  match x.system.host.thread with
  | .barrier _ true true => !(issuedByNpu x.system.log).isEmpty
  | _ => false

theorem stageAcquired_sent : Pooled.stageAcquired.any stageSent = true := by decide +kernel

theorem npu_bytes_counted_projection : ∃ c controls, ∃ x : Billed, ∃ layer,
    initConfigurations (projectionFiles ⟨true, true, false, true⟩ .partitioned) = .ok c ∧
    Reachable (Config.of c Pooled.pooledModels) controls x ∧
    x.run.system.host.thread = .barrier layer true true ∧
    0 < ((ledger [] x.run.system).deviceStats (if c.dramEnabled then .dram else .pim)).memory.requests ∧
    ((ledger [] x.run.system).deviceStats (if c.dramEnabled then .dram else .pim)).memory.requests =
      (issuedByNpu x.run.system.log).length := by
  obtain ⟨run, hrun, hsent⟩ := (Option.any_eq_true _ _).mp stageAcquired_sent
  unfold Pooled.stageAcquired at hrun
  split at hrun
  · cases hrun
  · next c hc =>
    split at hrun
    · cases hrun
    · next controls _ =>
      unfold stageSent at hsent
      split at hsent
      · next layer hthread =>
        have hreachable := Pooled.run_reachable (.start rfl) hrun
        obtain ⟨calls, hx⟩ := reachable_of_run hreachable
        obtain ⟨-, hrequests, -⟩ := npu_bytes_counted c Pooled.pooledModels [] hx hthread
        refine ⟨c, controls, ⟨run, calls⟩, layer, hc, hx, hthread, ?_, hrequests⟩
        rw [hrequests]
        exact List.length_pos_iff.mpr (by simpa using hsent)
      · cases hsent

end Billed

end Hsim.System
