import Hsim.Ownership
import Hsim.Reporting

/-! What a step of the system reports.

A request of the NPU is at one desk once, between its arrival at the memory
module and its completion there; before and after it is on its way. Every step
is one of the ledger's own: a module handles what is at its desk, or a
transaction arrives at one. What is completed is on its way back until the NPU
processes the response. -/
namespace Hsim.System

open Metrics (Device Handles completedOf)

/-! ### The desks of the system -/

/-- The transactions delivered to a device's module and not seen by it. -/
def peqAt (s : State) : Device → List Payload
  | .dram => s.memPeq
  | .pim => s.pimPeq

def waitingAt (s : State) : Device → Multiset Payload
  | .dram => s.mem.waiting
  | .pim => s.pim.waiting

def servingAt (s : State) : Device → Multiset Payload
  | .dram => s.mem.serving
  | .pim => s.pim.serving

/-- The requests completed and not answered. -/
def returning (s : State) : Multiset Payload :=
  (s.mem.bwQueue : Multiset Payload) + s.pim.memoryCompletedQueue + s.arbiter.peqBw +
    (s.arbiter.bwQueue.map (·.1) : List Payload) + s.npu.peqBw

/-- The device that serves the NPU. -/
def Config.memoryDevice (cfg : Config) : Device := if cfg.dramEnabled then .dram else .pim

/-- What a step does at the desks: a module handles what it has, or a transaction arrives. -/
inductive Desk (s s' : State) (calls : List Metrics.Call) : Prop where
  | handled (d : Device)
    (hdesk : Handles d (waitingAt s d) (servingAt s d) calls (waitingAt s' d) (servingAt s' d))
    (hother : ∀ d', d' ≠ d → waitingAt s' d' = waitingAt s d' ∧ servingAt s' d' = servingAt s d')
  | arrived (d : Device) (t : Payload) (bytes : UInt64) (k : Bool) (now : Time)
    (hcalls : calls = [.arrived d t bytes k now]) (hk : k = t.isPim)
    (hbytes : t.isPim = false → bytes = t.chargedBytes) (hpeq : t ∈ peqAt s d)
    (hwaiting : waitingAt s' = Function.update (waitingAt s) d (t ::ₘ waitingAt s d))
    (hserving : servingAt s' = servingAt s)

/-- A step by what it reports. -/
structure Reported (cfg : Config) (s s' : State) (effects : List Effect) : Prop where
  log : s'.log = s.log ++ effects
  desk : Desk s s' (metricsCalls effects)
  kinds : PimWrapper.Kinds s'.pim
  /-- Only the device that serves the NPU is handed memory requests. -/
  peq : ∀ d, ∀ t ∈ peqAt s' d, t ∈ peqAt s d ∨ t.isPim = true ∨ d = cfg.memoryDevice
  /-- What is completed returns, and what returns is answered. -/
  returned : (answeredToNpu effects : Multiset Payload) + returning s' = returning s +
    completedOf .dram (metricsCalls effects) + completedOf .pim (metricsCalls effects)

section
variable {cfg : Config} {s s' : State} {effects : List Effect}

theorem returning_performAll (s : State) (effects : List Effect) :
    returning (performAll s effects) = returning s + responsesOf effects := by
  rw [performAll_eq]
  simp only [returning, ← Multiset.coe_add]
  abel

/-- A step that leaves the memory modules alone. -/
theorem reported_elsewhere (hlog : s'.log = s.log ++ effects) (hmem : s'.mem = s.mem)
    (hpim : s'.pim = s.pim) (hkinds : PimWrapper.Kinds s.pim) (haside : Aside effects)
    (hpeq : ∀ d, ∀ t ∈ peqAt s' d, t ∈ peqAt s d ∨ t.isPim = true ∨ d = cfg.memoryDevice)
    (hreturned : (answeredToNpu effects : Multiset Payload) + returning s' = returning s) :
    Reported cfg s s' effects := by
  have hsame : ∀ d, waitingAt s' d = waitingAt s d ∧ servingAt s' d = servingAt s d := by
    intro d
    cases d with
    | dram => simp only [waitingAt, servingAt, hmem, and_self]
    | pim => simp only [waitingAt, servingAt, hpim, and_self]
  refine ⟨hlog, .handled .dram ?_ fun d _ => hsame d, hpim ▸ hkinds, hpeq, ?_⟩
  · rw [(hsame .dram).1, (hsame .dram).2]
    exact haside.handles .dram _ _
  · rw [Metrics.completedOf_asides .dram haside, Metrics.completedOf_asides .pim haside, hreturned]
    simp

/-- A process of the DRAM module at its desk. -/
theorem reported_mem {mem : MemWrapper.State} (hkinds : PimWrapper.Kinds s.pim)
    (hdesk : MemWrapper.AtDesk s.mem mem effects) (hreleases : releasesOf effects = [])
    (hbw : (mem.bwQueue : Multiset Payload) + responsesOf effects =
      s.mem.bwQueue + completedOf .dram (metricsCalls effects)) :
    Reported cfg s (performAll {s with mem := mem} effects) effects := by
  have hanswered : answeredToNpu effects = [] := by rw [answeredToNpu, hreleases, List.filter_nil]
  have hpim : completedOf .pim (metricsCalls effects) = [] := Handles.elsewhere hdesk (by simp)
  have hreturning := returning_performAll {s with mem := mem} effects
  refine ⟨rfl, .handled .dram ?_ fun d hd => ?_, ?_, fun d t ht => .inl ?_, ?_⟩
  · rw [performAll_eq]
    exact hdesk
  · rw [performAll_eq]
    cases d with
    | dram => exact absurd rfl hd
    | pim => exact ⟨rfl, rfl⟩
  · rw [performAll_eq]
    exact hkinds
  · rw [performAll_eq] at ht
    cases d <;> exact ht
  · rw [hanswered, hreturning, hpim, Multiset.coe_nil, zero_add, add_zero]
    simp only [returning]
    calc _ = (mem.bwQueue + responsesOf effects : Multiset Payload) + (s.pim.memoryCompletedQueue +
          s.arbiter.peqBw + (s.arbiter.bwQueue.map (·.1) : List Payload) + s.npu.peqBw) := by abel
      _ = _ := by rw [hbw]; abel

/-- A process of the PIM module at its desk. -/
theorem reported_pim {pim : PimWrapper.State} (served : List Payload)
    (hkinds : PimWrapper.Kinds s.pim) (hdesk : PimWrapper.AtDesk s.pim pim effects)
    (hreleases : releasesOf effects = [])
    (hdone : (pim.memoryCompletedQueue : Multiset Payload) + responsesOf effects =
      s.pim.memoryCompletedQueue + completedOf .pim (metricsCalls effects)) :
    Reported cfg s (performAll {s with pim := pim, served := served} effects) effects := by
  have hanswered : answeredToNpu effects = [] := by rw [answeredToNpu, hreleases, List.filter_nil]
  have hdram : completedOf .dram (metricsCalls effects) = [] := hdesk.handles.elsewhere (by simp)
  have hreturning := returning_performAll {s with pim := pim, served := served} effects
  refine ⟨rfl, .handled .pim ?_ fun d hd => ?_, ?_, fun d t ht => .inl ?_, ?_⟩
  · rw [performAll_eq]
    exact hdesk.handles
  · rw [performAll_eq]
    cases d with
    | dram => exact ⟨rfl, rfl⟩
    | pim => exact absurd rfl hd
  · rw [performAll_eq]
    exact hdesk.kinds hkinds
  · rw [performAll_eq] at ht
    cases d <;> exact ht
  · rw [hanswered, hreturning, hdram, Multiset.coe_nil, zero_add, add_zero]
    simp only [returning]
    calc _ = (pim.memoryCompletedQueue + responsesOf effects : Multiset Payload) + (s.mem.bwQueue +
          s.arbiter.peqBw + (s.arbiter.bwQueue.map (·.1) : List Payload) + s.npu.peqBw) := by abel
      _ = _ := by rw [hdone]; abel

/-- An activation of the PIM module's thread. -/
theorem pimThread_reported (hkinds : PimWrapper.Kinds s.pim) {process : Action PimWrapper.State}
    (hmoves : PimWrapper.Moves s.pim (process s.pim).1 (process s.pim).2)
    (hdesk : PimWrapper.AtDesk s.pim (process s.pim).1 (process s.pim).2) :
    Reported cfg s (runPim process s) (process s.pim).2 := by
  refine reported_pim s.served hkinds hdesk hmoves.locals.releases ?_
  rw [hmoves.locals.silent.responses, Multiset.coe_nil, add_zero]
  exact hdesk.returned hkinds hmoves

/-- A transaction arrives at a module. -/
theorem reported_arrival {d : Device} {t : Payload} {bytes : UInt64} {k : Bool} {now : Time}
    (heffects : effects = [.metrics (.arrived d t bytes k now)]) (hlog : s'.log = s.log ++ effects)
    (hk : k = t.isPim) (hbytes : t.isPim = false → bytes = t.chargedBytes) (hpeq : t ∈ peqAt s d)
    (hwaiting : waitingAt s' = Function.update (waitingAt s) d (t ::ₘ waitingAt s d))
    (hserving : servingAt s' = servingAt s) (hkinds : PimWrapper.Kinds s'.pim)
    (hless : ∀ d, ∀ u ∈ peqAt s' d, u ∈ peqAt s d) (hreturning : returning s' = returning s) :
    Reported cfg s s' effects := by
  subst heffects
  refine ⟨hlog, .arrived d t bytes k now rfl hk hbytes hpeq hwaiting hserving, hkinds,
    fun d' u hu => .inl (hless d' u hu), ?_⟩
  rw [hreturning]
  show (0 : Multiset Payload) + returning s = returning s + 0 + 0
  rw [zero_add, add_zero, add_zero]

/-- The module that a request is forwarded to is the NPU's memory. -/
theorem forwarded_device (hmemory : cfg.npu.memory = if cfg.dramEnabled then .dram else .pim)
    {t : Payload} (ht : cfg.Sent t) (hpim : t.isPim = false) {target : DeviceType}
    (htarget : cfg.targets[Arbiter.targetIndex cfg.dramEnabled t]? = some target) :
    target = .dram ∧ cfg.memoryDevice = .dram ∨ target = .pim ∧ cfg.memoryDevice = .pim := by
  have hdst := (ht.request hpim).dstId
  rw [hmemory] at hdst
  cases hd : cfg.dramEnabled <;> cases hp : cfg.pimEnabled <;>
    simp_all [Config.targets, Arbiter.targetIndex, Config.memoryDevice]

theorem arbiterNegedge_reported (hmemory : cfg.npu.memory = if cfg.dramEnabled then .dram else .pim)
    (hc : Carried cfg s) (hkinds : PimWrapper.Kinds s.pim) {t : Payload} {index : Nat}
    {rest : List (Payload × Nat)} (hq : s.arbiter.fwQueue = (t, index) :: rest) :
    Reported cfg s (deliverFw cfg t index {s with arbiter := {s.arbiter with fwQueue := rest}}) [] := by
  obtain ⟨⟨ht, hindex⟩, -⟩ := List.forall_mem_cons.mp (hq ▸ hc.fwQueue)
  dsimp only at ht hindex
  have hdevice : ∀ target, t.isPim = false → cfg.targets[index]? = some target →
      target = .dram ∧ cfg.memoryDevice = .dram ∨ target = .pim ∧ cfg.memoryDevice = .pim := by
    intro target hpim htarget
    rw [hindex] at htarget
    exact forwarded_device hmemory ht hpim htarget
  have hnone : Aside [] := aside_of_none rfl
  have hreturned : (answeredToNpu [] : Multiset Payload) + returning s = returning s := zero_add _
  unfold deliverFw
  split
  · next hdram =>
    refine reported_elsewhere (List.append_nil _).symm rfl rfl hkinds hnone (fun d u hu => ?_) hreturned
    cases d with
    | pim => exact .inl hu
    | dram =>
      rcases List.mem_append.mp hu with hu | hu
      · exact .inl hu
      · obtain rfl := List.mem_singleton.mp hu
        cases hpim : u.isPim with
        | true => exact .inr (.inl rfl)
        | false =>
          rcases hdevice _ hpim hdram with ⟨-, hmem⟩ | ⟨habsurd, -⟩
          · exact .inr (.inr hmem.symm)
          · cases habsurd
  · next target hnot htarget =>
    refine reported_elsewhere (List.append_nil _).symm rfl rfl hkinds hnone (fun d u hu => ?_) hreturned
    cases d with
    | dram => exact .inl hu
    | pim =>
      rcases List.mem_append.mp hu with hu | hu
      · exact .inl hu
      · obtain rfl := List.mem_singleton.mp hu
        cases hpim : u.isPim with
        | true => exact .inr (.inl rfl)
        | false =>
          rcases hdevice _ hpim htarget with ⟨hdram, -⟩ | ⟨-, hmem⟩
          · exact absurd hdram hnot
          · exact .inr (.inr hmem.symm)
  · exact reported_elsewhere (List.append_nil _).symm rfl rfl hkinds hnone (fun d u hu => .inl hu)
      hreturned

/-- The replay thread runs. -/
theorem npu_reported (hkinds : PimWrapper.Kinds s.pim) {npu₀ npu : NpuTraceReplayer.State}
    (hran : NpuTraceReplayer.Ran cfg.npu npu₀ npu effects) (haside : Aside effects)
    (hbw : npu₀.peqBw = s.npu.peqBw) :
    Reported cfg s (performAll {s with npu := npu} effects) effects := by
  have hreturning := returning_performAll {s with npu := npu} effects
  have hanswered : answeredToNpu effects = [] := by
    rw [answeredToNpu, hran.releases, List.filter_nil]
  refine reported_elsewhere rfl ?_ ?_ hkinds haside (fun d t ht => .inl ?_) ?_
  · rw [performAll_eq]
  · rw [performAll_eq]
  · rw [performAll_eq] at ht
    cases d <;> exact ht
  · rw [hanswered, hreturning, hran.responses, Multiset.coe_nil, zero_add, add_zero, returning,
      hran.peqBw, hbw]
    rfl

theorem host_aside (cfg : Config) (now : Time) (activeDram : Bool) (host : Host.State) :
    Aside (Host.processTrace cfg.host cfg.hostAllocate now activeDram host).2 := by
  unfold Host.processTrace
  split
  · split
    · unfold Host.launchStage
      split
      · exact aside_of_none rfl
      · simp [Aside, metricsCalls, Metrics.Call.isRequest]
    · exact aside_of_none rfl
  · exact aside_of_none rfl
  · exact aside_of_none rfl
  · split <;> exact aside_of_none rfl
  · exact aside_of_none rfl

/-- A process of the host. -/
theorem host_reported (hkinds : PimWrapper.Kinds s.pim) {host : Host.State} (served : List Payload)
    (haside : Aside effects) (hresponses : responsesOf effects = []) (hreleases : releasesOf effects = []) :
    Reported cfg s (performAll {s with host := host, served := served} effects) effects := by
  have hreturning := returning_performAll {s with host := host, served := served} effects
  have hanswered : answeredToNpu effects = [] := by rw [answeredToNpu, hreleases, List.filter_nil]
  refine reported_elsewhere rfl ?_ ?_ hkinds haside (fun d t ht => .inl ?_) ?_
  · rw [performAll_eq]
  · rw [performAll_eq]
  · rw [performAll_eq] at ht
    cases d <;> exact ht
  · rw [hanswered, hreturning, hresponses, Multiset.coe_nil, zero_add, add_zero]
    rfl

/-- The NPU takes a response. -/
theorem npuPeqBw_reported (ha : Accounted s) (hkinds : PimWrapper.Kinds s.pim) {t : Payload}
    {rest : List Payload} (hq : s.npu.peqBw = t :: rest) :
    Reported cfg s (runNpu (NpuTraceReplayer.peqBwCb t) {s with npu := {s.npu with peqBw := rest}})
      [.release t] := by
  have ht : t.FromNpu := by
    refine ha.fromNpu t ?_
    rw [traffic_npuPeqBw hq]
    exact Multiset.mem_cons_self t _
  refine reported_elsewhere rfl rfl rfl hkinds (aside_of_none rfl)
    (fun d u hu => .inl (by cases d <;> exact hu)) ?_
  have hone : answeredToNpu [.release t] = [t] := by simp [answeredToNpu, releasesOf, ht]
  have hreturning := returning_performAll {s with npu := (NpuTraceReplayer.peqBwCb t {s.npu with
    peqBw := rest}).1} [.release t]
  rw [hone]
  refine (congrArg (_ + ·) hreturning).trans ?_
  simp only [returning, NpuTraceReplayer.peqBwCb, responsesOf, List.filterMap_cons,
    List.filterMap_nil, Multiset.coe_nil, hq, ← Multiset.cons_coe, ← Multiset.singleton_add]
  abel

/-- A request arrives at the DRAM module. -/
theorem memPeq_reported (hc : Carried cfg s) (hkinds : PimWrapper.Kinds s.pim) {t : Payload}
    {rest : List Payload} (hq : s.memPeq = t :: rest) :
    Reported cfg s (runMem (MemWrapper.peqCb s.now t) {s with memPeq := rest})
      (MemWrapper.peqCb s.now t s.mem).2 := by
  have ht := hc.memPeq t (by rw [hq]; exact List.mem_cons_self)
  obtain ⟨hwaiting, hserving⟩ := MemWrapper.peqCb_atDesk s.now t s.mem
  refine reported_arrival (d := .dram) rfl rfl ht.isPim.symm (fun _ => rfl) ?_ ?_ ?_ hkinds ?_ rfl
  · show t ∈ s.memPeq
    rw [hq]
    exact List.mem_cons_self
  · funext d
    cases d with
    | dram => exact hwaiting
    | pim => rfl
  · funext d
    cases d with
    | dram => exact hserving
    | pim => rfl
  · intro d u hu
    cases d with
    | dram =>
      show u ∈ s.memPeq
      rw [hq]
      exact List.mem_cons_of_mem t hu
    | pim => exact hu

/-- A transaction arrives at the PIM module. -/
theorem pimPeq_reported (hkinds : PimWrapper.Kinds s.pim) {t : Payload} {rest : List Payload}
    (hq : s.pimPeq = t :: rest) :
    Reported cfg s (runPim (PimWrapper.peqCb s.now t) {s with pimPeq := rest})
      (PimWrapper.peqCb s.now t s.pim).2 := by
  obtain ⟨hwaiting, hserving, hkept⟩ := PimWrapper.peqCb_atDesk s.now t s.pim
  refine reported_arrival (d := .pim) rfl rfl rfl (fun hpim => ?_) ?_ ?_ ?_ (hkept hkinds) ?_ rfl
  · rw [if_neg (by simp [hpim])]
  · show t ∈ s.pimPeq
    rw [hq]
    exact List.mem_cons_self
  · funext d
    cases d with
    | dram => rfl
    | pim => exact hwaiting
  · funext d
    cases d with
    | dram => rfl
    | pim => exact hserving
  · intro d u hu
    cases d with
    | dram => exact hu
    | pim =>
      show u ∈ s.pimPeq
      rw [hq]
      exact List.mem_cons_of_mem t hu

/-- A step without a call that leaves the memory modules alone. -/
theorem reported_still (hlog : s'.log = s.log) (hmem : s'.mem = s.mem) (hpim : s'.pim = s.pim)
    (hkinds : PimWrapper.Kinds s.pim) (hpeq : ∀ d, peqAt s' d = peqAt s d)
    (hreturning : returning s' = returning s) : Reported cfg s s' [] := by
  refine reported_elsewhere ?_ hmem hpim hkinds (aside_of_none rfl) (fun d t ht => .inl ?_) ?_
  · rw [hlog, List.append_nil]
  · rwa [hpeq d] at ht
  · rw [hreturning]
    exact zero_add _

end

/-- **What a step reports.** -/
theorem Step.reported {cfg : Config}
    (hmemory : cfg.npu.memory = if cfg.dramEnabled then .dram else .pim) {s s' : State}
    (hc : Carried cfg s) (ha : Accounted s) (hk : PimWrapper.Kinds s.pim) (hstep : Step cfg s s') :
    ∃ effects, Reported cfg s s' effects := by
  cases hstep.2 with
  | elapse d => exact ⟨[], reported_still rfl rfl rfl hk (fun d => by cases d <;> rfl) rfl⟩
  | host =>
    obtain ⟨hlocal, -⟩ := processTrace_moves cfg s.now s.activeDram hc.pendingQ
    exact ⟨_, host_reported hk _ (host_aside cfg _ _ _) hlocal.silent.responses hlocal.releases⟩
  | hostNegedge =>
    refine ⟨_, host_reported hk s.served ?_ ?_ ?_⟩
    all_goals
      unfold Host.clockNegedge
      split
    · exact aside_of_none rfl
    · exact aside_of_none rfl
    all_goals rfl
  | pimTraceDone _ => exact ⟨[], reported_still rfl rfl rfl hk (fun d => by cases d <;> rfl) rfl⟩
  | npuTraceDone _ => exact ⟨[], reported_still rfl rfl rfl hk (fun d => by cases d <;> rfl) rfl⟩
  | arbiterPeqFw t rest hq =>
    exact ⟨[], reported_still rfl rfl rfl hk (fun d => by cases d <;> rfl) rfl⟩
  | arbiterNegedge t index rest hq => exact ⟨[], arbiterNegedge_reported hmemory hc hk hq⟩
  | arbiterPeqBw t rest hq =>
    refine ⟨[], reported_still rfl rfl rfl hk (fun d => by cases d <;> rfl) ?_⟩
    simp only [returning, Arbiter.peqBwCb, hq, List.map_append, List.map_cons, List.map_nil,
      ← Multiset.coe_add, ← Multiset.cons_coe, Multiset.coe_nil, ← Multiset.singleton_add]
    abel
  | arbiterPosedge t index rest hq =>
    have hindex := (List.forall_mem_cons.mp (hq ▸ hc.bwQueue)).1
    dsimp only at hindex
    subst hindex
    refine ⟨[], reported_still rfl rfl rfl hk (fun d => by cases d <;> rfl) ?_⟩
    simp only [returning, deliverBw, hq, one_ne_zero, if_false, List.map_cons, ← Multiset.coe_add,
      ← Multiset.cons_coe, Multiset.coe_nil, ← Multiset.singleton_add]
    abel
  | npuPeqFw t rest hq =>
    refine ⟨[], reported_still rfl rfl rfl hk (fun d => by cases d <;> rfl) ?_⟩
    unfold NpuTraceReplayer.peqFwCb
    split <;> rfl
  | npuStart hstart =>
    exact ⟨_, npu_reported hk (NpuTraceReplayer.startRun_ran hc.npu s.now)
      (NpuTraceReplayer.startRun_aside _ _ _) rfl⟩
  | npuCompute wake rest hthread =>
    exact ⟨_, npu_reported hk (NpuTraceReplayer.endCompute_ran hc.npu s.now)
      (NpuTraceReplayer.endCompute_aside _ _ _) rfl⟩
  | npuPeqBw t rest hq => exact ⟨_, npuPeqBw_reported ha hk hq⟩
  | npuResponse hevent =>
    exact ⟨_, npu_reported hk (NpuTraceReplayer.onResponse_ran hc.npu s.now)
      (NpuTraceReplayer.onResponse_aside _ _ _) rfl⟩
  | memPeq t rest hq => exact ⟨_, memPeq_reported hc hk hq⟩
  | memIterate answers wake onEvent _ _ =>
    have hmoves := MemWrapper.iterate_moves hc.mem cfg.mem {
      active := s.active
      answers := answers} s.now
    have hdesk := MemWrapper.iterate_atDesk hc.mem cfg.mem {
      active := s.active
      answers := answers} s.now
    refine ⟨_, reported_mem hk hdesk hmoves.locals.releases ?_⟩
    rw [hmoves.locals.silent.responses, Multiset.coe_nil, add_zero]
    exact hdesk.returned hc.mem hmoves
  | memPosedge =>
    obtain ⟨hwaiting, hserving, hbw⟩ := MemWrapper.clockPosedge_atDesk s.mem
    have hdesk : MemWrapper.AtDesk s.mem (MemWrapper.clockPosedge s.mem) [] := by
      rw [MemWrapper.AtDesk, hwaiting, hserving]
      exact .nil _ _
    refine ⟨[], ?_⟩
    have hreported : Reported cfg s _ [] := reported_mem hk hdesk rfl (by rw [hbw]; rfl)
    rw [performAll_silent _ (Local.silent (by simp [Local]))] at hreported
    simpa using hreported
  | memNegedge =>
    obtain ⟨hwaiting, hserving, haside, hbw⟩ := MemWrapper.clockNegedge_atDesk s.mem
    refine ⟨_, reported_mem hk ?_ ?_ ?_⟩
    · rw [MemWrapper.AtDesk, hwaiting, hserving]
      exact haside.handles .dram _ _
    · unfold MemWrapper.clockNegedge
      split <;> rfl
    · rw [Metrics.completedOf_asides .dram haside, hbw, Multiset.coe_nil, add_zero, add_comm]
  | pimPeq t rest hq => exact ⟨_, pimPeq_reported hk hq⟩
  | pimIterate answers wake onEvent hthread _ =>
    exact ⟨_, pimThread_reported hk (PimWrapper.iterate_moves hthread _ _ _)
      (PimWrapper.iterate_atDesk hthread _ _ _)⟩
  | pimResume answers t wake hthread =>
    exact ⟨_, pimThread_reported hk (PimWrapper.resume_moves hthread _ _ _)
      (PimWrapper.resume_atDesk hthread _ _ _)⟩
  | pimPosedge =>
    have hdesk := PimWrapper.clockPosedge_atDesk cfg.pim s.now s.pim
    have hnone := Metrics.completedOf_asides .pim
      (aside_of_none (PimWrapper.metricsCalls_clockPosedge cfg.pim s.now s.pim))
    obtain ⟨hback, hreleases⟩ :=
      PimWrapper.clockPosedge_returned cfg.pim s.now fun t ht => (hc.pim t ht).1
    refine ⟨_, reported_pim s.served hk hdesk hreleases ?_⟩
    rw [hnone, hback, Multiset.coe_nil, add_zero, add_comm]
  | pimNegedge =>
    have hdesk := PimWrapper.clockNegedge_atDesk cfg.pim s.now s.pim
    obtain ⟨-, hresponses, hreleases, -⟩ := clockNegedge_quiet cfg.pim s.now s.pim
    have hnone := Metrics.completedOf_asides .pim
      (PimWrapper.clockNegedge_aside cfg.pim s.now s.pim)
    have hs : pimNegedge cfg s = performAll {s with
        pim := (PimWrapper.clockNegedge cfg.pim s.now s.pim).1
        served := s.served ++ s.pim.computeCompletedQueue.take 1}
        (PimWrapper.clockNegedge cfg.pim s.now s.pim).2 := by
      rw [pimNegedge, runPim, performAll_eq, performAll_eq]
    rw [hs]
    refine ⟨_, reported_pim _ hk hdesk hreleases ?_⟩
    rw [hnone, hresponses, PimWrapper.clockNegedge_returned]

end Hsim.System
