import Hsim.Emission
import Hsim.Lib.Stages
import Hsim.MemTraffic
import Hsim.NpuRun
import Hsim.System

/-! The transactions in the system.

Whatever module holds it, a transaction is one of three kinds: a PIM command on
its way from the host to the falling edge that serves it, a request of the NPU
on its way to memory and back, or a launch on its way to the NPU. This module
says where each kind can be, and what the system looks like when only the kinds
are told apart: stages behind a barrier. -/
namespace Hsim.System

open Lib.Stages (Phase Work Marks)

/-! ### What a call does to the system -/

/-- The calls of one activation, all at once. -/
theorem performAll_eq (s : State) (effects : List Effect) :
    performAll s effects = {s with
      npu := {s.npu with
        peqFw := s.npu.peqFw ++ (requestsOf effects).filter (fun t => t.dstId = .npu)}
      arbiter := {s.arbiter with
        peqFw := s.arbiter.peqFw ++ (requestsOf effects).filter (fun t => ¬ t.dstId = .npu)
        peqBw := s.arbiter.peqBw ++ responsesOf effects}
      pimTraceDone := s.pimTraceDone || decide (Effect.pimTraceDone ∈ effects)
      npuTraceDone := s.npuTraceDone || decide (Effect.npuTraceDone ∈ effects)
      activeDram := s.activeDram && decide (Effect.stopDram ∉ effects)
      log := s.log ++ effects} := by
  have hfold : ∀ s : State, effects.foldl perform s = {s with
      npu := {s.npu with
        peqFw := s.npu.peqFw ++ (requestsOf effects).filter (fun t => t.dstId = .npu)}
      arbiter := {s.arbiter with
        peqFw := s.arbiter.peqFw ++ (requestsOf effects).filter (fun t => ¬ t.dstId = .npu)
        peqBw := s.arbiter.peqBw ++ responsesOf effects}
      pimTraceDone := s.pimTraceDone || decide (Effect.pimTraceDone ∈ effects)
      npuTraceDone := s.npuTraceDone || decide (Effect.npuTraceDone ∈ effects)
      activeDram := s.activeDram && decide (Effect.stopDram ∉ effects)} := by
    induction effects with
    | nil => intro s; simp
    | cons e effects ih =>
      intro s
      rw [List.foldl_cons, ih]
      cases e <;> simp [perform, requestsOf, responsesOf]
      split <;> simp_all
  rw [performAll, hfold]

/-- Calls nobody else hears leave the queues and the events alone. -/
theorem performAll_silent (s : State) {effects : List Effect} (h : Silent effects) :
    performAll s effects = {s with
      activeDram := s.activeDram && decide (Effect.stopDram ∉ effects)
      log := s.log ++ effects} := by
  rw [performAll_eq, h.requests, h.responses]
  simp [h.pimTraceDone, h.npuTraceDone]

/-- The replay thread's requests go to the arbiter. -/
theorem performAll_ran (s : State) {cfg : Config} {npu₀ npu : NpuTraceReplayer.State}
    {effects : List Effect} (hran : NpuTraceReplayer.Ran cfg.npu npu₀ npu effects)
    (hmemory : cfg.npu.memory = if cfg.dramEnabled then .dram else .pim) :
    performAll {s with npu := npu} effects = {s with
      npu := npu
      arbiter := {s.arbiter with peqFw := s.arbiter.peqFw ++ requestsOf effects}
      npuTraceDone := s.npuTraceDone || decide (Effect.npuTraceDone ∈ effects)
      activeDram := s.activeDram && decide (Effect.stopDram ∉ effects)
      log := s.log ++ effects} := by
  have hout : ∀ t ∈ requestsOf effects, t.dstId ≠ .npu := by
    intro t ht
    rw [(hran.sent t ht).1.dstId, hmemory]
    split <;> simp
  have hnone : (requestsOf effects).filter (fun t => t.dstId = .npu) = [] := by
    simpa [List.filter_eq_nil_iff] using hout
  have hall : (requestsOf effects).filter (fun t => ¬ t.dstId = .npu) = requestsOf effects := by
    simpa [List.filter_eq_self] using hout
  rw [performAll_eq, hnone, hall, hran.responses]
  simp [hran.pimTraceDone]

/-- Of the calls of the PIM's falling edge only the end of its path is heard outside. -/
theorem clockNegedge_quiet (cfg : PimWrapper.Config) (now : Time) (s : PimWrapper.State) :
    requestsOf (PimWrapper.clockNegedge cfg now s).2 = [] ∧
      responsesOf (PimWrapper.clockNegedge cfg now s).2 = [] ∧
      releasesOf (PimWrapper.clockNegedge cfg now s).2 = [] ∧
      Effect.npuTraceDone ∉ (PimWrapper.clockNegedge cfg now s).2 := by
  rcases PimWrapper.clockNegedge_serves cfg now s with
    ⟨-, hidle⟩ | ⟨t, rest, effects, -, heffects, hlocal, -, -⟩
  · rw [hidle]
    exact ⟨rfl, rfl, rfl, by simp⟩
  · have hsilent := hlocal.silent
    rw [heffects, requestsOf_append, responsesOf_append, releasesOf_append, hsilent.requests,
      hsilent.responses, hlocal.releases]
    cases t.last <;> exact ⟨rfl, rfl, rfl, by simp [hsilent.npuTraceDone]⟩

theorem pimNegedge_idle {cfg : Config} {s : State} (hq : s.pim.computeCompletedQueue = []) :
    pimNegedge cfg s = performAll s [] := by
  simp [pimNegedge, runPim, PimWrapper.clockNegedge, hq, performAll]

/-- A response to the NPU leaves through the second socket. -/
theorem peqBwCb_npu {t : Payload} (ht : t.srcId = .npu) (a : Arbiter.State) :
    Arbiter.peqBwCb t a = {a with bwQueue := a.bwQueue ++ [(t, 1)]} := by
  simp [Arbiter.peqBwCb, ht]

/-! The host's falling edge sends the front of its queue to the NPU or the arbiter. -/

theorem hostNegedge_idle {s : State} (hq : s.host.pendingQ = []) : hostNegedge s = performAll s [] := by
  simp only [hostNegedge, Host.clockNegedge, hq]

theorem hostNegedge_launch {s : State} {t : Payload} {rest : List Payload}
    (hq : s.host.pendingQ = t :: rest) (hdst : t.dstId = .npu) : hostNegedge s = {s with
      host := {s.host with pendingQ := rest}
      npu := {s.npu with peqFw := s.npu.peqFw ++ [t]}
      log := s.log ++ [.request t]} := by
  simp [hostNegedge, Host.clockNegedge, hq, performAll, perform, hdst]

theorem hostNegedge_command {s : State} {t : Payload} {rest : List Payload}
    (hq : s.host.pendingQ = t :: rest) (hdst : t.dstId ≠ .npu) : hostNegedge s = {s with
      host := {s.host with pendingQ := rest}
      arbiter := {s.arbiter with peqFw := s.arbiter.peqFw ++ [t]}
      log := s.log ++ [.request t]} := by
  simp [hostNegedge, Host.clockNegedge, hq, performAll, perform, hdst]

/-! ### The three kinds -/

/-- The PIM commands that are not served, the next one in front. -/
def lane (s : State) : List Payload :=
  PimWrapper.computeLane s.pim ++ s.pimPeq.filter Payload.isPim ++
    (s.arbiter.fwQueue.map (·.1)).filter Payload.isPim ++ s.arbiter.peqFw.filter Payload.isPim ++
    s.host.pendingQ.filter Payload.isPim

/-- The NPU's requests that are not answered. -/
def traffic (s : State) : Multiset Payload :=
  (s.arbiter.peqFw.filter (fun t => t.isPim = false) : List Payload) +
    ((s.arbiter.fwQueue.map (·.1)).filter (fun t => t.isPim = false) : List Payload) +
    (s.memPeq : Multiset Payload) + MemWrapper.held s.mem +
    (s.pimPeq.filter (fun t => t.isPim = false) : List Payload) + PimWrapper.memoryHeld s.pim +
    (s.arbiter.peqBw : Multiset Payload) + (s.arbiter.bwQueue.map (·.1) : List Payload) +
    (s.npu.peqBw : Multiset Payload)

/-- The launches the NPU has not seen. -/
def launches (s : State) : List Payload :=
  s.npu.peqFw ++ s.host.pendingQ.filter (fun t => t.dstId = .npu)

def phaseOf : Host.Thread → Phase
  | .nextControl => .idle
  | .barrier _ pim npu => .barrier pim npu
  | _ => .halted

def marks : Marks Payload where
  stage := Payload.stage
  last := Payload.last

/-- The system as stages behind a barrier: the host coordinates, the PIM path is the
lane and the NPU the worker. -/
def view (s : State) : Lib.Stages.State Payload where
  phase := phaseOf s.host.thread
  stage := s.host.stage
  emitted := s.host.emitted
  served := s.served
  lane := lane s
  traffic := traffic s
  starts := launches s
  armed := s.npu.startEvent
  running := decide (s.npu.thread ≠ .waitStart)
  workerStage := s.npu.stage
  laneDone := s.pimTraceDone
  workerDone := s.npuTraceDone

/-- The job lists of the stages: emissions, with the identities of their payloads. -/
def Config.Emits (cfg : Config) (jobs : List Payload) : Prop :=
  ∃ control transactions, ∃ ptr : Nat → Nat, ∃ stage,
    cfg.host.emission control = .ok transactions ∧
      jobs = transactions.mapIdx fun i t => {t with
        ptr := ptr i
        stage := stage}

/-! ### How the traffic moves -/

/-- The front of a queue among its requests. -/
theorem requests_cons (t : Payload) (rest : List Payload) :
    (t :: rest).filter (fun t => t.isPim = false) =
      [t].filter (fun t => t.isPim = false) ++ rest.filter (fun t => t.isPim = false) := by
  rw [← List.filter_append, List.singleton_append]

section
variable {s : State} {t : Payload} {rest : List Payload}

theorem traffic_memPeq (hq : s.memPeq = t :: rest) {mem : MemWrapper.State}
    (hheld : MemWrapper.held mem = t ::ₘ MemWrapper.held s.mem) :
    traffic {s with memPeq := rest, mem := mem} = traffic s := by
  simp only [traffic, hheld, hq, ← Multiset.cons_coe, ← Multiset.singleton_add]
  abel

theorem traffic_memRespond {mem : MemWrapper.State}
    (hheld : MemWrapper.held s.mem = t ::ₘ MemWrapper.held mem) :
    traffic {s with
      mem := mem
      arbiter := {s.arbiter with peqBw := s.arbiter.peqBw ++ [t]}} = traffic s := by
  simp only [traffic, hheld, ← Multiset.coe_add, Multiset.coe_singleton, ← Multiset.singleton_add]
  abel

theorem traffic_pimPeq (hq : s.pimPeq = t :: rest) {pim : PimWrapper.State}
    (hheld : PimWrapper.memoryHeld pim =
      PimWrapper.memoryHeld s.pim + ([t].filter (fun t => t.isPim = false) : List Payload)) :
    traffic {s with pimPeq := rest, pim := pim} = traffic s := by
  simp only [traffic, hheld, hq, requests_cons t rest, ← Multiset.coe_add]
  abel

theorem traffic_pimRespond {pim : PimWrapper.State}
    (hheld : PimWrapper.memoryHeld s.pim = t ::ₘ PimWrapper.memoryHeld pim) :
    traffic {s with
      pim := pim
      arbiter := {s.arbiter with peqBw := s.arbiter.peqBw ++ [t]}} = traffic s := by
  simp only [traffic, hheld, ← Multiset.coe_add, Multiset.coe_singleton, ← Multiset.singleton_add]
  abel

theorem traffic_arbiterPeqFw (hq : s.arbiter.peqFw = t :: rest) (dramEnabled : Bool) :
    traffic {s with arbiter := Arbiter.peqFwCb dramEnabled t {s.arbiter with peqFw := rest}} =
      traffic s := by
  simp only [traffic, Arbiter.peqFwCb, hq, requests_cons t rest, List.map_append, List.map_cons,
    List.map_nil, List.filter_append, ← Multiset.coe_add]
  abel

theorem traffic_forward {index : Nat} {queue : List (Payload × Nat)}
    (hq : s.arbiter.fwQueue = (t, index) :: queue) :
    traffic s = traffic {s with arbiter := {s.arbiter with fwQueue := queue}} +
      ([t].filter (fun t => t.isPim = false) : List Payload) := by
  simp only [traffic, hq, List.map_cons, requests_cons t (queue.map _), ← Multiset.coe_add]
  abel

theorem traffic_forwardPim {index : Nat} {queue : List (Payload × Nat)}
    (hq : s.arbiter.fwQueue = (t, index) :: queue) :
    traffic {s with
      arbiter := {s.arbiter with fwQueue := queue}
      pimPeq := s.pimPeq ++ [t]} = traffic s := by
  rw [traffic_forward hq]
  simp only [traffic, List.filter_append, ← Multiset.coe_add]
  abel

theorem traffic_forwardMem {index : Nat} {queue : List (Payload × Nat)}
    (hq : s.arbiter.fwQueue = (t, index) :: queue) (hpim : t.isPim = false) :
    traffic {s with
      arbiter := {s.arbiter with fwQueue := queue}
      memPeq := s.memPeq ++ [t]} = traffic s := by
  have hone : [t].filter (fun t => t.isPim = false) = [t] := by simp [hpim]
  rw [traffic_forward hq, hone]
  simp only [traffic, ← Multiset.coe_add]
  abel

theorem traffic_arbiterPeqBw (hq : s.arbiter.peqBw = t :: rest) (index : Nat) :
    traffic {s with arbiter := {s.arbiter with
      peqBw := rest
      bwQueue := s.arbiter.bwQueue ++ [(t, index)]}} = traffic s := by
  simp only [traffic, hq, List.map_append, List.map_cons, List.map_nil, ← Multiset.coe_add,
    ← Multiset.cons_coe, ← Multiset.singleton_add]
  abel

theorem traffic_deliverBw {index : Nat} {queue : List (Payload × Nat)}
    (hq : s.arbiter.bwQueue = (t, index) :: queue) :
    traffic {s with
      arbiter := {s.arbiter with bwQueue := queue}
      npu := {s.npu with peqBw := s.npu.peqBw ++ [t]}} = traffic s := by
  simp only [traffic, hq, List.map_cons, ← Multiset.coe_add, ← Multiset.cons_coe,
    ← Multiset.singleton_add]
  abel

theorem traffic_npuPeqBw (hq : s.npu.peqBw = t :: rest) :
    traffic s = t ::ₘ traffic {s with npu := {s.npu with peqBw := rest}} := by
  simp only [traffic, hq, ← Multiset.cons_coe, Multiset.add_cons]

theorem traffic_ran {cfg : NpuTraceReplayer.Config} {npu₀ npu : NpuTraceReplayer.State}
    {effects : List Effect} (hran : NpuTraceReplayer.Ran cfg npu₀ npu effects)
    (hbw : npu₀.peqBw = s.npu.peqBw) :
    traffic {s with
      npu := npu
      arbiter := {s.arbiter with peqFw := s.arbiter.peqFw ++ requestsOf effects}} =
      traffic s + requestsOf effects := by
  have hkind : (requestsOf effects).filter (fun t => t.isPim = false) = requestsOf effects := by
    simpa [List.filter_eq_self] using fun t ht => (hran.sent t ht).1.fromNpu.isPim
  simp only [traffic, List.filter_append, hkind, hran.peqBw, hbw, ← Multiset.coe_add]
  abel

/-! ### How the lane moves -/

theorem lane_pimPeq (hq : s.pimPeq = t :: rest) {pim : PimWrapper.State}
    (hcompute : PimWrapper.computeLane pim =
      PimWrapper.computeLane s.pim ++ [t].filter Payload.isPim) :
    lane {s with pimPeq := rest, pim := pim} = lane s := by
  simp only [lane, hcompute, hq, List.append_assoc, ← List.filter_append, List.singleton_append]

theorem lane_arbiterPeqFw (hq : s.arbiter.peqFw = t :: rest) (dramEnabled : Bool) :
    lane {s with arbiter := Arbiter.peqFwCb dramEnabled t {s.arbiter with peqFw := rest}} = lane s := by
  simp only [lane, Arbiter.peqFwCb, hq, List.map_append, List.map_cons, List.map_nil,
    List.append_assoc, List.filter_append, List.filter_cons, List.filter_nil]
  split <;> rfl

theorem lane_forwardPim {index : Nat} {queue : List (Payload × Nat)}
    (hq : s.arbiter.fwQueue = (t, index) :: queue) :
    lane {s with
      arbiter := {s.arbiter with fwQueue := queue}
      pimPeq := s.pimPeq ++ [t]} = lane s := by
  simp only [lane, hq, List.map_cons, List.append_assoc, List.filter_append, List.filter_cons,
    List.filter_nil]
  split <;> rfl

theorem lane_forwardMem {index : Nat} {queue : List (Payload × Nat)}
    (hq : s.arbiter.fwQueue = (t, index) :: queue) (hpim : t.isPim = false) :
    lane {s with
      arbiter := {s.arbiter with fwQueue := queue}
      memPeq := s.memPeq ++ [t]} = lane s := by
  simp [lane, hq, hpim]

/-- A command leaves the host. -/
theorem lane_hostCommand (hq : s.host.pendingQ = t :: rest) :
    lane {s with
      host := {s.host with pendingQ := rest}
      arbiter := {s.arbiter with peqFw := s.arbiter.peqFw ++ [t]}} = lane s := by
  simp only [lane, hq, List.append_assoc, List.filter_append, List.filter_cons, List.filter_nil]
  split <;> rfl

/-- A launch leaves the host. -/
theorem lane_hostLaunch (hq : s.host.pendingQ = t :: rest) (hpim : t.isPim = false) :
    lane {s with host := {s.host with pendingQ := rest}} = lane s := by
  simp [lane, hq, hpim]

end

/-! ### Where each kind can be -/

/-- How the modules are put together: both memory modules in the same mode, the NPU's
requests sent to the module that is there, and nothing sent in fast-layer mode that
would not stay out of the bridges. -/
structure Config.Linked (cfg : Config) : Prop where
  pimEnabled : cfg.pimEnabled = true
  memory : cfg.npu.memory = if cfg.dramEnabled then .dram else .pim
  mode : cfg.mem.fastLayerMode = cfg.pim.fastLayerMode
  npuFits : cfg.pim.fastLayerMode = true → cfg.npu.profile.fastLayerMode = true
  hostFits : cfg.pim.fastLayerMode = true → ∀ control transactions,
    cfg.host.emission control = .ok transactions → ∀ t ∈ transactions, t.staysLocal = true

/-- A PIM command of the host. -/
structure Config.Command (cfg : Config) (t : Payload) : Prop where
  isPim : t.isPim = true
  dstId : t.dstId = .pim
  fits : cfg.pim.fastLayerMode = true → t.staysLocal = true

/-- A launch of the NPU. -/
def IsLaunch (t : Payload) : Prop := t.command = .compute ∧ t.dstId = .npu

theorem IsLaunch.isPim {t : Payload} (h : IsLaunch t) : t.isPim = false := by
  simp [Payload.isPim, h.1]

/-- A transaction on its way to a memory module. -/
def Config.Outbound (cfg : Config) (t : Payload) : Prop := cfg.Command t ∨ cfg.npu.Request t

structure ArbiterWired (cfg : Config) (a : Arbiter.State) : Prop where
  peqFw : ∀ t ∈ a.peqFw, cfg.Outbound t
  fwQueue : ∀ e ∈ a.fwQueue, cfg.Outbound e.1 ∧ e.2 = Arbiter.targetIndex cfg.dramEnabled e.1
  peqBw : ∀ t ∈ a.peqBw, t.srcId = .npu
  bwQueue : ∀ e ∈ a.bwQueue, e.2 = 1

structure HostWired (cfg : Config) (h : Host.State) : Prop where
  pendingQ : ∀ t ∈ h.pendingQ, cfg.Command t ∨ IsLaunch t
  readRspQ : h.readRspQ = []
  halting : h.activeHost = false → phaseOf h.thread = .halted

structure Wired (cfg : Config) (s : State) : Prop where
  host : HostWired cfg s.host
  arbiter : ArbiterWired cfg s.arbiter
  npu : NpuTraceReplayer.Inv cfg.npu s.npu
  launches : ∀ t ∈ s.npu.peqFw, IsLaunch t
  memPeq : ∀ t ∈ s.memPeq, cfg.npu.Request t
  mem : MemWrapper.Serves cfg.mem s.mem
  pimPeq : ∀ t ∈ s.pimPeq, cfg.Outbound t
  pim : PimWrapper.Direct cfg.pim s.pim
  pimHeld : ∀ t ∈ PimWrapper.memoryHeld s.pim, t.FromNpu
  pending : (traffic s).card = s.npu.pendingResponses.toNat

theorem wired_initial (cfg : Config) {controls : List TraceGenerator.SpeculativeControl} {s : State}
    (h : Initial controls s) : Wired cfg s := by
  subst h
  refine ⟨⟨by simp, rfl, by simp⟩, ⟨by simp, by simp, by simp, by simp⟩,
    NpuTraceReplayer.inv_initial _, by simp, by simp, MemWrapper.serves_initial _, by simp,
    PimWrapper.direct_initial _, ?_, ?_⟩
  · simp [PimWrapper.memoryHeld, PimWrapper.State.inFlight, PimWrapper.waiting,
      PimWrapper.State.completedQueue, PimWrapper.State.fastCompletedQueue]
  · simp [traffic, MemWrapper.held, MemWrapper.sent, PimWrapper.memoryHeld,
      PimWrapper.State.inFlight, PimWrapper.waiting, PimWrapper.State.completedQueue,
      PimWrapper.State.fastCompletedQueue]

/-- What a step amounts to. -/
def Refines (cfg : Config) (s s' : State) : Prop :=
  Wired cfg s' ∧ (view s' = view s ∨ Lib.Stages.Step marks cfg.Emits (view s) (view s'))

/-- Transactions that move within their kind are not seen. -/
theorem view_eq {s s' : State} (hlane : lane s' = lane s) (htraffic : traffic s' = traffic s)
    (hlaunches : launches s' = launches s)
    (hrest : {view s' with lane := [], traffic := 0, starts := []} =
      ({view s with lane := [], traffic := 0, starts := []} : Lib.Stages.State Payload)) :
    view s' = view s := by
  have hsplit : ∀ s, view s =
      {({view s with lane := [], traffic := 0, starts := []} : Lib.Stages.State Payload) with
        lane := lane s
        traffic := traffic s
        starts := launches s} := fun _ => rfl
  rw [hsplit s', hsplit s, hrest, hlane, htraffic, hlaunches]

end Hsim.System
