import Hsim.DraftCommands
import Hsim.Launches

/-! The draft's commands on their way, whatever the modes.

From the host to the falling edge of the PIM module the commands of a record keep
their order, as long as all of them take the same path through the module. So
the event of the PIM path, raised by the marked command, says that every command
of the record has been served. An unbound socket can lose a command; it also
ends the simulation. -/
namespace Hsim.System

open TraceGenerator (SpeculativeControl)

/-- The host has seen the event of the PIM path. -/
def pimSeen : Host.Thread → Bool
  | .barrier _ pim _ => pim
  | _ => false

/-- The host and the PIM path, as a coordinator and its lane. -/
def laneOf (s : State) : Lib.Lane.State Payload where
  waiting := atBarrier s.host.thread
  seen := pimSeen s.host.thread
  raised := s.pimTraceDone
  emitted := s.host.emitted
  served := s.served
  lane := lane s

/-- The commands of the current record are in order and routed alike. -/
structure Lined (cfg : Config) (route : Bool) (s : State) : Prop where
  routed : PimWrapper.Routed cfg.pim route s.pim
  fits : ∀ t ∈ s.host.emitted, cfg.pim.localCompute t = route
  order : Lib.Lane.Inv Payload.last (laneOf s)

theorem lined_initial (cfg : Config) (route : Bool) {controls : List SpeculativeControl} {s : State}
    (h : Initial controls s) : Lined cfg route s := by
  subst h
  exact ⟨PimWrapper.routed_initial _ _, by simp, Lib.Lane.inv_initial _⟩

section
variable {cfg : Config} {route : Bool} {s s' : State}

theorem Lined.mem_emitted (h : Lined cfg route s) {t : Payload} (ht : t ∈ lane s) :
    t ∈ s.host.emitted := by
  have horder : s.served ++ lane s = s.host.emitted := h.order.order
  rw [← horder]
  exact List.mem_append_right _ ht

/-- Calls that send no command. -/
theorem lane_performAll (s : State) {effects : List Effect}
    (hrequests : ∀ t ∈ requestsOf effects, t.isPim = false) : lane (performAll s effects) = lane s := by
  have hnone : ((requestsOf effects).filter (fun t => ¬ t.dstId = .npu)).filter Payload.isPim = [] := by
    rw [List.filter_eq_nil_iff]
    intro t ht
    simp [hrequests t (List.mem_of_mem_filter ht)]
  rw [performAll_eq]
  simp only [lane, List.filter_append, hnone, List.append_nil]

/-- A step in which no command moves. -/
theorem Lined.still (h : Lined cfg route s) (hrouted : PimWrapper.Routed cfg.pim route s'.pim)
    (hhost : s'.host = s.host) (hserved : s'.served = s.served)
    (hraised : s'.pimTraceDone = s.pimTraceDone) (hlane : lane s' = lane s) : Lined cfg route s' := by
  have hsame : laneOf s' = laneOf s := by
    simp only [laneOf, hhost, hserved, hraised, hlane]
  exact ⟨hrouted, hhost ▸ h.fits, hsame ▸ h.order⟩

/-- Calls that neither send a command nor raise the event. -/
theorem Lined.calls (h : Lined cfg route s) {effects : List Effect}
    (hrequests : ∀ t ∈ requestsOf effects, t.isPim = false) (hdone : Effect.pimTraceDone ∉ effects) :
    Lined cfg route (performAll s effects) := by
  have hmoved := lane_performAll s hrequests
  rw [performAll_eq] at hmoved ⊢
  refine h.still h.routed rfl rfl ?_ hmoved
  simp [hdone]

theorem Lined.local (h : Lined cfg route s) {effects : List Effect} (hlocal : Local effects) :
    Lined cfg route (performAll s effects) :=
  h.calls (by simp [hlocal.silent.requests]) hlocal.silent.pimTraceDone

/-- The host thread runs. -/
theorem runHost_lined (hroute : ∀ control transactions, cfg.host.emission control = .ok transactions →
      ∀ t ∈ transactions, cfg.pim.localCompute t = route)
    (h : Lined cfg route s) : Lined cfg route (runHost cfg s) := by
  cases runHost_turn cfg s with
  | launched control rest transactions hthread _ hemission hs =>
    have hjobs := stageCommands hemission (fun i => cfg.hostAllocate (s.host.allocated + (i + 1)))
      (s.host.stage + 1)
    have honly := cfg.host.emission_onlyLast hemission
      (fun i => cfg.hostAllocate (s.host.allocated + (i + 1))) (s.host.stage + 1)
    have hfits : ∀ t ∈ (stagePayloads cfg s.host control transactions).tail,
        cfg.pim.localCompute t = route := by
      intro t ht
      obtain ⟨i, hi, rfl⟩ := List.mem_mapIdx.mp ht
      exact hroute control transactions hemission transactions[i] (List.getElem_mem hi)
    have hpim : (stagePayloads cfg s.host control transactions).filter Payload.isPim =
        (stagePayloads cfg s.host control transactions).tail := by
      rw [stagePayloads, List.filter_cons_of_neg (by simp [Payload.isPim, Host.Config.launch]),
        List.tail_cons, List.filter_eq_self]
      exact fun t ht => (hjobs t ht).1
    have hidle : (laneOf s).waiting = false := by
      rw [laneOf, hthread]
      rfl
    have hlaunch := h.order.launch hidle honly
    rw [hs]
    refine ⟨⟨⟨h.routed.kinds, h.routed.noneInBridge, h.routed.noneLocal⟩, h.routed.fits⟩, hfits, ?_⟩
    have hlane : lane {s with host := launchedHost cfg s.host control rest transactions} =
        lane s ++ (stagePayloads cfg s.host control transactions).tail := by
      simp only [lane, launchedHost, List.filter_append, hpim, List.append_assoc]
    have hsame : laneOf {s with
        host := launchedHost cfg s.host control rest transactions
        served := []} = {laneOf s with
          waiting := true
          seen := false
          emitted := (stagePayloads cfg s.host control transactions).tail
          served := []
          lane := lane s ++ (stagePayloads cfg s.host control transactions).tail} := by
      rw [← hlane]
      rfl
    exact hsame ▸ hlaunch
  | passed layer hthread hs =>
    have hwaiting : (laneOf s).waiting = true := by
      rw [laneOf, hthread]
      rfl
    have hseen : (laneOf s).seen = true := by
      rw [laneOf, hthread]
      rfl
    rw [hs]
    exact ⟨⟨⟨h.routed.kinds, h.routed.noneInBridge, h.routed.noneLocal⟩, h.routed.fits⟩, h.fits,
      h.order.pass hwaiting hseen false⟩
  | other thread active effects hthread _ hs =>
    rw [hs]
    refine ⟨⟨⟨h.routed.kinds, h.routed.noneInBridge, h.routed.noneLocal⟩, h.routed.fits⟩, h.fits, ?_⟩
    rcases hthread with rfl | ⟨hfrom, hto⟩
    · exact h.order
    · have hseen : ∀ thread, atBarrier thread = false → pimSeen thread = false := by
        intro thread hnot
        cases thread with
        | barrier layer pim npu => cases hnot
        | _ => rfl
      have hsame : laneOf {s with host := {s.host with
          thread := thread
          activeHost := active}} = laneOf s := by
        simp only [laneOf, hfrom, hto, hseen _ hfrom, hseen _ hto]
        rfl
      exact hsame ▸ h.order

theorem hostNegedge_lined (hc : Carried cfg s) (h : Lined cfg route s) :
    Lined cfg route (hostNegedge s) := by
  have hkeep : ∀ {s₀ : State} {rest : List Payload}, s₀.host = {s.host with pendingQ := rest} →
      s₀.pim = s.pim → s₀.served = s.served → s₀.pimTraceDone = s.pimTraceDone → lane s₀ = lane s →
      Lined cfg route s₀ := by
    intro s₀ rest hhost hpim hserved hraised hlane
    have hsame : laneOf s₀ = laneOf s := by
      simp only [laneOf, hhost, hserved, hraised, hlane]
    exact ⟨hpim ▸ h.routed, hhost ▸ h.fits, hsame ▸ h.order⟩
  cases hq : s.host.pendingQ with
  | nil =>
    rw [hostNegedge_idle hq]
    exact h.local (by simp [Local])
  | cons t rest =>
    rcases hc.pendingQ t (by rw [hq]; exact List.mem_cons_self) with ht | ht
    · rw [hostNegedge_command hq (by simp [ht.2])]
      exact hkeep rfl rfl rfl rfl (lane_hostCommand hq)
    · rw [hostNegedge_launch hq ht.2]
      exact hkeep rfl rfl rfl rfl (lane_hostLaunch hq ht.isPim)

/-- The event of the PIM path is noted. -/
theorem notePim_lined (h : Lined cfg route s) (hdone : s.pimTraceDone = true) :
    Lined cfg route {s with pimTraceDone := false, host := Host.notePim s.host} := by
  obtain ⟨hwaiting, hsee⟩ := h.order.see hdone
  obtain ⟨layer, pim, npu, hthread⟩ : ∃ layer pim npu, s.host.thread = .barrier layer pim npu := by
    have hat : atBarrier s.host.thread = true := hwaiting
    cases hthread : s.host.thread with
    | barrier layer pim npu => exact ⟨layer, pim, npu, rfl⟩
    | _ => simp [hthread, atBarrier] at hat
  have hnote : Host.notePim s.host = {s.host with thread := .barrier layer true npu} := by
    simp only [Host.notePim, hthread]
  rw [hnote]
  refine ⟨⟨⟨h.routed.kinds, h.routed.noneInBridge, h.routed.noneLocal⟩, h.routed.fits⟩, h.fits, ?_⟩
  have hsame : laneOf {s with
      pimTraceDone := false
      host := {s.host with thread := .barrier layer true npu}} = {laneOf s with
        raised := false
        seen := true} := by
    simp only [laneOf, hthread]
    rfl
  exact hsame ▸ hsee

theorem noteNpu_lined (h : Lined cfg route s) :
    Lined cfg route {s with npuTraceDone := false, host := Host.noteNpu s.host} := by
  unfold Host.noteNpu
  split
  · next layer pim npu hthread =>
    refine ⟨⟨⟨h.routed.kinds, h.routed.noneInBridge, h.routed.noneLocal⟩, h.routed.fits⟩, h.fits, ?_⟩
    have hsame : laneOf {s with
        npuTraceDone := false
        host := {s.host with thread := .barrier layer pim true}} = laneOf s := by
      simp only [laneOf, hthread]
      rfl
    exact hsame ▸ h.order
  · exact ⟨h.routed, h.fits, h.order⟩

/-- A command is never forwarded to the DRAM module. -/
theorem command_forwarded {t : Payload} (ht : IsCommand t) :
    cfg.targets[Arbiter.targetIndex cfg.dramEnabled t]? ≠ some .dram := by
  cases hd : cfg.dramEnabled <;> cases hp : cfg.pimEnabled <;>
    simp [Config.targets, Arbiter.targetIndex, hd, hp, ht.2]

theorem arbiterNegedge_lined (hc : Carried cfg s) (h : Lined cfg route s) {t : Payload} {index : Nat}
    {rest : List (Payload × Nat)} (hq : s.arbiter.fwQueue = (t, index) :: rest)
    (hok : (deliverFw cfg t index {s with arbiter := {s.arbiter with fwQueue := rest}}).failed = false) :
    Lined cfg route (deliverFw cfg t index {s with arbiter := {s.arbiter with fwQueue := rest}}) := by
  obtain ⟨⟨ht, hindex⟩, -⟩ := List.forall_mem_cons.mp (hq ▸ hc.fwQueue)
  dsimp only at ht hindex
  unfold deliverFw at hok ⊢
  split
  · next hdram =>
    have hpim : t.isPim = false := by
      rcases ht with ht | ht
      · rw [hindex] at hdram
        exact absurd hdram (command_forwarded ht)
      · exact ht.fromNpu.isPim
    exact h.still h.routed rfl rfl rfl (lane_forwardMem hq hpim)
  · exact h.still h.routed rfl rfl rfl (lane_forwardPim hq)
  · next hnone =>
    rw [hnone] at hok
    cases hok

/-- The replay thread runs. -/
theorem npu_lined (h : Lined cfg route s) {npu₀ npu : NpuTraceReplayer.State} {effects : List Effect}
    (hran : NpuTraceReplayer.Ran cfg.npu npu₀ npu effects) :
    Lined cfg route (performAll {s with npu := npu} effects) := by
  have hs : Lined cfg route {s with npu := npu} := h.still h.routed rfl rfl rfl rfl
  exact hs.calls (fun t ht => (hran.sent t ht).1.fromNpu.isPim) hran.pimTraceDone

/-- A process inside the PIM module. -/
theorem pim_lined (h : Lined cfg route s) {pim : PimWrapper.State} {effects : List Effect}
    (hlane : PimWrapper.KeepsLane cfg.pim route s.pim pim) (hlocal : Local effects) :
    Lined cfg route (performAll {s with pim := pim} effects) := by
  rw [performAll_silent _ hlocal.silent]
  refine h.still hlane.1 rfl rfl rfl ?_
  simp only [lane, hlane.2]

theorem pimPeq_lined (h : Lined cfg route s) {t : Payload} {rest : List Payload}
    (hq : s.pimPeq = t :: rest) :
    Lined cfg route (runPim (PimWrapper.peqCb s.now t) {s with pimPeq := rest}) := by
  have hfits : t.isPim = true → cfg.pim.localCompute t = route := by
    intro hpim
    refine h.fits t (h.mem_emitted ?_)
    simp [lane, hq, hpim]
  obtain ⟨hrouted, hcompute⟩ := PimWrapper.peqCb_routed h.routed s.now hfits
  have hlocal : Local (PimWrapper.peqCb s.now t s.pim).2 := by
    simp [Local, PimWrapper.peqCb, Effect.isLocal]
  rw [runPim, performAll_silent _ hlocal.silent]
  exact h.still hrouted rfl rfl rfl (lane_pimPeq hq hcompute)

theorem pimPosedge_lined (hc : Carried cfg s) (h : Lined cfg route s) :
    Lined cfg route (runPim (PimWrapper.clockPosedge cfg.pim s.now) s) := by
  obtain ⟨hcompute, -, hrouted⟩ := PimWrapper.clockPosedge_lane cfg.pim s.now s.pim
  have hcalls : (∀ t ∈ requestsOf (PimWrapper.clockPosedge cfg.pim s.now s.pim).2, t.isPim = false) ∧
      Effect.pimTraceDone ∉ (PimWrapper.clockPosedge cfg.pim s.now s.pim).2 := by
    rcases PimWrapper.clockPosedge_answers cfg.pim s.now (fun t ht => (hc.pim t ht).1) with
      hidle | ⟨t, heffects, -, -⟩
    · simp [hidle, requestsOf]
    · simp [heffects, requestsOf]
  have hlane : lane {s with pim := (PimWrapper.clockPosedge cfg.pim s.now s.pim).1} = lane s := by
    simp only [lane, hcompute]
  have hmoved := lane_performAll {s with pim := (PimWrapper.clockPosedge cfg.pim s.now s.pim).1} hcalls.1
  rw [runPim, performAll_eq]
  rw [performAll_eq] at hmoved
  refine h.still (hrouted route h.routed) rfl rfl ?_ (hmoved.trans hlane)
  simp [hcalls.2]

/-- The falling edge serves the next command. -/
theorem pimNegedge_lined (h : Lined cfg route s) : Lined cfg route (pimNegedge cfg s) := by
  obtain ⟨hcompute, -, hrouted⟩ := PimWrapper.clockNegedge_lane cfg.pim s.now s.pim
  rcases PimWrapper.clockNegedge_serves cfg.pim s.now s.pim with
    ⟨hq, -⟩ | ⟨t, rest, effects, hq, heffects, hlocal, -, -⟩
  · rw [pimNegedge_idle hq]
    exact h.local (by simp [Local])
  · have hfront : lane s = t :: lane {s with
        pim := (PimWrapper.clockNegedge cfg.pim s.now s.pim).1} := by
      simp only [lane, hcompute, hq, List.take_succ_cons, List.take_zero, List.cons_append,
        List.nil_append]
    have hserve := h.order.serve hfront
    have hcalls : requestsOf (effects ++ if t.last then [.pimTraceDone] else []) = [] := by
      rw [requestsOf_append, hlocal.silent.requests]
      cases t.last <;> rfl
    have hraised : decide (Effect.pimTraceDone ∈ effects ++ if t.last then [.pimTraceDone] else []) =
        t.last := by
      cases t.last <;> simp [hlocal.silent.pimTraceDone]
    rw [pimNegedge, runPim, heffects, performAll_eq, hq, hcalls]
    refine ⟨hrouted route h.routed, h.fits, ?_⟩
    convert hserve using 1
    simp only [laneOf, hraised, List.filter_nil, List.append_nil, List.take_succ_cons, List.take_zero]
    rfl

end

/-- **A step keeps the commands of a record in order**, unless it ends the simulation. -/
theorem Step.lined {cfg : Config} {route : Bool}
    (hroute : ∀ control transactions, cfg.host.emission control = .ok transactions →
      ∀ t ∈ transactions, cfg.pim.localCompute t = route)
    {s s' : State} (hc : Carried cfg s) (h : Lined cfg route s) (hstep : Step cfg s s')
    (hok : s'.failed = false) : Lined cfg route s' := by
  cases hstep.2 with
  | elapse d => exact ⟨h.routed, h.fits, h.order⟩
  | host => exact runHost_lined hroute h
  | hostNegedge => exact hostNegedge_lined hc h
  | pimTraceDone hdone => exact notePim_lined h hdone
  | npuTraceDone _ => exact noteNpu_lined h
  | arbiterPeqFw t rest hq =>
    exact h.still h.routed rfl rfl rfl (lane_arbiterPeqFw hq cfg.dramEnabled)
  | arbiterNegedge t index rest hq => exact arbiterNegedge_lined hc h hq hok
  | arbiterPeqBw t rest hq => exact h.still h.routed rfl rfl rfl rfl
  | arbiterPosedge t index rest hq =>
    have hindex := (List.forall_mem_cons.mp (hq ▸ hc.bwQueue)).1
    dsimp only at hindex
    subst hindex
    exact h.still h.routed rfl rfl rfl rfl
  | npuPeqFw t rest hq => exact h.still h.routed rfl rfl rfl rfl
  | npuStart _ => exact npu_lined h (NpuTraceReplayer.startRun_ran hc.npu s.now)
  | npuCompute wake rest _ => exact npu_lined h (NpuTraceReplayer.endCompute_ran hc.npu s.now)
  | npuPeqBw t rest hq =>
    have hs : Lined cfg route {s with npu := (NpuTraceReplayer.peqBwCb t {s.npu with peqBw := rest}).1} :=
      h.still h.routed rfl rfl rfl rfl
    exact hs.calls (by simp [NpuTraceReplayer.peqBwCb, requestsOf]) (by simp [NpuTraceReplayer.peqBwCb])
  | npuResponse _ => exact npu_lined h (NpuTraceReplayer.onResponse_ran hc.npu s.now)
  | memPeq t rest hq =>
    have ht := hc.memPeq t (by rw [hq]; exact List.mem_cons_self)
    obtain ⟨-, -, hlocal⟩ := MemWrapper.peqCb_arrives hc.mem s.now ht
    have hs : Lined cfg route {s with memPeq := rest, mem := (MemWrapper.peqCb s.now t s.mem).1} :=
      h.still h.routed rfl rfl rfl rfl
    exact hs.local hlocal
  | memIterate answers wake onEvent _ _ =>
    have hs : Lined cfg route {s with mem := (MemWrapper.iterate cfg.mem {
      active := s.active
      answers := answers} s.now s.mem).1} := h.still h.routed rfl rfl rfl rfl
    exact hs.local (MemWrapper.iterate_moves hc.mem cfg.mem _ _).locals
  | memPosedge => exact h.still h.routed rfl rfl rfl rfl
  | memNegedge =>
    have hs : Lined cfg route {s with mem := (MemWrapper.clockNegedge s.mem).1} :=
      h.still h.routed rfl rfl rfl rfl
    rcases MemWrapper.clockNegedge_answers hc.mem with hidle | ⟨t, heffects, -, -⟩
    · rw [runMem, hidle]
      exact h.local (by simp [Local])
    · rw [runMem, heffects]
      exact hs.calls (by simp [requestsOf]) (by simp)
  | pimPeq t rest hq => exact pimPeq_lined h hq
  | pimIterate answers wake onEvent hthread _ =>
    exact pim_lined h (PimWrapper.iterate_keepsLane h.routed hthread _ _)
      (PimWrapper.iterate_moves hthread cfg.pim _ _).locals
  | pimResume answers t wake hthread =>
    exact pim_lined h (PimWrapper.resume_keepsLane h.routed hthread _ _)
      (PimWrapper.resume_moves hthread cfg.pim _ _).locals
  | pimPosedge => exact pimPosedge_lined hc h
  | pimNegedge => exact pimNegedge_lined h

end Hsim.System
