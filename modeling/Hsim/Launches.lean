import Hsim.Transit

/-! One launch at a time.

The host launches the NPU when it reaches a control record and then waits for
both actors, so a launch is in one place at a time, in every configuration: on
its way to the NPU, in its start event, with the running thread, in the event
that ends the run, or noted at the barrier. At a barrier that has seen the NPU
nothing of its run is left. -/
namespace Hsim.System

/-- The host is at a barrier. -/
def atBarrier : Host.Thread → Bool
  | .barrier _ _ _ => true
  | _ => false

/-- It has seen the end of the NPU's run. -/
def npuSeen : Host.Thread → Bool
  | .barrier _ _ npu => npu
  | _ => false

/-- The places where a launch can be. -/
def launchTokens (s : State) : Nat :=
  (launches s).length + s.npu.startEvent.toNat + (decide (s.npu.thread ≠ .waitStart)).toNat +
    s.npuTraceDone.toNat + (npuSeen s.host.thread).toNat

def OneLaunch (s : State) : Prop := launchTokens s ≤ (atBarrier s.host.thread).toNat

theorem oneLaunch_initial {controls : List TraceGenerator.SpeculativeControl} {s : State}
    (h : Initial controls s) : OneLaunch s := by
  subst h
  simp [OneLaunch, launchTokens, launches, npuSeen]

/-- A barrier that has seen the NPU finds its thread at the start. -/
theorem OneLaunch.settled {s : State} (h : OneLaunch s) (hseen : npuSeen s.host.thread = true) :
    s.npu.thread = .waitStart := by
  by_contra hbusy
  have hbound : (atBarrier s.host.thread).toNat ≤ 1 := Bool.toNat_le _
  simp only [OneLaunch, launchTokens, hseen, hbusy, ne_eq, not_false_eq_true, decide_true,
    Bool.toNat_true] at h
  omega

section
variable {cfg : Config} {s s' : State}

/-- A step that leaves the host's thread and the launches where they are. -/
theorem OneLaunch.same (h : OneLaunch s) (hhost : s'.host.thread = s.host.thread)
    (hlaunches : launches s' = launches s) (hstart : s'.npu.startEvent = s.npu.startEvent)
    (hthread : s'.npu.thread = s.npu.thread) (hdone : s'.npuTraceDone = s.npuTraceDone) :
    OneLaunch s' := by
  rw [OneLaunch, launchTokens, hhost, hlaunches, hstart, hthread, hdone]
  exact h

/-- Calls that neither launch nor end a run. -/
theorem OneLaunch.calls (h : OneLaunch s) {effects : List Effect}
    (hrequests : ∀ t ∈ requestsOf effects, t.dstId ≠ .npu) (hdone : Effect.npuTraceDone ∉ effects) :
    OneLaunch (performAll s effects) := by
  have hnone : (requestsOf effects).filter (fun t => t.dstId = .npu) = [] := by
    simpa [List.filter_eq_nil_iff] using hrequests
  rw [performAll_eq, hnone]
  refine h.same rfl ?_ rfl rfl ?_
  · simp [launches]
  · simp [hdone]

theorem OneLaunch.local (h : OneLaunch s) {effects : List Effect} (hlocal : Local effects) :
    OneLaunch (performAll s effects) :=
  h.calls (by simp [hlocal.silent.requests]) hlocal.silent.npuTraceDone

/-- The replay thread runs, at its start or in a run. -/
theorem OneLaunch.ran (h : OneLaunch s) {npu₀ npu : NpuTraceReplayer.State} {effects : List Effect}
    (hran : NpuTraceReplayer.Ran cfg.npu npu₀ npu effects)
    (hmemory : cfg.npu.memory = if cfg.dramEnabled then .dram else .pim)
    (hfw : npu₀.peqFw = s.npu.peqFw)
    (hbusy : s.npu.startEvent = true ∧ npu₀.startEvent = false ∨
      s.npu.thread ≠ .waitStart ∧ npu₀.startEvent = s.npu.startEvent) :
    OneLaunch (performAll {s with npu := npu} effects) := by
  rw [performAll_ran s hran hmemory]
  have hlaunches : launches {s with npu := npu} = launches s := by
    rw [launches, launches, hran.peqFw, hfw]
  -- the run goes on, or it ends and is announced
  have hends : (decide (npu.thread ≠ .waitStart)).toNat +
      (decide (Effect.npuTraceDone ∈ effects)).toNat ≤ 1 := by
    by_cases hdone : Effect.npuTraceDone ∈ effects
    · simp [hran.finished hdone, hdone]
    · simp [hdone, Bool.toNat_le]
  have hstart := hran.startEvent
  have hbound : (atBarrier s.host.thread).toNat ≤ 1 := Bool.toNat_le _
  unfold OneLaunch at h ⊢
  simp only [launchTokens] at h ⊢
  show (launches {s with npu := npu}).length + npu.startEvent.toNat + _ +
    (s.npuTraceDone || decide (Effect.npuTraceDone ∈ effects)).toNat + _ ≤ _
  rw [hlaunches, hstart]
  rcases hbusy with ⟨hon, hoff⟩ | ⟨hbusy, hsame⟩
  · rw [hon] at h
    rw [hoff]
    have hold : s.npuTraceDone.toNat = 0 := by
      simp only [Bool.toNat_true] at h
      omega
    have hfalse : s.npuTraceDone = false := by simpa using hold
    rw [hfalse, Bool.false_or]
    simp only [Bool.toNat_true, Bool.toNat_false] at h ⊢
    omega
  · have hrunning : (decide (s.npu.thread ≠ .waitStart)).toNat = 1 := by simp [hbusy]
    rw [hrunning] at h
    rw [hsame]
    have hold : s.npuTraceDone.toNat = 0 := by omega
    have hfalse : s.npuTraceDone = false := by simpa using hold
    rw [hfalse, Bool.false_or]
    omega

end

/-! ### The host thread -/

/-- The payloads of a stage: the launch, then the commands. -/
def stagePayloads (cfg : Config) (host : Host.State) (control : TraceGenerator.SpeculativeControl)
    (transactions : List Payload) : List Payload :=
  {Host.Config.launch control with
    ptr := cfg.hostAllocate host.allocated
    stage := host.stage + 1} ::
    transactions.mapIdx fun i t => {t with
      ptr := cfg.hostAllocate (host.allocated + (i + 1))
      stage := host.stage + 1}

theorem stamp_eq (cfg : Config) (host : Host.State) (control : TraceGenerator.SpeculativeControl)
    (transactions : List Payload) :
    Host.stamp cfg.hostAllocate host (Host.Config.launch control :: transactions) =
      stagePayloads cfg host control transactions := by
  rw [Host.stamp, List.mapIdx_cons]
  rfl

/-- The host after it has launched a stage. -/
def launchedHost (cfg : Config) (host : Host.State) (control : TraceGenerator.SpeculativeControl)
    (rest : List TraceGenerator.SpeculativeControl) (transactions : List Payload) : Host.State :=
  {host with
    thread := .barrier (Host.barrierLayer control) false false
    controls := rest
    pendingQ := host.pendingQ ++ stagePayloads cfg host control transactions
    allocated := host.allocated + (stagePayloads cfg host control transactions).length
    stage := host.stage + 1
    emitted := (stagePayloads cfg host control transactions).tail}

/-- An activation of the host thread: it launches a stage, passes a barrier, or goes on or
waits with neither. -/
inductive HostTurn (cfg : Config) (s s' : State) : Prop where
  | launched (control : TraceGenerator.SpeculativeControl)
    (rest : List TraceGenerator.SpeculativeControl) (transactions : List Payload)
    (hthread : s.host.thread = .nextControl) (hcontrols : s.host.controls = control :: rest)
    (hemission : cfg.host.emission control = .ok transactions)
    (hs : s' = {s with
      host := launchedHost cfg s.host control rest transactions
      served := []
      log := s.log ++ [.metrics (.beginEpisode (Host.samplePrefix control) s.now),
        .updateStart (Host.barrierLayer control) .host (toCycle s.now)]})
  | passed (layer : String) (hthread : s.host.thread = .barrier layer true true)
    (hs : s' = {s with
      host := {s.host with thread := .nextControl}
      log := s.log ++ [.updateEnd layer .host (toCycle s.now)]})
  | other (thread : Host.Thread) (active : Bool) (effects : List Effect)
    (hthread : thread = s.host.thread ∨ atBarrier s.host.thread = false ∧ atBarrier thread = false)
    (heffects : effects = [] ∨ ∃ message, effects = [.throw message])
    (hs : s' = {s with
      host := {s.host with
        thread := thread
        activeHost := active}
      log := s.log ++ effects})

theorem runHost_turn (cfg : Config) (s : State) : HostTurn cfg s (runHost cfg s) := by
  have hquiet : ∀ thread active effects,
      Host.processTrace cfg.host cfg.hostAllocate s.now s.activeDram s.host = ({s.host with
        thread := thread
        activeHost := active}, effects) → (effects = [] ∨ ∃ message, effects = [.throw message]) →
      runHost cfg s = {s with
        host := {s.host with
          thread := thread
          activeHost := active}
        log := s.log ++ effects} := by
    rintro thread active effects hr (rfl | ⟨message, rfl⟩)
    · simp [runHost, hr, performAll]
    · simp [runHost, hr, performAll, perform]
  have hstays (hr : Host.processTrace cfg.host cfg.hostAllocate s.now s.activeDram s.host = (s.host, [])) :
      HostTurn cfg s (runHost cfg s) :=
    .other s.host.thread s.host.activeHost [] (.inl rfl) (.inl rfl) (hquiet _ _ _ hr (.inl rfl))
  cases hthread : s.host.thread with
  | nextControl =>
    cases hcontrols : s.host.controls with
    | nil =>
      refine .other .betweenTraces s.host.activeHost [] (.inr ⟨by rw [hthread]; rfl, rfl⟩) (.inl rfl) ?_
      exact hquiet _ _ _ (by simp only [Host.processTrace, hthread, hcontrols]) (.inl rfl)
    | cons control rest =>
      cases hemission : cfg.host.emission control with
      | error message =>
        refine .other .failed s.host.activeHost [.throw message] (.inr ⟨by rw [hthread]; rfl, rfl⟩)
          (.inr ⟨message, rfl⟩) ?_
        refine hquiet _ _ _ ?_ (.inr ⟨message, rfl⟩)
        simp only [Host.processTrace, hthread, hcontrols, Host.launchStage, hemission]
      | ok transactions =>
        refine .launched control rest transactions hthread hcontrols hemission ?_
        simp [runHost, Host.processTrace, hthread, hcontrols, Host.launchStage, hemission, stamp_eq,
          performAll, perform, launchedHost]
  | barrier layer pim npu =>
    by_cases hboth : pim = true ∧ npu = true
    · obtain ⟨rfl, rfl⟩ := hboth
      refine .passed layer hthread ?_
      simp [runHost, Host.processTrace, hthread, performAll, perform]
    · refine hstays ?_
      unfold Host.processTrace
      rw [hthread]
      cases pim <;> cases npu <;> first | rfl | exact absurd ⟨rfl, rfl⟩ hboth
  | betweenTraces =>
    refine .other .terminating false [] (.inr ⟨by rw [hthread]; rfl, rfl⟩) (.inl rfl) ?_
    exact hquiet _ _ _ (by simp only [Host.processTrace, hthread]) (.inl rfl)
  | terminating =>
    cases hdram : s.activeDram with
    | true => exact hstays (by simp [Host.processTrace, hthread, hdram])
    | false =>
      refine .other .stopped s.host.activeHost [] (.inr ⟨by rw [hthread]; rfl, rfl⟩) (.inl rfl) ?_
      exact hquiet _ _ _ (by simp [Host.processTrace, hthread, hdram]) (.inl rfl)
  | stopped => exact hstays (by simp only [Host.processTrace, hthread])
  | failed => exact hstays (by simp only [Host.processTrace, hthread])

section
variable {cfg : Config} {host : Host.State} {control : TraceGenerator.SpeculativeControl}
  {transactions : List Payload} (hemission : cfg.host.emission control = .ok transactions)
include hemission

theorem stageCommands (ptr : Nat → Nat) (stage : Nat) :
    ∀ t ∈ transactions.mapIdx (fun i t => {t with
      ptr := ptr i
      stage := stage}), IsCommand t := by
  intro t ht
  obtain ⟨i, hi, rfl⟩ := List.mem_mapIdx.mp ht
  obtain ⟨hcommand, hdst⟩ := cfg.host.emission_command hemission _ (List.getElem_mem hi)
  exact ⟨by simp [Payload.isPim, hcommand], hdst⟩

/-- A stage has one launch. -/
theorem stagePayloads_launch :
    (stagePayloads cfg host control transactions).filter (fun t => t.dstId = .npu) =
      [{Host.Config.launch control with
        ptr := cfg.hostAllocate host.allocated
        stage := host.stage + 1}] := by
  have hnone : (transactions.mapIdx fun i t => {t with
      ptr := cfg.hostAllocate (host.allocated + (i + 1))
      stage := host.stage + 1}).filter (fun t => t.dstId = .npu) = [] := by
    rw [List.filter_eq_nil_iff]
    intro t ht
    have hdst := (stageCommands hemission _ _ t ht).2
    simp [hdst]
  rw [stagePayloads, List.filter_cons, hnone]
  rfl

end

/-! ### The launch along a run -/

section
variable {cfg : Config} {s : State} (h : OneLaunch s)
include h

theorem runHost_oneLaunch (cfg : Config) : OneLaunch (runHost cfg s) := by
  cases runHost_turn cfg s with
  | launched control rest transactions hthread _ hemission hs =>
    have hzero : launchTokens s = 0 := by
      rw [OneLaunch, hthread] at h
      simpa [atBarrier] using h
    simp only [launchTokens, Nat.add_eq_zero_iff] at hzero
    obtain ⟨⟨⟨⟨hlaunches, hstart⟩, hbusy⟩, hdone⟩, -⟩ := hzero
    have hone : (stagePayloads cfg s.host control transactions).filter (fun t => t.dstId = .npu) = _ :=
      stagePayloads_launch hemission
    rw [hs]
    simp only [OneLaunch, launchTokens, hstart, hbusy, hdone]
    show (s.npu.peqFw ++ (s.host.pendingQ ++ _).filter _).length + 0 + 0 + 0 + 0 ≤ 1
    rw [List.filter_append, hone, ← List.append_assoc, List.length_append]
    show (launches s).length + 1 + 0 + 0 + 0 + 0 ≤ 1
    omega
  | passed layer hthread hs =>
    rw [hs]
    simp only [OneLaunch, launchTokens, hthread, npuSeen, atBarrier, Bool.toNat_true] at h ⊢
    show (launches s).length + _ + _ + _ + 0 ≤ 0
    omega
  | other thread active effects hthread _ hs =>
    rw [hs]
    rcases hthread with rfl | ⟨hfrom, hto⟩
    · exact h
    · have hseen : npuSeen thread = false := by
        cases thread <;> first | rfl | simp [atBarrier] at hto
      simp only [OneLaunch, launchTokens, hfrom, hto, hseen, Bool.toNat_false] at h ⊢
      show (launches s).length + _ + _ + _ + 0 ≤ 0
      omega

theorem hostNegedge_oneLaunch : OneLaunch (hostNegedge s) := by
  cases hq : s.host.pendingQ with
  | nil =>
    rw [hostNegedge_idle hq]
    exact h.local (by simp [Local])
  | cons t rest =>
    by_cases hdst : t.dstId = .npu
    · rw [hostNegedge_launch hq hdst]
      exact h.same rfl (by simp [launches, hq, hdst]) rfl rfl rfl
    · rw [hostNegedge_command hq hdst]
      exact h.same rfl (by simp [launches, hq, hdst]) rfl rfl rfl

/-- The event of the PIM path is noted. -/
theorem notePim_oneLaunch (pimTraceDone : Bool) :
    OneLaunch {s with pimTraceDone := pimTraceDone, host := Host.notePim s.host} := by
  unfold Host.notePim
  split
  · next layer pim npu hthread =>
    simp only [OneLaunch, launchTokens, hthread, npuSeen, atBarrier] at h
    exact h
  · exact h

/-- The event of the NPU is noted, at a barrier. -/
theorem noteNpu_oneLaunch (hdone : s.npuTraceDone = true) :
    OneLaunch {s with npuTraceDone := false, host := Host.noteNpu s.host} := by
  unfold Host.noteNpu
  split
  · next layer pim npu hthread =>
    simp only [OneLaunch, launchTokens, hthread, npuSeen, atBarrier, hdone, Bool.toNat_true] at h
    show (launches s).length + s.npu.startEvent.toNat +
      (decide (s.npu.thread ≠ .waitStart)).toNat + 0 + 1 ≤ 1
    omega
  · simp only [OneLaunch, launchTokens, hdone, Bool.toNat_true] at h ⊢
    show (launches s).length + _ + _ + 0 + _ ≤ _
    omega

/-- A memory module answers. -/
theorem respond_oneLaunch (mem : MemWrapper.State) (pim : PimWrapper.State) (t : Payload) :
    OneLaunch (performAll {s with mem := mem, pim := pim} [.respond t 0]) := by
  have hs : OneLaunch {s with mem := mem, pim := pim} := h
  exact hs.calls (by simp [requestsOf]) (by simp)

theorem pimNegedge_oneLaunch (cfg : Config) : OneLaunch (pimNegedge cfg s) := by
  have hs : OneLaunch {s with pim := (PimWrapper.clockNegedge cfg.pim s.now s.pim).1} := h
  have hcalls : OneLaunch (runPim (PimWrapper.clockNegedge cfg.pim s.now) s) := by
    obtain ⟨hrequests, -, -, hdone⟩ := clockNegedge_quiet cfg.pim s.now s.pim
    exact hs.calls (by simp [hrequests]) hdone
  exact hcalls

end

/-- **Every step keeps the launch in one place.** -/
theorem Step.oneLaunch {cfg : Config}
    (hmemory : cfg.npu.memory = if cfg.dramEnabled then .dram else .pim) {s s' : State}
    (hc : Carried cfg s) (h : OneLaunch s) (hstep : Step cfg s s') : OneLaunch s' := by
  cases hstep.2 with
  | elapse d => exact h
  | host => exact runHost_oneLaunch h cfg
  | hostNegedge => exact hostNegedge_oneLaunch h
  | pimTraceDone _ => exact notePim_oneLaunch h false
  | npuTraceDone hdone => exact noteNpu_oneLaunch h hdone
  | arbiterPeqFw t rest hq => exact h
  | arbiterNegedge t index rest hq =>
    unfold deliverFw
    split <;> exact h
  | arbiterPeqBw t rest hq => exact h
  | arbiterPosedge t index rest hq =>
    unfold deliverBw
    split <;> exact h
  | npuPeqFw t rest hq =>
    have ht := hc.launches t (by rw [hq]; exact List.mem_cons_self)
    rw [NpuTraceReplayer.peqFwCb, if_pos ht.1]
    simp only [OneLaunch, launchTokens, launches, hq, List.cons_append, List.length_cons] at h ⊢
    have hbound : (atBarrier s.host.thread).toNat ≤ 1 := Bool.toNat_le _
    simp only [Bool.toNat_true]
    omega
  | npuStart hstart =>
    exact h.ran (NpuTraceReplayer.startRun_ran hc.npu s.now) hmemory rfl (.inl ⟨hstart, rfl⟩)
  | npuCompute wake rest hthread =>
    exact h.ran (NpuTraceReplayer.endCompute_ran hc.npu s.now) hmemory rfl
      (.inr ⟨by simp [hthread], rfl⟩)
  | npuPeqBw t rest hq =>
    have hs : OneLaunch {s with npu := (NpuTraceReplayer.peqBwCb t {s.npu with peqBw := rest}).1} := h
    exact hs.calls (by simp [NpuTraceReplayer.peqBwCb, requestsOf])
      (by simp [NpuTraceReplayer.peqBwCb])
  | npuResponse hevent =>
    by_cases hthread : s.npu.thread = .waitStart
    · have hsame : NpuTraceReplayer.onResponse cfg.npu s.now s.npu =
          ({s.npu with responseEvent := false}, []) := by
        simp only [NpuTraceReplayer.onResponse, hthread]
      rw [runNpu, hsame]
      have hs : OneLaunch {s with npu := {s.npu with responseEvent := false}} := h
      exact hs.local (by simp [Local])
    · exact h.ran (NpuTraceReplayer.onResponse_ran hc.npu s.now) hmemory rfl (.inr ⟨hthread, rfl⟩)
  | memPeq t rest hq =>
    have ht := hc.memPeq t (by rw [hq]; exact List.mem_cons_self)
    obtain ⟨-, -, hlocal⟩ := MemWrapper.peqCb_arrives hc.mem s.now ht
    have hs : OneLaunch {s with memPeq := rest, mem := (MemWrapper.peqCb s.now t s.mem).1} := h
    exact hs.local hlocal
  | memIterate answers wake onEvent _ _ =>
    have hs : OneLaunch {s with mem := (MemWrapper.iterate cfg.mem {
      active := s.active
      answers := answers} s.now s.mem).1} := h
    exact hs.local (MemWrapper.iterate_moves hc.mem cfg.mem _ _).locals
  | memPosedge => exact h
  | memNegedge =>
    rcases MemWrapper.clockNegedge_answers hc.mem with hidle | ⟨t, heffects, -, -⟩
    · rw [runMem, hidle]
      exact h.local (by simp [Local])
    · rw [runMem, heffects]
      exact respond_oneLaunch h _ s.pim t
  | pimPeq t rest hq =>
    have hlocal : Local (PimWrapper.peqCb s.now t s.pim).2 := by
      simp [Local, PimWrapper.peqCb, Effect.isLocal]
    have hs : OneLaunch {s with pimPeq := rest, pim := (PimWrapper.peqCb s.now t s.pim).1} := h
    exact hs.local hlocal
  | pimIterate answers wake onEvent hthread _ =>
    have hs : OneLaunch {s with pim := (PimWrapper.iterate cfg.pim {
      active := s.active
      answers := answers} s.now s.pim).1} := h
    exact hs.local (PimWrapper.iterate_moves hthread cfg.pim _ _).locals
  | pimResume answers t wake hthread =>
    have hs : OneLaunch {s with pim := (PimWrapper.resume cfg.pim {
      active := s.active
      answers := answers} s.now t s.pim).1} := h
    exact hs.local (PimWrapper.resume_moves hthread cfg.pim _ _).locals
  | pimPosedge =>
    rcases PimWrapper.clockPosedge_answers cfg.pim s.now (fun t ht => (hc.pim t ht).1) with
      hidle | ⟨t, heffects, -, -⟩
    · rw [runPim, hidle]
      exact h.local (by simp [Local])
    · rw [runPim, heffects]
      exact respond_oneLaunch h s.mem _ t
  | pimNegedge => exact pimNegedge_oneLaunch h cfg

theorem Reachable.oneLaunch {cfg : Config}
    (hmemory : cfg.npu.memory = if cfg.dramEnabled then .dram else .pim)
    {controls : List TraceGenerator.SpeculativeControl} {s : State} (h : Reachable cfg controls s) :
    OneLaunch s := by
  have hboth : Carried cfg s ∧ OneLaunch s := by
    refine h.invariant (P := fun s => Carried cfg s ∧ OneLaunch s) ?_ ?_
    · exact fun s hs => ⟨carried_initial cfg hs, oneLaunch_initial hs⟩
    · exact fun s s' hs hstep => ⟨(hstep.moved hmemory hs.1).1, hstep.oneLaunch hmemory hs.1 hs.2⟩
  exact hboth.2

end Hsim.System
