import Hsim.TrafficMemory

/-! Steps of the host and the NPU, and the refinement.

The host launches a stage and passes its barrier, the NPU takes a launch up and
sends requests. With the steps on the way to memory these are all the steps of
the system, and each is one of the staged barrier or invisible to it. -/
namespace Hsim.System

open Lib.Stages (Work)

section
variable {cfg : Config} {s : State} (hl : cfg.Linked) (h : Wired cfg s)

/-! ### The NPU's steps -/

include hl h in
/-- An activation of the replay thread is an activation of the worker. -/
theorem npu_work {npu₀ npu : NpuTraceReplayer.State} {effects : List Effect}
    (hran : NpuTraceReplayer.Ran cfg.npu npu₀ npu effects) (hfw : npu₀.peqFw = s.npu.peqFw)
    (hbw : npu₀.peqBw = s.npu.peqBw) (hstage : npu₀.stage = s.npu.stage)
    (hpending : npu₀.pendingResponses = s.npu.pendingResponses) :
    Wired cfg (performAll {s with npu := npu} effects) ∧ ∃ w : Work Payload,
      w.Proper marks (view s) ∧ view (performAll {s with npu := npu} effects) =
        {view s with armed := npu₀.startEvent}.work w := by
  have hpim : (requestsOf effects).filter Payload.isPim = [] := by
    simpa [List.filter_eq_nil_iff] using fun t ht => (hran.sent t ht).1.fromNpu.isPim
  rw [performAll_ran s hran hl.memory]
  have htraffic := traffic_ran hran hbw
  have hlane : lane {s with
      npu := npu
      arbiter := {s.arbiter with peqFw := s.arbiter.peqFw ++ requestsOf effects}} = lane s := by
    simp only [lane, List.filter_append, hpim, List.append_nil]
  have hcard : (traffic s + requestsOf effects).card = npu.pendingResponses.toNat := by
    rw [Multiset.card_add, h.pending, Multiset.coe_card, hran.pending, hpending]
  have harbiter : ∀ t ∈ s.arbiter.peqFw ++ requestsOf effects, cfg.Outbound t :=
    List.forall_mem_append.mpr ⟨h.arbiter.peqFw, fun t ht => .inr (hran.sent t ht).1⟩
  have hsettled : npu.thread = .waitStart → traffic s + requestsOf effects = 0 := by
    intro hthread
    rw [← Multiset.card_eq_zero, hcard, hran.inv.settled (by rw [hthread]; rfl)]
    rfl
  refine ⟨⟨h.host, ⟨harbiter, h.arbiter.fwQueue, h.arbiter.peqBw, h.arbiter.bwQueue⟩,
    ⟨hran.inv.settled, hran.inv.room, hran.inv.requests, hran.inv.script⟩, ?_, h.memPeq, h.mem,
    h.pimPeq, h.pim, h.pimHeld, (congrArg Multiset.card htraffic).trans hcard⟩,
    ⟨requestsOf effects, decide (npu.thread ≠ .waitStart), decide (Effect.npuTraceDone ∈ effects)⟩,
    ⟨?_, ?_, ?_⟩, ?_⟩
  · show ∀ t ∈ npu.peqFw, IsLaunch t
    rw [hran.peqFw, hfw]
    exact h.launches
  · intro hdone
    simpa using hran.finished (by simpa using hdone)
  · intro hrunning
    exact hsettled (by simpa using hrunning)
  · intro t ht
    exact (hran.sent t ht).2.trans hstage
  · have hstarts : launches {s with npu := npu} = launches s := by
      simp only [launches, hran.peqFw, hfw]
    simp only [Lib.Stages.State.work, view]
    -- lane, traffic and launches are the facts above
    congr 1
    · exact hran.startEvent
    · exact hran.stage.trans hstage

include h in
theorem npuPeqFw_refines {t : Payload} {rest : List Payload} (hq : s.npu.peqFw = t :: rest) :
    Refines cfg s {s with npu := NpuTraceReplayer.peqFwCb t {s.npu with peqFw := rest}} := by
  obtain ⟨ht, hrest⟩ := List.forall_mem_cons.mp (hq ▸ h.launches)
  rw [NpuTraceReplayer.peqFwCb, if_pos ht.1]
  refine ⟨⟨h.host, h.arbiter, ⟨h.npu.settled, h.npu.room, h.npu.requests, h.npu.script⟩, hrest,
    h.memPeq, h.mem, h.pimPeq, h.pim, h.pimHeld, h.pending⟩, .inr ?_⟩
  refine Lib.Stages.Step.arm t (rest ++ s.host.pendingQ.filter (fun t => t.dstId = .npu)) ?_
  show s.npu.peqFw ++ _ = _
  rw [hq]
  rfl

include hl h in
theorem npuStart_refines (hstart : s.npu.startEvent = true) :
    Refines cfg s (runNpu (NpuTraceReplayer.startRun cfg.npu s.now) s) := by
  obtain ⟨hwired, w, hw, hview⟩ := npu_work hl h (NpuTraceReplayer.startRun_ran h.npu s.now)
    rfl rfl rfl rfl
  refine ⟨hwired, .inr ?_⟩
  rw [runNpu, hview]
  exact .start w hstart hw

include hl h in
/-- The thread goes on with its run. -/
theorem npu_goOn (hthread : s.npu.thread ≠ .waitStart) {npu : NpuTraceReplayer.State}
    {effects : List Effect} (hran : NpuTraceReplayer.Ran cfg.npu s.npu npu effects) :
    Refines cfg s (performAll {s with npu := npu} effects) := by
  obtain ⟨hwired, w, hw, hview⟩ := npu_work hl h hran rfl rfl rfl rfl
  refine ⟨hwired, .inr ?_⟩
  rw [hview]
  exact .goOn w (by simpa [view] using hthread) hw

include hl h in
theorem npuCompute_refines {wake : Time} {rest : List NpuTraceReplayer.Segment}
    (hthread : s.npu.thread = .computing wake rest) :
    Refines cfg s (runNpu (NpuTraceReplayer.endCompute cfg.npu s.now) s) :=
  npu_goOn hl h (by rw [hthread]; simp) (NpuTraceReplayer.endCompute_ran h.npu s.now)

include hl h in
theorem npuResponse_refines :
    Refines cfg s (runNpu (NpuTraceReplayer.onResponse cfg.npu s.now) s) := by
  have hran := NpuTraceReplayer.onResponse_ran h.npu s.now
  by_cases hthread : s.npu.thread = .waitStart
  · -- a late notification finds the thread at its start
    have hsame : NpuTraceReplayer.onResponse cfg.npu s.now s.npu =
        ({s.npu with responseEvent := false}, []) := by
      simp only [NpuTraceReplayer.onResponse, hthread]
    rw [runNpu, hsame, performAll_silent _ (by constructor <;> simp)]
    exact ⟨⟨h.host, h.arbiter, ⟨h.npu.settled, h.npu.room, h.npu.requests, h.npu.script⟩,
      h.launches, h.memPeq, h.mem, h.pimPeq, h.pim, h.pimHeld, h.pending⟩, .inl rfl⟩
  · exact npu_goOn hl h hthread hran

include h in
/-- A response is counted. -/
theorem npuPeqBw_refines {t : Payload} {rest : List Payload} (hq : s.npu.peqBw = t :: rest) :
    Refines cfg s
      (runNpu (NpuTraceReplayer.peqBwCb t) {s with npu := {s.npu with peqBw := rest}}) := by
  have hs : runNpu (NpuTraceReplayer.peqBwCb t) {s with npu := {s.npu with peqBw := rest}} = {s with
      npu := {s.npu with
        peqBw := rest
        pendingResponses := s.npu.pendingResponses - 1
        responseEvent := true}
      log := s.log ++ [.release t]} := by
    rw [runNpu, performAll_silent _ (by constructor <;> simp [NpuTraceReplayer.peqBwCb, requestsOf,
      responsesOf])]
    simp [NpuTraceReplayer.peqBwCb]
  rw [hs]
  have htraffic := traffic_npuPeqBw hq
  have hcard := h.pending
  rw [htraffic, Multiset.card_cons] at hcard
  have hsub := Lib.toNat_pred (n := s.npu.pendingResponses) (by omega)
  refine ⟨⟨h.host, h.arbiter, ⟨?_, ?_, h.npu.requests, h.npu.script⟩, h.launches, h.memPeq, h.mem,
    h.pimPeq, h.pim, h.pimHeld, ?_⟩, .inr ?_⟩
  · intro hidle
    have hzero : s.npu.pendingResponses = 0 := h.npu.settled hidle
    rw [hzero] at hcard
    exact absurd hcard (by simp)
  · have hroom := h.npu.room
    show (s.npu.pendingResponses - 1).toNat + _ < _
    rw [hsub]
    exact (Nat.add_le_add_right (Nat.sub_le _ _) _).trans_lt hroom
  · show (traffic {s with npu := {s.npu with peqBw := rest}}).card = _
    rw [hsub]
    omega
  · exact .answer t _ htraffic

/-! ### The host's steps -/

include h in
/-- The host changes its place in the trace only. -/
theorem host_phase (thread : Host.Thread) (active : Bool) {effects : List Effect}
    (hlocal : Local effects) (hactive : active = false → phaseOf thread = .halted) :
    Wired cfg (performAll {s with host := {s.host with
      thread := thread
      activeHost := active}} effects) ∧
      view (performAll {s with host := {s.host with
        thread := thread
        activeHost := active}} effects) = {view s with phase := phaseOf thread} := by
  rw [performAll_silent _ hlocal.silent]
  exact ⟨⟨⟨h.host.pendingQ, h.host.readRspQ, hactive⟩, h.arbiter, h.npu, h.launches, h.memPeq, h.mem,
    h.pimPeq, h.pim, h.pimHeld, h.pending⟩, rfl⟩

include h in
/-- A host that is not at its end is active. -/
theorem active_of_phase {thread : Host.Thread} (hthread : s.host.thread = thread)
    (hphase : phaseOf thread ≠ .halted) : s.host.activeHost ≠ false := by
  intro hinactive
  have hhalted := h.host.halting hinactive
  rw [hthread] at hhalted
  exact hphase hhalted

include hl in
/-- An emission is made of commands. -/
theorem emission_commands {control : TraceGenerator.SpeculativeControl} {transactions : List Payload}
    (hemission : cfg.host.emission control = .ok transactions) (ptr : Nat → Nat) (stage : Nat) :
    ∀ t ∈ transactions.mapIdx (fun i t => {t with
      ptr := ptr i
      stage := stage}), cfg.Command t ∧ t.stage = stage := by
  intro t ht
  obtain ⟨i, hi, rfl⟩ := List.mem_mapIdx.mp ht
  obtain ⟨hcommand, hdst⟩ := cfg.host.emission_command hemission _ (List.getElem_mem hi)
  refine ⟨⟨by simp [Payload.isPim, hcommand], hdst, fun hfast => ?_⟩, rfl⟩
  exact hl.hostFits hfast control transactions hemission transactions[i] (List.getElem_mem hi)

include hl h in
theorem launch_refines (control : TraceGenerator.SpeculativeControl)
    (rest : List TraceGenerator.SpeculativeControl) (hthread : s.host.thread = .nextControl)
    {transactions : List Payload} (hemission : cfg.host.emission control = .ok transactions)
    {host : Host.State} {effects : List Effect}
    (hstage : Host.launchStage cfg.host cfg.hostAllocate s.now control rest s.host = (host, effects)) :
    host.stage = s.host.stage + 1 ∧
      Refines cfg s (performAll {s with host := host, served := []} effects) := by
  -- the launch, then the commands
  have hstamp : Host.stamp cfg.hostAllocate s.host (Host.Config.launch control :: transactions) =
      {Host.Config.launch control with
        ptr := cfg.hostAllocate s.host.allocated
        stage := s.host.stage + 1} ::
        transactions.mapIdx fun i t => {t with
          ptr := cfg.hostAllocate (s.host.allocated + (i + 1))
          stage := s.host.stage + 1} := by
    rw [Host.stamp, List.mapIdx_cons]
    rfl
  have hcommands := emission_commands hl hemission
    (fun i => cfg.hostAllocate (s.host.allocated + (i + 1))) (s.host.stage + 1)
  simp only [Host.launchStage, hemission, hstamp] at hstage
  generalize hjobs : (transactions.mapIdx fun i t => {t with
    ptr := cfg.hostAllocate (s.host.allocated + (i + 1))
    stage := s.host.stage + 1} : List Payload) = jobs at hstage hcommands
  generalize hstart : ({Host.Config.launch control with
    ptr := cfg.hostAllocate s.host.allocated
    stage := s.host.stage + 1} : Payload) = start at hstage
  have hlaunch : IsLaunch start ∧ start.stage = s.host.stage + 1 := by
    subst hstart
    exact ⟨⟨rfl, rfl⟩, rfl⟩
  have hactive : s.host.activeHost ≠ false := active_of_phase h hthread (by simp [phaseOf])
  have hpim : jobs.filter Payload.isPim = jobs :=
    List.filter_eq_self.mpr fun t ht => (hcommands t ht).1.isPim
  have hnpu : jobs.filter (fun t => t.dstId = .npu) = [] := by
    rw [List.filter_eq_nil_iff]
    intro t ht
    simp [(hcommands t ht).1.dstId]
  obtain ⟨rfl, rfl⟩ := Prod.mk.injEq .. ▸ hstage
  refine ⟨rfl, ?_⟩
  rw [performAll_silent _ (Local.silent (by simp [Local, Effect.isLocal]))]
  refine ⟨⟨⟨?_, h.host.readRspQ, fun hinactive => absurd hinactive hactive⟩, h.arbiter, h.npu,
    h.launches, h.memPeq, h.mem, h.pimPeq, h.pim, h.pimHeld, h.pending⟩, .inr ?_⟩
  · show ∀ t ∈ s.host.pendingQ ++ start :: jobs, _
    refine List.forall_mem_append.mpr ⟨h.host.pendingQ, List.forall_mem_cons.mpr ⟨.inr hlaunch.1, ?_⟩⟩
    exact fun t ht => .inl (hcommands t ht).1
  · have hstep : Lib.Stages.Step marks cfg.Emits (view s) _ := .launch start jobs
      (by rw [view, hthread]; rfl) hlaunch.2 (fun t ht => (hcommands t ht).2)
      ⟨control, transactions, _, _, hemission, hjobs.symm⟩
    convert hstep using 1
    simp only [view, lane, launches, List.filter_append, List.filter_cons, hlaunch.1.isPim,
      hlaunch.1.2, hpim, hnpu, List.append_assoc]
    rfl

include h in
/-- An activation of the host thread that launches nothing. -/
theorem host_goes {thread : Host.Thread} {active : Bool} {effects : List Effect}
    (hr : Host.processTrace cfg.host cfg.hostAllocate s.now s.activeDram s.host =
      ({s.host with
        thread := thread
        activeHost := active}, effects))
    (hlocal : Local effects) (hactive : active = false → phaseOf thread = .halted)
    (hphase : phaseOf thread = phaseOf s.host.thread ∨
      Lib.Stages.Step marks cfg.Emits (view s) {view s with phase := phaseOf thread}) :
    Refines cfg s (runHost cfg s) := by
  have hrun : runHost cfg s = performAll {s with host := {s.host with
      thread := thread
      activeHost := active}} effects := by
    simp only [runHost, hr, if_true]
  obtain ⟨hwired, hview⟩ := host_phase h thread active hlocal hactive
  rw [hrun]
  refine ⟨hwired, hphase.imp (fun hsame => ?_) fun hstep => ?_⟩
  · rw [hview, hsame]
    rfl
  · rw [hview]
    exact hstep

include h in
/-- The host finds nothing to do. -/
theorem host_stays
    (hr : Host.processTrace cfg.host cfg.hostAllocate s.now s.activeDram s.host = (s.host, [])) :
    Refines cfg s (runHost cfg s) :=
  host_goes h hr (by simp [Local]) h.host.halting (.inl rfl)

include hl h in
theorem nextControl_refines (hthread : s.host.thread = .nextControl) :
    Refines cfg s (runHost cfg s) := by
  have hidle : (view s).phase = .idle := by
    rw [view, hthread]
    rfl
  cases hcontrols : s.host.controls with
  | nil =>
    have hr : Host.processTrace cfg.host cfg.hostAllocate s.now s.activeDram s.host =
        ({s.host with thread := .betweenTraces}, []) := by
      simp only [Host.processTrace, hthread, hcontrols]
    exact host_goes h hr (by simp [Local]) (fun _ => rfl) (.inr (.halt hidle))
  | cons control rest =>
    have hr : Host.processTrace cfg.host cfg.hostAllocate s.now s.activeDram s.host =
        Host.launchStage cfg.host cfg.hostAllocate s.now control rest s.host := by
      simp only [Host.processTrace, hthread, hcontrols]
    cases hemission : cfg.host.emission control with
    | error message =>
      have hlaunch : Host.launchStage cfg.host cfg.hostAllocate s.now control rest s.host =
          ({s.host with thread := .failed}, [.throw message]) := by
        simp only [Host.launchStage, hemission]
      exact host_goes h (hr.trans hlaunch) (by simp [Local, Effect.isLocal]) (fun _ => rfl)
        (.inr (.halt hidle))
    | ok transactions =>
      generalize hlaunch : Host.launchStage cfg.host cfg.hostAllocate s.now control rest s.host =
        launched at hr
      obtain ⟨host, effects⟩ := launched
      obtain ⟨hstage, hrefines⟩ := launch_refines hl h control rest hthread hemission hlaunch
      have hrun : runHost cfg s = performAll {s with host := host, served := []} effects := by
        simp only [runHost, hr]
        rw [if_neg (by omega)]
      rw [hrun]
      exact hrefines

include h in
theorem barrier_refines {layer : String} {pim npu : Bool}
    (hthread : s.host.thread = .barrier layer pim npu) : Refines cfg s (runHost cfg s) := by
  cases hboth : pim && npu with
  | false => exact host_stays h (by cases pim <;> cases npu <;> simp_all [Host.processTrace])
  | true =>
    obtain ⟨rfl, rfl⟩ : pim = true ∧ npu = true := by simpa using hboth
    have hr : Host.processTrace cfg.host cfg.hostAllocate s.now s.activeDram s.host =
        ({s.host with thread := .nextControl}, [.updateEnd layer .host (toCycle s.now)]) := by
      simp only [Host.processTrace, hthread]
    refine host_goes h hr (by simp [Local, Effect.isLocal]) (fun hinactive => ?_) (.inr (.pass ?_))
    · exact absurd hinactive (active_of_phase h hthread (by simp [phaseOf]))
    · rw [view, hthread]
      rfl

include hl h in
theorem host_refines : Refines cfg s (runHost cfg s) := by
  cases hthread : s.host.thread with
  | nextControl => exact nextControl_refines hl h hthread
  | barrier layer pim npu => exact barrier_refines h hthread
  | betweenTraces =>
    have hr : Host.processTrace cfg.host cfg.hostAllocate s.now s.activeDram s.host =
        ({s.host with thread := .terminating, activeHost := false}, []) := by
      simp only [Host.processTrace, hthread]
    exact host_goes h hr (by simp [Local]) (fun _ => rfl) (.inl (by rw [hthread]; rfl))
  | terminating =>
    cases hdram : s.activeDram with
    | true => exact host_stays h (by simp only [Host.processTrace, hthread, hdram, if_true])
    | false =>
      have hr : Host.processTrace cfg.host cfg.hostAllocate s.now s.activeDram s.host =
          ({s.host with thread := .stopped}, []) := by
        simp only [Host.processTrace, hthread, hdram, Bool.false_eq_true, if_false]
      exact host_goes h hr (by simp [Local]) (fun _ => rfl) (.inl (by rw [hthread]; rfl))
  | stopped => exact host_stays h (by simp only [Host.processTrace, hthread])
  | failed => exact host_stays h (by simp only [Host.processTrace, hthread])

include h in
theorem hostNegedge_refines : Refines cfg s (hostNegedge s) := by
  cases hq : s.host.pendingQ with
  | nil =>
    have hnone : Local [] := by simp [Local]
    obtain ⟨hwired, hview⟩ := host_phase h s.host.thread s.host.activeHost hnone h.host.halting
    rw [hostNegedge_idle hq]
    exact ⟨hwired, .inl hview⟩
  | cons t rest =>
    obtain ⟨ht, hrest⟩ := List.forall_mem_cons.mp (hq ▸ h.host.pendingQ)
    have hhost : HostWired cfg {s.host with pendingQ := rest} :=
      ⟨hrest, h.host.readRspQ, h.host.halting⟩
    rcases ht with ht | ht
    · have hpeq : ∀ t' ∈ s.arbiter.peqFw ++ [t], cfg.Outbound t' :=
        List.forall_mem_append.mpr ⟨h.arbiter.peqFw, List.forall_mem_singleton.mpr (.inl ht)⟩
      have hlane : lane {s with
          host := {s.host with pendingQ := rest}
          arbiter := {s.arbiter with peqFw := s.arbiter.peqFw ++ [t]}} = lane s := lane_hostCommand hq
      have htraffic : traffic {s with
          host := {s.host with pendingQ := rest}
          arbiter := {s.arbiter with peqFw := s.arbiter.peqFw ++ [t]}} = traffic s := by
        simp [traffic, ht.isPim]
      have hlaunches : launches {s with host := {s.host with pendingQ := rest}} = launches s := by
        simp [launches, hq, ht.dstId]
      rw [hostNegedge_command hq (by simp [ht.dstId])]
      exact ⟨⟨hhost, ⟨hpeq, h.arbiter.fwQueue, h.arbiter.peqBw, h.arbiter.bwQueue⟩, h.npu,
        h.launches, h.memPeq, h.mem, h.pimPeq, h.pim, h.pimHeld,
        (congrArg Multiset.card htraffic).trans h.pending⟩,
        .inl (view_eq hlane htraffic hlaunches rfl)⟩
    · have hlane : lane {s with host := {s.host with pendingQ := rest}} = lane s :=
        lane_hostLaunch hq ht.isPim
      have hlaunches : launches {s with
          host := {s.host with pendingQ := rest}
          npu := {s.npu with peqFw := s.npu.peqFw ++ [t]}} = launches s := by
        simp [launches, hq, ht.2]
      rw [hostNegedge_launch hq ht.2]
      exact ⟨⟨hhost, h.arbiter, ⟨h.npu.settled, h.npu.room, h.npu.requests, h.npu.script⟩,
        List.forall_mem_append.mpr ⟨h.launches, List.forall_mem_singleton.mpr ht⟩, h.memPeq, h.mem,
        h.pimPeq, h.pim, h.pimHeld, h.pending⟩, .inl (view_eq hlane rfl hlaunches rfl)⟩

/-- An event of the barrier is seen. -/
theorem notePim_eq (host : Host.State) : ∃ thread,
    Host.notePim host = {host with thread := thread} ∧ phaseOf thread = (phaseOf host.thread).seeLane := by
  unfold Host.notePim
  split
  · next layer pim npu hthread => exact ⟨_, rfl, by rw [hthread]; rfl⟩
  · next hthread =>
    refine ⟨host.thread, rfl, ?_⟩
    cases ht : host.thread <;> simp_all [phaseOf, Lib.Stages.Phase.seeLane]

theorem noteNpu_eq (host : Host.State) : ∃ thread,
    Host.noteNpu host = {host with thread := thread} ∧
      phaseOf thread = (phaseOf host.thread).seeWorker := by
  unfold Host.noteNpu
  split
  · next layer pim npu hthread => exact ⟨_, rfl, by rw [hthread]; rfl⟩
  · next hthread =>
    refine ⟨host.thread, rfl, ?_⟩
    cases ht : host.thread <;> simp_all [phaseOf, Lib.Stages.Phase.seeWorker]

include h in
/-- The barrier's events change the host's place only. -/
theorem wired_note {thread : Host.Thread} (pimTraceDone npuTraceDone : Bool)
    (hphase : phaseOf s.host.thread = .halted → phaseOf thread = .halted) :
    Wired cfg {s with
      pimTraceDone := pimTraceDone
      npuTraceDone := npuTraceDone
      host := {s.host with thread := thread}} :=
  ⟨⟨h.host.pendingQ, h.host.readRspQ, fun hinactive => hphase (h.host.halting hinactive)⟩, h.arbiter,
    h.npu, h.launches, h.memPeq, h.mem, h.pimPeq, h.pim, h.pimHeld, h.pending⟩

include h in
theorem pimTraceDone_refines (hdone : s.pimTraceDone = true) :
    Refines cfg s {s with pimTraceDone := false, host := Host.notePim s.host} := by
  obtain ⟨thread, hnote, hphase⟩ := notePim_eq s.host
  rw [hnote]
  refine ⟨wired_note h false s.npuTraceDone fun hhalted => ?_, .inr ?_⟩
  · rw [hphase, hhalted]
    rfl
  · have hstep : Lib.Stages.Step marks cfg.Emits (view s) _ := .seeLane hdone
    convert hstep using 1
    rw [view, view, ← hphase]
    rfl

include h in
theorem npuTraceDone_refines (hdone : s.npuTraceDone = true) :
    Refines cfg s {s with npuTraceDone := false, host := Host.noteNpu s.host} := by
  obtain ⟨thread, hnote, hphase⟩ := noteNpu_eq s.host
  rw [hnote]
  refine ⟨wired_note h s.pimTraceDone false fun hhalted => ?_, .inr ?_⟩
  · rw [hphase, hhalted]
    rfl
  · have hstep : Lib.Stages.Step marks cfg.Emits (view s) _ := .seeWorker hdone
    convert hstep using 1
    rw [view, view, ← hphase]
    rfl

/-- **A step of the system is a step of the staged barrier**, or moves a transaction
within its kind. -/
theorem Move.refines {s' : State} (hl : cfg.Linked) (h : Wired cfg s) (hm : Move cfg s s') :
    Refines cfg s s' := by
  cases hm with
  | elapse d =>
    exact ⟨⟨h.host, h.arbiter, h.npu, h.launches, h.memPeq, h.mem, h.pimPeq, h.pim, h.pimHeld,
      h.pending⟩, .inl rfl⟩
  | host => exact host_refines hl h
  | hostNegedge => exact hostNegedge_refines h
  | pimTraceDone hdone => exact pimTraceDone_refines h hdone
  | npuTraceDone hdone => exact npuTraceDone_refines h hdone
  | arbiterPeqFw t rest hq => exact arbiterPeqFw_refines h hq
  | arbiterNegedge t index rest hq => exact arbiterNegedge_refines hl h hq
  | arbiterPeqBw t rest hq => exact arbiterPeqBw_refines h hq
  | arbiterPosedge t index rest hq => exact arbiterPosedge_refines h hq
  | npuPeqFw t rest hq => exact npuPeqFw_refines h hq
  | npuStart hstart => exact npuStart_refines hl h hstart
  | npuCompute wake rest hthread => exact npuCompute_refines hl h hthread
  | npuPeqBw t rest hq => exact npuPeqBw_refines h hq
  | npuResponse _ => exact npuResponse_refines hl h
  | memPeq t rest hq => exact memPeq_refines hl h hq
  | memIterate answers wake onEvent _ _ => exact refines_mem h (MemWrapper.iterate_keeps h.mem _ _)
  | memPosedge =>
    have hkeeps := MemWrapper.clockPosedge_keeps h.mem
    have hs := refines_mem h hkeeps
    rw [performAll_silent _ hkeeps.locals.silent] at hs
    simpa using hs
  | memNegedge => exact memNegedge_refines h
  | pimPeq t rest hq => exact pimPeq_refines hl h hq
  | pimIterate answers wake onEvent hthread _ =>
    exact refines_pim h (PimWrapper.iterate_keeps h.pim hthread _ _)
  | pimResume answers t wake hthread =>
    exact refines_pim h (PimWrapper.resume_keeps h.pim hthread _ _)
  | pimPosedge => exact pimPosedge_refines h
  | pimNegedge => exact pimNegedge_refines h

end

end Hsim.System
