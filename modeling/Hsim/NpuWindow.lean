import Hsim.BridgeTicked
import Hsim.Transit

/-! The window of the NPU's requests.

A transfer of the detailed replay sends a request at a time and waits for
`response_event` when `max_inflight_requests` are out; the thread does not look
at the counter again when it wakes. A notification takes a delta cycle to
trigger and the thread another to run, so a response that is counted in between
would leave a second notification behind, and the thread would send one request
too many on it. As long as the arbiter delivers a response only when the thread
is back at a wait, each response is worth one wake-up and the window holds. -/
namespace Hsim

namespace NpuTraceReplayer

/-! ### The window -/

/-- The most requests of a transfer that are out at a time. -/
def Config.window (cfg : Config) : UInt32 :=
  if cfg.profile.fastLayerMode then 1 else cfg.profile.maxInflightRequests

/-- A tensor-sized transfer is one request at most. -/
def Config.Whole (cfg : Config) : Segment → Prop
  | .transfer _ _ _ _ _ requests => cfg.profile.fastLayerMode = true → requests.length ≤ 1
  | _ => True

theorem replayTrace_whole (cfg : Config) (l : Launch) (run : UInt32) :
    ∀ g ∈ cfg.replayTrace l run, cfg.Whole g := by
  intro g hg
  unfold Config.replayTrace Config.replayAs at hg
  have hone : ∀ multiplier, Issued (cfg.fast multiplier) g → cfg.Whole g := by
    intro multiplier h
    cases g with
    | transfer op kind command bytes layer requests =>
      obtain ⟨-, rfl⟩ := h
      intro _
      simp only [Config.fast, Config.issueFastMemory]
      split <;> simp
    | _ => trivial
  split at hg
  · split at hg <;> exact hone _ (replayLayers_issued cfg l _ _ g hg)
  · next hmode =>
    cases g with
    | transfer op kind command bytes layer requests => exact fun hfast => absurd hfast hmode
    | _ => trivial

/-- The thread at a wait, with a number of wake-ups still to come: a full window is short
of that many requests. -/
structure Within (cfg : Config) (owed : Nat) (s : State) : Prop where
  full : ∀ requests rest, s.thread = .throttled requests rest →
    cfg.profile.fastLayerMode = false ∧
      s.pendingResponses.toNat + owed = cfg.profile.maxInflightRequests.toNat
  bounded : s.pendingResponses.toNat ≤ cfg.window.toNat
  whole : ∀ g ∈ s.thread.script, cfg.Whole g

/-- There is room for the next request of a transfer, in fast-layer mode for all of them. -/
def Config.Room (cfg : Config) (requests : List Payload) (s : State) : Prop :=
  if cfg.profile.fastLayerMode then s.pendingResponses.toNat + requests.length ≤ 1
  else requests ≠ [] → s.pendingResponses.toNat < cfg.profile.maxInflightRequests.toNat

/-- One request leaves: the window is full with it, or there is still room. -/
theorem Config.Room.send {cfg : Config} {body : Payload} {requests : List Payload} {s : State}
    (h : cfg.Room (body :: requests) s) :
    let s' := (send cfg body s).1
    s'.pendingResponses.toNat ≤ cfg.window.toNat ∧
      if cfg.windowFull s' then cfg.profile.fastLayerMode = false ∧
        s'.pendingResponses.toNat = cfg.profile.maxInflightRequests.toNat
      else cfg.Room requests s' := by
  dsimp only
  have hlimit : cfg.profile.maxInflightRequests.toNat < 2 ^ 32 := UInt32.toNat_lt _
  have hpending : (NpuTraceReplayer.send cfg body s).1.pendingResponses = s.pendingResponses + 1 := rfl
  cases hmode : cfg.profile.fastLayerMode with
  | true =>
    simp only [Config.Room, hmode, if_true, List.length_cons] at h
    have hone : (s.pendingResponses + 1).toNat = s.pendingResponses.toNat + 1 := by
      rw [UInt32.toNat_add]
      exact Nat.mod_eq_of_lt (by simp; omega)
    simp only [Config.window, Config.windowFull, Config.Room, hmode, hpending, hone, if_true,
      Bool.not_true, Bool.false_and, Bool.false_eq_true, if_false]
    exact ⟨by simp; omega, by omega⟩
  | false =>
    simp only [Config.Room, hmode, Bool.false_eq_true, if_false] at h
    have hless := h (by simp)
    have hone : (s.pendingResponses + 1).toNat = s.pendingResponses.toNat + 1 := by
      rw [UInt32.toNat_add]
      exact Nat.mod_eq_of_lt (by simp; omega)
    refine ⟨?_, ?_⟩
    · simp only [Config.window, hmode, Bool.false_eq_true, if_false, hpending, hone]
      omega
    · simp only [Config.windowFull, Config.Room, hmode, Bool.not_false, Bool.true_and,
        decide_eq_true_eq, UInt32.le_iff_toNat_le, hpending, hone, Bool.false_eq_true, if_false]
      split
      · exact ⟨trivial, by omega⟩
      · exact fun _ => by omega

/-- The rest of a transfer, by induction on the requests left. -/
theorem issue_within {cfg : Config} {rest : List Segment} {next : Action State}
    (hrest : ∀ g ∈ rest, cfg.Whole g)
    (hnext : ∀ s, s.pendingResponses = 0 → Within cfg 0 (next s).1) {requests : List Payload} {s : State}
    (hbounded : s.pendingResponses.toNat ≤ cfg.window.toNat) (hroom : cfg.Room requests s) :
    Within cfg 0 (issue cfg rest next requests s).1 := by
  induction requests generalizing s with
  | nil =>
    simp only [issue]
    split
    · next hzero => exact hnext s hzero
    · exact ⟨by simp, hbounded, hrest⟩
  | cons body requests ih =>
    obtain ⟨hsent, hfull⟩ := hroom.send
    simp only [issue]
    split
    · next hwindow =>
      rw [if_pos hwindow] at hfull
      exact ⟨fun _ _ _ => hfull, hsent, hrest⟩
    · next hwindow =>
      rw [if_neg hwindow] at hfull
      exact ih hsent hfull

/-- A new transfer has room for its first request. -/
theorem room_first {cfg : Config} (hwindow : cfg.profile.maxInflightRequests ≠ 0)
    {requests : List Payload} (hwhole : cfg.profile.fastLayerMode = true → requests.length ≤ 1)
    {s : State} (hzero : s.pendingResponses = 0) : cfg.Room requests s := by
  have hpositive : 0 < cfg.profile.maxInflightRequests.toNat := by
    rw [Nat.pos_iff_ne_zero]
    exact fun h => hwindow (UInt32.toNat_inj.mp h)
  unfold Config.Room
  split
  · next hmode =>
    rw [hzero]
    simpa using hwhole hmode
  · rw [hzero]
    exact fun _ => hpositive

/-- From a segment on, with no request out. -/
theorem advance_within {cfg : Config} (hwindow : cfg.profile.maxInflightRequests ≠ 0) (now : Time)
    {script : List Segment} (hscript : ∀ g ∈ script, cfg.Whole g) {s : State}
    (hzero : s.pendingResponses = 0) : Within cfg 0 (advance cfg now script s).1 := by
  have hbounded : ∀ {s : State}, s.pendingResponses = 0 →
      s.pendingResponses.toNat ≤ cfg.window.toNat := by
    intro s hs
    rw [hs]
    exact Nat.zero_le _
  induction script generalizing s with
  | nil => exact ⟨by simp [advance], hbounded hzero, by simp [advance, Thread.script]⟩
  | cons g rest ih =>
    obtain ⟨hg, hrest⟩ := List.forall_mem_cons.mp hscript
    cases g with
    | layerStart layer => exact ih hrest (s := {s with npuStartTime := now}) hzero
    | transfer op kind command bytes layer requests =>
      simp only [advance]
      split
      · exact ih hrest hzero
      · exact issue_within hrest (fun s hs => ih hrest hs) (hbounded rfl) (room_first hwindow hg rfl)
    | compute op computeNs => exact ⟨by simp [advance], hbounded hzero, hrest⟩
    | layerEnd layer compute => exact ih hrest hzero
    | trap => exact ⟨by simp [advance], hbounded hzero, by simp [advance, Thread.script]⟩
    | finish => exact ⟨by simp [advance], hbounded hzero, by simp [advance, Thread.script]⟩

/-! ### The thread's activations -/

section
variable {cfg : Config} (hwindow : cfg.profile.maxInflightRequests ≠ 0) {s : State} (h : Inv cfg s)
  (now : Time)
include hwindow h

theorem startRun_within {owed : Nat} (hs : Within cfg owed s)
    (hnone : s.thread.transferring = false → owed = 0) : Within cfg owed (startRun cfg now s).1 := by
  unfold startRun
  dsimp only
  split
  · next hthread =>
    have hidle : s.thread.transferring = false := by
      rw [hthread]
      rfl
    rw [hnone hidle]
    exact advance_within hwindow now (replayTrace_whole cfg s.launch s.runId) (h.settled hidle)
  · exact ⟨hs.full, hs.bounded, hs.whole⟩

omit h in
/-- A wake-up is worth one request. -/
theorem onResponse_within (hs : Within cfg 1 s) : Within cfg 0 (onResponse cfg now s).1 := by
  have hwhole := hs.whole
  unfold onResponse
  dsimp only
  split
  · next requests rest hthread =>
    rw [hthread] at hwhole
    obtain ⟨hmode, hfull⟩ := hs.full requests rest hthread
    refine issue_within hwhole (fun s' hs' => advance_within hwindow now hwhole hs') hs.bounded ?_
    simp only [Config.Room, hmode, Bool.false_eq_true, if_false]
    exact fun _ => by omega
  · next rest hthread =>
    rw [hthread] at hwhole
    split
    · next hzero => exact advance_within hwindow now hwhole hzero
    · exact ⟨by simp [hthread], hs.bounded, hs.whole⟩
  · next hthrottled hdraining =>
    exact ⟨fun requests rest hthread => absurd hthread (hthrottled requests rest), hs.bounded,
      hs.whole⟩

theorem endCompute_within {wake : Time} {rest : List Segment} (hthread : s.thread = .computing wake rest)
    (hwhole : ∀ g ∈ s.thread.script, cfg.Whole g) : Within cfg 0 (endCompute cfg now s).1 := by
  have hidle : s.thread.transferring = false := by
    rw [hthread]
    rfl
  rw [hthread] at hwhole
  simp only [endCompute, hthread]
  exact advance_within hwindow now hwhole (h.settled hidle)

end

/-! ### Its event -/

theorem issue_event {cfg : Config} {rest : List Segment} {next : Action State}
    (hnext : ∀ s, (next s).1.responseEvent = s.responseEvent) (requests : List Payload) (s : State) :
    (issue cfg rest next requests s).1.responseEvent = s.responseEvent := by
  induction requests generalizing s with
  | nil =>
    simp only [issue]
    split
    · exact hnext s
    · rfl
  | cons body requests ih =>
    simp only [issue]
    split
    · rfl
    · exact ih _

theorem advance_event (cfg : Config) (now : Time) (script : List Segment) (s : State) :
    (advance cfg now script s).1.responseEvent = s.responseEvent := by
  induction script generalizing s with
  | nil => rfl
  | cons g rest ih =>
    cases g with
    | layerStart layer => exact ih _
    | transfer op kind command bytes layer requests =>
      simp only [advance]
      split
      · exact ih s
      · exact issue_event ih requests _
    | compute op computeNs => rfl
    | layerEnd layer compute => exact ih s
    | trap => rfl
    | finish => rfl

theorem startRun_event (cfg : Config) (now : Time) (s : State) :
    (startRun cfg now s).1.responseEvent = s.responseEvent := by
  unfold startRun
  dsimp only
  split
  · exact advance_event cfg now _ _
  · rfl

theorem onResponse_event (cfg : Config) (now : Time) (s : State) :
    (onResponse cfg now s).1.responseEvent = false := by
  unfold onResponse
  dsimp only
  split
  · exact issue_event (advance_event cfg now _) _ _
  · split
    · exact advance_event cfg now _ _
    · rfl
  · rfl

theorem endCompute_event (cfg : Config) (now : Time) (s : State) :
    (endCompute cfg now s).1.responseEvent = s.responseEvent := by
  unfold endCompute
  split
  · exact advance_event cfg now _ s
  · rfl

/-! ### Where operations begin -/

/-- The rest of a transfer, then `next`: what `pending_responses` is where an operation
begins. -/
def issueBegun (cfg : Config) (next : State → List UInt32) : List Payload → State → List UInt32
  | [], s => if s.pendingResponses = 0 then next s else []
  | body :: requests, s =>
    let s := (send cfg body s).1
    if cfg.windowFull s then [] else issueBegun cfg next requests s

/-- Ghost: the values of `pending_responses` where `advance` begins a memory operation or
a computation, in order. -/
def advanceBegun (cfg : Config) (now : Time) : List Segment → State → List UInt32
  | [], _ => []
  | .layerStart _ :: rest, s => advanceBegun cfg now rest {s with npuStartTime := now}
  | .transfer _ _ _ _ _ requests :: rest, s =>
    s.pendingResponses ::
      if requests = [] then advanceBegun cfg now rest s
      else issueBegun cfg (advanceBegun cfg now rest) requests {s with pendingResponses := 0}
  | .compute _ _ :: _, s => [s.pendingResponses]
  | .layerEnd _ _ :: rest, s => advanceBegun cfg now rest s
  | .trap :: _, _ => []
  | .finish :: _, _ => []

/-- Ghost: the same for what the thread does from the wait it is at. -/
def begun (cfg : Config) (now : Time) (s : State) : List UInt32 :=
  match s.thread with
  | .waitStart => advanceBegun cfg now (cfg.replayTrace s.launch s.runId) {s with
      startEvent := false
      activeCore := true
      runId := s.runId + 1}
  | .computing _ rest => advanceBegun cfg now rest s
  | .throttled requests rest => issueBegun cfg (advanceBegun cfg now rest) requests s
  | .draining rest => if s.pendingResponses = 0 then advanceBegun cfg now rest s else []
  | .trapped => []

theorem issueBegun_zero {cfg : Config} {next : State → List UInt32}
    (hnext : ∀ s, s.pendingResponses = 0 → ∀ n ∈ next s, n = 0) (requests : List Payload) (s : State) :
    ∀ n ∈ issueBegun cfg next requests s, n = 0 := by
  induction requests generalizing s with
  | nil =>
    simp only [issueBegun]
    split
    · next hzero => exact hnext s hzero
    · simp
  | cons body requests ih =>
    simp only [issueBegun]
    split
    · simp
    · exact ih _

theorem advanceBegun_zero (cfg : Config) (now : Time) (script : List Segment) {s : State}
    (hzero : s.pendingResponses = 0) : ∀ n ∈ advanceBegun cfg now script s, n = 0 := by
  induction script generalizing s with
  | nil => simp [advanceBegun]
  | cons g rest ih =>
    cases g with
    | layerStart layer => exact ih (s := {s with npuStartTime := now}) hzero
    | transfer op kind command bytes layer requests =>
      simp only [advanceBegun]
      rw [List.forall_mem_cons]
      constructor
      · exact hzero
      · split
        · exact ih hzero
        · exact issueBegun_zero (fun s hs => ih hs) requests _
    | compute op computeNs => simpa [advanceBegun] using hzero
    | layerEnd layer compute => exact ih hzero
    | trap => simp [advanceBegun]
    | finish => simp [advanceBegun]

theorem begun_zero {cfg : Config} {s : State} (h : Inv cfg s) (now : Time) :
    ∀ n ∈ begun cfg now s, n = 0 := by
  have hsettled := h.settled
  unfold begun
  split
  · next hthread => exact advanceBegun_zero cfg now _ (hsettled (by rw [hthread]; rfl))
  · next hthread => exact advanceBegun_zero cfg now _ (hsettled (by rw [hthread]; rfl))
  · exact issueBegun_zero (fun s hs => advanceBegun_zero cfg now _ hs) _ s
  · split
    · next hzero => exact advanceBegun_zero cfg now _ hzero
    · simp
  · simp

/-- The thread runs after its event has triggered. A notification that came in between is
left for the next time. -/
def wakeThread (cfg : Config) (now : Time) : Action State := fun s =>
  let r := onResponse cfg now s
  ({r.1 with responseEvent := s.responseEvent}, r.2)

end NpuTraceReplayer

namespace System

open NpuTraceReplayer (Within)

/-! ### The system between a trigger and the thread -/

/-- The system, with the replay thread told apart from its event: `response_event` can
have triggered without the thread having run. -/
structure Fine where
  system : State
  woken : Bool := false

/-- A process of the system other than the replay thread at its responses, the trigger of
`response_event`, or the thread it has made runnable. -/
inductive Fine.Step (cfg : Config) (x : Fine) : Fine → Prop where
  | move (s : State) : System.Step cfg x.system s →
    (x.system.npu.responseEvent = true → s.npu.responseEvent = true) → Fine.Step cfg x {x with system := s}
  | trigger : Running x.system → x.system.npu.responseEvent = true →
    Fine.Step cfg x {
      system := {x.system with npu := {x.system.npu with responseEvent := false}}
      woken := x.woken || x.system.npu.thread.transferring}
  | wake : Running x.system → x.woken = true →
    Fine.Step cfg x {
      system := runNpu (NpuTraceReplayer.wakeThread cfg.npu x.system.now) x.system
      woken := false}

/-- Every response delivered has been counted and the thread has run to its next wait. -/
def Fine.AtRest (x : Fine) : Prop :=
  x.system.npu.peqBw = [] ∧ x.system.npu.responseEvent = false ∧ x.woken = false

/-- A response is delivered to the NPU only when it is at rest: one for each clock edge,
and the thread reaches its next wait before the next edge. -/
def Fine.Paced (x x' : Fine) : Prop :=
  x.system.npu.peqBw.length < x'.system.npu.peqBw.length → x.AtRest

/-- The states of the paced runs. -/
abbrev Fine.Reachable (cfg : Config) (controls : List TraceGenerator.SpeculativeControl) : Fine → Prop :=
  Lib.Reach (fun x => x = {system := {host := {controls := controls}}})
    (Lib.Kept (Fine.Step cfg) Fine.Paced)

/-! ### What a process does to the window -/

/-- The counter, the thread, the event and the responses are the same. -/
structure SameWindow (a b : NpuTraceReplayer.State) : Prop where
  thread : b.thread = a.thread
  pending : b.pendingResponses = a.pendingResponses
  event : b.responseEvent = a.responseEvent
  peqBw : b.peqBw = a.peqBw

theorem performAll_window (s : State) (effects : List Effect) :
    SameWindow s.npu (performAll s effects).npu := by
  rw [performAll_eq]
  exact ⟨rfl, rfl, rfl, rfl⟩

theorem runMem_window (process : Action MemWrapper.State) (s : State) :
    SameWindow s.npu (runMem process s).npu :=
  performAll_window {s with mem := (process s.mem).1} (process s.mem).2

theorem runPim_window (process : Action PimWrapper.State) (s : State) :
    SameWindow s.npu (runPim process s).npu :=
  performAll_window {s with pim := (process s.pim).1} (process s.pim).2

theorem runNpu_window (process : Action NpuTraceReplayer.State) (s : State) :
    SameWindow (process s.npu).1 (runNpu process s).npu :=
  performAll_window {s with npu := (process s.npu).1} (process s.npu).2

/-- A process, by what it does to the window. -/
inductive Turn (cfg : Config) (s s' : State) : Prop where
  | aside (hsame : SameWindow s.npu s'.npu)
  | delivered (t : Payload) (hsame : SameWindow {s.npu with peqBw := s.npu.peqBw ++ [t]} s'.npu)
  | started (hsame : SameWindow (NpuTraceReplayer.startRun cfg.npu s.now s.npu).1 s'.npu)
  | computed (wake : Time) (rest : List NpuTraceReplayer.Segment)
    (hthread : s.npu.thread = .computing wake rest)
    (hsame : SameWindow (NpuTraceReplayer.endCompute cfg.npu s.now s.npu).1 s'.npu)
  | counted (t : Payload) (rest : List Payload) (hq : s.npu.peqBw = t :: rest)
    (hsame : SameWindow {s.npu with
      peqBw := rest
      pendingResponses := s.npu.pendingResponses - 1
      responseEvent := true} s'.npu)
  | responded (hevent : s.npu.responseEvent = true) (hdone : s'.npu.responseEvent = false)

theorem Move.turn {cfg : Config} {s s' : State} (hm : Move cfg s s') : Turn cfg s s' := by
  cases hm with
  | elapse d => exact .aside ⟨rfl, rfl, rfl, rfl⟩
  | host =>
    let r := Host.processTrace cfg.host cfg.hostAllocate s.now s.activeDram s.host
    exact .aside (performAll_window {s with
      host := r.1
      served := if r.1.stage = s.host.stage then s.served else []} r.2)
  | hostNegedge => exact .aside (performAll_window {s with host := (Host.clockNegedge s.host).1} _)
  | pimTraceDone _ => exact .aside ⟨rfl, rfl, rfl, rfl⟩
  | npuTraceDone _ => exact .aside ⟨rfl, rfl, rfl, rfl⟩
  | arbiterPeqFw t rest _ => exact .aside ⟨rfl, rfl, rfl, rfl⟩
  | arbiterNegedge t index rest _ =>
    refine .aside ?_
    unfold deliverFw
    split <;> exact ⟨rfl, rfl, rfl, rfl⟩
  | arbiterPeqBw t rest _ => exact .aside ⟨rfl, rfl, rfl, rfl⟩
  | arbiterPosedge t index rest _ =>
    unfold deliverBw
    split
    · exact .aside ⟨rfl, rfl, rfl, rfl⟩
    · exact .delivered t ⟨rfl, rfl, rfl, rfl⟩
  | npuPeqFw t rest _ =>
    refine .aside ?_
    unfold NpuTraceReplayer.peqFwCb
    split <;> exact ⟨rfl, rfl, rfl, rfl⟩
  | npuStart _ => exact .started (runNpu_window _ s)
  | npuCompute wake rest hthread => exact .computed wake rest hthread (runNpu_window _ s)
  | npuPeqBw t rest hq =>
    exact .counted t rest hq (runNpu_window (NpuTraceReplayer.peqBwCb t)
      {s with npu := {s.npu with peqBw := rest}})
  | npuResponse hevent =>
    refine .responded hevent ?_
    have hsame := runNpu_window (NpuTraceReplayer.onResponse cfg.npu s.now) s
    exact hsame.event.trans (NpuTraceReplayer.onResponse_event cfg.npu s.now s.npu)
  | memPeq t rest _ => exact .aside (runMem_window _ {s with memPeq := rest})
  | memIterate answers wake onEvent _ _ => exact .aside (runMem_window _ s)
  | memPosedge => exact .aside ⟨rfl, rfl, rfl, rfl⟩
  | memNegedge => exact .aside (runMem_window _ s)
  | pimPeq t rest _ => exact .aside (runPim_window _ {s with pimPeq := rest})
  | pimIterate answers wake onEvent _ _ => exact .aside (runPim_window _ s)
  | pimResume answers t wake _ => exact .aside (runPim_window _ s)
  | pimPosedge => exact .aside (runPim_window _ s)
  | pimNegedge => exact .aside (runPim_window _ s)

/-! ### The window along a run -/

/-- The wake-ups still to come. -/
def Fine.owed (x : Fine) : Nat := x.system.npu.responseEvent.toNat + x.woken.toNat

/-- At most one response is on its way into the thread, and a full window is short of
that one. -/
structure Fine.Windowed (cfg : Config) (x : Fine) : Prop where
  carried : Carried cfg x.system
  accounted : Accounted x.system
  tokens : x.system.npu.peqBw.length + x.owed ≤ 1
  resting : x.system.npu.thread.transferring = false → x.owed = 0
  within : Within cfg.npu x.owed x.system.npu

theorem SameWindow.within {a b : NpuTraceReplayer.State} (h : SameWindow a b)
    {cfg : NpuTraceReplayer.Config} {owed : Nat} (hw : Within cfg owed a) : Within cfg owed b := by
  refine ⟨?_, ?_, ?_⟩
  · rw [h.thread, h.pending]
    exact hw.full
  · rw [h.pending]
    exact hw.bounded
  · rw [h.thread]
    exact hw.whole

theorem windowed_initial (cfg : Config) {controls : List TraceGenerator.SpeculativeControl} {x : Fine}
    (h : x = {system := {host := {controls := controls}}}) : x.Windowed cfg := by
  subst h
  exact ⟨carried_initial cfg rfl, accounted_initial rfl, by simp [Fine.owed], by simp [Fine.owed],
    ⟨by simp, Nat.zero_le _, by simp [NpuTraceReplayer.Thread.script]⟩⟩

/-- Responses are on their way only during a transfer. -/
theorem Accounted.transferring {cfg : Config} {s : State} (h : Accounted s) (hc : Carried cfg s)
    {t : Payload} {rest : List Payload} (hq : s.npu.peqBw = t :: rest) :
    0 < s.npu.pendingResponses.toNat ∧ s.npu.thread.transferring = true := by
  have hunder := h.under
  rw [traffic_npuPeqBw hq, Multiset.card_cons] at hunder
  refine ⟨by omega, ?_⟩
  by_contra hidle
  have hzero := hc.npu.settled (by simpa using hidle)
  rw [hzero] at hunder
  exact absurd hunder (by simp)

section
variable {cfg : Config} (hmemory : cfg.npu.memory = if cfg.dramEnabled then .dram else .pim)
  (hwindow : cfg.npu.profile.maxInflightRequests ≠ 0) {x : Fine} (h : x.Windowed cfg)
include h

include hwindow in
/-- A process other than the thread at its responses. -/
theorem Turn.windowed {s : State} (hcarried : Carried cfg s) (haccounted : Accounted s)
    (hturn : Turn cfg x.system s)
    (hevent : x.system.npu.responseEvent = true → s.npu.responseEvent = true)
    (hpaced : Fine.Paced x {x with system := s}) : Fine.Windowed cfg {x with system := s} := by
  have htokens := h.tokens
  have hresting := h.resting
  cases hturn with
  | aside hsame =>
    have howed : ({x with system := s} : Fine).owed = x.owed := by simp [Fine.owed, hsame.event]
    refine ⟨hcarried, haccounted, ?_, ?_, ?_⟩
    · rw [howed, hsame.peqBw]
      exact htokens
    · rw [howed, hsame.thread]
      exact hresting
    · rw [howed]
      exact hsame.within h.within
  | delivered t hsame =>
    have howed : ({x with system := s} : Fine).owed = x.owed := by simp [Fine.owed, hsame.event]
    have hgrows : x.system.npu.peqBw.length < s.npu.peqBw.length := by simp [hsame.peqBw]
    obtain ⟨hnone, hquiet, hasleep⟩ := hpaced hgrows
    have hzero : x.owed = 0 := by simp [Fine.owed, hquiet, hasleep]
    refine ⟨hcarried, haccounted, ?_, fun _ => howed.trans hzero, ?_⟩
    · rw [howed, hzero, hsame.peqBw, hnone]
      simp
    · rw [howed]
      exact hsame.within ⟨h.within.full, h.within.bounded, h.within.whole⟩
  | started hsame =>
    have hran := NpuTraceReplayer.startRun_ran h.carried.npu x.system.now
    have howed : ({x with system := s} : Fine).owed = x.owed := by
      simp [Fine.owed, hsame.event, NpuTraceReplayer.startRun_event]
    refine ⟨hcarried, haccounted, ?_, fun hidle => ?_, ?_⟩
    · rw [howed, hsame.peqBw, hran.peqBw]
      exact htokens
    · rw [howed]
      by_cases hthread : x.system.npu.thread = .waitStart
      · exact hresting (by rw [hthread]; rfl)
      · -- the event finds the thread elsewhere
        refine hresting ?_
        have hsame' : s.npu.thread = x.system.npu.thread := by
          rw [hsame.thread, NpuTraceReplayer.startRun]
          dsimp only
          split
          · next hstart => exact absurd hstart hthread
          · rfl
        rw [← hsame']
        exact hidle
    · rw [howed]
      exact hsame.within
        (NpuTraceReplayer.startRun_within hwindow h.carried.npu x.system.now h.within hresting)
  | computed wake rest hthread hsame =>
    have hran := NpuTraceReplayer.endCompute_ran h.carried.npu x.system.now
    have hzero : x.owed = 0 := hresting (by rw [hthread]; rfl)
    have howed : ({x with system := s} : Fine).owed = 0 := by
      rw [← hzero]
      simp [Fine.owed, hsame.event, NpuTraceReplayer.endCompute_event]
    refine ⟨hcarried, haccounted, ?_, fun _ => howed, ?_⟩
    · rw [howed, hsame.peqBw, hran.peqBw]
      omega
    · rw [howed]
      exact hsame.within (NpuTraceReplayer.endCompute_within hwindow h.carried.npu x.system.now hthread
        h.within.whole)
  | counted t rest hq hsame =>
    obtain ⟨hpositive, hbusy⟩ := h.accounted.transferring h.carried hq
    rw [hq, List.length_cons] at htokens
    have hasleep : x.woken = false := by
      cases hw : x.woken with
      | false => rfl
      | true =>
        simp only [Fine.owed, hw, Bool.toNat_true] at htokens
        omega
    have howed : ({x with system := s} : Fine).owed = 1 := by simp [Fine.owed, hsame.event, hasleep]
    have hsub := Lib.toNat_pred hpositive
    refine ⟨hcarried, haccounted, ?_, fun hidle => ?_, ?_⟩
    · rw [howed, hsame.peqBw]
      show rest.length + 1 ≤ 1
      omega
    · rw [hsame.thread] at hidle
      exact absurd (hbusy.symm.trans hidle) (by simp)
    · rw [howed]
      refine hsame.within ⟨fun requests rest' hthread => ?_, ?_, h.within.whole⟩
      · obtain ⟨hmode, hfull⟩ := h.within.full requests rest' hthread
        refine ⟨hmode, ?_⟩
        show (x.system.npu.pendingResponses - 1).toNat + 1 = _
        omega
      · have hbounded := h.within.bounded
        show (x.system.npu.pendingResponses - 1).toNat ≤ _
        omega
  | responded hon hdone =>
    rw [hevent hon] at hdone
    exact absurd hdone (by simp)

/-- The event triggers, and the thread that waits for it becomes runnable. -/
theorem trigger_windowed (hevent : x.system.npu.responseEvent = true) :
    Fine.Windowed cfg {
      system := {x.system with npu := {x.system.npu with responseEvent := false}}
      woken := x.woken || x.system.npu.thread.transferring} := by
  have htokens := h.tokens
  have hc := h.carried
  have ha := h.accounted
  have hasleep : x.woken = false := by
    cases hw : x.woken with
    | false => rfl
    | true => simp [Fine.owed, hw, hevent] at htokens
  have hone : x.owed = 1 := by simp [Fine.owed, hevent, hasleep]
  have hbusy : x.system.npu.thread.transferring = true := by
    by_contra hidle
    have hzero := h.resting (by simpa using hidle)
    omega
  have howed : Fine.owed {
      system := {x.system with npu := {x.system.npu with responseEvent := false}}
      woken := x.woken || x.system.npu.thread.transferring} = 1 := by
    simp [Fine.owed, hbusy]
  refine ⟨⟨hc.pendingQ, hc.launches, ⟨hc.npu.settled, hc.npu.room, hc.npu.requests, hc.npu.script⟩,
    ⟨hc.stocked.unsent, hc.stocked.script⟩, hc.peqFw, hc.fwQueue, hc.peqBw, hc.bwQueue, hc.memPeq,
    hc.mem, hc.pimPeq, hc.pim, hc.pending⟩, ⟨ha.fromNpu, ha.under, ha.pending, ha.conserved⟩,
    ?_, ?_, ?_⟩
  · rw [howed]
    show x.system.npu.peqBw.length + 1 ≤ 1
    omega
  · exact fun hidle => absurd (hbusy.symm.trans hidle) (by simp)
  · rw [howed, ← hone]
    exact ⟨h.within.full, h.within.bounded, h.within.whole⟩

include hmemory hwindow in
/-- The runnable thread runs to its next wait. -/
theorem wake_windowed (hrun : x.system.failed = false) (hwoken : x.woken = true) :
    Fine.Windowed cfg {
      system := runNpu (NpuTraceReplayer.wakeThread cfg.npu x.system.now) x.system
      woken := false} := by
  have htokens := h.tokens
  have hran := NpuTraceReplayer.onResponse_ran h.carried.npu x.system.now
  obtain ⟨bodies, hsends⟩ := NpuTraceReplayer.onResponse_sends h.carried.stocked x.system.now
  have hquiet : x.system.npu.responseEvent = false := by
    cases he : x.system.npu.responseEvent with
    | false => rfl
    | true => simp [Fine.owed, he, hwoken] at htokens
  have hone : x.owed = 1 := by simp [Fine.owed, hquiet, hwoken]
  -- the thread does what it does at its event, which is not pending
  have hsame : NpuTraceReplayer.wakeThread cfg.npu x.system.now x.system.npu =
      NpuTraceReplayer.onResponse cfg.npu x.system.now x.system.npu := by
    have hoff := NpuTraceReplayer.onResponse_event cfg.npu x.system.now x.system.npu
    simp only [NpuTraceReplayer.wakeThread, hquiet]
    rw [← hoff]
  have hwake : runNpu (NpuTraceReplayer.wakeThread cfg.npu x.system.now) x.system =
      performAll {x.system with npu := (NpuTraceReplayer.onResponse cfg.npu x.system.now x.system.npu).1}
        (NpuTraceReplayer.onResponse cfg.npu x.system.now x.system.npu).2 := by
    rw [runNpu, hsame]
  rw [hwake]
  obtain ⟨hcarried, hflow⟩ := npu_moved h.carried hmemory hrun hran hsends rfl rfl rfl
  have hwin := performAll_window
    {x.system with npu := (NpuTraceReplayer.onResponse cfg.npu x.system.now x.system.npu).1}
    (NpuTraceReplayer.onResponse cfg.npu x.system.now x.system.npu).2
  have howed : ∀ s, SameWindow (NpuTraceReplayer.onResponse cfg.npu x.system.now x.system.npu).1 s.npu →
      Fine.owed {system := s, woken := false} = 0 := by
    intro s hs
    simp [Fine.owed, hs.event, NpuTraceReplayer.onResponse_event]
  refine ⟨hcarried, hflow.accounted h.accounted, ?_, fun _ => howed _ hwin, ?_⟩
  · rw [howed _ hwin, hwin.peqBw]
    show (NpuTraceReplayer.onResponse cfg.npu x.system.now x.system.npu).1.peqBw.length + 0 ≤ 1
    rw [hran.peqBw]
    omega
  · rw [howed _ hwin]
    exact hwin.within (NpuTraceReplayer.onResponse_within hwindow x.system.now (hone ▸ h.within))

include hmemory hwindow in
/-- **Every paced step keeps the window.** -/
theorem Fine.Step.windowed {x' : Fine} (hstep : Lib.Kept (Fine.Step cfg) Fine.Paced x x') :
    x'.Windowed cfg := by
  obtain ⟨hs, hpaced⟩ := hstep
  cases hs with
  | move s hstep hevent =>
    obtain ⟨hcarried, hflow⟩ := hstep.moved hmemory h.carried
    exact hstep.2.turn.windowed hwindow h hcarried (hflow.accounted h.accounted) hevent hpaced
  | trigger _ hevent => exact trigger_windowed h hevent
  | wake hrun hwoken => exact wake_windowed hmemory hwindow h hrun.1 hwoken

end

/-- **The request window.** In every run of an accepted configuration in which a response
is delivered only when the replay thread is at rest, `pending_responses` is the number of
transactions issued whose response has not been processed, no more than the window, and 0
where a computation or a memory operation begins; a response that is processed finds it
positive. -/
theorem request_window {files : Files} {c : Configurations}
    (haccepted : initConfigurations files = .ok c) (models : Models)
    {controls : List TraceGenerator.SpeculativeControl} {x : Fine}
    (h : Fine.Reachable (Config.of c models) controls x) :
    x.system.npu.pendingResponses.toNat = (unanswered x.system.log).card ∧
      x.system.npu.pendingResponses ≤
        (if c.syntheticNpu.fastLayerMode then 1 else c.syntheticNpu.maxInflightRequests) ∧
      (∀ n ∈ NpuTraceReplayer.begun (Config.of c models).npu x.system.now x.system.npu, n = 0) ∧
      (x.system.npu.peqBw ≠ [] → 0 < x.system.npu.pendingResponses) := by
  have hw : x.Windowed (Config.of c models) :=
    h.invariant (P := Fine.Windowed (Config.of c models)) (fun _ => windowed_initial _)
      fun _ _ hx hstep => Fine.Step.windowed rfl (initConfigurations_window haccepted) hx hstep
  refine ⟨hw.accounted.unanswered, ?_, NpuTraceReplayer.begun_zero hw.carried.npu x.system.now, ?_⟩
  · exact UInt32.le_iff_toNat_le.mpr hw.within.bounded
  · intro hne
    obtain ⟨t, rest, hq⟩ := List.exists_cons_of_ne_nil hne
    exact UInt32.lt_iff_toNat_lt.mpr (hw.accounted.transferring hw.carried hq).1

/-! ### A run of the system between trigger and thread -/

/-- A process of the system, the trigger, or the thread. -/
inductive Fine.Process where
  | process (p : System.Process)
  | trigger
  | wake

/-- One step, `none` if there is none. -/
def Fine.fire (cfg : Config) (x : Fine) : Fine.Process → Option Fine
  | .process p =>
    (System.fire cfg x.system p).bind fun s =>
      if x.system.npu.responseEvent → s.npu.responseEvent then some {x with system := s} else none
  | .trigger =>
    if x.system.npu.responseEvent then
      some {
        system := {x.system with npu := {x.system.npu with responseEvent := false}}
        woken := x.woken || x.system.npu.thread.transferring}
    else none
  | .wake =>
    if x.woken then
      some {
        system := runNpu (NpuTraceReplayer.wakeThread cfg.npu x.system.now) x.system
        woken := false}
    else none

theorem Fine.fire_step {cfg : Config} {x x' : Fine} (hrun : Running x.system) {p : Fine.Process}
    (h : Fine.fire cfg x p = some x') : Fine.Step cfg x x' := by
  cases p with
  | process p =>
    obtain ⟨s, hfire, h⟩ := Option.bind_eq_some_iff.mp h
    obtain ⟨hevent, h⟩ := Option.ite_none_right_eq_some.mp h
    cases h
    exact .move s ⟨hrun, fire_move hfire⟩ hevent
  | trigger =>
    obtain ⟨hevent, h⟩ := Option.ite_none_right_eq_some.mp h
    cases h
    exact .trigger hrun hevent
  | wake =>
    obtain ⟨hwoken, h⟩ := Option.ite_none_right_eq_some.mp h
    cases h
    exact .wake hrun hwoken

instance (x x' : Fine) : Decidable (x.Paced x') :=
  inferInstanceAs (Decidable (_ → (_ ∧ _ ∧ _)))

/-- The state a paced schedule leads to. -/
def Fine.run (cfg : Config) (x : Fine) : List Fine.Process → Option Fine
  | [] => some x
  | p :: rest =>
    if Running x.system then
      (Fine.fire cfg x p).bind fun x' => if x.Paced x' then Fine.run cfg x' rest else none
    else none

theorem Fine.run_reachable {cfg : Config} {controls : List TraceGenerator.SpeculativeControl}
    {x x' : Fine} (h : Fine.Reachable cfg controls x) {schedule : List Fine.Process}
    (hrun : Fine.run cfg x schedule = some x') : Fine.Reachable cfg controls x' := by
  induction schedule generalizing x with
  | nil =>
    cases hrun
    exact h
  | cons p rest ih =>
    obtain ⟨hrunning, hrun⟩ := Option.ite_none_right_eq_some.mp hrun
    obtain ⟨x₁, hfire, hrun⟩ := Option.bind_eq_some_iff.mp hrun
    obtain ⟨hpaced, hrun⟩ := Option.ite_none_right_eq_some.mp hrun
    exact ih (.next h ⟨Fine.fire_step hrunning hfire, hpaced⟩) hrun

/-- The projection's read goes to the DRAM and back. -/
def readDelivered : List Fine.Process :=
  [.process .host, .process .hostNegedge, .process .npuPeqFw, .process .npuStart,
    .process .arbiterPeqFw, .process .arbiterNegedge, .process .memPeq, .process .memPosedge,
    .process (.memIterate {accepts := fun _ => true}),
    .process (.memIterate {callbacks := [(false, 0x10000000)]}), .process (.memIterate {}),
    .process .memNegedge, .process .arbiterPeqBw, .process .arbiterPosedge]

/-- It is delivered, then counted, and the thread goes on. -/
def windowSeen : Bool :=
  match initConfigurations (projectionFiles ⟨false, false, false, true⟩ .partitioned) with
  | .error _ => false
  | .ok c =>
    match TraceGenerator.loadSpeculativeControlTrace c.speculative [TraceGenerator.warmRecord 1 10 11] with
    | .error _ => false
    | .ok controls =>
      (Fine.run (Config.of c idleModels) {system := {host := {controls := controls}}} readDelivered).any
        fun x => !x.system.npu.peqBw.isEmpty &&
          (Fine.run (Config.of c idleModels) x [.process .npuPeqBw, .trigger, .wake]).any
            fun x' => x'.system.npu.thread == .waitStart && (answeredToNpu x'.system.log).length == 1

theorem request_window_read :
    ∃ c controls, initConfigurations (projectionFiles ⟨false, false, false, true⟩ .partitioned) = .ok c ∧
      ∃ x x' : Fine,
        Fine.Reachable (Config.of c idleModels) controls x ∧
        x.system.npu.peqBw ≠ [] ∧ 0 < x.system.npu.pendingResponses ∧
        Fine.Reachable (Config.of c idleModels) controls x' ∧
        (answeredToNpu x'.system.log).length = 1 ∧
        x'.system.npu.pendingResponses.toNat = (unanswered x'.system.log).card := by
  have hseen : windowSeen = true := by decide +kernel
  unfold windowSeen at hseen
  split at hseen
  · cases hseen
  · next c hc =>
    split at hseen
    · cases hseen
    · next controls _ =>
      obtain ⟨x, hx, hseen⟩ := (Option.any_eq_true _ _).mp hseen
      simp only [Bool.and_eq_true, Bool.not_eq_true', List.isEmpty_eq_false_iff] at hseen
      obtain ⟨x', hx', hcounted⟩ := (Option.any_eq_true _ _).mp hseen.2
      simp only [Bool.and_eq_true, beq_iff_eq] at hcounted
      have hreach : Fine.Reachable (Config.of c idleModels) controls x :=
        Fine.run_reachable (.start rfl) hx
      have hreach' := Fine.run_reachable hreach hx'
      obtain ⟨-, -, -, hpositive⟩ := request_window hc idleModels hreach
      exact ⟨c, controls, hc, x, x', hreach, hseen.1, hpositive hseen.1, hreach', hcounted.2,
        (request_window hc idleModels hreach').1⟩

end System

end Hsim
