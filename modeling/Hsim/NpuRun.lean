import Hsim.Lanes
import Hsim.NpuWorkload

/-! The replay thread's account of its requests.

Between transfers the thread has no request out, and inside one
`pending_responses` is the number of requests sent and not answered. A transfer
never has 2^32 requests, since each moves a byte of a 32-bit count, so the
counter does not wrap. -/
namespace Hsim

/-! ### Calls on the sockets -/

/-- The requests among a module's effects. -/
def requestsOf (effects : List Effect) : List Payload :=
  effects.filterMap fun
    | .request t => some t
    | _ => none

/-- The responses among them. -/
def responsesOf (effects : List Effect) : List Payload :=
  effects.filterMap fun
    | .respond t _ => some t
    | _ => none

/-- The payloads given back to their pool. -/
def releasesOf (effects : List Effect) : List Payload :=
  effects.filterMap fun
    | .release t => some t
    | _ => none

@[simp] theorem releasesOf_nil : releasesOf [] = [] := rfl

@[simp] theorem releasesOf_append (a b : List Effect) :
    releasesOf (a ++ b) = releasesOf a ++ releasesOf b := List.filterMap_append

@[simp] theorem requestsOf_nil : requestsOf [] = [] := rfl

@[simp] theorem responsesOf_nil : responsesOf [] = [] := rfl

@[simp] theorem requestsOf_append (a b : List Effect) :
    requestsOf (a ++ b) = requestsOf a ++ requestsOf b := List.filterMap_append

@[simp] theorem responsesOf_append (a b : List Effect) :
    responsesOf (a ++ b) = responsesOf a ++ responsesOf b := List.filterMap_append

/-- A local call is none of the calls the rest of the system hears. -/
structure Silent (effects : List Effect) : Prop where
  requests : requestsOf effects = []
  responses : responsesOf effects = []
  pimTraceDone : Effect.pimTraceDone ∉ effects
  npuTraceDone : Effect.npuTraceDone ∉ effects

theorem Local.silent {effects : List Effect} (h : Local effects) : Silent effects := by
  refine ⟨?_, ?_, fun he => ?_, fun he => ?_⟩
  · refine List.filterMap_eq_nil_iff.mpr fun e he => ?_
    have hlocal := h e he
    cases e <;> simp_all [Effect.isLocal]
  · refine List.filterMap_eq_nil_iff.mpr fun e he => ?_
    have hlocal := h e he
    cases e <;> simp_all [Effect.isLocal]
  · exact absurd (h _ he) (by simp [Effect.isLocal])
  · exact absurd (h _ he) (by simp [Effect.isLocal])

theorem Local.releases {effects : List Effect} (h : Local effects) : releasesOf effects = [] := by
  refine List.filterMap_eq_nil_iff.mpr fun e he => ?_
  have hlocal := h e he
  cases e <;> simp_all [Effect.isLocal]

namespace NpuTraceReplayer

/-! ### What a run sends -/

/-- A request of a run. -/
structure Config.Request (cfg : Config) (t : Payload) : Prop where
  fromNpu : t.FromNpu
  dstId : t.dstId = cfg.memory
  fits : cfg.profile.fastLayerMode = true → t.staysLocal = true

/-- The requests of a segment, and that the response counter can count them. -/
def Config.Scripted (cfg : Config) : Segment → Prop
  | .transfer _ _ _ _ _ requests => requests.length < 2 ^ 32 ∧ ∀ t ∈ requests, cfg.Request t
  | _ => True

section
variable (cfg : Config)

theorem splitRequests_length (command : Command) (layer : String) (burstSize : UInt32) (turns : Nat)
    (remaining burstId : UInt32) :
    (cfg.splitRequests command layer burstSize turns remaining burstId).length ≤ turns := by
  induction turns generalizing remaining burstId with
  | zero => exact le_rfl
  | succ turns ih =>
    rw [Config.splitRequests]
    split
    · exact Nat.zero_le _
    · exact Nat.succ_le_succ (ih _ _)

theorem splitRequests_request {command : Command} (hc : command = .read ∨ command = .write)
    (hmode : cfg.profile.fastLayerMode = false) (layer : String) (burstSize : UInt32) (turns : Nat)
    (remaining burstId : UInt32) :
    ∀ t ∈ cfg.splitRequests command layer burstSize turns remaining burstId, cfg.Request t := by
  induction turns generalizing remaining burstId with
  | zero => simp [Config.splitRequests]
  | succ turns ih =>
    rw [Config.splitRequests]
    split
    · simp
    · intro t ht
      rcases List.mem_cons.mp ht with rfl | ht
      · exact ⟨⟨rfl, hc⟩, rfl, by simp [hmode]⟩
      · exact ih _ _ t ht

theorem detailed_scripted (hmode : cfg.profile.fastLayerMode = false) {g : Segment}
    (h : Issued cfg.detailed g) : cfg.Scripted g := by
  cases g with
  | transfer op kind command bytes layer requests =>
    obtain ⟨hc, rfl⟩ := h
    simp only [Config.Scripted, Config.detailed, Config.issueMemory]
    split
    · simp
    · exact ⟨(splitRequests_length cfg _ _ _ _ _ _).trans_lt bytes.toUInt32.toNat_lt,
        splitRequests_request cfg hc hmode _ _ _ _ _⟩
  | _ => trivial

theorem fast_scripted (multiplier : UInt32) {g : Segment} (h : Issued (cfg.fast multiplier) g) :
    cfg.Scripted g := by
  cases g with
  | transfer op kind command bytes layer requests =>
    obtain ⟨hc, rfl⟩ := h
    simp only [Config.Scripted, Config.fast, Config.issueFastMemory]
    split
    · simp
    · refine ⟨by simp, fun t ht => ?_⟩
      rw [List.mem_singleton.mp ht]
      have hnpu : (cfg.request command layer (lowWord bytes) 0 (highWord bytes) "fast_memory").FromNpu :=
        ⟨rfl, hc⟩
      exact ⟨hnpu, rfl, fun _ => by rw [Payload.staysLocal, hnpu.isPim]; rfl⟩
  | _ => trivial

theorem replayTrace_scripted (l : Launch) (run : UInt32) :
    ∀ g ∈ cfg.replayTrace l run, cfg.Scripted g := by
  intro g hg
  unfold Config.replayTrace Config.replayAs at hg
  split at hg
  · split at hg <;> exact fast_scripted cfg _ (replayLayers_issued cfg l _ _ g hg)
  · next hmode =>
    exact detailed_scripted cfg (by simpa using hmode) (replayLayers_issued cfg l _ _ g hg)

end

/-! ### The invariant of the thread -/

/-- What a waiting thread has still to replay. -/
def Thread.script : Thread → List Segment
  | .computing _ rest | .throttled _ rest | .draining rest => rest
  | .waitStart | .trapped => []

/-- The requests of its transfer that it has still to send. -/
def Thread.unsent : Thread → List Payload
  | .throttled requests _ => requests
  | _ => []

def Thread.transferring : Thread → Bool
  | .throttled _ _ | .draining _ => true
  | _ => false

structure Inv (cfg : Config) (s : State) : Prop where
  settled : s.thread.transferring = false → s.pendingResponses = 0
  room : s.pendingResponses.toNat + s.thread.unsent.length < 2 ^ 32
  requests : ∀ t ∈ s.thread.unsent, cfg.Request t
  script : ∀ g ∈ s.thread.script, cfg.Scripted g

theorem inv_initial (cfg : Config) : Inv cfg {} := by
  constructor <;> simp [Thread.unsent, Thread.script]

/-- What an activation of the thread amounts to. -/
structure Ran (cfg : Config) (s s' : State) (effects : List Effect) : Prop where
  inv : Inv cfg s'
  launch : s'.launch = s.launch
  stage : s'.stage = s.stage
  startEvent : s'.startEvent = s.startEvent
  peqFw : s'.peqFw = s.peqFw
  peqBw : s'.peqBw = s.peqBw
  pending : s'.pendingResponses.toNat = s.pendingResponses.toNat + (requestsOf effects).length
  sent : ∀ t ∈ requestsOf effects, cfg.Request t ∧ t.stage = s.stage
  responses : responsesOf effects = []
  releases : releasesOf effects = []
  pimTraceDone : Effect.pimTraceDone ∉ effects
  finished : Effect.npuTraceDone ∈ effects → s'.thread = .waitStart

/-- A call that is not heard outside, before the rest of an activation. -/
theorem Ran.quiet {cfg : Config} {s s' : State} {effects : List Effect} (h : Ran cfg s s' effects)
    {quiet : List Effect} (hlocal : Local quiet) : Ran cfg s s' (quiet ++ effects) := by
  have hsilent := hlocal.silent
  have hrequests : requestsOf (quiet ++ effects) = requestsOf effects := by
    rw [requestsOf_append, hsilent.requests, List.nil_append]
  refine ⟨h.inv, h.launch, h.stage, h.startEvent, h.peqFw, h.peqBw, ?_, ?_, ?_, ?_, ?_, ?_⟩
  · rw [hrequests]
    exact h.pending
  · rw [hrequests]
    exact h.sent
  · rw [responsesOf_append, hsilent.responses, h.responses]
    rfl
  · rw [releasesOf_append, hlocal.releases, h.releases]
    rfl
  · intro he
    rcases List.mem_append.mp he with he | he
    · exact hsilent.pimTraceDone he
    · exact h.pimTraceDone he
  · intro he
    rcases List.mem_append.mp he with he | he
    · exact absurd he hsilent.npuTraceDone
    · exact h.finished he

/-- An activation that starts with a change nothing here looks at. -/
theorem Ran.rebase {cfg : Config} {s₀ s s' : State} {effects : List Effect}
    (h : Ran cfg s s' effects) (hlaunch : s.launch = s₀.launch) (hstage : s.stage = s₀.stage)
    (hstart : s.startEvent = s₀.startEvent) (hfw : s.peqFw = s₀.peqFw) (hbw : s.peqBw = s₀.peqBw)
    (hpending : s.pendingResponses = s₀.pendingResponses) : Ran cfg s₀ s' effects :=
  ⟨h.inv, h.launch.trans hlaunch, h.stage.trans hstage, h.startEvent.trans hstart,
    h.peqFw.trans hfw, h.peqBw.trans hbw, hpending ▸ h.pending, hstage ▸ h.sent, h.responses,
    h.releases, h.pimTraceDone, h.finished⟩

/-- The thread stops at a wait without a call. -/
theorem ran_wait {cfg : Config} {s : State} (thread : Thread)
    (h : Inv cfg {s with thread := thread}) : Ran cfg s {s with thread := thread} [] :=
  ⟨h, rfl, rfl, rfl, rfl, rfl, rfl, by simp, rfl, rfl, by simp, by simp⟩

/-- One request leaves. -/
theorem send_ran {cfg : Config} {body : Payload} {s : State} (hbody : cfg.Request body)
    (hroom : s.pendingResponses.toNat + 1 < 2 ^ 32) {s' : State} {effects : List Effect}
    (h : Ran cfg (send cfg body s).1 s' effects) :
    Ran cfg s s' (.request (send cfg body s).2 :: effects) := by
  have hpending : (send cfg body s).1.pendingResponses.toNat = s.pendingResponses.toNat + 1 := by
    show (s.pendingResponses + 1).toNat = _
    rw [UInt32.toNat_add]
    exact Nat.mod_eq_of_lt hroom
  have hrequests : requestsOf (.request (send cfg body s).2 :: effects) =
      (send cfg body s).2 :: requestsOf effects := rfl
  refine ⟨h.inv, h.launch, h.stage, h.startEvent, h.peqFw, h.peqBw, ?_, ?_, h.responses, h.releases,
    ?_, ?_⟩
  · rw [h.pending, hpending, hrequests, List.length_cons]
    omega
  · intro t ht
    rw [hrequests] at ht
    rcases List.mem_cons.mp ht with rfl | ht
    · exact ⟨⟨hbody.fromNpu, hbody.dstId, hbody.fits⟩, rfl⟩
    · exact h.sent t ht
  · intro he
    rcases List.mem_cons.mp he with he | he
    · exact absurd he (by simp)
    · exact h.pimTraceDone he
  · intro he
    rcases List.mem_cons.mp he with he | he
    · exact absurd he (by simp)
    · exact h.finished he

/-- The rest of a transfer, by induction on the requests left: the thread stops at the
window, or after the last request, or goes on if every response is there. -/
theorem issue_ran {cfg : Config} {rest : List Segment} {next : Action State}
    (hrest : ∀ g ∈ rest, cfg.Scripted g)
    (hnext : ∀ s, s.pendingResponses = 0 → Ran cfg s (next s).1 (next s).2)
    {requests : List Payload} (hrequests : ∀ t ∈ requests, cfg.Request t) {s : State}
    (hroom : s.pendingResponses.toNat + requests.length < 2 ^ 32) :
    Ran cfg s (issue cfg rest next requests s).1 (issue cfg rest next requests s).2 := by
  induction requests generalizing s with
  | nil =>
    simp only [issue]
    split
    · next hzero => exact hnext s hzero
    · exact ran_wait _ ⟨by simp [Thread.transferring], hroom, by simp [Thread.unsent], hrest⟩
  | cons body requests ih =>
    obtain ⟨hbody, htail⟩ := List.forall_mem_cons.mp hrequests
    rw [List.length_cons] at hroom
    have hone : s.pendingResponses.toNat + 1 < 2 ^ 32 := by omega
    have hroom' : (send cfg body s).1.pendingResponses.toNat + requests.length < 2 ^ 32 := by
      have hpending : (send cfg body s).1.pendingResponses.toNat = s.pendingResponses.toNat + 1 := by
        show (s.pendingResponses + 1).toNat = _
        rw [UInt32.toNat_add]
        exact Nat.mod_eq_of_lt hone
      omega
    simp only [issue]
    split
    · exact send_ran hbody hone
        (ran_wait (.throttled requests rest) ⟨by simp [Thread.transferring], hroom', htail, hrest⟩)
    · exact send_ran hbody hone (ih htail hroom')

/-- From a segment on, with no request out. -/
theorem advance_ran {cfg : Config} (now : Time) {script : List Segment}
    (hscript : ∀ g ∈ script, cfg.Scripted g) {s : State} (hzero : s.pendingResponses = 0) :
    Ran cfg s (advance cfg now script s).1 (advance cfg now script s).2 := by
  have hroom : ∀ thread : Thread, thread.unsent = [] →
      s.pendingResponses.toNat + thread.unsent.length < 2 ^ 32 := by
    intro thread hunsent
    rw [hzero, hunsent]
    decide
  induction script generalizing s with
  | nil =>
    exact ran_wait .waitStart ⟨fun _ => hzero, hroom _ rfl, by simp [Thread.unsent],
      by simp [Thread.script]⟩
  | cons g rest ih =>
    obtain ⟨hg, hrest⟩ := List.forall_mem_cons.mp hscript
    cases g with
    | layerStart layer =>
      have h := ih hrest (s := {s with npuStartTime := now}) hzero hroom
      have hran : Ran cfg s _ _ := h.rebase rfl rfl rfl rfl rfl rfl
      have hquiet : Local [.updateNpuStart layer (toCycle now)] := by simp [Local, Effect.isLocal]
      exact hran.quiet hquiet
    | transfer op kind command bytes layer requests =>
      simp only [advance]
      split
      · exact ih hrest hzero hroom
      · have hran : Ran cfg {s with pendingResponses := 0} _ _ :=
          issue_ran hrest (fun s' hs' => ih hrest hs' ?_) hg.2 ((Nat.zero_add _).trans_lt hg.1)
        · exact hran.rebase rfl rfl rfl rfl rfl hzero.symm
        · intro thread hunsent
          rw [hs', hunsent]
          decide
    | compute op computeNs =>
      have hquiet : Local [.metrics (.npuComputeInterval now (now + ns computeNs.toNat))] := by
        simp [Local, Effect.isLocal]
      exact Ran.quiet (ran_wait (.computing (now + ns computeNs.toNat) rest)
        ⟨fun _ => hzero, hroom _ rfl, by simp [Thread.unsent], hrest⟩) hquiet
    | layerEnd layer compute =>
      have hquiet : Local [.updateNpuEnd layer (toCycle now) compute,
          .metrics (.npuInterval s.npuStartTime now)] := by
        simp [Local, Effect.isLocal]
      exact (ih hrest hzero hroom).quiet hquiet
    | trap =>
      exact ran_wait .trapped ⟨fun _ => hzero, hroom _ rfl, by simp [Thread.unsent],
        by simp [Thread.script]⟩
    | finish =>
      refine ⟨⟨fun _ => hzero, hroom .waitStart rfl, by simp [advance, Thread.unsent],
        by simp [advance, Thread.script]⟩, rfl, rfl, rfl, rfl, rfl, rfl, ?_, rfl, rfl, ?_, fun _ => rfl⟩
      · simp [advance, requestsOf]
      · simp [advance]

/-! ### The thread's activations -/

/-- A run begins. -/
theorem startRun_ran {cfg : Config} {s : State} (h : Inv cfg s) (now : Time) :
    Ran cfg {s with startEvent := false} (startRun cfg now s).1 (startRun cfg now s).2 := by
  unfold startRun
  dsimp only
  split
  · next hthread =>
    have hzero : s.pendingResponses = 0 := h.settled (by rw [hthread]; rfl)
    have hran := advance_ran now (replayTrace_scripted cfg s.launch s.runId)
      (s := {s with
        startEvent := false
        activeCore := true
        runId := s.runId + 1}) hzero
    exact hran.rebase rfl rfl rfl rfl rfl rfl
  · exact ⟨⟨h.settled, h.room, h.requests, h.script⟩, rfl, rfl, rfl, rfl, rfl, rfl, by simp, rfl,
      rfl, by simp, by simp⟩

/-- The thread looks at the responses again. -/
theorem onResponse_ran {cfg : Config} {s : State} (h : Inv cfg s) (now : Time) :
    Ran cfg s (onResponse cfg now s).1 (onResponse cfg now s).2 := by
  have hscript := h.script
  have hroom := h.room
  have hrequests := h.requests
  have hstay : Ran cfg s {s with responseEvent := false} [] :=
    ⟨⟨h.settled, h.room, h.requests, h.script⟩, rfl, rfl, rfl, rfl, rfl, rfl, by simp, rfl,
      rfl, by simp, by simp⟩
  unfold onResponse
  dsimp only
  split
  · next requests rest hthread =>
    rw [hthread] at hscript hroom hrequests
    have hran : Ran cfg {s with responseEvent := false} _ _ :=
      issue_ran hscript (fun s' hs' => advance_ran now hscript hs') hrequests hroom
    exact hran.rebase rfl rfl rfl rfl rfl rfl
  · next rest hthread =>
    rw [hthread] at hscript
    split
    · next hzero =>
      have hran : Ran cfg {s with responseEvent := false} _ _ := advance_ran now hscript hzero
      exact hran.rebase rfl rfl rfl rfl rfl rfl
    · exact hstay
  · exact hstay

/-- An operation has computed. -/
theorem endCompute_ran {cfg : Config} {s : State} (h : Inv cfg s) (now : Time) :
    Ran cfg s (endCompute cfg now s).1 (endCompute cfg now s).2 := by
  have hscript := h.script
  unfold endCompute
  split
  · next wake rest hthread =>
    rw [hthread] at hscript
    exact advance_ran now hscript (h.settled (by rw [hthread]; rfl))
  · exact ran_wait s.thread h

end NpuTraceReplayer

end Hsim
