import Hsim.NpuIssue

/-! The memory operations behind the requests.

The replay thread works through a script; a transfer in it is one call of
`issue_fast_memory` or `issue_memory`. Which calls an activation makes can be
read off the script it leaves behind. In fast-layer mode a call sends one
request with the call's byte count in it, or nothing if the count is zero, so
the requests of an activation are charged with what its calls ask for. -/
namespace Hsim.NpuTraceReplayer

/-- A call of `issue_fast_memory` or `issue_memory`. -/
structure MemoryCall where
  command : Command
  bytes : UInt64
  layer : String
  deriving DecidableEq, Repr

def Segment.memoryCall : Segment → Option MemoryCall
  | .transfer _ _ command bytes layer _ => some ⟨command, bytes, layer⟩
  | _ => none

/-- The thread goes no further. -/
def Segment.ends : Segment → Bool
  | .trap | .finish => true
  | _ => false

/-- The calls among segments the thread has gone through. -/
def callsIn (segments : List Segment) : List MemoryCall :=
  (segments.takeWhile fun g => !g.ends).filterMap Segment.memoryCall

/-- The calls the thread has made between two states: its script, or that of the run it has
begun, up to what is left of it. -/
def Config.memoryCalls (cfg : Config) (s s' : State) : List MemoryCall :=
  let script := if s'.runId = s.runId then s.thread.script else cfg.replayTrace s.launch s.runId
  callsIn (script.take (script.length - s'.thread.script.length))

/-- What the calls ask for, in all. -/
def totalBytes (calls : List MemoryCall) : Nat := (calls.map (·.bytes.toNat)).sum

theorem totalBytes_append (a b : List MemoryCall) :
    totalBytes (a ++ b) = totalBytes a + totalBytes b := by
  rw [totalBytes, List.map_append, List.sum_append]
  rfl

/-- Nothing has been called if the thread is where it was. -/
theorem memoryCalls_same {cfg : Config} {s s' : State} (hrun : s'.runId = s.runId)
    (hthread : s'.thread = s.thread) : cfg.memoryCalls s s' = [] := by
  simp [Config.memoryCalls, hrun, hthread, callsIn]

theorem memoryCalls_of_passed {cfg : Config} {s s' : State} {script passed : List Segment}
    (hscript : (if s'.runId = s.runId then s.thread.script else cfg.replayTrace s.launch s.runId) = script)
    (hpassed : script = passed ++ s'.thread.script) : cfg.memoryCalls s s' = callsIn passed := by
  rw [Config.memoryCalls, hscript, hpassed, List.length_append, Nat.add_sub_cancel, List.take_left]

/-! ### What an activation is charged with -/

/-- The bytes the wrappers will charge the requests with. -/
def charged (requests : List Payload) : UInt64 := (requests.map Payload.chargedBytes).sum

theorem charged_append (a b : List Payload) : charged (a ++ b) = charged a + charged b := by
  rw [charged, List.map_append, List.sum_append]
  rfl

/-- A segment of a script in fast-layer mode. -/
def Config.Fast (cfg : Config) : Segment → Prop
  | .transfer _ _ command bytes layer requests => requests = cfg.issueFastMemory command bytes layer
  | _ => True

theorem replayTrace_fast {cfg : Config} (hmode : cfg.profile.fastLayerMode = true) (l : Launch)
    (run : UInt32) : ∀ g ∈ cfg.replayTrace l run, cfg.Fast g := by
  have hissued : ∀ multiplier g, Issued (cfg.fast multiplier) g → cfg.Fast g := by
    intro multiplier g hg
    cases g with
    | transfer op kind command bytes layer requests => exact hg.2
    | _ => trivial
  intro g hg
  unfold Config.replayTrace Config.replayAs at hg
  rw [if_pos hmode] at hg
  split at hg <;> exact hissued _ g (replayLayers_issued cfg l _ _ g hg)

/-- An activation by the segments it goes through. -/
structure Goes (script : List Segment) (s s' : State) (effects : List Effect)
    (passed : List Segment) : Prop where
  script : script = passed ++ s'.thread.script
  runId : s'.runId = s.runId
  charged : charged (requestsOf effects) = UInt64.ofNat (totalBytes (callsIn passed))
  /-- The window of the detailed replay plays no part. -/
  unthrottled : ∀ requests rest, s'.thread ≠ .throttled requests rest

section
variable {cfg : Config} {s s' : State} {effects : List Effect}

/-- A segment without a call, passed on the way. -/
theorem Goes.quiet {script passed : List Segment} {quiet : List Effect}
    (h : Goes script s s' effects passed) {g : Segment} (hends : g.ends = false)
    (hcall : g.memoryCall = none) (hquiet : Local quiet) :
    Goes (g :: script) s s' (quiet ++ effects) (g :: passed) := by
  refine ⟨congrArg (g :: ·) h.script, h.runId, ?_, h.unthrottled⟩
  have hcalls : callsIn (g :: passed) = callsIn passed := by
    simp [callsIn, hends, hcall]
  rw [requestsOf_append, hquiet.silent.requests, List.nil_append, hcalls]
  exact h.charged

/-- The thread stops at a segment without a call. -/
theorem goes_wait {g : Segment} {rest : List Segment} (hscript : s'.thread.script = rest)
    (hrun : s'.runId = s.runId) (hcall : g.memoryCall = none)
    (hrequests : requestsOf effects = [])
    (hthrottled : ∀ requests rest, s'.thread ≠ .throttled requests rest) :
    Goes (g :: rest) s s' effects [g] := by
  refine ⟨by rw [hscript]; rfl, hrun, ?_, hthrottled⟩
  have hcalls : callsIn [g] = [] := by
    cases hends : g.ends <;> simp [callsIn, hends, hcall]
  rw [hrequests, hcalls]
  rfl

/-- The thread ends, whatever is behind. -/
theorem goes_end {g : Segment} {rest : List Segment} (hends : g.ends = true)
    (hscript : s'.thread.script = []) (hrun : s'.runId = s.runId) (hrequests : requestsOf effects = [])
    (hthrottled : ∀ requests rest, s'.thread ≠ .throttled requests rest) :
    Goes (g :: rest) s s' effects (g :: rest) := by
  refine ⟨by rw [hscript, List.append_nil], hrun, ?_, hthrottled⟩
  have hcalls : callsIn (g :: rest) = [] := by simp [callsIn, hends]
  rw [hrequests, hcalls]
  rfl

/-- A tensor-sized request is charged with the bytes of its call. -/
theorem charged_fast (cfg : Config) (command : Command) (bytes : UInt64) (layer : String) :
    ((cfg.issueFastMemory command bytes layer).map Payload.chargedBytes).sum = bytes := by
  unfold Config.issueFastMemory
  split
  · next hzero => rw [hzero]; rfl
  · rw [List.map_singleton, List.sum_singleton]
    exact macroBytes_words _ bytes rfl rfl

theorem advance_goes (hmode : cfg.profile.fastLayerMode = true) (now : Time) {script : List Segment}
    (hscript : ∀ g ∈ script, cfg.Fast g) (s : State) :
    ∃ passed, Goes script s (advance cfg now script s).1 (advance cfg now script s).2 passed := by
  induction script generalizing s with
  | nil => exact ⟨[], rfl, rfl, rfl, by simp [advance]⟩
  | cons g rest ih =>
    obtain ⟨hg, hrest⟩ := List.forall_mem_cons.mp hscript
    cases g with
    | layerStart layer =>
      obtain ⟨passed, h⟩ := ih hrest {s with npuStartTime := now}
      have hquiet : Local [.updateNpuStart layer (toCycle now)] := by simp [Local, Effect.isLocal]
      have hsame : Goes rest s _ _ passed := ⟨h.script, h.runId, h.charged, h.unthrottled⟩
      exact ⟨_, hsame.quiet rfl rfl hquiet⟩
    | layerEnd layer compute =>
      obtain ⟨passed, h⟩ := ih hrest s
      have hquiet : Local [.updateNpuEnd layer (toCycle now) compute,
          .metrics (.npuInterval s.npuStartTime now)] := by
        simp [Local, Effect.isLocal]
      exact ⟨_, h.quiet rfl rfl hquiet⟩
    | compute op computeNs => exact ⟨_, goes_wait rfl rfl rfl rfl (by simp [advance])⟩
    | trap => exact ⟨_, goes_end rfl rfl rfl rfl (by simp [advance])⟩
    | finish => exact ⟨_, goes_end rfl rfl rfl rfl (by simp [advance])⟩
    | transfer op kind command bytes layer requests =>
      have hone := charged_fast cfg command bytes layer
      rw [← (show requests = cfg.issueFastMemory command bytes layer from hg)] at hone
      simp only [advance]
      split
      · next hnone =>
        -- a call for no bytes sends nothing
        obtain ⟨passed, h⟩ := ih hrest s
        have hzero : bytes = 0 := by
          rw [hnone] at hone
          exact hone.symm
        refine ⟨_ :: passed, congrArg (_ :: ·) h.script, h.runId, ?_, h.unthrottled⟩
        rw [h.charged, hzero]
        simp [callsIn, Segment.ends, Segment.memoryCall, totalBytes]
      · next hsome =>
        have hbody : ∃ body, requests = [body] := by
          have hshape : requests = cfg.issueFastMemory command bytes layer := hg
          unfold Config.issueFastMemory at hshape
          split at hshape
          · exact absurd hshape hsome
          · exact ⟨_, hshape⟩
        obtain ⟨body, rfl⟩ := hbody
        have hissue : issue cfg rest (advance cfg now rest) [body] {s with pendingResponses := 0} =
            ({(send cfg body {s with pendingResponses := 0}).1 with thread := .draining rest},
              [.request (send cfg body {s with pendingResponses := 0}).2]) := by
          simp [issue, Config.windowFull, hmode, send]
        rw [hissue]
        refine ⟨[.transfer op kind command bytes layer [body]], rfl, rfl, ?_, by simp⟩
        have hcalls : callsIn [.transfer op kind command bytes layer [body]] =
            [⟨command, bytes, layer⟩] := rfl
        have htotal : UInt64.ofNat (totalBytes [⟨command, bytes, layer⟩]) = bytes := by
          simp [totalBytes]
        rw [hcalls, htotal]
        exact hone

end

/-- A thread that replays in fast-layer mode. -/
structure Brisk (cfg : Config) (s : State) : Prop where
  script : ∀ g ∈ s.thread.script, cfg.Fast g
  unthrottled : ∀ requests rest, s.thread ≠ .throttled requests rest

theorem brisk_initial (cfg : Config) : Brisk cfg {} := by
  constructor <;> simp [Thread.script]

/-- An activation is charged with what it calls for. -/
structure Pays (cfg : Config) (s s' : State) (effects : List Effect) : Prop where
  brisk : Brisk cfg s'
  charged : charged (requestsOf effects) = UInt64.ofNat (totalBytes (cfg.memoryCalls s s'))

section
variable {cfg : Config} {s s' : State} {effects : List Effect}

/-- The thread stays where it is. -/
theorem pays_same (h : Brisk cfg s) (hthread : s'.thread = s.thread) (hrun : s'.runId = s.runId)
    (hrequests : requestsOf effects = []) : Pays cfg s s' effects := by
  refine ⟨⟨hthread ▸ h.script, hthread ▸ h.unthrottled⟩, ?_⟩
  rw [hrequests, memoryCalls_same hrun hthread]
  rfl

theorem Goes.pays {script passed : List Segment} {s₀ : State} (h : Goes script s₀ s' effects passed)
    (hfast : ∀ g ∈ script, cfg.Fast g)
    (hscript : (if s'.runId = s.runId then s.thread.script else cfg.replayTrace s.launch s.runId) =
      script) : Pays cfg s s' effects := by
  refine ⟨⟨fun g hg => hfast g ?_, h.unthrottled⟩, ?_⟩
  · rw [h.script]
    exact List.mem_append_right _ hg
  · rw [memoryCalls_of_passed hscript h.script]
    exact h.charged

variable (hmode : cfg.profile.fastLayerMode = true) (h : Brisk cfg s) (now : Time)
include hmode h

theorem startRun_pays : Pays cfg s (startRun cfg now s).1 (startRun cfg now s).2 := by
  unfold startRun
  dsimp only
  split
  · have hfast := replayTrace_fast hmode s.launch s.runId
    obtain ⟨passed, hgoes⟩ := advance_goes hmode now hfast {s with
      startEvent := false
      activeCore := true
      runId := s.runId + 1}
    have hrun := hgoes.runId
    refine hgoes.pays hfast (if_neg ?_)
    rw [hrun]
    simp
  · exact pays_same h rfl rfl rfl

theorem onResponse_pays : Pays cfg s (onResponse cfg now s).1 (onResponse cfg now s).2 := by
  have hscript := h.script
  unfold onResponse
  dsimp only
  split
  · next requests rest hthread => exact absurd hthread (h.unthrottled requests rest)
  · next rest hthread =>
    rw [hthread] at hscript
    split
    · obtain ⟨passed, hgoes⟩ := advance_goes hmode now hscript {s with responseEvent := false}
      exact hgoes.pays hscript (by rw [if_pos hgoes.runId, hthread])
    · exact pays_same h rfl rfl rfl
  · exact pays_same h rfl rfl rfl

theorem endCompute_pays : Pays cfg s (endCompute cfg now s).1 (endCompute cfg now s).2 := by
  have hscript := h.script
  unfold endCompute
  split
  · next wake rest hthread =>
    rw [hthread] at hscript
    obtain ⟨passed, hgoes⟩ := advance_goes hmode now hscript s
    exact hgoes.pays hscript (by rw [if_pos hgoes.runId, hthread])
  · exact pays_same h rfl rfl rfl

end

end Hsim.NpuTraceReplayer
