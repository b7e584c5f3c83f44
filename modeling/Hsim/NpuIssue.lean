import Hsim.NpuRun

/-! The requests an activation of the replay thread sends.

Each activation sends a list of request bodies one after the other. The n-th
request of the whole run gets the n-th payload of the pool, and its address
follows the bytes that the requests before it have reserved. -/
namespace Hsim.NpuTraceReplayer

/-- The transactions one memory operation sends, but for their identities and addresses. -/
def Config.issues (cfg : Config) (command : Command) (bytes : UInt64) (layer : String) : List Payload :=
  if cfg.profile.fastLayerMode then cfg.issueFastMemory command bytes layer
  else cfg.issueMemory command bytes.toUInt32 layer

/-- The body of a transaction of some memory operation. -/
def Config.Body (cfg : Config) (t : Payload) : Prop :=
  ∃ command bytes layer, (command = .read ∨ command = .write) ∧ t ∈ cfg.issues command bytes layer

theorem Config.Body.request {cfg : Config} {t : Payload} (h : cfg.Body t) : cfg.Request t := by
  obtain ⟨command, bytes, layer, hc, ht⟩ := h
  unfold Config.issues at ht
  split at ht
  · exact (fast_scripted cfg 1 (g := .transfer 0 .weight command bytes layer _) ⟨hc, rfl⟩).2 t ht
  · next hmode =>
    exact (detailed_scripted cfg (by simpa using hmode)
      (g := .transfer 0 .weight command bytes layer _) ⟨hc, rfl⟩).2 t ht

/-- What `next_address` moves on by. -/
def Config.reserved (cfg : Config) (t : Payload) : UInt64 :=
  if cfg.profile.fastLayerMode then t.macroBytes else cfg.requestBytes.toUInt64

/-- Bodies with their identities and addresses, from the n-th request and an address on. -/
def Config.numbered (cfg : Config) (stage : Nat) : List Payload → Nat → UInt64 → List Payload
  | [], _, _ => []
  | body :: bodies, n, address =>
    {body with ptr := cfg.allocate n, address := address, stage := stage} ::
      cfg.numbered stage bodies (n + 1) (address + cfg.reserved body)

section
variable (cfg : Config)

@[simp] theorem numbered_length (stage : Nat) (bodies : List Payload) (n : Nat) (address : UInt64) :
    (cfg.numbered stage bodies n address).length = bodies.length := by
  induction bodies generalizing n address with
  | nil => rfl
  | cons body bodies ih => rw [Config.numbered, List.length_cons, List.length_cons, ih]

/-- Identities and addresses are all that is added. -/
theorem mem_numbered {stage : Nat} {bodies : List Payload} {n : Nat} {address : UInt64} {t : Payload}
    (h : t ∈ cfg.numbered stage bodies n address) :
    ∃ body ∈ bodies, ∃ i a, t = {body with ptr := cfg.allocate i, address := a, stage := stage} := by
  induction bodies generalizing n address with
  | nil => exact absurd h (by simp [Config.numbered])
  | cons body bodies ih =>
    rcases List.mem_cons.mp h with rfl | h
    · exact ⟨body, List.mem_cons_self, n, address, rfl⟩
    · obtain ⟨body', hbody, hrest⟩ := ih h
      exact ⟨body', List.mem_cons_of_mem body hbody, hrest⟩

end

/-! ### The bodies of a run -/

/-- The transfers of a segment are made of bodies. -/
def Config.Drawn (cfg : Config) : Segment → Prop
  | .transfer _ _ _ _ _ requests => ∀ t ∈ requests, cfg.Body t
  | _ => True

theorem drawn_of_issued {cfg : Config} {m : Mode} {g : Segment} (h : Issued m g)
    (hm : m.issue = cfg.issues) : cfg.Drawn g := by
  cases g with
  | transfer op kind command bytes layer requests =>
    obtain ⟨hc, rfl⟩ := h
    intro t ht
    rw [hm] at ht
    exact ⟨command, bytes, layer, hc, ht⟩
  | _ => trivial

theorem replayTrace_drawn (cfg : Config) (l : Launch) (run : UInt32) :
    ∀ g ∈ cfg.replayTrace l run, cfg.Drawn g := by
  intro g hg
  unfold Config.replayTrace Config.replayAs at hg
  split at hg
  · next hmode =>
    have hissue : cfg.issueFastMemory = cfg.issues := by
      funext command bytes layer
      simp only [Config.issues, hmode, if_true]
    split at hg <;> exact drawn_of_issued (replayLayers_issued cfg l _ _ g hg) hissue
  · next hmode =>
    refine drawn_of_issued (replayLayers_issued cfg l _ _ g hg) ?_
    funext command bytes layer
    simp only [Config.issues, hmode, if_false, Config.detailed, Bool.false_eq_true]

/-- What the thread has still to send is made of bodies. -/
structure Stocked (cfg : Config) (s : State) : Prop where
  unsent : ∀ t ∈ s.thread.unsent, cfg.Body t
  script : ∀ g ∈ s.thread.script, cfg.Drawn g

theorem stocked_initial (cfg : Config) : Stocked cfg {} := by
  constructor <;> simp [Thread.unsent, Thread.script]

/-- An activation by what it sends. -/
structure Sends (cfg : Config) (s s' : State) (effects : List Effect) (bodies : List Payload) : Prop where
  stocked : Stocked cfg s'
  drawn : ∀ t ∈ bodies, cfg.Body t
  requests : requestsOf effects = cfg.numbered s.stage bodies s.issued s.nextAddress
  issued : s'.issued = s.issued + bodies.length
  nextAddress : s'.nextAddress = s.nextAddress + (bodies.map cfg.reserved).sum

section
variable {cfg : Config} {s s' : State} {effects : List Effect} {bodies : List Payload}

/-- The thread stops at a wait and has sent nothing. -/
theorem sends_nothing (h : Stocked cfg s') (hrequests : requestsOf effects = [])
    (hissued : s'.issued = s.issued) (haddress : s'.nextAddress = s.nextAddress) :
    Sends cfg s s' effects [] :=
  ⟨h, by simp, hrequests, hissued, by simp [haddress]⟩

theorem Sends.quiet (h : Sends cfg s s' effects bodies) {quiet : List Effect} (hlocal : Local quiet) :
    Sends cfg s s' (quiet ++ effects) bodies := by
  refine ⟨h.stocked, h.drawn, ?_, h.issued, h.nextAddress⟩
  rw [requestsOf_append, hlocal.silent.requests, List.nil_append]
  exact h.requests

/-- An activation that starts with a change nothing here looks at. -/
theorem Sends.rebase {s₀ : State} (h : Sends cfg s s' effects bodies) (hstage : s.stage = s₀.stage)
    (hissued : s.issued = s₀.issued) (haddress : s.nextAddress = s₀.nextAddress) :
    Sends cfg s₀ s' effects bodies := by
  refine ⟨h.stocked, h.drawn, ?_, ?_, ?_⟩
  · rw [← hstage, ← hissued, ← haddress]
    exact h.requests
  · rw [← hissued]
    exact h.issued
  · rw [← haddress]
    exact h.nextAddress

theorem send_sends {body : Payload} (hbody : cfg.Body body)
    (h : Sends cfg (send cfg body s).1 s' effects bodies) :
    Sends cfg s s' (.request (send cfg body s).2 :: effects) (body :: bodies) := by
  have hrequests : requestsOf (.request (send cfg body s).2 :: effects) =
      (send cfg body s).2 :: requestsOf effects := rfl
  refine ⟨h.stocked, List.forall_mem_cons.mpr ⟨hbody, h.drawn⟩, ?_, ?_, ?_⟩
  · rw [hrequests, h.requests]
    rfl
  · rw [h.issued, List.length_cons]
    show s.issued + 1 + bodies.length = _
    omega
  · rw [h.nextAddress, List.map_cons, List.sum_cons, ← UInt64.add_assoc]
    rfl

end

/-- The rest of a transfer, by induction on the requests left. -/
theorem issue_sends {cfg : Config} {rest : List Segment} {next : Action State}
    (hrest : ∀ g ∈ rest, cfg.Drawn g)
    (hnext : ∀ s, ∃ bodies, Sends cfg s (next s).1 (next s).2 bodies)
    {requests : List Payload} (hrequests : ∀ t ∈ requests, cfg.Body t) (s : State) :
    ∃ bodies, Sends cfg s (issue cfg rest next requests s).1 (issue cfg rest next requests s).2
      bodies := by
  induction requests generalizing s with
  | nil =>
    simp only [issue]
    split
    · exact hnext s
    · exact ⟨[], sends_nothing ⟨by simp [Thread.unsent], hrest⟩ rfl rfl rfl⟩
  | cons body requests ih =>
    obtain ⟨hbody, htail⟩ := List.forall_mem_cons.mp hrequests
    simp only [issue]
    split
    · refine ⟨[body], send_sends hbody ?_⟩
      exact sends_nothing ⟨htail, hrest⟩ rfl rfl rfl
    · obtain ⟨bodies, hsends⟩ := ih htail (send cfg body s).1
      exact ⟨body :: bodies, send_sends hbody hsends⟩

theorem advance_sends {cfg : Config} (now : Time) {script : List Segment}
    (hscript : ∀ g ∈ script, cfg.Drawn g) (s : State) :
    ∃ bodies, Sends cfg s (advance cfg now script s).1 (advance cfg now script s).2 bodies := by
  induction script generalizing s with
  | nil => exact ⟨[], sends_nothing ⟨by simp [advance, Thread.unsent], by simp [advance, Thread.script]⟩
      rfl rfl rfl⟩
  | cons g rest ih =>
    obtain ⟨hg, hrest⟩ := List.forall_mem_cons.mp hscript
    cases g with
    | layerStart layer =>
      obtain ⟨bodies, h⟩ := ih hrest {s with npuStartTime := now}
      have hquiet : Local [.updateNpuStart layer (toCycle now)] := by simp [Local, Effect.isLocal]
      have hsends : Sends cfg s _ _ bodies := h.rebase rfl rfl rfl
      exact ⟨bodies, hsends.quiet hquiet⟩
    | transfer op kind command bytes layer requests =>
      simp only [advance]
      split
      · exact ih hrest s
      · obtain ⟨bodies, h⟩ := issue_sends hrest (ih hrest) hg {s with pendingResponses := 0}
        exact ⟨bodies, h.rebase rfl rfl rfl⟩
    | compute op computeNs =>
      exact ⟨[], sends_nothing ⟨by simp [advance, Thread.unsent], hrest⟩ rfl rfl rfl⟩
    | layerEnd layer compute =>
      obtain ⟨bodies, h⟩ := ih hrest s
      have hquiet : Local [.updateNpuEnd layer (toCycle now) compute,
          .metrics (.npuInterval s.npuStartTime now)] := by
        simp [Local, Effect.isLocal]
      exact ⟨bodies, h.quiet hquiet⟩
    | trap =>
      exact ⟨[], sends_nothing ⟨by simp [advance, Thread.unsent], by simp [advance, Thread.script]⟩
        rfl rfl rfl⟩
    | finish =>
      exact ⟨[], sends_nothing ⟨by simp [advance, Thread.unsent], by simp [advance, Thread.script]⟩
        rfl rfl rfl⟩

/-! ### The thread's activations -/

section
variable {cfg : Config} {s : State} (h : Stocked cfg s) (now : Time)
include h

theorem startRun_sends :
    ∃ bodies, Sends cfg s (startRun cfg now s).1 (startRun cfg now s).2 bodies := by
  unfold startRun
  dsimp only
  split
  · obtain ⟨bodies, hsends⟩ := advance_sends now (replayTrace_drawn cfg s.launch s.runId) {s with
      startEvent := false
      activeCore := true
      runId := s.runId + 1}
    exact ⟨bodies, hsends.rebase rfl rfl rfl⟩
  · exact ⟨[], sends_nothing ⟨h.unsent, h.script⟩ rfl rfl rfl⟩

theorem onResponse_sends :
    ∃ bodies, Sends cfg s (onResponse cfg now s).1 (onResponse cfg now s).2 bodies := by
  have hunsent := h.unsent
  have hscript := h.script
  unfold onResponse
  dsimp only
  split
  · next requests rest hthread =>
    rw [hthread] at hunsent hscript
    obtain ⟨bodies, hsends⟩ := issue_sends hscript (advance_sends now hscript) hunsent
      {s with responseEvent := false}
    exact ⟨bodies, hsends.rebase rfl rfl rfl⟩
  · next rest hthread =>
    rw [hthread] at hscript
    split
    · obtain ⟨bodies, hsends⟩ := advance_sends now hscript {s with responseEvent := false}
      exact ⟨bodies, hsends.rebase rfl rfl rfl⟩
    · exact ⟨[], sends_nothing ⟨h.unsent, h.script⟩ rfl rfl rfl⟩
  · exact ⟨[], sends_nothing ⟨h.unsent, h.script⟩ rfl rfl rfl⟩

theorem endCompute_sends :
    ∃ bodies, Sends cfg s (endCompute cfg now s).1 (endCompute cfg now s).2 bodies := by
  have hscript := h.script
  unfold endCompute
  split
  · next wake rest hthread =>
    rw [hthread] at hscript
    exact advance_sends now hscript s
  · exact ⟨[], sends_nothing h rfl rfl rfl⟩

end

/-! ### The bytes of a transaction -/

/-- The length of the data a detailed transaction carries is what it is charged with. -/
theorem Config.Body.chargedBytes {cfg : Config} {t : Payload} (h : cfg.Body t)
    (hmode : cfg.profile.fastLayerMode = false) : t.chargedBytes = t.dataLength.toUInt64 := by
  obtain ⟨command, bytes, layer, -, ht⟩ := h
  simp only [Config.issues, hmode, Bool.false_eq_true, if_false, Config.issueMemory] at ht
  split at ht
  · exact absurd ht (by simp)
  · have hsplit : ∀ (burstSize : UInt32) (turns : Nat) (remaining burstId : UInt32),
        ∀ t ∈ cfg.splitRequests command layer burstSize turns remaining burstId, t.pimCmd = "" := by
      intro burstSize turns
      induction turns with
      | zero => simp [Config.splitRequests]
      | succ turns ih =>
        intro remaining burstId t ht
        rw [Config.splitRequests] at ht
        split at ht
        · exact absurd ht (by simp)
        · rcases List.mem_cons.mp ht with rfl | ht
          · rfl
          · exact ih _ _ t ht
    have hcmd := hsplit _ _ _ _ t ht
    rw [Payload.chargedBytes, Payload.isMacroRequest, hcmd]
    rfl

/-- A tensor-sized transaction is the only one of its operation, and is charged with the
operation's byte count. -/
theorem Config.Body.call {cfg : Config} {t : Payload} (h : cfg.Body t)
    (hmode : cfg.profile.fastLayerMode = true) :
    ∃ command layer, cfg.issueFastMemory command t.chargedBytes layer = [t] := by
  obtain ⟨command, bytes, layer, -, ht⟩ := h
  simp only [Config.issues, hmode, if_true] at ht
  have hone : cfg.issueFastMemory command bytes layer = [t] := by
    unfold Config.issueFastMemory at ht ⊢
    split
    · next hzero => simp [hzero] at ht
    · next hpos =>
      rw [if_neg hpos] at ht
      rw [List.mem_singleton.mp ht]
  have hbytes : t.chargedBytes = bytes := by
    unfold Config.issueFastMemory at hone
    split at hone
    · exact absurd hone (by simp)
    · obtain rfl := List.singleton_inj.mp hone
      exact macroBytes_words _ bytes rfl rfl
  exact ⟨command, layer, hbytes ▸ hone⟩

end Hsim.NpuTraceReplayer
