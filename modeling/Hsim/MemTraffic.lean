import Hsim.Lanes
import Hsim.MemWrapper

/-! The NPU's traffic inside the DRAM module.

Requests are answered in any order, so only what is inside is kept: an arrival
adds to it, the falling edge takes from it, and the thread moves it from queue
to queue. Nothing the NPU sends is acknowledged inside the module. -/
namespace Hsim

namespace MemWrapper

/-- Handed to a back end and not yet answered. -/
def sent (s : State) : Multiset Payload :=
  (s.bwQueue : Multiset Payload) + (s.fastMemoryCompletedQueue.map (·.2) : List Payload) +
    Bridge.contents s.bridge

/-- The traffic inside. -/
def held (s : State) : Multiset Payload := (s.fwQueue ++ s.memRequest : List Payload) + sent s

/-- A module that has nothing but requests of the NPU inside. -/
structure Carries (s : State) : Prop where
  traffic : ∀ t ∈ held s, t.FromNpu
  count : s.outstanding = UInt32.ofNat (sent s).card
  runs : s.thread ≠ .failed

theorem carries_initial : Carries {} := by
  constructor <;> simp [held, sent]

/-- A module that serves the NPU. -/
structure Serves (cfg : Config) (s : State) : Prop where
  traffic : ∀ t ∈ held s, t.FromNpu
  noneInBridge : cfg.fastLayerMode = true → Bridge.contents s.bridge = 0
  fits : cfg.fastLayerMode = true → ∀ t ∈ s.fwQueue ++ s.memRequest, t.staysLocal = true
  count : s.outstanding = UInt32.ofNat (sent s).card
  runs : s.thread ≠ .failed

theorem Serves.carries {cfg : Config} {s : State} (h : Serves cfg s) : Carries s :=
  ⟨h.traffic, h.count, h.runs⟩

theorem serves_initial (cfg : Config) : Serves cfg {} := by
  constructor <;> simp [held, sent]

/-- An activation that moves what is inside, whatever the mode. -/
structure Moves (s s' : State) (effects : List Effect) : Prop where
  carries : Carries s'
  held : held s' = held s
  locals : Local effects

theorem Moves.trans {a b c : State} {e e' : List Effect} (h : Moves a b e) (h' : Moves b c e') :
    Moves a c (e ++ e') :=
  ⟨h'.carries, h'.held.trans h.held, h.locals.append h'.locals⟩

/-- What an activation keeps of the transactions inside. -/
structure Keeps (cfg : Config) (s s' : State) (effects : List Effect) : Prop where
  serves : Serves cfg s'
  held : held s' = held s
  locals : Local effects

theorem Keeps.trans {cfg : Config} {a b c : State} {e e' : List Effect} (h : Keeps cfg a b e)
    (h' : Keeps cfg b c e') : Keeps cfg a c (e ++ e') :=
  ⟨h'.serves, h'.held.trans h.held, h.locals.append h'.locals⟩

/-- In fast-layer mode nothing is in the bridge and nothing on its way there. -/
theorem Moves.keeps {cfg : Config} {s s' : State} {effects : List Effect} (h : Moves s s' effects)
    (hbridge : cfg.fastLayerMode = true → Bridge.contents s'.bridge = 0)
    (hfits : cfg.fastLayerMode = true → ∀ t ∈ s'.fwQueue ++ s'.memRequest, t.staysLocal = true) :
    Keeps cfg s s' effects :=
  ⟨⟨h.carries.traffic, hbridge, hfits, h.carries.count, h.carries.runs⟩, h.held, h.locals⟩

/-! What the back ends hold after an operation, whoever sent it. -/

theorem sent_completeFastMemoryRequests (now : Time) (s : State) :
    sent (completeFastMemoryRequests now s).1 = sent s :=
  congrArg (· + _) (PimWrapper.completed_due now s.fastMemoryCompletedQueue s.bwQueue)

/-- A transaction leaves the bridge for the backward queue. -/
theorem sent_answered {s : State} {t : Payload} {bridge : Bridge.State}
    (h : Bridge.contents s.bridge = t ::ₘ Bridge.contents bridge) :
    sent {s with bridge := bridge, bwQueue := s.bwQueue ++ [t]} = sent s := by
  simp only [sent, h, ← Multiset.coe_add, Multiset.coe_singleton, ← Multiset.singleton_add]
  abel

theorem sent_sendRequest (cfg : Config) (now : Time) (t : Payload) (s : State) :
    sent (sendRequest cfg now t s).1 = t ::ₘ sent s := by
  unfold sendRequest
  dsimp only
  split
  · simp only [sent, List.map_append, List.map_cons, List.map_nil, ← Multiset.coe_add,
      Multiset.coe_singleton, ← Multiset.singleton_add]
    abel
  · simp only [sent, Bridge.contents_sendCommand, ← Multiset.singleton_add]
    abel

/-- Handing a request over counts it and leaves the rest of the module alone. -/
theorem sendRequest_frame (cfg : Config) (now : Time) (t : Payload) (s : State) :
    (sendRequest cfg now t s).1.outstanding = s.outstanding + 1 ∧
      (sendRequest cfg now t s).1.fwQueue = s.fwQueue ∧
      (sendRequest cfg now t s).1.memRequest = s.memRequest ∧
      (sendRequest cfg now t s).1.thread = s.thread := by
  unfold sendRequest
  dsimp only
  split <;> exact ⟨rfl, rfl, rfl, rfl⟩

theorem sendRequest_local (cfg : Config) (now : Time) (t : Payload) (s : State) :
    Local (sendRequest cfg now t s).2 := by
  unfold sendRequest
  dsimp only
  split <;> simp [Local, Effect.isLocal]

/-! The loop hands over every request. -/

section
variable (cfg : Config) (now : Time) (s : State)

theorem sent_sendRequests : sent (sendRequests cfg now s).1 = (s.memRequest : Multiset Payload) + sent s := by
  have hall := sendRequests_rule cfg now s
    (fun left s' _ => (left : Multiset Payload) + sent s' = (s.memRequest : Multiset Payload) + sent s)
    rfl fun t rest s' _ hs => by
      rw [← hs, sent_sendRequest, ← Multiset.cons_coe, Multiset.add_cons, Multiset.cons_add]
  exact (zero_add _).symm.trans hall

theorem sendRequests_frame :
    (sendRequests cfg now s).1.outstanding = s.outstanding + UInt32.ofNat s.memRequest.length ∧
      (sendRequests cfg now s).1.fwQueue = s.fwQueue ∧ (sendRequests cfg now s).1.memRequest = [] ∧
      (sendRequests cfg now s).1.thread = s.thread := by
  obtain ⟨hcount, hrest⟩ := sendRequests_rule cfg now s
    (fun left s' _ =>
      s'.outstanding + UInt32.ofNat left.length = s.outstanding + UInt32.ofNat s.memRequest.length ∧
        s'.fwQueue = s.fwQueue ∧ s'.memRequest = [] ∧ s'.thread = s.thread)
    ⟨rfl, rfl, rfl, rfl⟩ fun t rest s' _ ⟨hcount, hfw, hnone, hthread⟩ => by
      obtain ⟨hcount', hfw', hrequest, hthread'⟩ := sendRequest_frame cfg now t s'
      refine ⟨?_, hfw'.trans hfw, hrequest.trans hnone, hthread'.trans hthread⟩
      rw [← hcount, hcount', List.length_cons, UInt32.ofNat_add, add_assoc, add_comm 1]
      rfl
  exact ⟨(add_zero _).symm.trans hcount, hrest⟩

theorem sendRequests_local : Local (sendRequests cfg now s).2 :=
  sendRequests_rule cfg now s (fun _ _ effects => Local effects) (by simp [Local])
    fun t _ s' _ heffects => heffects.append (sendRequest_local cfg now t s')

theorem held_sendRequests : held (sendRequests cfg now s).1 = held s := by
  obtain ⟨-, hfw, hnone, -⟩ := sendRequests_frame cfg now s
  rw [held, sent_sendRequests, hfw, hnone, List.append_nil, held, ← Multiset.coe_add, add_assoc]

end

/-- Transactions that move among the back ends. -/
theorem Carries.of_sent {s s' : State} (h : Carries s) (hsent : sent s' = sent s)
    (hfw : s'.fwQueue = s.fwQueue) (hreq : s'.memRequest = s.memRequest)
    (hcount : s'.outstanding = s.outstanding) (hthread : s'.thread ≠ .failed) :
    Carries s' ∧ held s' = held s := by
  have hheld : held s' = held s := by rw [held, hsent, hfw, hreq, held]
  refine ⟨⟨?_, ?_, hthread⟩, hheld⟩
  · rw [hheld]
    exact h.traffic
  · rw [hcount, hsent]
    exact h.count

section
variable {s : State} (h : Carries s)
include h

theorem completeFastMemoryRequests_moves (now : Time) :
    Moves s (completeFastMemoryRequests now s).1 (completeFastMemoryRequests now s).2 := by
  have hsent := sent_completeFastMemoryRequests now s
  obtain ⟨hcarries, hheld⟩ := h.of_sent hsent rfl rfl rfl h.runs
  refine ⟨hcarries, hheld, fun e he => ?_⟩
  obtain ⟨x, -, he⟩ := List.mem_flatMap.mp he
  simp only [List.mem_cons, List.not_mem_nil, or_false] at he
  rcases he with rfl | rfl <;> rfl

/-- What comes out of the bridge is the NPU's, and is answered. -/
theorem takeCompleted_cases (cfg : Config) (now : Time) :
    takeCompleted cfg now s = (s, []) ∨ ∃ t bridge,
      Bridge.contents s.bridge = t ::ₘ Bridge.contents bridge ∧
      takeCompleted cfg now s = ({s with
        bridge := bridge
        bwQueue := s.bwQueue ++ [t]}, [.metrics (.completed .dram t now)]) := by
  have hback := Bridge.contents_getCompletedCommand s.bridge
  unfold takeCompleted
  split
  · exact .inl rfl
  · next t bridge hget =>
    rw [hget, Option.toList_some, Multiset.coe_singleton, Multiset.singleton_add] at hback
    have ht : t ∈ Bridge.contents s.bridge := by
      rw [hback]
      exact Multiset.mem_cons_self t _
    obtain ⟨hsrc, hcommand⟩ := h.traffic t
      (Multiset.mem_add.mpr (.inr (Multiset.mem_add.mpr (.inr ht))))
    refine .inr ⟨t, bridge, hback, ?_⟩
    dsimp only
    rcases hcommand with hread | hwrite
    · rw [if_pos hread]
    · rw [if_neg (by simp [hwrite]), if_pos hwrite, if_neg (by simp [hsrc]), if_neg (by simp [hsrc]),
        if_pos hsrc]

theorem takeCompleted_moves (cfg : Config) (now : Time) :
    Moves s (takeCompleted cfg now s).1 (takeCompleted cfg now s).2 := by
  rcases takeCompleted_cases h cfg now with he | ⟨t, bridge, hback, he⟩
  · rw [he]
    exact ⟨h, rfl, by simp [Local]⟩
  · rw [he]
    obtain ⟨hcarries, hheld⟩ := h.of_sent (sent_answered hback) rfl rfl rfl h.runs
    exact ⟨hcarries, hheld, by simp [Local, Effect.isLocal]⟩

omit h in
/-- The end of the loop body ticks. -/
theorem finishIteration_cases (cfg : Config) (env : Env) (now : Time) : ∃ thread,
    thread ≠ .failed ∧ (finishIteration cfg env now s).1 = {tick cfg env now s with thread := thread} ∧
      ((finishIteration cfg env now s).2 = [] ∨ (finishIteration cfg env now s).2 = [.stopDram]) := by
  unfold finishIteration
  dsimp only
  split
  · exact ⟨.exited, by simp, rfl, .inr rfl⟩
  · split
    · split <;> exact ⟨_, by simp, rfl, .inl rfl⟩
    · exact ⟨_, by simp, rfl, .inl rfl⟩

omit h in
@[simp] theorem contents_tick (cfg : Config) (env : Env) (now : Time) :
    Bridge.contents (tick cfg env now s).bridge = Bridge.contents s.bridge := by
  simp only [tick]
  split
  · rfl
  · exact Bridge.contents_clockTick _ _ _ _

theorem finishIteration_moves (cfg : Config) (env : Env) (now : Time) :
    Moves s (finishIteration cfg env now s).1 (finishIteration cfg env now s).2 := by
  obtain ⟨thread, hne, hs, heffects⟩ := finishIteration_cases cfg env now
  have hsent : sent {tick cfg env now s with thread := thread} = sent s :=
    congrArg (_ + ·) (contents_tick cfg env now)
  obtain ⟨hcarries, hheld⟩ := h.of_sent hsent rfl rfl rfl hne
  rw [hs]
  refine ⟨hcarries, hheld, ?_⟩
  rcases heffects with he | he
  · simp [he, Local]
  · simp [he, Local, Effect.isLocal]

end

/-- The requests go from the thread's list to a back end. -/
theorem sendRequests_moves {s : State} (h : Carries s) (cfg : Config) (now : Time) :
    Moves s (sendRequests cfg now s).1 (sendRequests cfg now s).2 := by
  have hheld := held_sendRequests cfg now s
  obtain ⟨hcount, -, -, hthread⟩ := sendRequests_frame cfg now s
  refine ⟨⟨?_, ?_, ?_⟩, hheld, sendRequests_local cfg now s⟩
  · rw [hheld]
    exact h.traffic
  · rw [hcount, sent_sendRequests, Multiset.card_add, Multiset.coe_card, UInt32.ofNat_add, h.count,
      add_comm]
  · rw [hthread]
    exact h.runs

/-- An iteration of the thread keeps the traffic held. -/
theorem iterate_moves {s : State} (h : Carries s) (cfg : Config) (env : Env) (now : Time) :
    Moves s (iterate cfg env now s).1 (iterate cfg env now s).2 := by
  have h₁ := completeFastMemoryRequests_moves h now
  have h₂ := takeCompleted_moves h₁.carries cfg now
  have h₃ := sendRequests_moves h₂.carries cfg now
  have h₄ := finishIteration_moves h₃.carries cfg env now
  have hrest := h₁.trans (h₂.trans (h₃.trans h₄))
  simp only [iterate, Action.seq_fst, Action.seq_snd]
  rw [if_neg h₂.carries.runs]
  exact hrest

/-! In fast-layer mode nothing is in the bridge, and nothing on its way there. -/

section
variable {cfg : Config} (hfast : cfg.fastLayerMode = true)
include hfast

theorem sendRequest_unbridged {t : Payload} (hpim : t.isPim = false) (hfit : t.staysLocal = true)
    (now : Time) (s : State) :
    (sendRequest cfg now t s).1 = {s with
      outstanding := s.outstanding + 1
      fastMemoryCompletedQueue := s.fastMemoryCompletedQueue ++ [(now + cfg.duration t, t)]} := by
  rw [Payload.staysLocal, hpim] at hfit
  have hlocal : cfg.localRequest t = true := by
    rw [Config.localRequest, hfast]
    exact hfit
  simp only [sendRequest, hlocal, if_true]

theorem sendRequests_unbridged (now : Time) (s : State) (hpim : ∀ t ∈ s.memRequest, t.isPim = false)
    (hfits : ∀ t ∈ s.memRequest, t.staysLocal = true) :
    (sendRequests cfg now s).1.bridge = s.bridge := by
  obtain ⟨hbridge, -, -⟩ := sendRequests_rule cfg now s
    (fun left s' _ => s'.bridge = s.bridge ∧ (∀ t ∈ left, t.isPim = false) ∧
      ∀ t ∈ left, t.staysLocal = true)
    ⟨rfl, hpim, hfits⟩ fun t rest s' _ ⟨hbridge, hpim, hfits⟩ => by
      obtain ⟨ht, hpim⟩ := List.forall_mem_cons.mp hpim
      obtain ⟨hfit, hfits⟩ := List.forall_mem_cons.mp hfits
      rw [sendRequest_unbridged hfast ht hfit now s']
      exact ⟨hbridge, hpim, hfits⟩
  exact hbridge

/-- An iteration keeps it so. -/
theorem iterate_unbridged {s : State} (h : Serves cfg s) (env : Env) (now : Time) :
    Bridge.contents (iterate cfg env now s).1.bridge = 0 ∧
      (iterate cfg env now s).1.fwQueue = s.fwQueue ∧ (iterate cfg env now s).1.memRequest = [] := by
  have h₁ := completeFastMemoryRequests_moves h.carries now
  generalize hs₁ : (completeFastMemoryRequests now s).1 = s₁ at h₁
  have hframe : s₁.bridge = s.bridge ∧ s₁.fwQueue = s.fwQueue ∧ s₁.memRequest = s.memRequest := by
    rw [← hs₁]
    exact ⟨rfl, rfl, rfl⟩
  have hempty : Bridge.contents s₁.bridge = 0 := by
    rw [hframe.1]
    exact h.noneInBridge hfast
  have htake : takeCompleted cfg now s₁ = (s₁, []) := by
    rcases takeCompleted_cases h₁.carries cfg now with he | ⟨t, bridge, hback, -⟩
    · exact he
    · rw [hempty] at hback
      exact absurd hback.symm (Multiset.cons_ne_zero)
  have hrequest : ∀ t ∈ s₁.memRequest, t ∈ held s₁ := by
    intro t ht
    exact Multiset.mem_add.mpr (.inl (List.mem_append_right _ ht))
  have hbridge := sendRequests_unbridged hfast now s₁
    (fun t ht => (h₁.carries.traffic t (hrequest t ht)).isPim)
    (fun t ht => h.fits hfast t (List.mem_append_right _ (hframe.2.2 ▸ ht)))
  obtain ⟨-, hfw, hnone, -⟩ := sendRequests_frame cfg now s₁
  obtain ⟨thread, -, hs, -⟩ := finishIteration_cases cfg env now
  simp only [iterate, Action.seq_fst, hs₁, htake]
  rw [if_neg h₁.carries.runs, Action.seq_fst, hs]
  refine ⟨?_, ?_, ?_⟩
  · show Bridge.contents (tick cfg env now _).bridge = 0
    rw [contents_tick]
    exact (congrArg Bridge.contents hbridge).trans hempty
  · exact hfw.trans hframe.2.1
  · exact hnone

end

theorem iterate_keeps {cfg : Config} {s : State} (h : Serves cfg s) (env : Env) (now : Time) :
    Keeps cfg s (iterate cfg env now s).1 (iterate cfg env now s).2 := by
  have hmoves := iterate_moves h.carries cfg env now
  refine hmoves.keeps (fun hfast => (iterate_unbridged hfast h env now).1) fun hfast t ht => ?_
  obtain ⟨-, hfw, hnone⟩ := iterate_unbridged hfast h env now
  rw [hfw, hnone, List.append_nil] at ht
  exact h.fits hfast t (List.mem_append_left _ ht)

/-- The rising edge moves the front of the forward queue to the thread's list. -/
theorem clockPosedge_perm (s : State) :
    (((clockPosedge s).fwQueue ++ (clockPosedge s).memRequest : List Payload) : Multiset Payload) =
      (s.fwQueue ++ s.memRequest : List Payload) := by
  unfold clockPosedge
  split
  · rfl
  · next t rest hq =>
    rw [hq, Multiset.coe_eq_coe, ← List.append_assoc]
    exact List.perm_append_singleton t (rest ++ s.memRequest)

theorem clockPosedge_moves {s : State} (h : Carries s) : Moves s (clockPosedge s) [] := by
  have hperm := clockPosedge_perm s
  have hsame : sent (clockPosedge s) = sent s ∧ (clockPosedge s).outstanding = s.outstanding ∧
      (clockPosedge s).thread = s.thread := by
    unfold clockPosedge
    split <;> exact ⟨rfl, rfl, rfl⟩
  have hheld : held (clockPosedge s) = held s := by rw [held, hperm, hsame.1, held]
  refine ⟨⟨?_, ?_, ?_⟩, hheld, by simp [Local]⟩
  · rw [hheld]
    exact h.traffic
  · rw [hsame.1, hsame.2.1]
    exact h.count
  · rw [hsame.2.2]
    exact h.runs

theorem clockPosedge_keeps {cfg : Config} {s : State} (h : Serves cfg s) :
    Keeps cfg s (clockPosedge s) [] := by
  refine (clockPosedge_moves h.carries).keeps (fun hfast => ?_) fun hfast t ht => ?_
  · have hbridge : (clockPosedge s).bridge = s.bridge := by
      unfold clockPosedge
      split <;> rfl
    rw [hbridge]
    exact h.noneInBridge hfast
  · exact h.fits hfast t ((Multiset.coe_eq_coe.mp (clockPosedge_perm s)).mem_iff.mp ht)

/-- The falling edge answers one of the NPU's requests. -/
theorem clockNegedge_answers {s : State} (h : Carries s) :
    clockNegedge s = (s, []) ∨ ∃ t, (clockNegedge s).2 = [.respond t 0] ∧
      held s = t ::ₘ held (clockNegedge s).1 ∧ Carries (clockNegedge s).1 := by
  unfold clockNegedge
  cases hq : s.bwQueue with
  | nil => exact .inl rfl
  | cons t rest =>
    right
    have hsent : sent s = t ::ₘ sent {s with
        bwQueue := rest
        outstanding := s.outstanding - 1} := by
      simp only [sent, hq, ← Multiset.cons_coe, Multiset.cons_add]
    have hheld : held s = t ::ₘ held {s with
        bwQueue := rest
        outstanding := s.outstanding - 1} := by
      rw [held, hsent, Multiset.add_cons]
      rfl
    refine ⟨t, rfl, hheld, ⟨fun t' ht' => ?_, ?_, h.runs⟩⟩
    · exact h.traffic t' (by rw [hheld]; exact Multiset.mem_cons_of_mem ht')
    · have hcount := h.count
      rw [hsent, Multiset.card_cons, UInt32.ofNat_add] at hcount
      rw [hcount]
      exact UInt32.add_sub_cancel _ _

theorem clockNegedge_held {cfg : Config} {s : State} (h : Serves cfg s) :
    clockNegedge s = (s, []) ∨ ∃ t, (clockNegedge s).2 = [.respond t 0] ∧
      held s = t ::ₘ held (clockNegedge s).1 ∧ Serves cfg (clockNegedge s).1 := by
  refine (clockNegedge_answers h.carries).imp id ?_
  rintro ⟨t, heffects, hheld, hcarries⟩
  have hsame : (clockNegedge s).1.bridge = s.bridge ∧ (clockNegedge s).1.fwQueue = s.fwQueue ∧
      (clockNegedge s).1.memRequest = s.memRequest := by
    unfold clockNegedge
    split <;> exact ⟨rfl, rfl, rfl⟩
  refine ⟨t, heffects, hheld, hcarries.traffic, ?_, ?_, hcarries.count, hcarries.runs⟩
  · rw [hsame.1]
    exact h.noneInBridge
  · rw [hsame.2.1, hsame.2.2]
    exact h.fits

theorem held_peqCb (now : Time) (t : Payload) (s : State) :
    held (peqCb now t s).1 = t ::ₘ held s := by
  have hperm : ((s.fwQueue ++ [t] ++ s.memRequest : List Payload) : Multiset Payload) =
      t ::ₘ (s.fwQueue ++ s.memRequest : List Payload) := by
    simp only [← Multiset.coe_add, Multiset.coe_singleton, ← Multiset.singleton_add]
    abel
  rw [show held s = (s.fwQueue ++ s.memRequest : List Payload) + sent s from rfl,
    ← Multiset.cons_add, ← hperm]
  rfl

/-- An arrival. -/
theorem peqCb_arrives {s : State} (h : Carries s) (now : Time) {t : Payload} (hnpu : t.FromNpu) :
    Carries (peqCb now t s).1 ∧ held (peqCb now t s).1 = t ::ₘ held s ∧ Local (peqCb now t s).2 := by
  have hheld := held_peqCb now t s
  refine ⟨⟨fun t' ht' => ?_, h.count, h.runs⟩, hheld, by simp [Local, peqCb, Effect.isLocal]⟩
  rw [hheld] at ht'
  rcases Multiset.mem_cons.mp ht' with rfl | ht'
  · exact hnpu
  · exact h.traffic t' ht'

theorem peqCb_held {cfg : Config} {s : State} (h : Serves cfg s) (now : Time) {t : Payload}
    (hnpu : t.FromNpu) (ht : cfg.fastLayerMode = true → t.staysLocal = true) :
    Serves cfg (peqCb now t s).1 ∧ held (peqCb now t s).1 = t ::ₘ held s ∧
      Local (peqCb now t s).2 := by
  obtain ⟨hcarries, hheld, hlocal⟩ := peqCb_arrives h.carries now hnpu
  refine ⟨⟨hcarries.traffic, h.noneInBridge, fun hfast t' ht' => ?_, hcarries.count, hcarries.runs⟩,
    hheld, hlocal⟩
  rcases List.mem_append.mp ht' with ht' | ht'
  · rcases List.mem_append.mp ht' with ht' | ht'
    · exact h.fits hfast t' (List.mem_append_left _ ht')
    · rw [List.mem_singleton.mp ht']
      exact ht hfast
  · exact h.fits hfast t' (List.mem_append_right _ ht')

end MemWrapper

end Hsim
