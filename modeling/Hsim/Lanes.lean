import Hsim.PimExclusion

/-! The order in which a module serves what it is handed.

Compute commands leave the PIM module in the order they arrive: each of its
queues is first in, first out, and each passes its front to the end of the next.
So the compute commands inside the module form one lane, which an activation of
the thread does not change, an arrival extends and the falling edge shortens.
Memory traffic is answered in any order, and only what is inside is kept. -/
namespace Hsim

namespace Bridge

/-- Compute commands and memory traffic have queues of their own up to the outgoing one. -/
structure Kinds (b : State) : Prop where
  incoming : ∀ c, ∀ t ∈ b.incomingQueue c, t.isPim = false
  readDone : ∀ e ∈ b.readDone, e.2.isPim = false
  writeDone : ∀ e ∈ b.writeDone, e.2.isPim = false
  compute : ∀ e ∈ b.pimComputeQueue, e.2.isPim = true

theorem kinds_empty : Kinds {} := by
  constructor <;> simp

/-- The compute commands inside, the first to come out in front. -/
def computeLane (b : State) : List Payload :=
  b.outgoingQueue.filter Payload.isPim ++ b.pimComputeQueue.map (·.2)

theorem computeLane_empty {b : State} (h : contents b = 0) : computeLane b = [] := by
  rw [Multiset.eq_zero_iff_forall_notMem] at h
  refine List.eq_nil_iff_forall_not_mem.mpr fun t ht => h t ?_
  rcases List.mem_append.mp ht with ht | ht
  · exact Multiset.mem_add.mpr (.inr (List.mem_of_mem_filter ht))
  · exact Multiset.mem_add.mpr (.inl (Multiset.mem_add.mpr (.inr ht)))

/-- A callback moves only what it finds. -/
theorem callBack_kind (addr : UInt64) {l : List (UInt64 × Payload)}
    (h : ∀ e ∈ l, e.2.isPim = false) :
    (∀ t ∈ (callBack addr l).1, t.isPim = false) ∧ ∀ e ∈ (callBack addr l).2, e.2.isPim = false := by
  have hperm := callBack_perm addr l
  have hall : ∀ t, t ∈ ((callBack addr l).1 : Multiset Payload) +
      (((callBack addr l).2.map (·.2) : List Payload) : Multiset Payload) → t.isPim = false := by
    intro t ht
    rw [hperm, Multiset.mem_coe, List.mem_map] at ht
    obtain ⟨e, he, rfl⟩ := ht
    exact h e he
  constructor
  · intro t ht
    exact hall t (Multiset.mem_add.mpr (.inl ht))
  · intro e he
    exact hall e.2 (Multiset.mem_add.mpr (.inr (List.mem_map_of_mem he)))

theorem filter_kind {l : List Payload} (h : ∀ t ∈ l, t.isPim = false) :
    l.filter Payload.isPim = [] := by
  simpa [List.filter_eq_nil_iff] using h

theorem Kinds.readCallBack {b : State} (h : Kinds b) (addr : UInt64) :
    Kinds (readCallBack b addr) ∧ computeLane (readCallBack b addr) = computeLane b := by
  obtain ⟨hmoved, hkept⟩ := callBack_kind addr h.readDone
  refine ⟨⟨h.incoming, hkept, h.writeDone, h.compute⟩, ?_⟩
  simp only [computeLane, Bridge.readCallBack, List.filter_append, filter_kind hmoved, List.append_nil]

theorem Kinds.writeCallBack {b : State} (h : Kinds b) (addr : UInt64) :
    Kinds (writeCallBack b addr) ∧ computeLane (writeCallBack b addr) = computeLane b := by
  obtain ⟨hmoved, hkept⟩ := callBack_kind addr h.writeDone
  refine ⟨⟨h.incoming, h.readDone, hkept, h.compute⟩, ?_⟩
  simp only [computeLane, Bridge.writeCallBack, List.filter_append, filter_kind hmoved, List.append_nil]

theorem Kinds.callBacks {b : State} (h : Kinds b) (calls : List (Bool × UInt64)) :
    Kinds (callBacks b calls) ∧ computeLane (callBacks b calls) = computeLane b := by
  induction calls generalizing b with
  | nil => exact ⟨h, rfl⟩
  | cons c calls ih =>
    have hone : Kinds (if c.1 then Bridge.writeCallBack b c.2 else Bridge.readCallBack b c.2) ∧
        computeLane (if c.1 then Bridge.writeCallBack b c.2 else Bridge.readCallBack b c.2) =
          computeLane b := by
      split
      · exact h.writeCallBack c.2
      · exact h.readCallBack c.2
    obtain ⟨hkinds, hlane⟩ := ih hone.1
    exact ⟨hkinds, hlane.trans hone.2⟩

theorem Kinds.offer {b : State} (h : Kinds b) (answers : Answers) (c : Fin maxChannel) :
    Kinds (offer answers b c) ∧ computeLane (offer answers b c) = computeLane b := by
  unfold Bridge.offer
  split
  · exact ⟨h, rfl⟩
  · next t rest hq =>
    have ht : t.isPim = false := h.incoming c t (by rw [hq]; exact List.mem_cons_self)
    have hrest : ∀ c', ∀ t' ∈ Function.update b.incomingQueue c rest c', t'.isPim = false := by
      intro c' t' ht'
      by_cases hc : c' = c
      · subst hc
        rw [Function.update_self] at ht'
        exact h.incoming c' t' (by rw [hq]; exact List.mem_cons_of_mem t ht')
      · rw [Function.update_of_ne hc] at ht'
        exact h.incoming c' t' ht'
    have hdone : ∀ {l : List (UInt64 × Payload)}, (∀ e ∈ l, e.2.isPim = false) →
        ∀ e ∈ l ++ [(t.address, t)], e.2.isPim = false := by
      intro l hl e he
      rcases List.mem_append.mp he with he | he
      · exact hl e he
      · rw [List.mem_singleton.mp he]
        exact ht
    split
    · dsimp only
      split
      · exact ⟨⟨hrest, h.readDone, hdone h.writeDone, h.compute⟩, rfl⟩
      · exact ⟨⟨hrest, hdone h.readDone, h.writeDone, h.compute⟩, rfl⟩
    · exact ⟨h, rfl⟩

theorem Kinds.offers {b : State} (h : Kinds b) (answers : Answers) (channels : List (Fin maxChannel)) :
    Kinds (channels.foldl (Bridge.offer answers) b) ∧
      computeLane (channels.foldl (Bridge.offer answers) b) = computeLane b := by
  induction channels generalizing b with
  | nil => exact ⟨h, rfl⟩
  | cons c channels ih =>
    obtain ⟨hkinds, hlane⟩ := ih (h.offer answers c).1
    exact ⟨hkinds, hlane.trans (h.offer answers c).2⟩

theorem Kinds.drainCompute {b : State} (h : Kinds b) (now : Time) :
    Kinds (drainCompute b now) ∧ computeLane (drainCompute b now) = computeLane b := by
  have hsplit := Lib.due_append_notDue now b.pimComputeQueue
  have hdue : ∀ e ∈ Lib.due now b.pimComputeQueue, e.2.isPim = true := by
    intro e he
    exact h.compute e (by rw [← hsplit]; exact List.mem_append_left _ he)
  refine ⟨⟨h.incoming, h.readDone, h.writeDone, fun e he => h.compute e ?_⟩, ?_⟩
  · rw [← hsplit]
    exact List.mem_append_right _ he
  · have hfilter : ((Lib.due now b.pimComputeQueue).map (·.2)).filter Payload.isPim =
        (Lib.due now b.pimComputeQueue).map (·.2) := by
      rw [List.filter_eq_self]
      rintro _ ht
      obtain ⟨e, he, rfl⟩ := List.mem_map.mp ht
      exact hdue e he
    simp only [computeLane, Bridge.drainCompute, List.filter_append, hfilter, List.append_assoc,
      ← List.map_append, hsplit]

theorem Kinds.clockTick {b : State} (h : Kinds b) (m : MemorySystem) (now : Time) (answers : Answers) :
    Kinds (clockTick m b now answers) ∧ computeLane (clockTick m b now answers) = computeLane b := by
  obtain ⟨h₁, l₁⟩ := h.callBacks answers.callbacks
  obtain ⟨h₂, l₂⟩ := h₁.offers answers ((List.finRange maxChannel).filter (·.val < m.channels))
  obtain ⟨h₃, l₃⟩ := h₂.drainCompute now
  exact ⟨h₃, l₃.trans (l₂.trans l₁)⟩

theorem Kinds.sendCommand {b : State} (h : Kinds b) (m : MemorySystem) (now : Time) (t : Payload) :
    Kinds (sendCommand m b now t) ∧
      computeLane (sendCommand m b now t) = computeLane b ++ [t].filter Payload.isPim := by
  unfold Bridge.sendCommand
  split
  · next hpim =>
    have ht : t.isPim = true := by simp [Payload.isPim, hpim]
    refine ⟨⟨h.incoming, h.readDone, h.writeDone, fun e he => ?_⟩, ?_⟩
    · rcases List.mem_append.mp he with he | he
      · exact h.compute e he
      · rw [List.mem_singleton.mp he]
        exact ht
    · simp [computeLane, ht]
  · next hpim =>
    have ht : t.isPim = false := by simpa [Payload.isPim] using hpim
    refine ⟨⟨fun c t' ht' => ?_, h.readDone, h.writeDone, h.compute⟩, by simp [computeLane, ht]⟩
    dsimp only at ht'
    by_cases hc : c = m.getChannel t.address
    · subst hc
      rw [Function.update_self] at ht'
      rcases List.mem_append.mp ht' with ht' | ht'
      · exact h.incoming _ t' ht'
      · rw [List.mem_singleton.mp ht']
        exact ht
    · rw [Function.update_of_ne hc] at ht'
      exact h.incoming c t' ht'

theorem Kinds.getCompletedCommand {b : State} (h : Kinds b) :
    Kinds (getCompletedCommand b).2 ∧ computeLane b =
      (getCompletedCommand b).1.toList.filter Payload.isPim ++ computeLane (getCompletedCommand b).2 := by
  unfold Bridge.getCompletedCommand
  cases hq : b.outgoingQueue with
  | nil => exact ⟨h, rfl⟩
  | cons t rest =>
    refine ⟨⟨h.incoming, h.readDone, h.writeDone, h.compute⟩, ?_⟩
    simp only [computeLane, hq, Option.toList_some, ← List.append_assoc, ← List.filter_append,
      List.singleton_append]

end Bridge

/-- A transaction that fast-layer mode keeps out of the bridges: a macro command, or a
tensor-sized request. -/
def Payload.staysLocal (t : Payload) : Bool :=
  if t.isPim then startsWith t.pimCmd "macro(" else t.isMacroRequest

/-- A request of the NPU. -/
def Payload.FromNpu (t : Payload) : Prop := t.srcId = .npu ∧ (t.command = .read ∨ t.command = .write)

instance (t : Payload) : Decidable t.FromNpu := inferInstanceAs (Decidable (_ ∧ _))

theorem Payload.FromNpu.isPim {t : Payload} (h : t.FromNpu) : t.isPim = false := by
  rcases h.2 with h | h <;> simp [Payload.isPim, h]

/-- A call that stays out of the sockets, the payload pools and the barrier's events. -/
def Effect.isLocal : Effect → Bool
  | .request _ | .respond _ _ | .release _ | .pimTraceDone | .npuTraceDone => false
  | _ => true

def Local (effects : List Effect) : Prop := ∀ e ∈ effects, e.isLocal = true

theorem Local.append {a b : List Effect} (ha : Local a) (hb : Local b) : Local (a ++ b) := by
  intro e he
  rcases List.mem_append.mp he with he | he
  · exact ha e he
  · exact hb e he

namespace PimWrapper

/-- Arrived and not yet handed over, the next one in front. -/
def waiting (s : State) : List Payload :=
  (match s.thread with
  | .switching t _ => [t]
  | _ => []) ++ s.pendingQueue

/-- The compute commands handed over. -/
def engineLane (s : State) : List Payload :=
  s.computeCompletedQueue ++ s.fastComputeCompletedQueue.map (·.2) ++ Bridge.computeLane s.bridge

/-- All compute commands inside, the first to be served in front. -/
def computeLane (s : State) : List Payload := engineLane s ++ (waiting s).filter Payload.isPim

/-- The memory traffic inside. -/
def memoryHeld (s : State) : Multiset Payload :=
  s.inFlight false + ((waiting s).filter (fun t => t.isPim = false) : List Payload)

/-- Every compute command handed over has taken the same path: the local queue in
fast-layer mode, where nothing is in the bridge, and the bridge otherwise. -/
structure OnePath (cfg : Config) (s : State) : Prop where
  kinds : Bridge.Kinds s.bridge
  noneInBridge : cfg.fastLayerMode = true → Bridge.contents s.bridge = 0
  noneLocal : cfg.fastLayerMode = false → s.fastComputeCompletedQueue = []

/-- And every one still waiting will. -/
structure Direct (cfg : Config) (s : State) : Prop extends OnePath cfg s where
  fits : cfg.fastLayerMode = true → ∀ t ∈ waiting s, t.staysLocal = true

theorem direct_initial (cfg : Config) : Direct cfg {} :=
  ⟨⟨Bridge.kinds_empty, fun _ => Bridge.contents_empty, fun _ => rfl⟩, by simp [waiting]⟩

theorem OnePath.engineLane_fast {cfg : Config} {s : State} (h : OnePath cfg s)
    (hfast : cfg.fastLayerMode = true) : Bridge.computeLane s.bridge = [] :=
  Bridge.computeLane_empty (h.noneInBridge hfast)

theorem waiting_idle {s : State} (h : ∀ t wake, s.thread ≠ .switching t wake) :
    waiting s = s.pendingQueue := by
  unfold waiting
  split
  · next t wake heq => exact absurd heq (h t wake)
  · rfl

/-! The order of the compute commands. Two paths lead through the module, and a command on
the local one can overtake one in the bridge; when all take the same, none does. -/

/-- Every compute command handed over has taken the same path: the local queue, or the
bridge. -/
structure OneRoute (route : Bool) (s : State) : Prop where
  kinds : Bridge.Kinds s.bridge
  noneInBridge : route = true → Bridge.computeLane s.bridge = []
  noneLocal : route = false → s.fastComputeCompletedQueue = []

/-- And every one still waiting will. -/
structure Routed (cfg : Config) (route : Bool) (s : State) : Prop extends OneRoute route s where
  fits : ∀ t ∈ waiting s, t.isPim = true → cfg.localCompute t = route

theorem routed_initial (cfg : Config) (route : Bool) : Routed cfg route {} :=
  ⟨⟨Bridge.kinds_empty, fun _ => rfl, fun _ => rfl⟩, by simp [waiting]⟩

/-- Transactions that stay out of the bridges in fast-layer mode are all routed alike. -/
theorem Direct.routed {cfg : Config} {s : State} (h : Direct cfg s) :
    Routed cfg cfg.fastLayerMode s := by
  refine ⟨⟨h.kinds, fun hfast => h.engineLane_fast hfast, h.noneLocal⟩, fun t ht hpim => ?_⟩
  cases hfast : cfg.fastLayerMode with
  | false => simp [Config.localCompute, hfast]
  | true =>
    have hlocal := h.fits hfast t ht
    rw [Payload.staysLocal, if_pos hpim] at hlocal
    rw [Config.localCompute, hfast, hlocal]
    rfl

/-- What an activation keeps of the compute commands. -/
def KeepsLane (cfg : Config) (route : Bool) (s s' : State) : Prop :=
  Routed cfg route s' ∧ computeLane s' = computeLane s

theorem KeepsLane.trans {cfg : Config} {route : Bool} {a b c : State} (h : KeepsLane cfg route a b)
    (h' : KeepsLane cfg route b c) : KeepsLane cfg route a c :=
  ⟨h'.1, h'.2.trans h.2⟩

section
variable {cfg : Config} {route : Bool} {s : State}

theorem completeFastComputeRequests_lane (h : Routed cfg route s) (now : Time) :
    KeepsLane cfg route s (completeFastComputeRequests now s).1 := by
  have hsplit := Lib.due_append_notDue now s.fastComputeCompletedQueue
  refine ⟨⟨⟨h.kinds, h.noneInBridge, fun hroute => ?_⟩, h.fits⟩, ?_⟩
  · have hnone := h.noneLocal hroute
    simp only [completeFastComputeRequests, hnone]
    rfl
  · show s.computeCompletedQueue ++ (Lib.due now s.fastComputeCompletedQueue).map (·.2) ++
        (Lib.notDue now s.fastComputeCompletedQueue).map (·.2) ++ Bridge.computeLane s.bridge ++
        (waiting s).filter Payload.isPim = computeLane s
    rw [List.append_assoc s.computeCompletedQueue, ← List.map_append, hsplit]
    rfl

theorem takeCompleted_lane (h : Routed cfg route s) (now : Time) :
    KeepsLane cfg route s (takeCompleted now s).1 := by
  obtain ⟨hkinds, hlane⟩ := h.kinds.getCompletedCommand
  unfold takeCompleted
  split
  · exact ⟨h, rfl⟩
  · next t bridge hget =>
    rw [hget] at hkinds hlane
    dsimp only at hkinds hlane ⊢
    split
    · next hpim =>
      have hfront : Bridge.computeLane s.bridge = t :: Bridge.computeLane bridge := by
        simpa [Payload.isPim, hpim] using hlane
      -- a command was in the bridge, so none is in the local queue
      have hroute : route = false := by
        by_contra hlocal
        rw [h.noneInBridge (by simpa using hlocal)] at hfront
        simp at hfront
      have hlocal := h.noneLocal hroute
      refine ⟨⟨⟨hkinds, by simp [hroute], h.noneLocal⟩, h.fits⟩, ?_⟩
      simp only [computeLane, engineLane, hlocal, hfront, List.map_nil, List.append_nil,
        List.append_assoc, List.singleton_append]
      rfl
    · next hpim =>
      have hsame : Bridge.computeLane s.bridge = Bridge.computeLane bridge := by
        simpa [Payload.isPim, hpim] using hlane
      refine ⟨⟨⟨hkinds, fun hroute => hsame ▸ h.noneInBridge hroute, h.noneLocal⟩, h.fits⟩, ?_⟩
      simp only [computeLane, engineLane, hsame]
      rfl

theorem collect_lane (h : Routed cfg route s) (now : Time) :
    KeepsLane cfg route s (collect now s).1 := by
  have h₁ : KeepsLane cfg route s (completeFastMemoryRequests now s).1 :=
    ⟨⟨⟨h.kinds, h.noneInBridge, h.noneLocal⟩, h.fits⟩, rfl⟩
  have h₂ := completeFastComputeRequests_lane h₁.1 now
  exact h₁.trans (h₂.trans (takeCompleted_lane h₂.1 now))

/-- The end of the loop body ticks: what is handed over moves inside the bridge, and the
thread has nothing in its hands. -/
theorem finishIteration_lane (h : OneRoute route s) (cfg : Config) (env : Env) (now : Time)
    (blocked : Bool) :
    OneRoute route (finishIteration cfg env now blocked s).1 ∧
      engineLane (finishIteration cfg env now blocked s).1 = engineLane s ∧
      waiting (finishIteration cfg env now blocked s).1 = s.pendingQueue := by
  obtain ⟨thread, hthread, hs, -⟩ := finishIteration_spec cfg env now blocked s
  have htick : Bridge.Kinds (tick cfg env now s).bridge ∧
      Bridge.computeLane (tick cfg env now s).bridge = Bridge.computeLane s.bridge := by
    simp only [tick]
    split
    · exact ⟨h.kinds, rfl⟩
    · exact h.kinds.clockTick cfg.memorySystem now env.answers
  rw [hs]
  refine ⟨⟨htick.1, fun hroute => htick.2.trans (h.noneInBridge hroute), h.noneLocal⟩, ?_,
    waiting_idle hthread⟩
  show s.computeCompletedQueue ++ _ ++ Bridge.computeLane (tick cfg env now s).bridge = _
  rw [htick.2]
  rfl

/-- A hand-over puts a compute command at the end of the commands handed over. -/
theorem handOver_lane (h : OneRoute route s) (now : Time) {t : Payload}
    (ht : t.isPim = true → cfg.localCompute t = route) :
    OneRoute route (handOver cfg now t s).1 ∧
      engineLane (handOver cfg now t s).1 = engineLane s ++ [t].filter Payload.isPim := by
  obtain ⟨hkinds, hlane⟩ := h.kinds.sendCommand cfg.memorySystem now t
  unfold handOver
  cases hk : t.isPim with
  | true =>
    have hroute := ht hk
    simp only [if_true]
    unfold handOverCompute
    dsimp only
    split
    · next hlocal =>
      have hnone := h.noneInBridge (hroute.symm.trans hlocal)
      refine ⟨⟨h.kinds, h.noneInBridge, fun hbridge => ?_⟩, ?_⟩
      · rw [← hroute, hlocal] at hbridge
        cases hbridge
      · simp [engineLane, hnone, hk]
    · next hlocal =>
      refine ⟨⟨hkinds, fun hlocal' => ?_, h.noneLocal⟩, ?_⟩
      · exact absurd (hroute.trans hlocal') hlocal
      · simp only [engineLane, hlane, List.append_assoc]
  | false =>
    have hsame : Bridge.computeLane (Bridge.sendCommand cfg.memorySystem s.bridge now t) =
        Bridge.computeLane s.bridge := by simpa [hk] using hlane
    simp only [Bool.false_eq_true, if_false]
    unfold handOverMemory
    dsimp only
    split
    · refine ⟨⟨h.kinds, h.noneInBridge, h.noneLocal⟩, ?_⟩
      simp [engineLane, hk]
    · refine ⟨⟨hkinds, fun hroute => hsame.trans (h.noneInBridge hroute), h.noneLocal⟩, ?_⟩
      simp only [engineLane, hlane, List.append_assoc]

end

/-- Nothing handed over has moved. -/
structure SameEngine (s s₀ : State) : Prop where
  bridge : s₀.bridge = s.bridge
  compute : s₀.computeCompletedQueue = s.computeCompletedQueue
  fastCompute : s₀.fastComputeCompletedQueue = s.fastComputeCompletedQueue
  inFlight : s₀.inFlight false = s.inFlight false

theorem SameEngine.lane {s s₀ : State} (h : SameEngine s s₀) : engineLane s₀ = engineLane s := by
  rw [engineLane, h.bridge, h.compute, h.fastCompute]
  rfl

theorem SameEngine.oneRoute {route : Bool} {s s₀ : State} (h : SameEngine s s₀)
    (hs : OneRoute route s) : OneRoute route s₀ := by
  refine ⟨?_, ?_, ?_⟩
  · rw [h.bridge]
    exact hs.kinds
  · rw [h.bridge]
    exact hs.noneInBridge
  · rw [h.fastCompute]
    exact hs.noneLocal

section
variable {cfg : Config} {route : Bool} {s s₀ : State} (h : Routed cfg route s) (hs : SameEngine s s₀)
include h hs

theorem finishIteration_keepsLane (hw : waiting s = s₀.pendingQueue) (env : Env) (now : Time)
    (blocked : Bool) : KeepsLane cfg route s (finishIteration cfg env now blocked s₀).1 := by
  obtain ⟨hroute, hlane, hwaiting⟩ :=
    finishIteration_lane (hs.oneRoute h.toOneRoute) cfg env now blocked
  rw [← hw] at hwaiting
  refine ⟨⟨hroute, ?_⟩, ?_⟩
  · rw [hwaiting]
    exact h.fits
  · rw [computeLane, hlane, hwaiting, hs.lane]
    rfl

/-- The front of what waits is handed over. -/
theorem handOver_keepsLane {t : Payload} (hw : waiting s = t :: s₀.pendingQueue) (env : Env)
    (now : Time) :
    KeepsLane cfg route s ((handOver cfg now t).seq (finishIteration cfg env now false) s₀).1 := by
  have hfits : ∀ t' ∈ t :: s₀.pendingQueue, t'.isPim = true → cfg.localCompute t' = route :=
    hw ▸ h.fits
  obtain ⟨hroute, hlane⟩ := handOver_lane (hs.oneRoute h.toOneRoute) now (hfits t List.mem_cons_self)
  obtain ⟨hroute', hlane', hwaiting'⟩ := finishIteration_lane hroute cfg env now false
  rw [(handOver_spec cfg now t s₀).2.2] at hwaiting'
  rw [Action.seq_fst]
  refine ⟨⟨hroute', ?_⟩, ?_⟩
  · rw [hwaiting']
    exact fun t' ht' => hfits t' (List.mem_cons_of_mem t ht')
  · rw [computeLane, hlane', hlane, hwaiting', hs.lane, List.append_assoc, ← List.filter_append,
      List.singleton_append, ← hw]
    rfl

theorem sendTransaction_keepsLane {t : Payload} (hw : waiting s = t :: s₀.pendingQueue) (env : Env)
    (now : Time) : KeepsLane cfg route s (sendTransaction cfg env now t s₀).1 := by
  unfold sendTransaction
  split
  · exact handOver_keepsLane h hs hw env now
  · -- the thread suspends with the transaction in its hands
    have hroute := hs.oneRoute h.toOneRoute
    refine ⟨⟨⟨hroute.kinds, hroute.noneInBridge, hroute.noneLocal⟩, ?_⟩, ?_⟩
    · show ∀ t' ∈ t :: s₀.pendingQueue, _
      rw [← hw]
      exact h.fits
    · show engineLane s₀ ++ (t :: s₀.pendingQueue).filter Payload.isPim = _
      rw [← hw, hs.lane]
      rfl

end

/-- **An iteration of the thread keeps the order of the commands.** -/
theorem iterate_keepsLane {cfg : Config} {route : Bool} {s : State} (h : Routed cfg route s)
    {wake : Time} {onEvent : Bool} (hthread : s.thread = .waiting wake onEvent) (env : Env)
    (now : Time) : KeepsLane cfg route s (iterate cfg env now s).1 := by
  have hcollect := collect_lane h now
  rw [iterate, Action.seq_fst]
  refine hcollect.trans ?_
  have hidle : waiting (collect now s).1 = (collect now s).1.pendingQueue := by
    refine waiting_idle fun t wake' => ?_
    rw [(collect_frame now s).1, hthread]
    simp
  generalize (collect now s).1 = c at hcollect hidle ⊢
  rcases process_cases cfg env now c with
    ⟨-, hp⟩ | ⟨t, rest, -, -, -, hp⟩ | ⟨t, rest, s₀, effects, hq, -, hdeq, -, hp⟩
  · rw [hp]
    exact finishIteration_keepsLane hcollect.1 ⟨rfl, rfl, rfl, rfl⟩ hidle env now _
  · rw [hp]
    have hsame : SameEngine c (noteContention now t c) := by
      unfold noteContention
      split <;> exact ⟨rfl, rfl, rfl, rfl⟩
    refine finishIteration_keepsLane hcollect.1 hsame ?_ env now _
    rw [hidle, (noteContention_unchanged now t c).2]
  · have hsame : SameEngine c s₀ ∧ s₀.pendingQueue = rest := by
      obtain ⟨waits, target, draft, rfl⟩ := hdeq
      exact ⟨⟨rfl, rfl, rfl, rfl⟩, rfl⟩
    rw [← hsame.2] at hq
    rw [hp]
    exact sendTransaction_keepsLane hcollect.1 hsame.1 (hidle.trans hq) env now

theorem resume_keepsLane {cfg : Config} {route : Bool} {s : State} (h : Routed cfg route s)
    {t : Payload} {wake : Time} (hthread : s.thread = .switching t wake) (env : Env) (now : Time) :
    KeepsLane cfg route s (resume cfg env now t s).1 := by
  have hw : waiting s = t :: s.pendingQueue := by simp [waiting, hthread]
  have hsame : SameEngine s {s with pimMode := targetMode t} := ⟨rfl, rfl, rfl, rfl⟩
  exact handOver_keepsLane h hsame hw env now

theorem waiting_peqCb (now : Time) (t : Payload) (s : State) :
    waiting (peqCb now t s).1 = waiting s ++ [t] := by
  simp only [waiting, peqCb, List.append_assoc]

/-- An arrival extends the lane. -/
theorem peqCb_routed {cfg : Config} {route : Bool} {s : State} (h : Routed cfg route s) (now : Time)
    {t : Payload} (ht : t.isPim = true → cfg.localCompute t = route) :
    Routed cfg route (peqCb now t s).1 ∧
      computeLane (peqCb now t s).1 = computeLane s ++ [t].filter Payload.isPim := by
  refine ⟨⟨⟨h.kinds, h.noneInBridge, h.noneLocal⟩, ?_⟩, ?_⟩
  · rw [waiting_peqCb]
    exact List.forall_mem_append.mpr ⟨h.fits, List.forall_mem_singleton.mpr ht⟩
  · simp only [computeLane, waiting_peqCb, List.filter_append, ← List.append_assoc]
    rfl

/-! ### What is inside -/

/-- The transactions of a kind inside. -/
def inside (s : State) (k : Bool) : Multiset Payload :=
  s.inFlight k + ((waiting s).filter (fun t => t.isPim = k) : List Payload)

theorem memoryHeld_eq (s : State) : memoryHeld s = inside s false := rfl

/-- An activation that moves what is inside. -/
structure Moves (s s' : State) (effects : List Effect) : Prop where
  inside : ∀ k, inside s' k = inside s k
  locals : Local effects

theorem local_completed (queue : List (Time × Payload)) : Local (queue.flatMap fun e =>
    [.updateEnd e.2.layer .pim (toCycle e.1), .metrics (.completed .pim e.2 e.1)]) := by
  intro e he
  obtain ⟨x, -, he⟩ := List.mem_flatMap.mp he
  simp only [List.mem_cons, List.not_mem_nil, or_false] at he
  rcases he with rfl | rfl <;> rfl

theorem collect_local (now : Time) (s : State) : Local (collect now s).2 := by
  refine (local_completed _).append ((local_completed _).append ?_)
  unfold takeCompleted
  split
  · simp [Local]
  · split <;> simp [Local, Effect.isLocal]

theorem finishIteration_local (cfg : Config) (env : Env) (now : Time) (blocked : Bool) (s : State) :
    Local (finishIteration cfg env now blocked s).2 := by
  obtain ⟨-, -, -, heffects⟩ := finishIteration_spec cfg env now blocked s
  rw [heffects]
  split <;> simp [Local, Effect.isLocal]

theorem handOver_local (cfg : Config) (now : Time) (t : Payload) (s : State) :
    Local (handOver cfg now t s).2 := by
  unfold handOver handOverCompute handOverMemory
  split <;> dsimp only <;> split <;> simp [Local, Effect.isLocal]

section
variable {s s₀ : State} (hs : ∀ k, s₀.inFlight k = s.inFlight k)
include hs

theorem finishIteration_moves (hw : waiting s = s₀.pendingQueue) (cfg : Config) (env : Env)
    (now : Time) (blocked : Bool) :
    Moves s (finishIteration cfg env now blocked s₀).1 (finishIteration cfg env now blocked s₀).2 := by
  obtain ⟨thread, hthread, he, -⟩ := finishIteration_spec cfg env now blocked s₀
  refine ⟨fun k => ?_, finishIteration_local cfg env now blocked s₀⟩
  have hflight := (finishIteration_unchanged cfg env now blocked s₀).inFlight k
  rw [he] at hflight ⊢
  rw [inside, hflight, waiting_idle hthread, hs, inside, hw]
  rfl

/-- The front of what waits is handed over. -/
theorem handOver_moves {t : Payload} (hw : waiting s = t :: s₀.pendingQueue) (cfg : Config)
    (env : Env) (now : Time) :
    Moves s ((handOver cfg now t).seq (finishIteration cfg env now false) s₀).1
      ((handOver cfg now t).seq (finishIteration cfg env now false) s₀).2 := by
  obtain ⟨hover, -, -⟩ := handOver_finish cfg env now t s₀
  have hpending := (handOver_spec cfg now t s₀).2.2
  obtain ⟨thread, hthread, he, -⟩ := finishIteration_spec cfg env now false (handOver cfg now t s₀).1
  refine ⟨fun k => ?_, (handOver_local cfg now t s₀).append
    (finishIteration_local cfg env now false _)⟩
  have hflight := hover.inFlight k
  rw [Action.seq_fst, he] at hflight ⊢
  have hwait : waiting {tick cfg env now (handOver cfg now t s₀).1 with thread := thread} =
      s₀.pendingQueue := (waiting_idle hthread).trans hpending
  rw [inside, hflight, hwait, hs, inside, hw]
  by_cases hk : t.isPim = k
  · simp [hk, ← Multiset.cons_coe]
  · simp [hk, Ne.symm hk]

theorem sendTransaction_moves {t : Payload} (hw : waiting s = t :: s₀.pendingQueue) (cfg : Config)
    (env : Env) (now : Time) :
    Moves s (sendTransaction cfg env now t s₀).1 (sendTransaction cfg env now t s₀).2 := by
  unfold sendTransaction
  split
  · exact handOver_moves hs hw cfg env now
  · refine ⟨fun k => ?_, by simp [Local]⟩
    show s₀.inFlight k + ((t :: s₀.pendingQueue).filter _ : List Payload) = _
    rw [← hw, hs]
    rfl

end

theorem iterate_moves {s : State} {wake : Time} {onEvent : Bool}
    (hthread : s.thread = .waiting wake onEvent) (cfg : Config) (env : Env) (now : Time) :
    Moves s (iterate cfg env now s).1 (iterate cfg env now s).2 := by
  obtain ⟨hsame, hpending⟩ := collect_frame now s
  have hflight := (collect_unchanged now s).inFlight
  have hidle : waiting s = (collect now s).1.pendingQueue := by
    rw [hpending]
    exact waiting_idle fun t wake' => by rw [hthread]; simp
  rw [iterate, Action.seq_fst, Action.seq_snd]
  have hlocal := collect_local now s
  generalize (collect now s).1 = c at hflight hidle ⊢
  suffices hrest : Moves s (process cfg env now c).1 (process cfg env now c).2 from
    ⟨hrest.inside, hlocal.append hrest.locals⟩
  rcases process_cases cfg env now c with
    ⟨-, hp⟩ | ⟨t, rest, -, -, -, hp⟩ | ⟨t, rest, s₀, effects, hq, -, hdeq, heff, hp⟩
  · rw [hp]
    exact finishIteration_moves hflight hidle cfg env now _
  · rw [hp]
    obtain ⟨hnote, hqueue⟩ := noteContention_unchanged now t c
    refine finishIteration_moves (fun k => (hnote.inFlight k).trans (hflight k)) ?_ cfg env now _
    rw [hidle, hqueue]
  · obtain ⟨hsame, hrest, -⟩ := hdeq.unchanged
    rw [← hrest] at hq
    rw [hp]
    have hsend := sendTransaction_moves (fun k => (hsame.inFlight k).trans (hflight k))
      (hidle.trans hq) cfg env now
    refine ⟨hsend.inside, Local.append ?_ hsend.locals⟩
    rcases heff with rfl | ⟨_, _, _, _, rfl⟩ <;> simp [Local, Effect.isLocal]

theorem resume_moves {s : State} {t : Payload} {wake : Time}
    (hthread : s.thread = .switching t wake) (cfg : Config) (env : Env) (now : Time) :
    Moves s (resume cfg env now t s).1 (resume cfg env now t s).2 := by
  have hw : waiting s = t :: s.pendingQueue := by simp [waiting, hthread]
  have hsame : ∀ k, ({s with pimMode := targetMode t} : State).inFlight k = s.inFlight k := fun _ => rfl
  exact handOver_moves hsame hw cfg env now

theorem peqCb_inside (now : Time) (t : Payload) (s : State) (k : Bool) :
    inside (peqCb now t s).1 k = inside s k + ([t].filter (fun t => t.isPim = k) : List Payload) := by
  simp only [inside, waiting_peqCb, List.filter_append, ← Multiset.coe_add, ← add_assoc]
  rfl

/-! ### Fast-layer mode -/

/-- In fast-layer mode nothing is in the bridge, and nothing that waits will go there. -/
def Bypassed (cfg : Config) (s : State) : Prop :=
  cfg.fastLayerMode = true →
    Bridge.contents s.bridge = 0 ∧ ∀ t ∈ waiting s, t.staysLocal = true

theorem Direct.bypassed {cfg : Config} {s : State} (h : Direct cfg s) : Bypassed cfg s :=
  fun hfast => ⟨h.noneInBridge hfast, h.fits hfast⟩

theorem Bypassed.direct {cfg : Config} {s : State} (h : Bypassed cfg s)
    (hroute : Routed cfg cfg.fastLayerMode s) : Direct cfg s :=
  ⟨⟨hroute.kinds, fun hfast => (h hfast).1, hroute.noneLocal⟩, fun hfast => (h hfast).2⟩

theorem collect_bypassed {cfg : Config} {s : State} (h : Bypassed cfg s) (now : Time) :
    Bypassed cfg (collect now s).1 := by
  intro hfast
  obtain ⟨hnone, hfits⟩ := h hfast
  obtain ⟨hthread, hpending⟩ := collect_frame now s
  have hbridge : (collect now s).1.bridge = s.bridge := by
    have hget := Bridge.contents_getCompletedCommand s.bridge
    simp only [collect, Action.seq_fst, takeCompleted]
    split
    · rfl
    · next t bridge heq =>
      have heq' : Bridge.getCompletedCommand s.bridge = (some t, bridge) := heq
      rw [heq', hnone] at hget
      simp at hget
  refine ⟨hbridge ▸ hnone, ?_⟩
  rw [waiting, hthread, hpending]
  exact hfits

theorem finishIteration_bypassed {cfg : Config} {s : State}
    (h : cfg.fastLayerMode = true →
      Bridge.contents s.bridge = 0 ∧ ∀ t ∈ s.pendingQueue, t.staysLocal = true)
    (env : Env) (now : Time) (blocked : Bool) :
    Bypassed cfg (finishIteration cfg env now blocked s).1 := by
  intro hfast
  obtain ⟨thread, hthread, hs, -⟩ := finishIteration_spec cfg env now blocked s
  rw [hs]
  refine ⟨?_, ?_⟩
  · simp only [tick, hfast, if_true]
    exact (h hfast).1
  · rw [waiting_idle hthread]
    exact (h hfast).2

theorem handOver_bridge {cfg : Config} (hfast : cfg.fastLayerMode = true) {t : Payload}
    (ht : t.staysLocal = true) (now : Time) (s : State) :
    (handOver cfg now t s).1.bridge = s.bridge := by
  unfold Payload.staysLocal at ht
  unfold handOver
  split at ht
  · next hpim => simp [hpim, handOverCompute, Config.localCompute, hfast, ht]
  · next hpim =>
    rw [Payload.isMacroRequest, beq_iff_eq] at ht
    simp [hpim, handOverMemory, ht]

section
variable {cfg : Config} {s s₀ : State} (h : Bypassed cfg s) (hs : s₀.bridge = s.bridge)
include h hs

theorem handOver_bypassed {t : Payload} (hw : waiting s = t :: s₀.pendingQueue) (env : Env)
    (now : Time) :
    Bypassed cfg ((handOver cfg now t).seq (finishIteration cfg env now false) s₀).1 := by
  rw [Action.seq_fst]
  refine finishIteration_bypassed (fun hfast => ?_) env now false
  obtain ⟨hnone, hfits⟩ := h hfast
  rw [hw] at hfits
  obtain ⟨ht, hrest⟩ := List.forall_mem_cons.mp hfits
  rw [handOver_bridge hfast ht, hs, (handOver_spec cfg now t s₀).2.2]
  exact ⟨hnone, hrest⟩

theorem sendTransaction_bypassed {t : Payload} (hw : waiting s = t :: s₀.pendingQueue) (env : Env)
    (now : Time) : Bypassed cfg (sendTransaction cfg env now t s₀).1 := by
  unfold sendTransaction
  split
  · exact handOver_bypassed h hs hw env now
  · intro hfast
    obtain ⟨hnone, hfits⟩ := h hfast
    refine ⟨hs ▸ hnone, ?_⟩
    show ∀ t' ∈ t :: s₀.pendingQueue, _
    rw [← hw]
    exact hfits

end

theorem iterate_bypassed {cfg : Config} {s : State} (h : Bypassed cfg s) {wake : Time}
    {onEvent : Bool} (hthread : s.thread = .waiting wake onEvent) (env : Env) (now : Time) :
    Bypassed cfg (iterate cfg env now s).1 := by
  have hcollect := collect_bypassed h now
  have hidle : waiting (collect now s).1 = (collect now s).1.pendingQueue := by
    refine waiting_idle fun t wake' => ?_
    rw [(collect_frame now s).1, hthread]
    simp
  rw [iterate, Action.seq_fst]
  generalize (collect now s).1 = c at hcollect hidle ⊢
  have hqueue (hfast : cfg.fastLayerMode = true) :
      Bridge.contents c.bridge = 0 ∧ ∀ t ∈ c.pendingQueue, t.staysLocal = true :=
    hidle ▸ hcollect hfast
  rcases process_cases cfg env now c with
    ⟨-, hp⟩ | ⟨t, rest, -, -, -, hp⟩ | ⟨t, rest, s₀, effects, hq, -, hdeq, -, hp⟩
  · rw [hp]
    exact finishIteration_bypassed hqueue env now _
  · rw [hp]
    refine finishIteration_bypassed ?_ env now _
    have hbridge : (noteContention now t c).bridge = c.bridge := by
      unfold noteContention
      split <;> rfl
    rw [hbridge, (noteContention_unchanged now t c).2]
    exact hqueue
  · have hsame : s₀.bridge = c.bridge ∧ s₀.pendingQueue = rest := by
      obtain ⟨waits, target, draft, rfl⟩ := hdeq
      exact ⟨rfl, rfl⟩
    rw [← hsame.2] at hq
    rw [hp]
    exact sendTransaction_bypassed hcollect hsame.1 (hidle.trans hq) env now

/-- What an activation keeps of the transactions inside. -/
structure Keeps (cfg : Config) (s s' : State) (effects : List Effect) : Prop where
  direct : Direct cfg s'
  lane : computeLane s' = computeLane s
  held : memoryHeld s' = memoryHeld s
  locals : Local effects

/-- An iteration of the thread keeps the lane and the traffic held. -/
theorem iterate_keeps {cfg : Config} {s : State} (h : Direct cfg s) {wake : Time} {onEvent : Bool}
    (hthread : s.thread = .waiting wake onEvent) (env : Env) (now : Time) :
    Keeps cfg s (iterate cfg env now s).1 (iterate cfg env now s).2 := by
  obtain ⟨hrouted, hlane⟩ := iterate_keepsLane h.routed hthread env now
  have hmoves := iterate_moves hthread cfg env now
  exact ⟨(iterate_bypassed h.bypassed hthread env now).direct hrouted, hlane, hmoves.inside false,
    hmoves.locals⟩

theorem resume_keeps {cfg : Config} {s : State} (h : Direct cfg s) {t : Payload} {wake : Time}
    (hthread : s.thread = .switching t wake) (env : Env) (now : Time) :
    Keeps cfg s (resume cfg env now t s).1 (resume cfg env now t s).2 := by
  have hw : waiting s = t :: s.pendingQueue := by simp [waiting, hthread]
  have hbridge : ({s with pimMode := targetMode t} : State).bridge = s.bridge := rfl
  obtain ⟨hrouted, hlane⟩ := resume_keepsLane h.routed hthread env now
  have hmoves := resume_moves hthread cfg env now
  exact ⟨(handOver_bypassed h.bypassed hbridge hw env now).direct hrouted, hlane,
    hmoves.inside false, hmoves.locals⟩

/-! The edges and the callback. -/

theorem peqCb_lane {cfg : Config} {s : State} (h : Direct cfg s) (now : Time) {t : Payload}
    (ht : cfg.fastLayerMode = true → t.staysLocal = true) :
    Direct cfg (peqCb now t s).1 ∧
      computeLane (peqCb now t s).1 = computeLane s ++ [t].filter Payload.isPim ∧
      memoryHeld (peqCb now t s).1 =
        memoryHeld s + ([t].filter (fun t => t.isPim = false) : List Payload) ∧
      Local (peqCb now t s).2 := by
  refine ⟨⟨⟨h.kinds, h.noneInBridge, h.noneLocal⟩, fun hfast => ?_⟩, ?_, peqCb_inside now t s false, ?_⟩
  · rw [waiting_peqCb]
    exact List.forall_mem_append.mpr ⟨h.fits hfast, List.forall_mem_singleton.mpr (ht hfast)⟩
  · simp only [computeLane, waiting_peqCb, List.filter_append, ← List.append_assoc]
    rfl
  · simp [Local, peqCb, Effect.isLocal]

/-- The rising edge takes one request out; the NPU's are answered. -/
theorem clockPosedge_answers {s : State} (cfg : Config) (now : Time)
    (hnpu : ∀ t ∈ inside s false, t.srcId = .npu) :
    clockPosedge cfg now s = (s, []) ∨
      ∃ t, (clockPosedge cfg now s).2 = [.respond t 0] ∧
        inside s false = t ::ₘ inside (clockPosedge cfg now s).1 false ∧
        inside (clockPosedge cfg now s).1 true = inside s true := by
  have hpop := (clockPosedge_popped cfg now s).inFlight
  unfold clockPosedge at hpop ⊢
  cases hq : s.memoryCompletedQueue with
  | nil => exact .inl rfl
  | cons t rest =>
    right
    simp only [State.completedQueue, Bool.false_eq_true, if_false, hq, List.take_succ_cons,
      List.take_zero, Multiset.coe_singleton] at hpop
    have hheld : inside s false = t ::ₘ inside (clockPosedge cfg now s).1 false := by
      rw [inside, hpop, clockPosedge, hq, ← Multiset.singleton_add, add_assoc]
      rfl
    have hsrc : t.srcId = .npu := hnpu t (by rw [hheld]; exact Multiset.mem_cons_self _ _)
    refine ⟨t, by simp [hsrc], ?_, rfl⟩
    rwa [clockPosedge, hq] at hheld

/-- The rising edge leaves the lane alone. -/
theorem clockPosedge_lane (cfg : Config) (now : Time) (s : State) :
    computeLane (clockPosedge cfg now s).1 = computeLane s ∧
      (Direct cfg s → Direct cfg (clockPosedge cfg now s).1) ∧
      ∀ route, Routed cfg route s → Routed cfg route (clockPosedge cfg now s).1 := by
  unfold clockPosedge
  split
  · exact ⟨rfl, id, fun _ => id⟩
  · exact ⟨rfl, fun h => ⟨⟨h.kinds, h.noneInBridge, h.noneLocal⟩, h.fits⟩,
      fun _ h => ⟨⟨h.kinds, h.noneInBridge, h.noneLocal⟩, h.fits⟩⟩

/-- What the falling edge announces stays inside the module, but for the last command of
a stage. -/
theorem clockNegedge_effects (cfg : Config) (now : Time) {s : State} {t : Payload}
    {rest : List Payload} (hq : s.computeCompletedQueue = t :: rest) :
    ∃ effects, Local effects ∧
      (clockNegedge cfg now s).2 = effects ++ if t.last then [.pimTraceDone] else [] := by
  have hsync : Local (signalSync cfg.pimSyncMap t.layer) := by
    unfold signalSync
    split <;> simp [Local, Effect.isLocal]
  have hannounce : ∃ effects, Local effects ∧ announceLast cfg now t = effects ++ [.pimTraceDone] := by
    refine ⟨_, ?_, rfl⟩
    refine Local.append (Local.append ?_ ?_) ?_
    · split <;> simp [Local, Effect.isLocal]
    · split
      · refine Local.append ?_ (by simp [Local, Effect.isLocal])
        split <;> simp [Local, Effect.isLocal]
      · simp [Local]
    · split
      · simp [Local]
      · exact Local.append hsync (by simp [Local, Effect.isLocal])
  have hdraft : Local (if isDraft t.layer && !cfg.fastLayerMode then
      [.updateEnd t.layer .pim (toCycle now)] else []) := by
    split <;> simp [Local, Effect.isLocal]
  obtain ⟨effects, hlocal, heq⟩ := hannounce
  simp only [clockNegedge, hq]
  cases t.last with
  | false => exact ⟨_, hdraft, rfl⟩
  | true =>
    refine ⟨_, hdraft.append hlocal, ?_⟩
    simp only [if_true, heq, List.append_assoc]

/-- The falling edge takes one command out. -/
theorem clockNegedge_serves (cfg : Config) (now : Time) (s : State) :
    (s.computeCompletedQueue = [] ∧ clockNegedge cfg now s = (s, [])) ∨
      ∃ t rest effects, s.computeCompletedQueue = t :: rest ∧
        (clockNegedge cfg now s).2 = effects ++ (if t.last then [.pimTraceDone] else []) ∧
        Local effects ∧ inside s true = t ::ₘ inside (clockNegedge cfg now s).1 true ∧
        inside (clockNegedge cfg now s).1 false = inside s false := by
  have hpop := (clockNegedge_popped cfg now s).inFlight
  cases hq : s.computeCompletedQueue with
  | nil =>
    left
    simp only [clockNegedge, hq, true_and]
  | cons t rest =>
    right
    obtain ⟨effects, hlocal, heffects⟩ := clockNegedge_effects cfg now hq
    refine ⟨t, rest, effects, rfl, heffects, hlocal, ?_, ?_⟩
    · simp only [State.completedQueue, if_true, hq, List.take_succ_cons, List.take_zero,
        Multiset.coe_singleton] at hpop
      rw [inside, hpop, clockNegedge, hq, ← Multiset.singleton_add, add_assoc]
      rfl
    · simp only [clockNegedge, hq]
      rfl

/-- The falling edge serves the front of the lane. -/
theorem clockNegedge_lane (cfg : Config) (now : Time) (s : State) :
    computeLane s = s.computeCompletedQueue.take 1 ++ computeLane (clockNegedge cfg now s).1 ∧
      (Direct cfg s → Direct cfg (clockNegedge cfg now s).1) ∧
      ∀ route, Routed cfg route s → Routed cfg route (clockNegedge cfg now s).1 := by
  cases hq : s.computeCompletedQueue with
  | nil =>
    simp only [clockNegedge, hq, List.take_nil, List.nil_append]
    exact ⟨trivial, id, fun _ => id⟩
  | cons t rest =>
    simp only [clockNegedge, hq]
    refine ⟨?_, fun h => ⟨⟨h.kinds, h.noneInBridge, h.noneLocal⟩, h.fits⟩,
      fun _ h => ⟨⟨h.kinds, h.noneInBridge, h.noneLocal⟩, h.fits⟩⟩
    simp only [computeLane, engineLane, hq, List.cons_append, List.take_succ_cons, List.take_zero,
      List.nil_append]
    rfl

end PimWrapper

end Hsim
