import Hsim.Lib.Bursts
import Hsim.MemOutstanding

/-! Acknowledged writes of the host.

The host's writes are acknowledged inside the DRAM module, one at a time, in the
order in which the memory gives them back. The module counts them in one counter,
`wack_num`, which it compares with the burst size of whichever write comes back;
when the two are equal it signals the sync id of that write's layer. Channels
finish independently, so the writes of two bursts may come back mixed, and then
the counter is that of neither. -/
namespace Hsim

/-- A write of a host burst: its completion is counted. -/
def Payload.hostBurst (t : Payload) : Bool :=
  t.command == .write && t.srcId == .host && t.pimCmd != "addertree"

/-- A write of the host, of a burst or of the adder tree. -/
def Payload.writtenByHost (t : Payload) : Bool := t.command == .write && t.srcId == .host

namespace MemWrapper

open Lib

/-- The sync ids signalled to the DRAM object. -/
def signalsOf (effects : List Effect) : List UInt32 :=
  effects.filterMap fun
    | .dramSignal id => some id
    | _ => none

@[simp] theorem signalsOf_append (a b : List Effect) : signalsOf (a ++ b) = signalsOf a ++ signalsOf b :=
  List.filterMap_append

/-- What the memory gives back in the next iteration. -/
def collected (s : State) : Option Payload := (Bridge.getCompletedCommand s.bridge).1

/-- An iteration of the thread, from outside: what it was given back and what it signalled. -/
structure Turn where
  collected : Option Payload
  signals : List UInt32
  deriving DecidableEq

/-- The write of a host burst that is acknowledged. -/
def Turn.written (turn : Turn) : Option Payload := turn.collected.filter Payload.hostBurst

/-- The writes of host bursts in the order of their completion, -/
def order (turns : List Turn) : List Payload := turns.filterMap Turn.written

/-- and their layers. -/
def layers (turns : List Turn) : List String := (order turns).map (·.layer)

/-- The write of a burst signals its layer's sync id if it is the last of the burst, and
nothing else signals but the results of the adder tree. -/
structure Turn.Signals (cfg : Config) (isLast : Payload → Prop) (turn : Turn) : Prop where
  last : ∀ t, turn.written = some t → isLast t → turn.signals = (cfg.hostSyncMap t.layer).toList
  earlier : ∀ t, turn.written = some t → ¬ isLast t → turn.signals = []
  other : turn.collected.filter Payload.writtenByHost = none → turn.signals = []

/-! ### One iteration -/

/-- The writes of host bursts inside. -/
def bursts (s : State) : Multiset Payload := (held s).filter fun t => t.hostBurst = true

/-- What an operation does that neither acknowledges a write nor signals. -/
structure Quiet (s : State) (r : State × List Effect) : Prop where
  held : held r.1 = held s
  wackNum : r.1.wackNum = s.wackNum
  signals : signalsOf r.2 = []

theorem Quiet.seq {s : State} {f g : Action State} (hf : Quiet s (f s))
    (hg : Quiet (f s).1 (g (f s).1)) :
    Quiet s (f.seq g s) := by
  refine ⟨hg.held.trans hf.held, hg.wackNum.trans hf.wackNum, ?_⟩
  rw [Action.seq_snd, signalsOf_append, hf.signals, hg.signals]
  rfl

section
variable (cfg : Config) (env : Env) (now : Time) (s : State)

theorem completeFastMemoryRequests_quiet : Quiet s (completeFastMemoryRequests now s) := by
  refine ⟨?_, rfl, ?_⟩
  · rw [held, sent_completeFastMemoryRequests]
    rfl
  · rw [signalsOf, List.filterMap_eq_nil_iff]
    intro e he
    obtain ⟨x, -, he⟩ := List.mem_flatMap.mp he
    simp only [List.mem_cons, List.not_mem_nil, or_false] at he
    rcases he with rfl | rfl <;> rfl

theorem sendRequest_signals (t : Payload) : signalsOf (sendRequest cfg now t s).2 = [] ∧
    (sendRequest cfg now t s).1.wackNum = s.wackNum := by
  unfold sendRequest
  dsimp only
  split <;> exact ⟨rfl, rfl⟩

/-- The requests go from the thread's list to a back end. -/
theorem sendRequests_quiet : Quiet s (sendRequests cfg now s) := by
  obtain ⟨hwack, hsignals⟩ := sendRequests_rule cfg now s
    (fun _ s' effects => s'.wackNum = s.wackNum ∧ signalsOf effects = []) ⟨rfl, rfl⟩
    fun t _ s' effects ⟨hwack, hsignals⟩ => by
      obtain ⟨hsignals', hwack'⟩ := sendRequest_signals cfg now s' t
      refine ⟨hwack'.trans hwack, ?_⟩
      rw [signalsOf_append, hsignals, hsignals']
      rfl
  exact ⟨held_sendRequests cfg now s, hwack, hsignals⟩

theorem finishIteration_quiet : Quiet s (finishIteration cfg env now s) := by
  obtain ⟨thread, -, hfinish, heffects⟩ := finishIteration_cases (s := s) cfg env now
  refine ⟨?_, ?_, ?_⟩
  · rw [hfinish]
    exact congrArg (fun inside => _ + (_ + inside)) (contents_tick cfg env now)
  · rw [hfinish]
    rfl
  · rcases heffects with he | he <;> rw [he] <;> rfl

/-- Around the collection of a transaction nothing is acknowledged or signalled. -/
theorem iterate_around : ∃ after,
    Quiet (takeCompleted cfg now (completeFastMemoryRequests now s).1).1 after ∧
      iterate cfg env now s = (after.1, (completeFastMemoryRequests now s).2 ++
        ((takeCompleted cfg now (completeFastMemoryRequests now s).1).2 ++ after.2)) := by
  generalize hs : (takeCompleted cfg now (completeFastMemoryRequests now s).1).1 = s₂
  by_cases hfailed : s₂.thread = .failed
  · refine ⟨(s₂, []), ⟨rfl, rfl, rfl⟩, ?_⟩
    simp [iterate, Action.seq, hs, hfailed]
  · refine ⟨(sendRequests cfg now).seq (finishIteration cfg env now) s₂, ?_, ?_⟩
    · exact (sendRequests_quiet cfg now s₂).seq (finishIteration_quiet cfg env now _)
    · simp [iterate, Action.seq, hs, hfailed]

end

/-- What an acknowledgement does to the counter. -/
def nextWack (wackNum : UInt32) : Option Payload → UInt32
  | some t => if wackNum + 1 = t.bstSize then 0 else wackNum + 1
  | none => wackNum

/-- What is acknowledged, and what that does. -/
structure Acks (cfg : Config) (s : State) (r : State × List Effect) : Prop where
  signals : Turn.Signals cfg (fun t => s.wackNum + 1 = t.bstSize) ⟨collected s, signalsOf r.2⟩
  wackNum : r.1.wackNum = nextWack s.wackNum ((collected s).filter Payload.hostBurst)
  bursts : (((collected s).filter Payload.hostBurst).toList : Multiset Payload) + bursts r.1 ≤ bursts s

section
variable {cfg : Config} {s s' : State} {t : Payload}

/-- A transaction that is no write of a burst. -/
theorem Acks.of_other {effects : List Effect} (hget : collected s = some t) (ht : t.hostBurst = false)
    (hwack : s'.wackNum = s.wackNum) (hheld : held s' ≤ held s)
    (hsignals : t.writtenByHost = false → signalsOf effects = []) : Acks cfg s (s', effects) := by
  have hnone : (collected s).filter Payload.hostBurst = none := by simp [hget, ht]
  refine ⟨⟨?_, ?_, ?_⟩, ?_, ?_⟩
  · intro u hu
    rw [Turn.written, hnone] at hu
    cases hu
  · intro u hu
    rw [Turn.written, hnone] at hu
    cases hu
  · intro hother
    exact hsignals (by simpa [hget] using hother)
  · rw [hnone]
    exact hwack
  · rw [hnone, Option.toList_none, Multiset.coe_nil, zero_add]
    exact Multiset.filter_le_filter _ hheld

/-- The write of a burst. -/
theorem Acks.of_burst {effects : List Effect} (hget : collected s = some t) (ht : t.hostBurst = true)
    (hwack : s'.wackNum = if s.wackNum + 1 = t.bstSize then 0 else s.wackNum + 1)
    (hheld : held s = t ::ₘ held s')
    (hsignals : signalsOf effects =
      if s.wackNum + 1 = t.bstSize then (cfg.hostSyncMap t.layer).toList else []) :
    Acks cfg s (s', effects) := by
  have hsome : (collected s).filter Payload.hostBurst = some t := by simp [hget, ht]
  refine ⟨⟨?_, ?_, ?_⟩, ?_, ?_⟩
  · intro u hu hlast
    rw [Turn.written, hsome] at hu
    cases hu
    exact hsignals.trans (if_pos hlast)
  · intro u hu hearlier
    rw [Turn.written, hsome] at hu
    cases hu
    exact hsignals.trans (if_neg hearlier)
  · intro hother
    have hhost : t.writtenByHost = true := by
      simp only [Payload.hostBurst, Bool.and_eq_true] at ht
      simp [Payload.writtenByHost, ht.1]
    simp [hget, hhost] at hother
  · rw [hsome]
    exact hwack
  · have hfilter : MemWrapper.bursts s = t ::ₘ MemWrapper.bursts s' := by
      rw [MemWrapper.bursts, hheld]
      exact Multiset.filter_cons_of_pos _ ht
    rw [hsome, hfilter, Option.toList_some, Multiset.coe_singleton, Multiset.singleton_add]

/-- A transaction leaves the bridge, and the module. -/
theorem held_gone (h : Bridge.contents s.bridge = t ::ₘ Bridge.contents s'.bridge)
    (hbw : s'.bwQueue = s.bwQueue) (hfast : s'.fastMemoryCompletedQueue = s.fastMemoryCompletedQueue)
    (hfw : s'.fwQueue = s.fwQueue) (hrequest : s'.memRequest = s.memRequest) :
    held s = t ::ₘ held s' := by
  rw [held, sent_gone h hbw hfast, Multiset.add_cons, ← hfw, ← hrequest, held]

/-- The counter, the signal and the queues after a write of a burst. -/
theorem acknowledgeHostWrite_eq (cfg : Config) (now : Time) (t : Payload) (s : State) :
    let r := acknowledgeHostWrite cfg now t s
    (r.1.wackNum = if s.wackNum + 1 = t.bstSize then 0 else s.wackNum + 1) ∧ held r.1 = held s ∧
      signalsOf r.2 = if s.wackNum + 1 = t.bstSize then (cfg.hostSyncMap t.layer).toList else [] := by
  unfold acknowledgeHostWrite
  dsimp only
  by_cases hlast : s.wackNum + 1 = t.bstSize
  · rw [if_pos hlast, if_pos hlast, if_pos hlast]
    cases hsync : cfg.hostSyncMap t.layer with
    | none => exact ⟨rfl, rfl, rfl⟩
    | some id => exact ⟨rfl, rfl, rfl⟩
  · rw [if_neg hlast, if_neg hlast, if_neg hlast]
    exact ⟨rfl, rfl, rfl⟩

theorem takeCompleted_acks (cfg : Config) (now : Time) (s : State) :
    Acks cfg s (takeCompleted cfg now s) := by
  have hback := Bridge.contents_getCompletedCommand s.bridge
  obtain ⟨got, bridge, hget⟩ : ∃ got bridge, Bridge.getCompletedCommand s.bridge = (got, bridge) :=
    ⟨_, _, rfl⟩
  have hcollected : collected s = got := congrArg Prod.fst hget
  rw [hget] at hback
  unfold takeCompleted
  rw [hget]
  cases got with
  | none =>
    have hnone : ∀ u, Turn.written ⟨collected s, []⟩ ≠ some u := by simp [Turn.written, hcollected]
    refine ⟨⟨fun u hu => absurd hu (hnone u), fun u hu => absurd hu (hnone u), fun _ => rfl⟩, ?_, ?_⟩
    · rw [hcollected]
      rfl
    · simp [hcollected]
  | some t =>
    rw [Option.toList_some, Multiset.coe_singleton, Multiset.singleton_add] at hback
    have hanswered : held {s with bridge := bridge, bwQueue := s.bwQueue ++ [t]} ≤ held s :=
      le_of_eq (congrArg (_ + ·) (sent_answered hback))
    have hgone : held s = t ::ₘ held {s with bridge := bridge} := held_gone hback rfl rfl rfl rfl
    have hdropped : held {s with bridge := bridge} ≤ held s := by
      rw [hgone]
      exact Multiset.le_cons_self _ _
    dsimp only
    split
    · next hread =>
      exact Acks.of_other hcollected (by simp [Payload.hostBurst, hread]) rfl hanswered fun _ => rfl
    · split
      · next hwrite =>
        split
        · next hadder =>
          have hhost : t.writtenByHost = true := by simp [Payload.writtenByHost, hwrite, hadder.1]
          have hburst : t.hostBurst = false := by simp [Payload.hostBurst, hadder.2]
          refine Acks.of_other hcollected hburst rfl hdropped fun hother => ?_
          rw [hhost] at hother
          cases hother
        · next hadder =>
          split
          · next hhost =>
            obtain ⟨hwack, hheld, hsignals⟩ :=
              acknowledgeHostWrite_eq cfg now t {s with bridge := bridge}
            have hcmd : t.pimCmd ≠ "addertree" := fun hcmd => hadder ⟨hhost, hcmd⟩
            have hburst : t.hostBurst = true := by simp [Payload.hostBurst, hwrite, hhost, hcmd]
            refine Acks.of_burst hcollected hburst hwack ?_ hsignals
            rw [hheld]
            exact hgone
          · next hhost =>
            have hother : t.hostBurst = false := by simp [Payload.hostBurst, hhost]
            split
            · exact Acks.of_other hcollected hother rfl hanswered fun _ => rfl
            · exact Acks.of_other hcollected hother rfl hdropped fun _ => rfl
      · next hwrite =>
        exact Acks.of_other hcollected (by simp [Payload.hostBurst, hwrite]) rfl hdropped fun _ => rfl

end

/-- What an iteration acknowledges. -/
theorem iterate_acks (cfg : Config) (env : Env) (now : Time) (s : State) :
    Acks cfg s (iterate cfg env now s) := by
  obtain ⟨hheld₁, hwack₁, hsignals₁⟩ := completeFastMemoryRequests_quiet now s
  obtain ⟨hsignals₂, hwack₂, hbursts₂⟩ := takeCompleted_acks cfg now (completeFastMemoryRequests now s).1
  obtain ⟨after, ⟨hheld₃, hwack₃, hsignals₃⟩, hiterate⟩ := iterate_around cfg env now s
  have hcollected : collected (completeFastMemoryRequests now s).1 = collected s := rfl
  rw [hcollected] at hsignals₂ hwack₂ hbursts₂
  rw [hwack₁] at hsignals₂ hwack₂
  rw [hiterate]
  refine ⟨?_, hwack₃.trans hwack₂, ?_⟩
  · rw [signalsOf_append, signalsOf_append, hsignals₁, hsignals₃, List.append_nil, List.nil_append]
    exact hsignals₂
  · simp only [bursts] at hbursts₂ ⊢
    rw [hheld₃, ← hheld₁]
    exact hbursts₂

/-! ### Runs -/

/-- What can happen to the module. -/
inductive Move where
  | arrive (now : Time) (t : Payload)
  | clockPosedge
  | clockNegedge
  | iterate (env : Env) (now : Time)

/-- The module, and the iterations of its thread so far. -/
structure Record where
  mem : State := {}
  turns : List Turn := []

/-- The thread runs only where it waits. -/
def Record.play (cfg : Config) (r : Record) : Move → Record
  | .arrive now t => {r with mem := (peqCb now t r.mem).1}
  | .clockPosedge => {r with mem := MemWrapper.clockPosedge r.mem}
  | .clockNegedge => {r with mem := (MemWrapper.clockNegedge r.mem).1}
  | .iterate env now =>
    match r.mem.thread with
    | .waiting _ _ => {
      mem := (MemWrapper.iterate cfg env now r.mem).1
      turns := r.turns ++ [⟨collected r.mem, signalsOf (MemWrapper.iterate cfg env now r.mem).2⟩]}
    | _ => r

/-- A run from the idle module. -/
def record (cfg : Config) (moves : List Move) : Record := moves.foldl (Record.play cfg) {}

/-- What is delivered to the module in a run. -/
def arrivals (moves : List Move) : List Payload :=
  moves.filterMap fun
    | .arrive _ t => some t
    | _ => none

/-- The writes of bursts among them. -/
def burstArrivals (moves : List Move) : List Payload := (arrivals moves).filter Payload.hostBurst

theorem record_append_singleton (cfg : Config) (moves : List Move) (m : Move) :
    record cfg (moves ++ [m]) = (record cfg moves).play cfg m := by
  rw [record, List.foldl_append]
  rfl

theorem burstArrivals_append (a b : List Move) :
    burstArrivals (a ++ b) = burstArrivals a ++ burstArrivals b := by
  rw [burstArrivals, arrivals, List.filterMap_append, List.filter_append]
  rfl

theorem order_append_singleton (turns : List Turn) (turn : Turn) :
    order (turns ++ [turn]) = order turns ++ turn.written.toList := by
  rw [order, List.filterMap_append]
  cases hturn : turn.written <;> simp [order, hturn]

/-- What a move does to the counter, the account of the turns and the bursts inside. -/
inductive Played (cfg : Config) (r r' : Record) (m : Move) : Prop where
  | still : r'.turns = r.turns → r'.mem.wackNum = r.mem.wackNum →
    bursts r'.mem ≤ bursts r.mem + (burstArrivals [m] : Multiset Payload) → Played cfg r r' m
  | turned (turn : Turn) : r'.turns = r.turns ++ [turn] →
    turn.Signals cfg (fun t => r.mem.wackNum + 1 = t.bstSize) →
    r'.mem.wackNum = nextWack r.mem.wackNum turn.written →
    (turn.written.toList : Multiset Payload) + bursts r'.mem ≤ bursts r.mem → Played cfg r r' m

theorem play_played (cfg : Config) (r : Record) (m : Move) : Played cfg r (r.play cfg m) m := by
  cases m with
  | arrive now t =>
    refine .still rfl rfl ?_
    show (held (peqCb now t r.mem).1).filter (fun t => t.hostBurst = true) ≤ _
    rw [held_peqCb, ← Multiset.singleton_add, Multiset.filter_add, add_comm]
    refine add_le_add le_rfl (le_of_eq ?_)
    cases ht : t.hostBurst <;> simp [burstArrivals, arrivals, ht, Multiset.filter_singleton]
  | clockPosedge =>
    have hwack : (MemWrapper.clockPosedge r.mem).wackNum = r.mem.wackNum ∧
        sent (MemWrapper.clockPosedge r.mem) = sent r.mem := by
      unfold MemWrapper.clockPosedge
      split <;> exact ⟨rfl, rfl⟩
    refine .still rfl hwack.1 ?_
    show (held (MemWrapper.clockPosedge r.mem)).filter _ ≤ _
    rw [held, clockPosedge_perm, hwack.2]
    exact Multiset.le_add_right _ _
  | clockNegedge =>
    have hheld : (MemWrapper.clockNegedge r.mem).1.wackNum = r.mem.wackNum ∧
        held (MemWrapper.clockNegedge r.mem).1 ≤ held r.mem := by
      unfold MemWrapper.clockNegedge
      cases hq : r.mem.bwQueue with
      | nil => exact ⟨rfl, le_rfl⟩
      | cons t rest =>
        refine ⟨rfl, ?_⟩
        simp only [held, sent, hq, ← Multiset.cons_coe, Multiset.cons_add, Multiset.add_cons]
        exact Multiset.le_cons_self _ _
    exact .still rfl hheld.1 ((Multiset.filter_le_filter _ hheld.2).trans (Multiset.le_add_right _ _))
  | iterate env now =>
    have hacks := iterate_acks cfg env now r.mem
    have hstays : r.play cfg (.iterate env now) = r →
        Played cfg r (r.play cfg (.iterate env now)) (.iterate env now) := by
      intro hplay
      rw [hplay]
      exact .still rfl rfl (Multiset.le_add_right _ _)
    cases hthread : r.mem.thread with
    | waiting wake onEvent =>
      have hplay : r.play cfg (.iterate env now) = {
          mem := (MemWrapper.iterate cfg env now r.mem).1
          turns := r.turns ++ [⟨collected r.mem, signalsOf (MemWrapper.iterate cfg env now r.mem).2⟩]} := by
        simp only [Record.play, hthread]
      rw [hplay]
      exact .turned _ rfl hacks.signals hacks.wackNum hacks.bursts
    | exited => exact hstays (by simp only [Record.play, hthread])
    | failed => exact hstays (by simp only [Record.play, hthread])

/-- The writes of bursts that have come back, and those inside, have been delivered. -/
theorem record_bursts (cfg : Config) (moves : List Move) :
    (order (record cfg moves).turns : Multiset Payload) + bursts (record cfg moves).mem ≤
      (burstArrivals moves : Multiset Payload) := by
  induction moves using List.reverseRecOn with
  | nil => simp [record, order, bursts, held, sent, burstArrivals, arrivals]
  | append_singleton moves m ih =>
    rw [record_append_singleton, burstArrivals_append, ← Multiset.coe_add]
    cases play_played cfg (record cfg moves) m with
    | still hturns _ hbursts =>
      rw [hturns]
      calc _ ≤ (order (record cfg moves).turns : Multiset Payload) +
            (bursts (record cfg moves).mem + (burstArrivals [m] : Multiset Payload)) :=
            add_le_add le_rfl hbursts
        _ ≤ _ := by
          rw [← add_assoc]
          exact add_le_add ih le_rfl
    | turned turn hturns _ _ hbursts =>
      rw [hturns, order_append_singleton, ← Multiset.coe_add, add_assoc]
      exact ((add_le_add le_rfl hbursts).trans ih).trans (Multiset.le_add_right _ _)

/-! ### The counter against the bursts -/

section
variable {cfg : Config} {size : String → UInt32}

/-- The counter is full for the next write. -/
def Full (size : String → UInt32) (done : List String) (t : Payload) : Prop :=
  (Bursts.counter (2 ^ 32) (fun layer => (size layer).toNat) done + 1) % 2 ^ 32 = (size t.layer).toNat

/-- The next write is the last of its burst. -/
def LastOfBurst (size : String → UInt32) (done : List String) (t : Payload) : Prop :=
  done.count t.layer + 1 = (size t.layer).toNat

/-- Every turn signals what it should, given when a write counts as a burst's last. -/
def AllSignal (cfg : Config) (isLast : List String → Payload → Prop) (turns : List Turn) : Prop :=
  ∀ (before : List Turn) (turn : Turn) (after : List Turn), before ++ turn :: after = turns →
    turn.Signals cfg (isLast (layers before))

theorem Turn.Signals.congr {turn : Turn} {p q : Payload → Prop} (h : turn.Signals cfg p)
    (hpq : ∀ t, turn.written = some t → (q t ↔ p t)) : turn.Signals cfg q :=
  ⟨fun t ht hlast => h.last t ht ((hpq t ht).mp hlast),
    fun t ht hearlier => h.earlier t ht fun hlast => hearlier ((hpq t ht).mpr hlast), h.other⟩

/-- What the code does in every run: a write signals when the counter is full. -/
structure Told (cfg : Config) (size : String → UInt32) (r : Record) : Prop where
  wackNum : r.mem.wackNum.toNat =
    Bursts.counter (2 ^ 32) (fun layer => (size layer).toNat) (layers r.turns)
  turns : AllSignal cfg (Full size) r.turns

theorem toNat_nextWack (n : UInt32) {t : Payload} (hsize : t.bstSize = size t.layer) :
    (nextWack n (some t)).toNat =
      Bursts.next (2 ^ 32) (fun layer => (size layer).toNat) n.toNat t.layer ∧
    (n + 1 = t.bstSize ↔ (n.toNat + 1) % 2 ^ 32 = (size t.layer).toNat) := by
  have hone : (1 : UInt32).toNat = 1 := rfl
  have hiff : n + 1 = t.bstSize ↔ (n.toNat + 1) % 2 ^ 32 = (size t.layer).toNat := by
    rw [hsize, ← UInt32.toNat_inj, UInt32.toNat_add, hone]
  refine ⟨?_, hiff⟩
  rw [nextWack, Bursts.next]
  by_cases hfull : n + 1 = t.bstSize
  · rw [if_pos hfull, if_pos (hiff.mp hfull)]
    rfl
  · rw [if_neg hfull, if_neg (mt hiff.mpr hfull), UInt32.toNat_add, hone]

theorem record_told (moves : List Move)
    (hsize : ∀ t ∈ order (record cfg moves).turns, t.bstSize = size t.layer) :
    Told cfg size (record cfg moves) := by
  induction moves using List.reverseRecOn with
  | nil => exact ⟨rfl, fun before turn after h => by simp [record] at h⟩
  | append_singleton moves m ih =>
    rw [record_append_singleton] at hsize ⊢
    cases play_played cfg (record cfg moves) m with
    | still hturns hwack _ =>
      rw [hturns] at hsize
      obtain ⟨hcounter, hall⟩ := ih hsize
      exact ⟨by rw [hwack, hturns, hcounter], by rw [hturns]; exact hall⟩
    | turned turn hturns hsignals hwack _ =>
      rw [hturns, order_append_singleton] at hsize
      obtain ⟨hcounter, hall⟩ := ih fun t ht => hsize t (List.mem_append_left _ ht)
      have hturn : ∀ t, turn.written = some t → t.bstSize = size t.layer := by
        intro t ht
        exact hsize t (List.mem_append_right _ (by simp [ht]))
      refine ⟨?_, ?_⟩
      · rw [hwack, hturns, layers, order_append_singleton]
        cases hwritten : turn.written with
        | none =>
          rw [Option.toList_none, List.append_nil]
          exact hcounter
        | some t =>
          rw [(toNat_nextWack _ (hturn t hwritten)).1, Option.toList_some, List.map_append,
            List.map_singleton, Bursts.counter_append_singleton, hcounter]
          rfl
      · intro before turn' after hsplit
        rw [hturns] at hsplit
        rcases Bursts.split_append_singleton hsplit with ⟨rfl, rfl, -⟩ | ⟨after', -, hsplit'⟩
        · refine hsignals.congr fun t ht => ?_
          rw [(toNat_nextWack _ (hturn t ht)).2, hcounter]
          exact Iff.rfl
        · exact hall before turn' after' hsplit'

/-- The layers around a turn that acknowledges a write. -/
theorem layers_split {before after : List Turn} {turn : Turn} {t : Payload}
    (ht : turn.written = some t) :
    layers (before ++ turn :: after) = layers before ++ t.layer :: layers after := by
  simp [layers, order, ht]

/-- Each layer has a turn. -/
theorem exists_turn {turns : List Turn} {p rest : List String} {layer : String}
    (h : p ++ layer :: rest = layers turns) : ∃ before turn after t,
      before ++ turn :: after = turns ∧ layers before = p ∧ turn.written = some t ∧ t.layer = layer := by
  obtain ⟨done, later, horder, hdone, hlater⟩ := List.map_eq_append_iff.mp h.symm
  obtain ⟨t, later, rfl, ht, -⟩ := List.map_eq_cons_iff.mp hlater
  obtain ⟨before, rest', rfl, hbefore, hrest⟩ := List.filterMap_eq_append_iff.mp horder
  obtain ⟨quiet, turn, after, rfl, hquiet, hturn, -⟩ := List.filterMap_eq_cons_iff.mp hrest
  refine ⟨before ++ quiet, turn, after, t, by simp, ?_, hturn, ht⟩
  have hnone : quiet.filterMap Turn.written = [] := List.filterMap_eq_nil_iff.mpr hquiet
  rw [layers, order, List.filterMap_append, hnone, List.append_nil, hbefore, hdone]

/-- The bursts of a run, by their layers: every write carries its burst's size, and a burst has no more
writes. -/
structure OfBursts (size : String → UInt32) (moves : List Move) : Prop where
  sized : ∀ t ∈ burstArrivals moves, t.bstSize = size t.layer
  fits : ∀ t ∈ burstArrivals moves,
    ((burstArrivals moves).map (·.layer)).count t.layer ≤ (size t.layer).toNat

/-- All writes of every burst have come back, and every burst has a sync id. -/
structure Complete (cfg : Config) (size : String → UInt32) (turns : List Turn) : Prop where
  count : ∀ layer ∈ layers turns, (layers turns).count layer = (size layer).toNat
  synced : ∀ layer ∈ layers turns, (cfg.hostSyncMap layer).isSome
  few : (layers turns).length < 2 ^ 32

section
variable {moves : List Move} (h : OfBursts size moves)
include h

/-- What comes back is what was delivered. -/
theorem OfBursts.returned (cfg : Config) :
    (∀ t ∈ order (record cfg moves).turns, t.bstSize = size t.layer) ∧
      ∀ layer ∈ layers (record cfg moves).turns,
        (layers (record cfg moves).turns).count layer ≤ (size layer).toNat := by
  have hle := (Multiset.le_add_right _ _).trans (record_bursts cfg moves)
  have hmem : ∀ t ∈ order (record cfg moves).turns, t ∈ burstArrivals moves :=
    fun t ht => Multiset.mem_of_le hle ht
  refine ⟨fun t ht => h.sized t (hmem t ht), fun layer hlayer => ?_⟩
  obtain ⟨t, ht, rfl⟩ := List.mem_map.mp hlayer
  have hcount := Multiset.count_le_of_le t.layer (Multiset.map_le_map (f := (·.layer)) hle)
  rw [Multiset.map_coe, Multiset.map_coe, Multiset.coe_count, Multiset.coe_count] at hcount
  exact hcount.trans (h.fits t (hmem t ht))

/-- The counter is full where the burst ends. -/
theorem OfBursts.signals_of_tells
    (htells : Bursts.Tells (2 ^ 32) (fun layer => (size layer).toNat)
      (layers (record cfg moves).turns)) :
    AllSignal cfg (LastOfBurst size) (record cfg moves).turns := by
  intro before turn after hsplit
  refine ((record_told moves (h.returned cfg).1).turns before turn after hsplit).congr fun t ht => ?_
  exact (htells (layers before) t.layer (layers after) (by rw [← hsplit, layers_split ht])).symm

/-- A turn signals an id or none, so that the counter can be read off it. -/
theorem OfBursts.tells_of_signals
    (hsynced : ∀ layer ∈ layers (record cfg moves).turns, (cfg.hostSyncMap layer).isSome)
    (hall : AllSignal cfg (LastOfBurst size) (record cfg moves).turns) :
    Bursts.Tells (2 ^ 32) (fun layer => (size layer).toNat) (layers (record cfg moves).turns) := by
  intro p layer rest hp
  obtain ⟨before, turn, after, t, hsplit, rfl, ht, rfl⟩ := exists_turn hp
  have htold := (record_told moves (h.returned cfg).1).turns before turn after hsplit
  have hsignals := hall before turn after hsplit
  obtain ⟨id, hid⟩ := Option.isSome_iff_exists.mp (hsynced t.layer (by simp [← hp]))
  constructor
  · intro hfull
    by_contra hearlier
    have hone := htold.last t ht hfull
    rw [hsignals.earlier t ht hearlier, hid] at hone
    cases hone
  · intro hlast
    by_contra hempty
    have hone := hsignals.last t ht hlast
    rw [htold.earlier t ht hempty, hid] at hone
    cases hone

/-- **A layer's sync id is signalled with the last write of its burst and at no other time, in
every run in which no burst's write comes back among those of another**; once all bursts are
complete, in no other run. -/
theorem hostBursts_signalled (cfg : Config) :
    (Bursts.Unmixed (fun layer => (size layer).toNat) (layers (record cfg moves).turns) →
      AllSignal cfg (LastOfBurst size) (record cfg moves).turns) ∧
    (Complete cfg size (record cfg moves).turns →
      AllSignal cfg (LastOfBurst size) (record cfg moves).turns →
      Bursts.Unmixed (fun layer => (size layer).toNat) (layers (record cfg moves).turns)) := by
  constructor
  · intro hunmixed
    have haccount := Bursts.account_of_unmixed (w := 2 ^ 32) (fun layer _ => (size layer).toNat_lt)
      (h.returned cfg).2 hunmixed
    exact h.signals_of_tells haccount.tells
  · intro hcomplete hall
    have htells := h.tells_of_signals hcomplete.synced hall
    exact Bursts.unmixed_of_tells hcomplete.count hcomplete.few htells

end

/-- Two channels, and two layers the host waits for. -/
def twoLayers : Config := {twoChannels with
  hostSyncMap := fun layer => if layer = "q" then some 5 else if layer = "k" then some 6 else none
  memorySystem := ⟨2, fun addr => if addr < 128 then 0 else 1⟩}

/-- A write of a burst of two. -/
def writeOfTwo (layer : String) (address : UInt64) : Payload := {
  ptr := 3, command := .write, address := address, srcId := .host, dstId := .dram, dataLength := 64,
  bstSize := 2, layer := layer}

/-- Two bursts of two writes, each on a channel of its own, come back in the given order. -/
def twoBursts (calls : List (Bool × UInt64)) : List Move :=
  [.arrive 0 (writeOfTwo "q" 0), .arrive 0 (writeOfTwo "q" 64), .arrive 0 (writeOfTwo "k" 128),
    .arrive 0 (writeOfTwo "k" 192), .clockPosedge, .clockPosedge, .clockPosedge, .clockPosedge,
    .iterate {answers := {accepts := fun _ => true}} 0,
    .iterate {answers := {accepts := fun _ => true}} 1000,
    .iterate {answers := {callbacks := calls}} 2000,
    .iterate {} 3000, .iterate {} 4000, .iterate {} 5000, .iterate {} 6000]

theorem twoBursts_ofBursts (calls : List (Bool × UInt64)) : OfBursts (fun _ => 2) (twoBursts calls) := by
  have harrivals : burstArrivals (twoBursts calls) = [writeOfTwo "q" 0, writeOfTwo "q" 64,
      writeOfTwo "k" 128, writeOfTwo "k" 192] := rfl
  constructor <;> rw [harrivals] <;> decide +kernel

/-- One channel after the other. -/
theorem hostBursts_signalled_inTurn :
    let turns := (record twoLayers (twoBursts [(true, 0), (true, 64), (true, 128), (true, 192)])).turns
    layers turns = ["q", "q", "k", "k"] ∧ AllSignal twoLayers (LastOfBurst fun _ => 2) turns := by
  have hlayers : layers (record twoLayers (twoBursts [(true, 0), (true, 64), (true, 128), (true, 192)])).turns =
      [] ++ List.replicate 2 "q" ++ List.replicate 2 "k" := by decide +kernel
  refine ⟨hlayers, (hostBursts_signalled (twoBursts_ofBursts _) twoLayers).1 ?_⟩
  rw [hlayers]
  have hfirst : Bursts.Unmixed (fun _ => 2) ([] ++ List.replicate 2 "q") :=
    Bursts.unmixed_append_replicate Bursts.unmixed_nil (by simp) 2
  exact Bursts.unmixed_append_replicate hfirst (by decide +kernel) 2

/-- The channels in turn: the second layer is signalled twice, the first time with its first
write, and the first layer never. -/
theorem hostBursts_mixed :
    OfBursts (fun _ => 2) (twoBursts [(true, 0), (true, 128), (true, 64), (true, 192)]) ∧
    ¬ AllSignal twoLayers (LastOfBurst fun _ => 2)
      (record twoLayers (twoBursts [(true, 0), (true, 128), (true, 64), (true, 192)])).turns := by
  have hturns : (record twoLayers (twoBursts [(true, 0), (true, 128), (true, 64), (true, 192)])).turns =
      [⟨none, []⟩, ⟨none, []⟩, ⟨none, []⟩, ⟨some (writeOfTwo "q" 0), []⟩] ++
        ⟨some (writeOfTwo "k" 128), [6]⟩ ::
          [⟨some (writeOfTwo "q" 64), []⟩, ⟨some (writeOfTwo "k" 192), [6]⟩] := by decide +kernel
  refine ⟨twoBursts_ofBursts _, fun hall => ?_⟩
  have hfirst : ¬ LastOfBurst (fun _ => 2) ["q"] (writeOfTwo "k" 128) := by
    unfold LastOfBurst
    decide +kernel
  have hquiet := (hall _ _ _ hturns.symm).earlier (writeOfTwo "k" 128) rfl hfirst
  cases hquiet

end

end MemWrapper

end Hsim
