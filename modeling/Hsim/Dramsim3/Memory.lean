import Hsim.Dramsim3.Total
import Hsim.Lib.History

/-! A controller as a memory.

The simulator moves no data. With the data beside it (a cell for each address, a buffer
for the write that is pending, a number for each read) a controller answers every read
with what the last write to its address before it has written (`run_answers`): that a
read is answered from a pending write, that a later read joins a pending one, and that
the queues reorder the commands cannot be seen. -/
namespace Hsim.Dramsim3

open Lib (Request Answer contents readsOf)

/-- The data beside a controller. -/
structure Data (V : Type) where
  cells : UInt64 → V
  /-- The value of the pending write. -/
  buffer : UInt64 → V
  /-- The reads that wait for a command, with their numbers. -/
  waiting : List (UInt64 × Nat) := []
  served : List (Nat × V) := []
  /-- What has been accepted. -/
  requests : List (Request UInt64 V) := []

namespace Data
variable {V : Type} (d : Data V)

def start (init : UInt64 → V) : Data V where
  cells := init
  buffer := init

/-- A request that the controller accepts. -/
def accept (c : Controller) : Request UInt64 V → Data V
  | .read addr =>
    let n := d.requests.length
    if Controller.pending c.pendingWrQ addr then {d with
      served := d.served ++ [(n, d.buffer addr)]
      requests := d.requests ++ [.read addr]}
    else {d with
      waiting := d.waiting ++ [(addr, n)]
      requests := d.requests ++ [.read addr]}
  | .write addr value =>
    {d with
      buffer := Function.update d.buffer addr value
      requests := d.requests ++ [.write addr value]}

/-- A command that reaches the banks. -/
def command (cmd : Command) : Data V :=
  if cmd.isRead then
    {d with
      waiting := d.waiting.filter fun w => w.1 ≠ cmd.hexAddr
      served := d.served ++ (d.waiting.filter fun w => w.1 = cmd.hexAddr).map fun w => (w.2, d.cells w.1)}
  else if cmd.isWrite then
    {d with cells := Function.update d.cells cmd.hexAddr (d.buffer cmd.hexAddr)}
  else d

/-- All commands of a stretch of the trace. -/
def follow (trace : List (Nat × Command)) : Data V := trace.foldl (fun d e => d.command e.2) d

end Data

/-- What happens to a controller, with the values of the writes. -/
inductive DataEvent (V : Type) where
  | request (r : Request UInt64 V)
  | collect (clk : Nat)
  | tick

/-- What the controller is told of it. -/
def DataEvent.event {V : Type} : DataEvent V → Controller.Event
  | .request (.read addr) => .add addr false
  | .request (.write addr _) => .add addr true
  | .collect clk => .collect clk
  | .tick => .tick

namespace Controller
variable {V : Type} (cfg : Config)

/-- A step of a controller with its data. -/
def stepData (c : Controller) (d : Data V) : DataEvent V → Except Abort (Controller × Data V)
  | .request (.read addr) => do
    let c' ← c.step cfg (.add addr false)
    return (c', if c.willAcceptTransaction cfg false then d.accept c (.read addr) else d)
  | .request (.write addr value) => do
    let c' ← c.step cfg (.add addr true)
    return (c', if c.willAcceptTransaction cfg true then d.accept c (.write addr value) else d)
  | .collect clk => do
    let c' ← c.step cfg (.collect clk)
    return (c', d)
  | .tick => do
    let c' ← c.step cfg .tick
    return (c', d.follow (c'.cmdTrace.drop c.cmdTrace.length))

def runData (c : Controller) (d : Data V) : List (DataEvent V) → Except Abort (Controller × Data V)
  | [] => .ok (c, d)
  | e :: rest => do
    let (c, d) ← c.stepData cfg d e
    c.runData d rest

/-- The data and what the requests so far ask for. -/
structure Agrees (cfg : Config) (init : UInt64 → V) (c : Controller) (d : Data V) : Prop where
  lineup : Lineup cfg c
  waiting : d.waiting.map Prod.fst = c.pendingRdQ.map Transaction.addr
  cells : ∀ addr, pending c.pendingWrQ addr = false → d.cells addr = contents init d.requests addr
  buffer : ∀ addr, pending c.pendingWrQ addr = true → d.buffer addr = contents init d.requests addr
  reads : ∀ w ∈ d.waiting, Answer init d.requests w.2 w.1 (d.cells w.1)
  served : ∀ s ∈ d.served, ∃ addr, Answer init d.requests s.1 addr s.2
  each : (d.served.map Prod.fst ++ d.waiting.map Prod.snd).Perm (readsOf d.requests)

variable {cfg : Config} {init : UInt64 → V} {c c' : Controller} {d : Data V}

theorem stepData_ok {e : DataEvent V} (h : c.step cfg e.event = .ok c') :
    ∃ d', c.stepData cfg d e = .ok (c', d') := by
  unfold DataEvent.event at h
  unfold stepData
  split at h <;> rw [h] <;> exact ⟨_, rfl⟩

/-- The data does not disturb the controller. -/
theorem runData_ok {events : List (DataEvent V)}
    (h : c.run cfg (events.map DataEvent.event) = .ok c') :
    ∃ d', c.runData cfg d events = .ok (c', d') := by
  induction events generalizing c d with
  | nil =>
    cases h
    exact ⟨d, rfl⟩
  | cons e rest ih =>
    obtain ⟨c₁, hstep, hrest⟩ := ok_of_bind h
    obtain ⟨d₁, hstepData⟩ := stepData_ok (d := d) hstep
    obtain ⟨d', hrunData⟩ := ih (d := d₁) hrest
    refine ⟨d', ?_⟩
    rw [runData, hstepData]
    exact hrunData

theorem agrees_start (cfg : Config) (init : UInt64 → V) : Agrees cfg init {} (Data.start init) :=
  ⟨lineup_start cfg, rfl, fun _ _ => rfl, by simp [pending], by simp [Data.start],
  by simp [Data.start], .refl _⟩

/-- What the data depends on. -/
theorem Agrees.of_eq (h : Agrees cfg init c d) (hlineup : Lineup cfg c')
    (hrd : c'.pendingRdQ = c.pendingRdQ) (hwr : c'.pendingWrQ = c.pendingWrQ) :
    Agrees cfg init c' d where
  lineup := hlineup
  waiting := hrd ▸ h.waiting
  cells := hwr ▸ h.cells
  buffer := hwr ▸ h.buffer
  reads := h.reads
  served := h.served
  each := h.each

/-- A read takes with it all that wait for its address. -/
theorem perm_filter (waiting : List (UInt64 × Nat)) (addr : UInt64) :
    ((waiting.filter fun w => w.1 = addr).map Prod.snd ++ (waiting.filter fun w => w.1 ≠ addr).map
    Prod.snd).Perm
      (waiting.map Prod.snd) := by
  rw [← List.map_append]
  refine List.Perm.map _ ?_
  have hsplit := List.filter_append_perm (fun w : UInt64 × Nat => decide (w.1 = addr)) waiting
  simpa using hsplit

theorem Agrees.read (h : Agrees cfg init c d) {cmd : Command} {c₀ : Controller}
    (hread : cmd.isRead = true) (hissues : Issues cfg c₀ cmd c') (hrd : c₀.pendingRdQ = c.pendingRdQ)
    (hwr : c₀.pendingWrQ = c.pendingWrQ) (hlineup : Lineup cfg c') :
    Agrees cfg init c' (d.command cmd) := by
  have hdata : d.command cmd = {d with
      waiting := d.waiting.filter fun w => w.1 ≠ cmd.hexAddr
      served := d.served ++
        (d.waiting.filter fun w => w.1 = cmd.hexAddr).map fun w => (w.2, d.cells w.1)} := if_pos hread
  have hwr' : c'.pendingWrQ = c.pendingWrQ := by
    rw [hissues.noWrite (Command.isWrite_of_isRead hread), hwr]
  have hrd' : c'.pendingRdQ = c.pendingRdQ.filter fun t => t.addr ≠ cmd.hexAddr := by
    rw [(hissues.read hread).2.1, hrd]
  rw [hdata]
  refine ⟨hlineup, ?_, hwr' ▸ h.cells, hwr' ▸ h.buffer, ?_, ?_, ?_⟩
  · rw [hrd']
    have hboth : (d.waiting.map Prod.fst).filter (fun a => a ≠ cmd.hexAddr) =
        (c.pendingRdQ.map Transaction.addr).filter fun a => a ≠ cmd.hexAddr := by rw [h.waiting]
    rw [List.filter_map, List.filter_map] at hboth
    exact hboth
  · intro w hw
    exact h.reads w (List.mem_of_mem_filter hw)
  · intro s hs
    rcases List.mem_append.mp hs with hs | hs
    · exact h.served s hs
    · obtain ⟨w, hw, rfl⟩ := List.mem_map.mp hs
      exact ⟨w.1, h.reads w (List.mem_of_mem_filter hw)⟩
  · rw [List.map_append, List.map_map, List.append_assoc]
    exact ((perm_filter d.waiting cmd.hexAddr).append_left _).trans h.each

/-- A write finds no read of its address waiting. -/
theorem Agrees.write (h : Agrees cfg init c d) {t : Transaction} {before after : List Command}
    {c₀ : Controller}
    (hfirst : First cfg c t before after) (hwrite : t.isWrite = true)
    (hissues : Issues cfg c₀ (transToCommand cfg t) c') (hrd : c₀.pendingRdQ = c.pendingRdQ)
    (hwr : c₀.pendingWrQ = c.pendingWrQ) (hlineup : Lineup cfg c') :
    Agrees cfg init c' (d.command (transToCommand cfg t)) := by
  obtain ⟨-, howed⟩ := owed_head hfirst.owed.symm
  obtain ⟨hnoRead, hpending, -⟩ := howed hwrite
  have hdata : d.command (transToCommand cfg t) = {d with
      cells := Function.update d.cells t.addr (d.buffer t.addr)} := by
    simp [Data.command, hwrite]
  have hrd' : c'.pendingRdQ = c.pendingRdQ := by rw [(hissues.noRead (by simp [hwrite])).1, hrd]
  have hwr' : c'.pendingWrQ = c.pendingWrQ.eraseP fun s => s.addr == t.addr := by
    rw [(hissues.write (by simp [hwrite])).2, hwr, transToCommand_hexAddr]
  rw [hdata]
  refine ⟨hlineup, hrd' ▸ h.waiting, ?_, ?_, ?_, h.served, h.each⟩
  · intro addr haddr
    by_cases hsame : addr = t.addr
    · subst hsame
      exact (Function.update_self t.addr _ _).trans (h.buffer t.addr hpending)
    · rw [hwr', pending_eraseP_of_ne hsame] at haddr
      exact (Function.update_of_ne hsame _ _).trans (h.cells addr haddr)
  · intro addr haddr
    rw [hwr'] at haddr
    by_cases hsame : addr = t.addr
    · subst hsame
      rw [pending_eraseP_self h.lineup.once] at haddr
      cases haddr
    · rw [pending_eraseP_of_ne hsame] at haddr
      exact h.buffer addr haddr
  · intro w hw
    have hne : w.1 ≠ t.addr := by
      intro hsame
      rw [Bool.eq_false_iff, Ne, pending_iff, ← h.waiting, ← hsame] at hnoRead
      exact hnoRead (List.mem_map_of_mem hw)
    show Answer init d.requests w.2 w.1 (Function.update d.cells t.addr _ w.1)
    rw [Function.update_of_ne hne]
    exact h.reads w hw

/-- A command that is not an access does not touch the data. -/
theorem Agrees.neither (h : Agrees cfg init c d) {cmd : Command} (hissues : Issues cfg c cmd c')
    (haccess : cmd.isReadWrite = false) (hlineup : Lineup cfg c') :
    ∃ new, c'.cmdTrace = c.cmdTrace ++ new ∧ Agrees cfg init c' (d.follow new) := by
  have hneither : cmd.isRead = false ∧ cmd.isWrite = false := by simpa [Command.isReadWrite] using haccess
  refine ⟨[(c.clk, cmd)], by rw [hissues.frame], ?_⟩
  have hdata : d.follow [(c.clk, cmd)] = d := by simp [Data.follow, Data.command, hneither]
  rw [hdata]
  exact h.of_eq hlineup (hissues.noRead hneither.1).1 (hissues.noWrite hneither.2)

theorem Agrees.move (h : Agrees cfg init c d) (hdual : cfg.enableHbmDualCmd = false)
    (hmove : Move cfg c c') :
    ∃ new, c'.cmdTrace = c.cmdTrace ++ new ∧ Agrees cfg init c' (d.follow new) := by
  have hlineup := h.lineup.move hdual hmove
  have hquiet : c'.cmdTrace = c.cmdTrace → c'.pendingRdQ = c.pendingRdQ → c'.pendingWrQ = c.pendingWrQ →
      ∃ new, c'.cmdTrace = c.cmdTrace ++ new ∧ Agrees cfg init c' (d.follow new) :=
    fun htrace hrd hwr => ⟨[], by simp [htrace], h.of_eq hlineup hrd hwr⟩
  cases hmove with
  | refreshTick htick => exact hquiet rfl rfl rfl
  | turn hturned => exact hquiet rfl rfl rfl
  | @refresh ref cmd rest _ front ready hissue =>
    refine h.neither (issueCommand_issues hissue) ?_ hlineup
    have href := isReadWrite_of_isRefresh (h.lineup.tidy.refreshes ref (by simp [front]))
    exact isReadWrite_of_answer ready href
  | row offers access hissue => exact h.neither (issueCommand_issues hissue) access hlineup
  | @access i cmd entry q _ offers access erase hissue =>
    have hissues := issueCommand_issues hissue
    obtain ⟨t, before, after, rfl, hfirst⟩ := h.lineup.first offers access
    refine ⟨[(c.clk, transToCommand cfg t)], by rw [hissues.frame], ?_⟩
    cases hwrite : t.isWrite with
    | false =>
      have hread : (transToCommand cfg t).isRead = true := by simp [hwrite]
      exact h.read hread hissues rfl rfl hlineup
    | true => exact h.write hfirst hwrite hissues rfl rfl hlineup
  | drop dual offers access erase =>
    rw [hdual] at dual
    cases dual
  | selfRefresh enabled asks ready hissue =>
    exact h.neither (issueCommand_issues hissue)
      (isReadWrite_of_answer ready (selfRefreshCommand_isRankCmd asks).2) hlineup
  | idle => exact hquiet rfl rfl rfl
  | schedule =>
    have hframe := (scheduleTransaction_scheduled cfg c).frame
    exact hquiet hframe.cmdTrace hframe.pendingRdQ hframe.pendingWrQ
  | clock => exact hquiet rfl rfl rfl

theorem Agrees.moves (h : Agrees cfg init c d) (hdual : cfg.enableHbmDualCmd = false)
    (hmoves : Moves cfg c c') :
    ∃ new, c'.cmdTrace = c.cmdTrace ++ new ∧ Agrees cfg init c' (d.follow new) := by
  induction hmoves with
  | refl => exact ⟨[], by simp, h⟩
  | tail _ hlast ih =>
    obtain ⟨new, htrace, hagrees⟩ := ih
    obtain ⟨more, htrace', hagrees'⟩ := hagrees.move hdual hlast
    refine ⟨new ++ more, by rw [htrace', htrace, List.append_assoc], ?_⟩
    rw [Data.follow, List.foldl_append]
    exact hagrees'

/-! ### Requests -/

/-- What a request does to the pending ones. -/
theorem addTransaction_pending (cfg : Config) (c : Controller) (addr : UInt64) (isWrite : Bool) :
    (c.addTransaction cfg addr isWrite).pendingWrQ =
      (if isWrite = true ∧ pending c.pendingWrQ addr = false then
        c.pendingWrQ ++ [{addr := addr, addedCycle := c.clk, isWrite := isWrite}] else c.pendingWrQ) ∧
    (c.addTransaction cfg addr isWrite).pendingRdQ =
      if isWrite = false ∧ pending c.pendingWrQ addr = false then
        c.pendingRdQ ++ [{addr := addr, addedCycle := c.clk, isWrite := isWrite}] else c.pendingRdQ := by
  have henqueue : ∀ (c₁ : Controller) t, (Controller.enqueue cfg c₁ t).pendingWrQ = c₁.pendingWrQ ∧
      (Controller.enqueue cfg c₁ t).pendingRdQ = c₁.pendingRdQ := by
    intro c₁ t
    unfold Controller.enqueue
    split
    · exact ⟨rfl, rfl⟩
    · split <;> exact ⟨rfl, rfl⟩
  unfold addTransaction
  cases isWrite with
  | true => cases pending c.pendingWrQ addr <;> simp [henqueue]
  | false => cases pending c.pendingWrQ addr <;> cases pending c.pendingRdQ addr <;> simp [henqueue]

theorem Agrees.acceptRead (h : Agrees cfg init c d) (addr : UInt64) :
    Agrees cfg init (c.addTransaction cfg addr false) (d.accept c (.read addr)) := by
  obtain ⟨hwr, hrd⟩ := addTransaction_pending cfg c addr false
  rw [if_neg (by simp)] at hwr
  have hlineup := h.lineup.add addr false
  have hlast := Answer.last init d.requests addr
  unfold Data.accept
  dsimp only
  split
  · next hpending =>
    rw [if_neg (by simp [hpending])] at hrd
    rw [← h.buffer addr hpending] at hlast
    refine ⟨hlineup, hrd ▸ h.waiting, ?_, ?_, ?_, ?_, ?_⟩
    · simpa [hwr, Request.apply] using h.cells
    · simpa [hwr, Request.apply] using h.buffer
    · exact fun w hw => (h.reads w hw).snoc _
    · intro s hs
      rcases List.mem_append.mp hs with hs | hs
      · obtain ⟨a, ha⟩ := h.served s hs
        exact ⟨a, ha.snoc _⟩
      · rw [List.mem_singleton.mp hs]
        exact ⟨addr, hlast⟩
    · simp only [List.map_append, List.map_cons, List.map_nil, Lib.readsOf_snoc]
      refine List.Perm.trans ?_ (h.each.append_right [d.requests.length])
      rw [List.append_assoc, List.append_assoc]
      exact List.perm_append_comm.append_left _
  · next hpending =>
    rw [Bool.not_eq_true] at hpending
    rw [if_pos ⟨rfl, hpending⟩] at hrd
    rw [← h.cells addr hpending] at hlast
    refine ⟨hlineup, ?_, ?_, ?_, ?_, ?_, ?_⟩
    · simp only [List.map_append, hrd, h.waiting, List.map_cons, List.map_nil]
    · simpa [hwr, Request.apply] using h.cells
    · simpa [hwr, Request.apply] using h.buffer
    · intro w hw
      rcases List.mem_append.mp hw with hw | hw
      · exact (h.reads w hw).snoc _
      · rw [List.mem_singleton.mp hw]
        exact hlast
    · intro s hs
      obtain ⟨a, ha⟩ := h.served s hs
      exact ⟨a, ha.snoc _⟩
    · simp only [List.map_append, List.map_cons, List.map_nil, Lib.readsOf_snoc, ← List.append_assoc]
      exact h.each.append_right _

theorem Agrees.acceptWrite (h : Agrees cfg init c d) (addr : UInt64) (value : V) :
    Agrees cfg init (c.addTransaction cfg addr true) (d.accept c (.write addr value)) := by
  obtain ⟨hwr, hrd⟩ := addTransaction_pending cfg c addr true
  rw [if_neg (by simp)] at hrd
  have hpending : ∀ a, pending (c.addTransaction cfg addr true).pendingWrQ a =
      (decide (a = addr) || pending c.pendingWrQ a) := by
    intro a
    rw [hwr]
    by_cases ha : a = addr
    · subst ha
      cases hold : pending c.pendingWrQ a <;> simp [hold]
    · split
      · simp [ha, Ne.symm ha]
      · simp [ha]
  refine ⟨h.lineup.add addr true, hrd ▸ h.waiting, ?_, ?_, fun w hw => (h.reads w hw).snoc _, ?_, ?_⟩
  · intro a ha
    rw [hpending, Bool.or_eq_false_iff, decide_eq_false_iff_not] at ha
    simpa [Data.accept, Request.apply, Function.update_of_ne ha.1] using h.cells a ha.2
  · intro a ha
    rw [hpending] at ha
    by_cases hsame : a = addr
    · subst hsame
      simp [Data.accept, Request.apply]
    · simpa [Data.accept, Request.apply, hsame] using h.buffer a (by simpa [hsame] using ha)
  · intro s hs
    obtain ⟨a, ha⟩ := h.served s hs
    exact ⟨a, ha.snoc _⟩
  · simpa [Data.accept, Lib.readsOf_snoc] using h.each

theorem Agrees.step {e : DataEvent V} {d' : Data V} (h : Agrees cfg init c d)
    (hdual : cfg.enableHbmDualCmd = false) (hstep : c.stepData cfg d e = .ok (c', d')) :
    Agrees cfg init c' d' := by
  cases e with
  | request r =>
    cases r with
    | read addr =>
      cases hstep
      split
      · exact h.acceptRead addr
      · exact h
    | write addr value =>
      cases hstep
      split
      · exact h.acceptWrite addr value
      · exact h
  | collect clk =>
    cases hstep
    refine h.of_eq (h.lineup.collect clk) ?_ ?_
    · unfold returnDoneTrans
      split <;> rfl
    · unfold returnDoneTrans
      split <;> rfl
  | tick =>
    obtain ⟨c₁, hc₁, hstep⟩ := ok_of_bind hstep
    cases hstep
    obtain ⟨new, htrace, hagrees⟩ := h.moves hdual (clockTick_moves hc₁)
    rw [htrace, List.drop_left]
    exact hagrees

/-- **A controller is a memory**: over any run, every read is either waiting or has been answered
once, with what the last write to its address before it has written. -/
theorem run_answers {events : List (DataEvent V)} (hdual : cfg.enableHbmDualCmd = false)
    (h : runData cfg {} (Data.start init) events = .ok (c, d)) :
    (∀ s ∈ d.served, ∃ addr, Answer init d.requests s.1 addr s.2) ∧
      (d.served.map Prod.fst ++ d.waiting.map Prod.snd).Perm (readsOf d.requests) ∧
      d.waiting.map Prod.fst = c.pendingRdQ.map Transaction.addr := by
  have hrun : ∀ {events : List (DataEvent V)} {c₀ : Controller} {d₀ : Data V}, Agrees cfg init c₀ d₀ →
      runData cfg c₀ d₀ events = .ok (c, d) → Agrees cfg init c d := by
    intro events
    induction events with
    | nil =>
      intro c₀ d₀ h₀ hrun
      cases hrun
      exact h₀
    | cons e rest ih =>
      intro c₀ d₀ h₀ hrun
      obtain ⟨⟨c₁, d₁⟩, hstep, hrun⟩ := ok_of_bind hrun
      exact ih (h₀.step hdual hstep) hrun
  have hagrees := hrun (agrees_start cfg init) h
  exact ⟨hagrees.served, hagrees.each, hagrees.waiting⟩

theorem run_answers_lpddr5 : ∃ c d, runData lpddr5Ch4 {} (Data.start fun _ => 0)
    (.request (.read 0) :: .request (.write 0 7) :: .request (.read 0) :: List.replicate 100 .tick)
      = .ok (c, d) ∧ (d.served.map Prod.fst ++ d.waiting.map Prod.snd).Perm (readsOf d.requests) := by
  obtain ⟨c, hrun⟩ := run_ok lpddr5Ch4_plain (List.map DataEvent.event
    (.request (.read 0) :: .request (.write 0 7) :: .request (.read 0) :: List.replicate 100 .tick))
  obtain ⟨d, hdata⟩ := runData_ok (d := Data.start fun _ => 0) hrun
  exact ⟨c, d, hdata, (run_answers rfl hdata).2.1⟩

end Controller

end Hsim.Dramsim3
