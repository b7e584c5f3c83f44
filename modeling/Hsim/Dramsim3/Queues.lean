import Hsim.Dramsim3.Moves

/-! What waits in a controller.

The command queues hold accesses, each in the queue of its bank, and the channel's
queue holds refreshes (`Tidy`). For every address what waits is a read if one is
pending, and behind it a write if one is (`Lineup`): an access is pending exactly as
long as it waits, and a write never overtakes a read of its address. HBM's second
command breaks this, since it may leave its queue without being issued. -/
namespace Hsim.Dramsim3

namespace Command
variable {c : Command}

theorem isRead_eq_not_isWrite (h : c.isReadWrite = true) : c.isRead = !c.isWrite := by
  unfold isReadWrite at h
  unfold isRead isWrite at *
  cases hc : c.cmdType <;> simp_all

theorem isReadWrite_of_isRead (h : c.isRead = true) : c.isReadWrite = true := by simp [isReadWrite, h]

/-- A command is not both. -/
theorem isWrite_of_isRead (h : c.isRead = true) : c.isWrite = false := by
  have hne := isRead_eq_not_isWrite (isReadWrite_of_isRead h)
  rw [h] at hne
  simpa using hne.symm

end Command

namespace Refresh
variable {cfg : Config} {r r' : Refresh} {ch ch' : ChannelState}

/-- A tick of the refresh timer adds a refresh to the queue, or nothing. -/
theorem clockTick_refreshQ (h : r.clockTick cfg ch = .ok (r', ch')) : ∃ new : List Command,
    ch' = {ch with refreshQ := ch.refreshQ ++ new} ∧ ∀ ref ∈ new, ref.isRefresh = true := by
  have hnothing : ∃ new : List Command,
      ch = {ch with refreshQ := ch.refreshQ ++ new} ∧ ∀ ref ∈ new, ref.isRefresh = true :=
    ⟨[], by simp⟩
  unfold clockTick at h
  split at h
  · cases h
  · dsimp only at h
    split at h
    · obtain ⟨-, rfl⟩ := Prod.mk.inj (Except.ok.inj h)
      unfold insertRefresh
      split
      · split
        · exact ⟨_, rfl, by simp [Command.isRefresh]⟩
        · exact hnothing
      · dsimp only
        split
        · exact hnothing
        · exact ⟨_, rfl, by simp [Command.isRefresh]⟩
      · dsimp only
        split
        · exact hnothing
        · exact ⟨_, rfl, by simp [Command.isRefresh]⟩
    · obtain ⟨-, rfl⟩ := Prod.mk.inj (Except.ok.inj h)
      exact hnothing

end Refresh

namespace Controller
variable {cfg : Config} {c c' : Controller}

theorem isReadWrite_of_isRefresh {cmd : Command} (h : cmd.isRefresh = true) :
    cmd.isReadWrite = false := by
  unfold Command.isRefresh at h
  unfold Command.isReadWrite Command.isRead Command.isWrite
  cases hc : cmd.cmdType <;> simp_all

/-- What a rank is asked to do about refreshing itself is not an access. -/
theorem selfRefreshCommand_isRankCmd {rank : Int} {ask : Command}
    (h : c.selfRefreshCommand cfg rank = some ask) : ask.isRankCmd = true ∧
    ask.isReadWrite = false := by
  unfold selfRefreshCommand at h
  split at h
  · split at h
    · cases h
    · cases h
      exact ⟨rfl, rfl⟩
  · split at h
    · cases h
      exact ⟨rfl, rfl⟩
    · cases h

/-- No access is sent for what is not one. -/
theorem isReadWrite_of_answer {ch : ChannelState} {ask cmd : Command} {clk : Nat}
    (h : ch.getReadyCommand cfg ask clk = .ok (some cmd)) (hask : ask.isReadWrite = false) :
    cmd.isReadWrite = false := by
  by_contra hcmd
  rw [Bool.not_eq_false] at hcmd
  rw [ChannelState.eq_of_getReadyCommand h hcmd, hask] at hcmd
  cases hcmd

/-- What a queue or a refresh sends is not a command to sleep. -/
theorem cmdType_ne_srefEnter {ch : ChannelState} {ask cmd : Command} {clk : Nat}
    (h : ch.getReadyCommand cfg ask clk = .ok (some cmd)) (hask : ask.cmdType ≠ .srefEnter) :
    cmd.cmdType ≠ .srefEnter := by
  rcases ChannelState.getReadyCommand_cases h with rfl | hpre | ⟨-, hact | hexit⟩
  · exact hask
  · simp [hpre]
  · simp [hact]
  · simp [hexit]

theorem srefEnter_of_isRefresh {ref : Command} (h : ref.isRefresh = true) :
    ref.cmdType ≠ .srefEnter := by
  intro href
  simp [Command.isRefresh, href] at h

theorem srefEnter_of_isReadWrite {e : Command} (h : e.isReadWrite = true) :
    e.cmdType ≠ .srefEnter := by
  intro he
  simp [Command.isReadWrite, Command.isRead, Command.isWrite, he] at h

@[simp] theorem transToCommand_hexAddr (cfg : Config) (t : Transaction) :
    (transToCommand cfg t).hexAddr = t.addr := rfl

@[simp] theorem transToCommand_addr (cfg : Config) (t : Transaction) :
    (transToCommand cfg t).addr = cfg.mapping.addressMapping t.addr := rfl

@[simp] theorem transToCommand_isWrite (cfg : Config) (t : Transaction) :
    (transToCommand cfg t).isWrite = t.isWrite := by
  cases hp : cfg.rowBufPolicy <;> cases ht : t.isWrite <;> simp [transToCommand, Command.isWrite, hp, ht]

@[simp] theorem transToCommand_isReadWrite (cfg : Config) (t : Transaction) :
    (transToCommand cfg t).isReadWrite = true := by
  cases hp : cfg.rowBufPolicy <;> cases ht : t.isWrite <;>
    simp [transToCommand, Command.isReadWrite, Command.isWrite, Command.isRead, hp, ht]

@[simp] theorem transToCommand_isRead (cfg : Config) (t : Transaction) :
    (transToCommand cfg t).isRead = !t.isWrite := by
  rw [Command.isRead_eq_not_isWrite (transToCommand_isReadWrite cfg t), transToCommand_isWrite]

/-- The queue that a transaction's command goes to. -/
def home (cfg : Config) (addr : UInt64) : Int := cfg.queueIndex (cfg.mapping.addressMapping addr).place

/-- What `ScheduleTransaction` comes to. -/
inductive Scheduled (cfg : Config) (c : Controller) : Controller → Prop where
  | stay {drain : Int} : Scheduled cfg c {c with writeDraining := drain}
  | move {source : Source} {before after : List Transaction} {t : Transaction} {drain : Int}
      (used : (source = .unified ↔ cfg.unifiedQueue = true))
      (queue : c.queueOf source = before ++ t :: after)
      (passed : ∀ s ∈ before, c.hasRoom cfg s = false)
      (room : c.hasRoom cfg t = true)
      (late : cfg.unifiedQueue = false → t.isWrite = true → pending c.pendingRdQ t.addr = false) :
      Scheduled cfg c (setQueue {c with
        writeDraining := drain
        cmdQueue := {c.cmdQueue with
          queues := Function.update c.cmdQueue.queues (home cfg t.addr)
            (c.cmdQueue.queues (home cfg t.addr) ++ [transToCommand cfg t])
          rankQEmpty := Function.update c.cmdQueue.rankQEmpty (cfg.mapping.addressMapping t.addr).rank false}}
        source (before ++ after))

/-- What scheduling leaves alone. -/
structure Scheduled.Frame (c c' : Controller) : Prop where
  clk : c'.clk = c.clk
  channelState : c'.channelState = c.channelState
  refresh : c'.refresh = c.refresh
  pendingRdQ : c'.pendingRdQ = c.pendingRdQ
  pendingWrQ : c'.pendingWrQ = c.pendingWrQ
  returnQueue : c'.returnQueue = c.returnQueue
  cmdTrace : c'.cmdTrace = c.cmdTrace
  isInRef : c'.cmdQueue.isInRef = c.cmdQueue.isInRef
  refQIndices : c'.cmdQueue.refQIndices = c.cmdQueue.refQIndices
  queueIdx : c'.cmdQueue.queueIdx = c.cmdQueue.queueIdx

theorem Scheduled.frame (h : Scheduled cfg c c') : Scheduled.Frame c c' := by
  cases h with
  | stay => exact ⟨rfl, rfl, rfl, rfl, rfl, rfl, rfl, rfl, rfl, rfl⟩
  | @move source => cases source <;> exact ⟨rfl, rfl, rfl, rfl, rfl, rfl, rfl, rfl, rfl, rfl⟩

/-- Scheduling adds behind what waits in the queues. -/
theorem Scheduled.queues_prefix (h : Scheduled cfg c c') (i : Int) :
    c.cmdQueue.queues i <+: c'.cmdQueue.queues i := by
  cases h with
  | stay => exact List.prefix_rfl
  | @move source before after t drain used queue passed room late =>
    have hqueues : (setQueue {c with
        writeDraining := drain
        cmdQueue := {c.cmdQueue with
          queues := Function.update c.cmdQueue.queues (home cfg t.addr)
            (c.cmdQueue.queues (home cfg t.addr) ++ [transToCommand cfg t])
          rankQEmpty := Function.update c.cmdQueue.rankQEmpty
            (cfg.mapping.addressMapping t.addr).rank false}}
        source (before ++ after)).cmdQueue.queues i =
        Function.update c.cmdQueue.queues (home cfg t.addr)
          (c.cmdQueue.queues (home cfg t.addr) ++ [transToCommand cfg t]) i := by cases source <;> rfl
    rw [hqueues]
    by_cases hi : i = home cfg t.addr
    · subst hi
      rw [Function.update_self]
      exact List.prefix_append _ _
    · rw [Function.update_of_ne hi]

theorem source_unified : c.source cfg = .unified ↔ cfg.unifiedQueue = true := by
  unfold source
  split
  · next h => simp [h]
  · next h => split <;> simp [h]

theorem scheduleTransaction_scheduled (cfg : Config) (c : Controller) :
    Scheduled cfg c (c.scheduleTransaction cfg) := by
  unfold scheduleTransaction
  dsimp only
  split
  · exact .stay
  · next t hfind =>
    split
    · exact .stay
    · next hlate =>
      have hroom : c.hasRoom cfg t = true := List.find?_some hfind
      obtain ⟨-, before, after, hqueue, hpassed⟩ := List.find?_eq_some_iff_append.mp hfind
      have hpassed' : ∀ s ∈ before, c.hasRoom cfg s = false := by simpa using hpassed
      have herase : (c.queueOf (c.source cfg)).eraseP (c.hasRoom cfg) = before ++ after := by
        rw [hqueue, List.eraseP_append_right _ (by simpa using hpassed'), List.eraseP_cons_of_pos hroom]
      have hadd : c.cmdQueue.addCommand cfg (transToCommand cfg t) = {c.cmdQueue with
          queues := Function.update c.cmdQueue.queues (home cfg t.addr)
            (c.cmdQueue.queues (home cfg t.addr) ++ [transToCommand cfg t])
          rankQEmpty := Function.update c.cmdQueue.rankQEmpty
            (cfg.mapping.addressMapping t.addr).rank false} := by
        unfold hasRoom CommandQueue.willAcceptCommand at hroom
        unfold CommandQueue.addCommand
        rw [if_pos (by simpa using hroom)]
        rfl
      rw [herase, hadd]
      refine .move source_unified hqueue hpassed' hroom ?_
      intro hsplit hwrite
      simpa [hsplit, hwrite] using hlate

/-! ### Every command in its place -/

structure Tidy (cfg : Config) (c : Controller) : Prop where
  clk : c.cmdQueue.clk = c.clk
  entries : ∀ i, ∀ e ∈ c.cmdQueue.queues i, ∃ t, e = transToCommand cfg t ∧ home cfg t.addr = i
  refreshes : ∀ ref ∈ c.channelState.refreshQ, ref.isRefresh = true

/-- The part of a controller that `Tidy` is about may lose commands. -/
theorem Tidy.of_sublist (h : Tidy cfg c) (hclk : c'.cmdQueue.clk = c'.clk)
    (hentries : ∀ i, c'.cmdQueue.queues i ⊆ c.cmdQueue.queues i)
    (hrefreshes : c'.channelState.refreshQ ⊆ c.channelState.refreshQ) : Tidy cfg c' where
  clk := hclk
  entries i _ he := h.entries i _ (hentries i he)
  refreshes _ href := h.refreshes _ (hrefreshes href)

theorem Issued_refreshQ_subset {ch ch' : ChannelState} {cmd : Command} {clk : Nat}
    (h : ChannelState.Issued cfg ch cmd clk ch') : ch'.refreshQ ⊆ ch.refreshQ := by
  rw [h.refreshQ]
  split
  · exact List.eraseP_subset
  · split
    · exact List.eraseP_subset
    · exact fun _ => id

theorem Tidy.issues {cmd : Command} (h : Tidy cfg c) (hissues : Issues cfg c cmd c') :
    Tidy cfg c' := by
  have hsubset := Issued_refreshQ_subset hissues.channel
  rw [hissues.frame]
  exact h.of_sublist h.clk (fun _ _ => id) hsubset

theorem eraseRWCommand_eq {q q' : CommandQueue} {cmd : Command}
    (h : q.eraseRWCommand cfg cmd = .ok q') :
    q' = {q with
      queues := Function.update q.queues (cfg.queueIndex cmd.place)
        ((q.queues (cfg.queueIndex cmd.place)).eraseP fun e =>
          cmd.hexAddr == e.hexAddr && cmd.cmdType == e.cmdType)} := by
  unfold CommandQueue.eraseRWCommand at h
  dsimp only at h
  split at h
  · cases h
    rfl
  · cases h

theorem Tidy.erase {q : CommandQueue} {cmd : Command} (h : Tidy cfg c)
    (herase : c.cmdQueue.eraseRWCommand cfg cmd = .ok q) : Tidy cfg {c with cmdQueue := q} := by
  rw [eraseRWCommand_eq herase]
  refine h.of_sublist h.clk ?_ (fun _ => id)
  intro i
  by_cases hi : i = cfg.queueIndex cmd.place
  · subst hi
    simpa using List.eraseP_subset
  · simp [hi]

theorem Tidy.scheduled (h : Tidy cfg c) (hscheduled : Scheduled cfg c c') : Tidy cfg c' := by
  cases hscheduled with
  | stay => exact ⟨h.clk, h.entries, h.refreshes⟩
  | @move source before after t drain used queue passed room late =>
    have hentries : ∀ i, ∀ e ∈ Function.update c.cmdQueue.queues (home cfg t.addr)
        (c.cmdQueue.queues (home cfg t.addr) ++ [transToCommand cfg t]) i,
        ∃ t, e = transToCommand cfg t ∧ home cfg t.addr = i := by
      intro i e he
      by_cases hi : i = home cfg t.addr
      · subst hi
        rw [Function.update_self] at he
        rcases List.mem_append.mp he with he | he
        · exact h.entries _ e he
        · exact ⟨t, List.mem_singleton.mp he, rfl⟩
      · rw [Function.update_of_ne hi] at he
        exact h.entries i e he
    cases source <;> exact ⟨h.clk, hentries, h.refreshes⟩

theorem Tidy.move (h : Tidy cfg c) (hmove : Move cfg c c') : Tidy cfg c' := by
  cases hmove with
  | @refreshTick r ch htick =>
    obtain ⟨new, hch, hnew⟩ := Refresh.clockTick_refreshQ htick
    refine ⟨h.clk, h.entries, ?_⟩
    intro ref href
    simp only [hch, List.mem_append] at href
    exact href.elim (h.refreshes ref) (hnew ref)
  | turn hturned =>
    refine h.of_sublist (hturned.clk.trans h.clk) ?_ (fun _ => id)
    intro i
    rw [hturned.queues]
    exact fun _ => id
  | refresh front ready hissue => exact h.issues (issueCommand_issues hissue)
  | row offers access hissue => exact h.issues (issueCommand_issues hissue)
  | access offers access erase hissue => exact (h.erase erase).issues (issueCommand_issues hissue)
  | drop dual offers access erase => exact h.erase erase
  | selfRefresh enabled asks ready hissue => exact h.issues (issueCommand_issues hissue)
  | idle => exact ⟨h.clk, h.entries, h.refreshes⟩
  | schedule => exact h.scheduled (scheduleTransaction_scheduled cfg c)
  | clock => exact ⟨congrArg Nat.succ h.clk, h.entries, h.refreshes⟩

/-- Transactions go in and answers come out beside the commands. -/
structure Beside (c c' : Controller) : Prop where
  clk : c'.clk = c.clk
  cmdQueue : c'.cmdQueue = c.cmdQueue
  channelState : c'.channelState = c.channelState
  cmdTrace : c'.cmdTrace = c.cmdTrace
  refresh : c'.refresh = c.refresh

theorem addTransaction_beside (cfg : Config) (c : Controller) (addr : UInt64) (isWrite : Bool) :
    Beside c (c.addTransaction cfg addr isWrite) := by
  have henqueue : ∀ c₁ t, Beside c₁ (enqueue cfg c₁ t) := by
    intro c₁ t
    unfold enqueue
    split
    · exact ⟨rfl, rfl, rfl, rfl, rfl⟩
    · split <;> exact ⟨rfl, rfl, rfl, rfl, rfl⟩
  unfold addTransaction
  dsimp only
  split
  · split
    · exact ⟨rfl, rfl, rfl, rfl, rfl⟩
    · obtain ⟨h₁, h₂, h₃, h₄, h₅⟩ := henqueue {c with pendingWrQ := c.pendingWrQ ++
        [{addr := addr, addedCycle := c.clk, isWrite := isWrite}]}
        {addr := addr, addedCycle := c.clk, isWrite := isWrite}
      exact ⟨h₁, h₂, h₃, h₄, h₅⟩
  · split
    · exact ⟨rfl, rfl, rfl, rfl, rfl⟩
    · split
      · exact ⟨rfl, rfl, rfl, rfl, rfl⟩
      · obtain ⟨h₁, h₂, h₃, h₄, h₅⟩ := henqueue {c with pendingRdQ := c.pendingRdQ ++
          [{addr := addr, addedCycle := c.clk, isWrite := isWrite}]}
          {addr := addr, addedCycle := c.clk, isWrite := isWrite}
        exact ⟨h₁, h₂, h₃, h₄, h₅⟩

theorem returnDoneTrans_beside (c : Controller) (clk : Nat) : Beside c (c.returnDoneTrans clk).2 := by
  unfold returnDoneTrans
  split <;> exact ⟨rfl, rfl, rfl, rfl, rfl⟩

theorem step_beside {e : Event} (he : e ≠ .tick) (h : c.step cfg e = .ok c') : Beside c c' := by
  cases e with
  | add addr isWrite =>
    cases h
    split
    · exact addTransaction_beside cfg c addr isWrite
    · exact ⟨rfl, rfl, rfl, rfl, rfl⟩
  | collect clk =>
    cases h
    exact returnDoneTrans_beside c clk
  | tick => exact absurd rfl he

theorem Tidy.beside (h : Tidy cfg c) (hbeside : Beside c c') : Tidy cfg c' where
  clk := by rw [hbeside.clk, hbeside.cmdQueue, h.clk]
  entries := by
    rw [hbeside.cmdQueue]
    exact h.entries
  refreshes := by
    rw [hbeside.channelState]
    exact h.refreshes

/-- Every entry of a queue is an access. -/
theorem Tidy.entry_isReadWrite (h : Tidy cfg c) {i : Int} {e : Command}
    (he : e ∈ c.cmdQueue.queues i) :
    e.isReadWrite = true := by
  obtain ⟨t, rfl, -⟩ := h.entries i e he
  exact transToCommand_isReadWrite cfg t

theorem Offers_mem {ch : ChannelState} {clk : Nat} {queue : List Command} {cmd entry : Command}
    (h : CommandQueue.Offers cfg ch clk queue cmd entry) : entry ∈ queue := by
  obtain ⟨before, after, hqueue, -⟩ := h.place
  simp [hqueue]

theorem tidy_start (cfg : Config) : Tidy cfg {} := ⟨rfl, by simp, by simp⟩

/-- What the moves keep and the transactions do not touch. -/
theorem run_invariant_beside {I : Controller → Prop} (hmove : ∀ c c', Move cfg c c' → I c → I c')
    (hbeside : ∀ c c', Beside c c' → I c → I c') {events : List Event}
    (h : c.run cfg events = .ok c') (hstart : I c) : I c' :=
  run_invariant hmove (fun c addr isWrite _ => hbeside c _ (addTransaction_beside cfg c addr isWrite))
    (fun c clk => hbeside c _ (returnDoneTrans_beside c clk)) h hstart

end Controller

end Hsim.Dramsim3
