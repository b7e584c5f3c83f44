import Hsim.Dramsim3.Queues

/-! How the requests to one address wait.

In the queues of transactions and commands together an address has one read if a read
of it is pending, and behind that one write if a write is (`Lineup`). So an access is
pending exactly as long as it waits, none that is issued is missing from the pending
ones, and a write never overtakes a read of its address. HBM's second command breaks
this, since it may leave its queue without being issued. -/
namespace Hsim.Dramsim3

namespace Controller
variable {cfg : Config} {c c' : Controller}

/-- The transactions that have not become commands. -/
def queued (c : Controller) : List Transaction := c.unifiedQueue ++ c.readQueue ++ c.writeBuffer

/-- What waits for an address, in its order: reads are `false`, writes `true`. -/
def waiting (cfg : Config) (c : Controller) (addr : UInt64) : List Bool :=
  ((c.cmdQueue.queues (home cfg addr)).filter fun e => e.hexAddr = addr).map Command.isWrite ++
    (c.queued.filter fun t => t.addr = addr).map Transaction.isWrite

/-- What should wait for an address. -/
def owed (c : Controller) (addr : UInt64) : List Bool :=
  (if pending c.pendingRdQ addr then [false] else []) ++ if pending c.pendingWrQ addr then [true] else []

structure Lineup (cfg : Config) (c : Controller) : Prop where
  tidy : Tidy cfg c
  waiting : ∀ addr, c.waiting cfg addr = c.owed addr
  used : if cfg.unifiedQueue then c.readQueue = [] ∧ c.writeBuffer = [] else c.unifiedQueue = []
  reads : ∀ t ∈ c.readQueue, t.isWrite = false
  writes : ∀ t ∈ c.writeBuffer, t.isWrite = true
  once : (c.pendingWrQ.map Transaction.addr).Nodup

theorem lineup_start (cfg : Config) : Lineup cfg {} :=
  ⟨tidy_start cfg, fun _ => rfl, by simp, by simp, by simp, .nil⟩

/-- The first of an address, and what it leaves behind. -/
theorem owed_cons {reads writes flag : Bool} {before rest : List Bool}
    (h : before ++ flag :: rest = (if reads then [false] else []) ++ if writes then [true] else [])
    (hread : flag = true → false ∉ before) : before = [] ∧
      (flag = false → reads = true ∧ rest = if writes then [true] else []) ∧
      (flag = true → reads = false ∧ writes = true ∧ rest = []) := by
  cases before with
  | nil => cases reads <;> cases writes <;> simp at h <;> simp_all
  | cons first before =>
    cases reads <;> cases writes <;> simp at h
    obtain ⟨rfl, h⟩ := h
    cases before with
    | nil => simp_all
    | cons second before => simp at h

/-- The same, for what waits first. -/
theorem owed_head {reads writes flag : Bool} {rest : List Bool}
    (h : flag :: rest = (if reads then [false] else []) ++ if writes then [true] else []) :
      (flag = false → reads = true ∧ rest = if writes then [true] else []) ∧
      (flag = true → reads = false ∧ writes = true ∧ rest = []) :=
  (owed_cons (List.nil_append _ ▸ h) fun _ => List.not_mem_nil).2

theorem pending_iff {l : List Transaction} {addr : UInt64} :
    pending l addr = true ↔ addr ∈ l.map Transaction.addr := by
  simp [pending]

theorem pending_filter_self {l : List Transaction} {addr : UInt64} :
    pending (l.filter fun t => t.addr ≠ addr) addr = false := by
  simp [pending]

theorem pending_filter_of_ne {l : List Transaction} {addr other : UInt64} (h : other ≠ addr) :
    pending (l.filter fun t => t.addr ≠ addr) other = pending l other := by
  rw [Bool.eq_iff_iff, pending_iff, pending_iff]
  simp only [List.mem_map, List.mem_filter, decide_eq_true_eq]
  constructor
  · rintro ⟨t, ⟨ht, -⟩, rfl⟩
    exact ⟨t, ht, rfl⟩
  · rintro ⟨t, ht, rfl⟩
    exact ⟨t, ⟨ht, h⟩, rfl⟩

theorem pending_eraseP_self {l : List Transaction} {addr : UInt64}
    (h : (l.map Transaction.addr).Nodup) :
    pending (l.eraseP fun t => t.addr == addr) addr = false := by
  induction l with
  | nil => rfl
  | cons t rest ih =>
    obtain ⟨hfirst, hrest⟩ := List.nodup_cons.mp h
    by_cases ht : t.addr = addr
    · rw [List.eraseP_cons_of_pos (by simpa using ht), Bool.eq_false_iff, Ne, pending_iff, ← ht]
      exact hfirst
    · simpa [pending, ht] using ih hrest

theorem pending_eraseP_of_ne {l : List Transaction} {addr other : UInt64} (h : other ≠ addr) :
    pending (l.eraseP fun t => t.addr == addr) other = pending l other := by
  induction l with
  | nil => rfl
  | cons t rest ih =>
    by_cases ht : t.addr = addr
    · rw [List.eraseP_cons_of_pos (by simpa using ht)]
      simpa [pending, ht] using fun heq => absurd heq.symm h
    · simpa [pending, ht] using congrArg (t.addr == other || ·) ih

@[simp] theorem pending_append (l l' : List Transaction) (addr : UInt64) :
    pending (l ++ l') addr = (pending l addr || pending l' addr) := by
  simp [pending]

@[simp] theorem pending_singleton (t : Transaction) (addr : UInt64) :
    pending [t] addr = (t.addr == addr) := by
  simp [pending]

/-- What a lineup is about, and nothing else. -/
theorem Lineup.of_eq (h : Lineup cfg c) (htidy : Tidy cfg c')
    (hqueues : c'.cmdQueue.queues = c.cmdQueue.queues) (hunified : c'.unifiedQueue = c.unifiedQueue)
    (hreads : c'.readQueue = c.readQueue) (hwrites : c'.writeBuffer = c.writeBuffer)
    (hpendingRd : c'.pendingRdQ = c.pendingRdQ) (hpendingWr : c'.pendingWrQ = c.pendingWrQ) :
    Lineup cfg c' where
  tidy := htidy
  waiting addr := by
    have hold := h.waiting addr
    unfold Controller.waiting owed queued at hold ⊢
    rw [hqueues, hunified, hreads, hwrites, hpendingRd, hpendingWr]
    exact hold
  used := by
    rw [hunified, hreads, hwrites]
    exact h.used
  reads := hreads ▸ h.reads
  writes := hwrites ▸ h.writes
  once := hpendingWr ▸ h.once

/-- A command that is not an access leaves every lineup. -/
theorem Lineup.issues {cmd : Command} (h : Lineup cfg c) (hissues : Issues cfg c cmd c')
    (haccess : cmd.isReadWrite = false) : Lineup cfg c' := by
  have hread : cmd.isRead = false ∧ cmd.isWrite = false := by simpa [Command.isReadWrite] using haccess
  refine h.of_eq (h.tidy.issues hissues) ?_ ?_ ?_ ?_ (hissues.noRead hread.1).1 (hissues.noWrite hread.2)
  all_goals rw [hissues.frame]

/-- The command of an entry is an access only if it is the entry's own. -/
theorem Offers_entry {ch : ChannelState} {clk : Nat} {queue : List Command} {cmd entry : Command}
    (h : CommandQueue.Offers cfg ch clk queue cmd entry) (haccess : cmd.isReadWrite = true) :
    cmd = entry :=
  ChannelState.eq_of_getReadyCommand h.ready haccess

/-- What an access that is issued finds: nothing of its address is before it. -/
structure First (cfg : Config) (c : Controller) (t : Transaction) (before after : List Command) : Prop where
  queue : c.cmdQueue.queues (home cfg t.addr) = before ++ transToCommand cfg t :: after
  none_before : before.filter (fun e => e.hexAddr = t.addr) = []
  owed : c.owed t.addr = t.isWrite :: (((after.filter fun e => e.hexAddr = t.addr).map Command.isWrite) ++
    (c.queued.filter fun s => s.addr = t.addr).map Transaction.isWrite)

theorem Lineup.first (h : Lineup cfg c) {i : Int} {ch : ChannelState} {clk : Nat}
    {cmd entry : Command}
    (hoffers : CommandQueue.Offers cfg ch clk (c.cmdQueue.queues i) cmd entry)
    (haccess : cmd.isReadWrite = true) :
    ∃ t before after, cmd = transToCommand cfg t ∧ First cfg c t before after := by
  obtain rfl := Offers_entry hoffers haccess
  obtain ⟨before, after, hqueue, -, hdepends, -⟩ := hoffers.place
  obtain ⟨t, rfl, rfl⟩ := h.tidy.entries i cmd (by simp [hqueue])
  have hwaiting := h.waiting t.addr
  rw [Controller.waiting, hqueue, List.filter_append, List.filter_cons_of_pos (by simp), List.map_append,
    List.map_cons, List.append_assoc, List.cons_append, transToCommand_isWrite] at hwaiting
  -- A write is held up by a read of its address before it.
  have hread : t.isWrite = true →
      false ∉ (before.filter fun e => e.hexAddr = t.addr).map Command.isWrite := by
    intro hwrite hmem
    obtain ⟨e, he, hflag⟩ := List.mem_map.mp hmem
    obtain ⟨he, haddr⟩ := List.mem_filter.mp he
    obtain ⟨s, rfl, -⟩ := h.tidy.entries (home cfg t.addr) e (by simp [hqueue, he])
    have hsame : s.addr = t.addr := of_decide_eq_true haddr
    have hdepends' := hdepends (by simpa using hwrite)
    simp only [CommandQueue.hasRWDependency, List.any_eq_false] at hdepends'
    refine hdepends' _ he ?_
    simp only [transToCommand_isWrite] at hflag
    simp [hsame, hflag]
  obtain ⟨hbefore, -⟩ := owed_cons hwaiting hread
  have hnone := List.map_eq_nil_iff.mp hbefore
  refine ⟨t, before, after, rfl, hqueue, hnone, ?_⟩
  rw [← hwaiting, hbefore, List.nil_append]

/-- An access leaves the lineup of its address, and no other. -/
theorem Lineup.access (h : Lineup cfg c) {q : CommandQueue} {t : Transaction}
    {before after : List Command}
    (hfirst : First cfg c t before after)
    (herase : c.cmdQueue.eraseRWCommand cfg (transToCommand cfg t) = .ok q)
    (hissues : Issues cfg {c with cmdQueue := q} (transToCommand cfg t) c') : Lineup cfg c' := by
  have hqueues : q.queues = Function.update c.cmdQueue.queues (home cfg t.addr) (before ++ after) := by
    rw [eraseRWCommand_eq herase]
    show Function.update c.cmdQueue.queues (home cfg t.addr)
      ((c.cmdQueue.queues (home cfg t.addr)).eraseP _) = _
    rw [hfirst.queue, List.eraseP_append_right, List.eraseP_cons_of_pos (by simp)]
    intro e he
    have hne := List.filter_eq_nil_iff.mp hfirst.none_before e he
    simp only [decide_eq_true_eq] at hne
    simp only [transToCommand_hexAddr, Bool.and_eq_true, beq_iff_eq, not_and]
    exact fun heq => absurd heq.symm hne
  have hframe := hissues.frame
  have hqueue' : c'.cmdQueue = q := by rw [hframe]
  have hqueued : c'.queued = c.queued := by rw [hframe]; rfl
  have hnot : ∀ {b}, b ≠ t.addr → (c'.cmdQueue.queues (home cfg b)).filter (fun e => e.hexAddr = b) =
      (c.cmdQueue.queues (home cfg b)).filter fun e => e.hexAddr = b := by
    intro b hb
    rw [hqueue', hqueues]
    by_cases hhome : home cfg b = home cfg t.addr
    · have hskip : ∀ rest, (transToCommand cfg t :: rest).filter (fun e => e.hexAddr = b) =
          rest.filter fun e => e.hexAddr = b :=
        fun rest => List.filter_cons_of_neg fun heq => hb (of_decide_eq_true heq).symm
      rw [hhome, Function.update_self, hfirst.queue, List.filter_append, List.filter_append, hskip]
    · rw [Function.update_of_ne hhome]
  refine ⟨(h.tidy.erase herase).issues hissues, ?_, ?_, ?_, ?_, ?_⟩
  · intro b
    unfold Controller.waiting
    by_cases hb : b = t.addr
    · subst hb
      have howed := hfirst.owed
      have hcons := owed_head howed.symm
      rw [hqueue', hqueues, Function.update_self, List.filter_append, hfirst.none_before, List.nil_append,
        hqueued]
      unfold owed
      cases hwrite : t.isWrite with
      | false =>
        obtain ⟨-, hrest⟩ := hcons.1 hwrite
        rw [hrest, (hissues.read (by simp [hwrite])).2.1, (hissues.noWrite (by simp [hwrite])),
          transToCommand_hexAddr, pending_filter_self]
        rfl
      | true =>
        obtain ⟨hreads, -, hrest⟩ := hcons.2 hwrite
        rw [hrest, (hissues.noRead (by simp [hwrite])).1, (hissues.write (by simp [hwrite])).2,
          transToCommand_hexAddr, pending_eraseP_self h.once, hreads]
        rfl
    · rw [hnot hb, hqueued]
      have hold := h.waiting b
      unfold Controller.waiting at hold
      rw [hold]
      unfold owed
      cases hwrite : t.isWrite with
      | false =>
        rw [(hissues.read (by simp [hwrite])).2.1, (hissues.noWrite (by simp [hwrite])),
          transToCommand_hexAddr, pending_filter_of_ne hb]
      | true =>
        rw [(hissues.noRead (by simp [hwrite])).1, (hissues.write (by simp [hwrite])).2,
          transToCommand_hexAddr, pending_eraseP_of_ne hb]
  · rw [hframe]
    exact h.used
  · rw [hframe]
    exact h.reads
  · rw [hframe]
    exact h.writes
  · cases hwrite : t.isWrite with
    | false =>
      rw [hissues.noWrite (by simp [hwrite])]
      exact h.once
    | true =>
      rw [(hissues.write (by simp [hwrite])).2]
      exact h.once.sublist (List.eraseP_sublist.map _)

/-- While no read of an address is pending, none waits for scheduling. -/
theorem Lineup.no_read (h : Lineup cfg c) {addr : UInt64}
    (hpending : pending c.pendingRdQ addr = false) :
    ∀ s ∈ c.readQueue, s.addr ≠ addr := by
  rintro s hs rfl
  have hmem : false ∈ c.waiting cfg s.addr := by
    refine List.mem_append_right _ (List.mem_map.mpr ⟨s, ?_, h.reads s hs⟩)
    simp [queued, hs]
  rw [h.waiting, owed, hpending] at hmem
  cases hwrite : pending c.pendingWrQ s.addr <;> simp [hwrite] at hmem

/-- The transaction that is scheduled is the first of its address. -/
theorem Lineup.first_queued (h : Lineup cfg c) {source : Source} {before after : List Transaction}
    {t : Transaction} (used : source = .unified ↔ cfg.unifiedQueue = true)
    (queue : c.queueOf source = before ++ t :: after) (passed : ∀ s ∈ before, c.hasRoom cfg s = false)
    (room : c.hasRoom cfg t = true)
    (late : cfg.unifiedQueue = false → t.isWrite = true → pending c.pendingRdQ t.addr = false) :
    ∃ pre post, c.queued = pre ++ t :: post ∧
      (c.setQueue source (before ++ after)).queued = pre ++ post ∧ ∀ s ∈ pre, s.addr ≠ t.addr := by
  -- Whether there is room depends on the address alone.
  have hbefore : ∀ s ∈ before, s.addr ≠ t.addr := by
    intro s hs heq
    have hroom : c.hasRoom cfg s = c.hasRoom cfg t := by
      simp only [hasRoom, Command.place, transToCommand_addr, heq]
    rw [passed s hs, room] at hroom
    cases hroom
  have hused := h.used
  cases source with
  | unified =>
    refine ⟨before, after ++ c.readQueue ++ c.writeBuffer, ?_, ?_, hbefore⟩
    · simp only [queueOf] at queue
      simp [queued, queue]
    · simp [queued, setQueue]
  | reads =>
    have hsplit : cfg.unifiedQueue = false := by simpa using used
    rw [if_neg (by simp [hsplit])] at hused
    refine ⟨before, after ++ c.writeBuffer, ?_, ?_, hbefore⟩
    · simp only [queueOf] at queue
      simp [queued, queue, hused]
    · simp [queued, setQueue, hused]
  | writes =>
    have hsplit : cfg.unifiedQueue = false := by simpa using used
    rw [if_neg (by simp [hsplit])] at hused
    simp only [queueOf] at queue
    have hwrite : t.isWrite = true := h.writes t (by simp [queue])
    refine ⟨c.readQueue ++ before, after, ?_, ?_, ?_⟩
    · simp [queued, queue, hused]
    · simp [queued, setQueue, hused]
    · intro s hs
      exact (List.mem_append.mp hs).elim (h.no_read (late hsplit hwrite) s) (hbefore s)

theorem filter_skip {t : Transaction} {addr : UInt64} (h : t.addr ≠ addr)
    (pre post : List Transaction) :
    (pre ++ t :: post).filter (fun s => s.addr = addr) = (pre ++ post).filter
    fun s => s.addr = addr := by
  rw [List.filter_append, List.filter_append,
    List.filter_cons_of_neg (p := fun s : Transaction => decide (s.addr = addr)) (by simpa using h)]

theorem Lineup.scheduled (h : Lineup cfg c) (hscheduled : Scheduled cfg c c') : Lineup cfg c' := by
  have htidy := h.tidy.scheduled hscheduled
  cases hscheduled with
  | stay => exact h.of_eq htidy rfl rfl rfl rfl rfl rfl
  | @move source before after t drain used queue passed room late =>
    obtain ⟨pre, post, hqueued, hqueued', hpre⟩ := h.first_queued used queue passed room late
    have hwaiting : ∀ addr, ((Function.update c.cmdQueue.queues (home cfg t.addr)
        (c.cmdQueue.queues (home cfg t.addr) ++ [transToCommand cfg t]) (home cfg addr)).filter
          fun e => e.hexAddr = addr).map Command.isWrite ++
        ((pre ++ post).filter fun s => s.addr = addr).map Transaction.isWrite = c.owed addr := by
      intro addr
      rw [← h.waiting addr, Controller.waiting, hqueued]
      by_cases haddr : t.addr = addr
      · subst haddr
        have hnone : pre.filter (fun s => s.addr = t.addr) = [] := by simpa using hpre
        rw [Function.update_self, List.filter_append, List.filter_append, List.filter_append,
          List.filter_cons_of_pos (by simp), List.filter_cons_of_pos (by simp), hnone]
        simp
      · rw [filter_skip haddr]
        congr 2
        by_cases hhome : home cfg addr = home cfg t.addr
        · rw [hhome, Function.update_self, List.filter_append,
            List.filter_cons_of_neg (p := fun e : Command => decide (e.hexAddr = addr))
              fun heq => haddr (of_decide_eq_true heq)]
          simp
        · rw [Function.update_of_ne hhome]
    have hused := h.used
    have hsubset : ∀ {l : List Transaction} {P : Transaction → Prop}, l = before ++ t :: after →
        (∀ s ∈ l, P s) → ∀ s ∈ before ++ after, P s := by
      rintro _ P rfl hl s hs
      exact hl s ((List.mem_append.mp hs).elim (fun hs => by simp [hs]) fun hs => by simp [hs])
    cases source with
    | unified =>
      have hunified := used.mp rfl
      rw [if_pos hunified] at hused
      refine ⟨htidy, ?_, ?_, h.reads, h.writes, h.once⟩
      · intro addr
        have hsame := hwaiting addr
        rw [← hqueued'] at hsame
        exact hsame
      · rw [if_pos hunified]
        exact hused
    | reads =>
      have hsplit : cfg.unifiedQueue = false := by simpa using used
      rw [if_neg (by simp [hsplit])] at hused
      refine ⟨htidy, ?_, ?_, hsubset queue h.reads, h.writes, h.once⟩
      · intro addr
        have hsame := hwaiting addr
        rw [← hqueued'] at hsame
        exact hsame
      · rw [if_neg (by simp [hsplit])]
        exact hused
    | writes =>
      have hsplit : cfg.unifiedQueue = false := by simpa using used
      rw [if_neg (by simp [hsplit])] at hused
      refine ⟨htidy, ?_, ?_, h.reads, hsubset queue h.writes, h.once⟩
      · intro addr
        have hsame := hwaiting addr
        rw [← hqueued'] at hsame
        exact hsame
      · rw [if_neg (by simp [hsplit])]
        exact hused

theorem Lineup.move (h : Lineup cfg c) (hdual : cfg.enableHbmDualCmd = false)
    (hmove : Move cfg c c') :
    Lineup cfg c' := by
  have htidy := h.tidy.move hmove
  cases hmove with
  | refreshTick htick => exact h.of_eq htidy rfl rfl rfl rfl rfl rfl
  | turn hturned => exact h.of_eq htidy hturned.queues rfl rfl rfl rfl rfl
  | @refresh ref cmd rest _ front ready hissue =>
    have href := isReadWrite_of_isRefresh (h.tidy.refreshes ref (by simp [front]))
    exact h.issues (issueCommand_issues hissue) (isReadWrite_of_answer ready href)
  | row offers access hissue => exact h.issues (issueCommand_issues hissue) access
  | access offers access erase hissue =>
    obtain ⟨t, before, after, rfl, hfirst⟩ := h.first offers access
    exact h.access hfirst erase (issueCommand_issues hissue)
  | drop dual offers access erase =>
    rw [hdual] at dual
    cases dual
  | @selfRefresh rank ask cmd _ enabled asks ready hissue =>
    exact h.issues (issueCommand_issues hissue)
      (isReadWrite_of_answer ready (selfRefreshCommand_isRankCmd asks).2)
  | idle => exact h.of_eq htidy rfl rfl rfl rfl rfl rfl
  | schedule => exact h.scheduled (scheduleTransaction_scheduled cfg c)
  | clock => exact h.of_eq htidy rfl rfl rfl rfl rfl rfl

/-! ### New transactions -/

theorem queued_enqueue (h : Lineup cfg c) {t : Transaction} (rd wr : List Transaction) (addr : UInt64)
    (hempty : t.isWrite = false → c.owed t.addr = []) :
    ((enqueue cfg {c with
      pendingRdQ := rd
      pendingWrQ := wr} t).queued.filter fun s => s.addr = addr).map Transaction.isWrite =
    (c.queued.filter fun s => s.addr = addr).map Transaction.isWrite ++
      if t.addr = addr then [t.isWrite] else [] := by
  have hlast : ([t].filter fun s => s.addr = addr).map Transaction.isWrite =
      if t.addr = addr then [t.isWrite] else [] := by
    split
    · next heq => simp [heq]
    · next hne => simp [hne]
  have hused := h.used
  unfold enqueue
  split
  · next hunified =>
    rw [if_pos hunified] at hused
    simp only [queued, hused.1, hused.2, List.append_nil, List.filter_append, List.map_append, hlast]
  · next hsplit =>
    rw [if_neg hsplit] at hused
    split
    · simp only [queued, ← List.append_assoc, List.filter_append, List.map_append, hlast]
    · next hread =>
      rw [Bool.not_eq_true] at hread
      by_cases haddr : t.addr = addr
      · -- A read that joins a queue is alone with its address.
        subst haddr
        have hnone := hempty hread
        rw [← h.waiting, Controller.waiting, List.append_eq_nil_iff] at hnone
        have hqueued := hnone.2
        simp only [queued, List.filter_append, List.map_append, List.append_eq_nil_iff] at hqueued
        obtain ⟨⟨h₁, h₂⟩, h₃⟩ := hqueued
        simp only [queued, List.filter_append, List.map_append, h₁, h₂, h₃, hlast]
        rfl
      · rw [if_neg haddr] at hlast ⊢
        simp only [queued, List.filter_append, List.map_append, hlast, List.append_nil]

theorem Lineup.enqueue (h : Lineup cfg c) {t : Transaction} (rd wr : List Transaction)
    (hempty : t.isWrite = false → c.owed t.addr = [])
    (howed : ∀ addr, ({c with
      pendingRdQ := rd
      pendingWrQ := wr} : Controller).owed addr = c.owed addr ++ if t.addr = addr then
        [t.isWrite] else [])
    (honce : (wr.map Transaction.addr).Nodup) :
    Lineup cfg (enqueue cfg {c with
      pendingRdQ := rd
      pendingWrQ := wr} t) := by
  have hqueues : ∀ c₀ : Controller, (Controller.enqueue cfg c₀ t).cmdQueue = c₀.cmdQueue ∧
      (Controller.enqueue cfg c₀ t).owed = c₀.owed ∧
      (Controller.enqueue cfg c₀ t).pendingWrQ = c₀.pendingWrQ := by
    intro c₀
    unfold Controller.enqueue
    split
    · exact ⟨rfl, rfl, rfl⟩
    · split <;> exact ⟨rfl, rfl, rfl⟩
  obtain ⟨hq, ho, hw⟩ := hqueues {c with
    pendingRdQ := rd
    pendingWrQ := wr}
  have hused := h.used
  refine ⟨?_, ?_, ?_, ?_, ?_, ?_⟩
  · unfold Controller.enqueue
    split
    · exact ⟨h.tidy.clk, h.tidy.entries, h.tidy.refreshes⟩
    · split <;> exact ⟨h.tidy.clk, h.tidy.entries, h.tidy.refreshes⟩
  · intro addr
    have hold := h.waiting addr
    rw [Controller.waiting, hq, queued_enqueue h rd wr addr hempty, ho, howed, ← hold, Controller.waiting,
      List.append_assoc]
  · unfold Controller.enqueue
    split
    · next hunified =>
      rw [if_pos hunified] at hused
      exact hused
    · next hsplit =>
      rw [if_neg hsplit] at hused
      split <;> exact hused
  · unfold Controller.enqueue
    split
    · exact h.reads
    · split
      · exact h.reads
      · next hread =>
        intro s hs
        rcases List.mem_append.mp hs with hs | hs
        · exact h.reads s hs
        · rw [List.mem_singleton.mp hs]
          simpa using hread
  · unfold Controller.enqueue
    split
    · exact h.writes
    · split
      · next hwrite =>
        intro s hs
        rcases List.mem_append.mp hs with hs | hs
        · exact h.writes s hs
        · rwa [List.mem_singleton.mp hs]
      · exact h.writes
  · rw [hw]
    exact honce

theorem Lineup.add (h : Lineup cfg c) (addr : UInt64) (isWrite : Bool) :
    Lineup cfg (c.addTransaction cfg addr isWrite) := by
  have hanswer : ∀ {c₁ : Controller} {answers : List Transaction}, Lineup cfg c₁ →
      Lineup cfg {c₁ with returnQueue := answers} := by
    intro c₁ answers h₁
    exact h₁.of_eq ⟨h₁.tidy.clk, h₁.tidy.entries, h₁.tidy.refreshes⟩ rfl rfl rfl rfl rfl rfl
  unfold addTransaction
  dsimp only
  split
  · next hwrite =>
    split
    · exact hanswer h
    · next hnew =>
      rw [Bool.not_eq_true] at hnew
      refine hanswer (h.enqueue c.pendingRdQ _ (by simp [hwrite]) ?_ ?_)
      · intro b
        by_cases hb : addr = b
        · subst hb
          simp [owed, hnew, hwrite]
        · simp [owed, hb]
      · rw [List.map_append, List.nodup_append]
        refine ⟨h.once, List.nodup_singleton _, ?_⟩
        rintro b hb b' hb' rfl
        obtain rfl : b = addr := by simpa using hb'
        rw [Bool.eq_false_iff, Ne, pending_iff] at hnew
        exact hnew hb
  · next hread =>
    rw [Bool.not_eq_true] at hread
    split
    · exact hanswer h
    · next hnoWrite =>
      rw [Bool.not_eq_true] at hnoWrite
      split
      · next hjoin =>
        -- The address is pending already.
        refine ⟨⟨h.tidy.clk, h.tidy.entries, h.tidy.refreshes⟩, ?_, h.used, h.reads, h.writes, h.once⟩
        intro b
        have hold := h.waiting b
        unfold owed at hold ⊢
        have hsame : pending (c.pendingRdQ ++ [{addr := addr, addedCycle := c.clk, isWrite :=
            isWrite}]) b = pending c.pendingRdQ b := by
          by_cases hb : addr = b
          · subst hb
            simp [hjoin]
          · simp [hb]
        rw [hsame]
        exact hold
      · next hnew =>
        rw [Bool.not_eq_true] at hnew
        refine h.enqueue _ c.pendingWrQ (fun _ => by simp [owed, hnew, hnoWrite]) ?_ h.once
        intro b
        by_cases hb : addr = b
        · subst hb
          simp [owed, hnew, hnoWrite, hread]
        · simp [owed, hb]

theorem Lineup.collect (h : Lineup cfg c) (clk : Nat) : Lineup cfg (c.returnDoneTrans clk).2 := by
  unfold returnDoneTrans
  split
  · exact h
  · exact h.of_eq ⟨h.tidy.clk, h.tidy.entries, h.tidy.refreshes⟩ rfl rfl rfl rfl rfl rfl

end Controller

end Hsim.Dramsim3
