import Hsim.Dramsim3.CommandQueue
import Hsim.Dramsim3.Refresh

/-! One channel, `Controller`.

Transactions come in through a queue each for reads and writes, or one for both, and
are turned into commands as the command queues have room. A write is answered at
once and a read when its command is issued; a read that finds a write to its
address waiting is answered from it, and one that finds a read waits with that.
Each cycle issues a command at most (two, of different kinds, for HBM). -/
namespace Hsim.Dramsim3

structure Controller where
  clk : Nat := 0
  channelState : ChannelState := {}
  cmdQueue : CommandQueue := {}
  refresh : Refresh := {}
  unifiedQueue : List Transaction := []
  readQueue : List Transaction := []
  writeBuffer : List Transaction := []
  /-- The multimaps of pending transactions, in the order of insertion. -/
  pendingRdQ : List Transaction := []
  pendingWrQ : List Transaction := []
  returnQueue : List Transaction := []
  writeDraining : Int := 0
  /-- `cmd_trace_`: what has been issued, and when. -/
  cmdTrace : List (Nat × Command) := []

namespace Controller
variable (cfg : Config)

/-! ### Transactions -/

/-- `ReturnDoneTrans`: the first answer whose cycle has come, with whether it is a write. -/
def returnDoneTrans (c : Controller) (clk : Nat) : Option (UInt64 × Bool) × Controller :=
  match c.returnQueue.find? fun t => t.completeCycle ≤ clk with
  | none => (none, c)
  | some t =>
    (some (t.addr, t.isWrite), {c with returnQueue := c.returnQueue.eraseP fun t => t.completeCycle ≤ clk})

/-- The capacity of a queue is what the constructor has reserved. -/
def willAcceptTransaction (c : Controller) (isWrite : Bool) : Bool :=
  if cfg.unifiedQueue then c.unifiedQueue.length < cfg.transQueueSize
  else if isWrite then c.writeBuffer.length < cfg.transQueueSize
  else c.readQueue.length < cfg.transQueueSize

/-- A transaction joins its queue. -/
def enqueue (c : Controller) (t : Transaction) : Controller :=
  if cfg.unifiedQueue then {c with unifiedQueue := c.unifiedQueue ++ [t]}
  else if t.isWrite then {c with writeBuffer := c.writeBuffer ++ [t]}
  else {c with readQueue := c.readQueue ++ [t]}

/-- Whether a queue of pending transactions has one for an address. -/
def pending (queue : List Transaction) (addr : UInt64) : Bool := queue.any fun t => t.addr == addr

def addTransaction (c : Controller) (addr : UInt64) (isWrite : Bool) : Controller :=
  let t : Transaction := {
    addr := addr
    addedCycle := c.clk
    isWrite := isWrite}
  let answered := {t with completeCycle := c.clk + 1}
  if isWrite then
    let c := if pending c.pendingWrQ addr then c else
      enqueue cfg {c with pendingWrQ := c.pendingWrQ ++ [t]} t
    {c with returnQueue := c.returnQueue ++ [answered]}
  else if pending c.pendingWrQ addr then {c with returnQueue := c.returnQueue ++ [answered]}
  else if pending c.pendingRdQ addr then {c with pendingRdQ := c.pendingRdQ ++ [t]}
  else enqueue cfg {c with pendingRdQ := c.pendingRdQ ++ [t]} t

/-- `TransToCommand`. -/
def transToCommand (t : Transaction) : Command where
  cmdType := match cfg.rowBufPolicy, t.isWrite with
    | .openPage, true => .write
    | .openPage, false => .read
    | .closePage, true => .writePrecharge
    | .closePage, false => .readPrecharge
  addr := cfg.mapping.addressMapping t.addr
  hexAddr := t.addr

/-- The queue that `ScheduleTransaction` takes from. -/
inductive Source where
  | unified
  | reads
  | writes
  deriving DecidableEq, Repr

def queueOf (c : Controller) : Source → List Transaction
  | .unified => c.unifiedQueue
  | .reads => c.readQueue
  | .writes => c.writeBuffer

def setQueue (c : Controller) (source : Source) (queue : List Transaction) : Controller :=
  match source with
  | .unified => {c with unifiedQueue := queue}
  | .reads => {c with readQueue := queue}
  | .writes => {c with writeBuffer := queue}

/-- The writes that are left to drain before reads are scheduled again. -/
def drainTarget (c : Controller) : Int :=
  if c.writeDraining = 0 ∧ ¬ cfg.unifiedQueue ∧ (cfg.transQueueSize ≤ c.writeBuffer.length ∨
      (8 < c.writeBuffer.length ∧ c.cmdQueue.queueEmpty cfg) ∨ c.readQueue = []) then
    c.writeBuffer.length
  else c.writeDraining

def source (c : Controller) : Source :=
  if cfg.unifiedQueue then .unified else if 0 < c.drainTarget cfg then .writes else .reads

/-- A transaction for whose command there is room. -/
def hasRoom (c : Controller) (t : Transaction) : Bool :=
  c.cmdQueue.willAcceptCommand cfg (transToCommand cfg t).place

def scheduleTransaction (c : Controller) : Controller :=
  let draining := c.drainTarget cfg
  let source := c.source cfg
  let queue := c.queueOf source
  match queue.find? (c.hasRoom cfg) with
  | none => {c with writeDraining := draining}
  | some t =>
    let cmd := transToCommand cfg t
    if !cfg.unifiedQueue && cmd.isWrite && pending c.pendingRdQ t.addr then {c with writeDraining := 0}
    else setQueue {c with
        writeDraining := if !cfg.unifiedQueue && cmd.isWrite then draining - 1 else draining
        cmdQueue := c.cmdQueue.addCommand cfg cmd}
      source (queue.eraseP (c.hasRoom cfg))

/-! ### Commands -/

/-- The reads that a command answers. -/
def answerReads (c : Controller) (addr : UInt64) : Controller :=
  {c with
    pendingRdQ := c.pendingRdQ.filter fun t => t.addr ≠ addr
    returnQueue := c.returnQueue ++ (c.pendingRdQ.filter fun t => t.addr = addr).map fun t =>
      {t with completeCycle := later c.clk cfg.readDelay}}

/-- What `IssueCommand` does to the pending transactions. -/
def settle (c : Controller) (cmd : Command) : Except Abort Controller :=
  if cmd.isRead then
    if pending c.pendingRdQ cmd.hexAddr then .ok (c.answerReads cfg cmd.hexAddr)
    else .error .notInReadQueue
  else if cmd.isWrite then
    if pending c.pendingWrQ cmd.hexAddr then
      .ok {c with pendingWrQ := c.pendingWrQ.eraseP fun t => t.addr == cmd.hexAddr}
    else .error .notInWriteQueue
  else .ok c

def issueCommand (c : Controller) (cmd : Command) : Except Abort Controller := do
  let c ← {c with cmdTrace := c.cmdTrace ++ [(c.clk, cmd)]}.settle cfg cmd
  let ch ← c.channelState.updateTimingAndStates cfg cmd c.clk
  return {c with channelState := ch}

/-- The command of a cycle: the refresh that waits, or what the queues have. -/
def nextCommand (c : Controller) : Except Abort (Option Command × CommandQueue) :=
  match c.channelState.refreshQ with
  | [] => c.cmdQueue.getCommandToIssue cfg c.channelState
  | ref :: _ => do
    let (cmd, q) ← c.cmdQueue.finishRefresh cfg c.channelState ref
    match cmd with
    | some cmd => return (some cmd, q)
    | none => q.getCommandToIssue cfg c.channelState

/-- HBM's second command. It is taken from its queue also if it is not issued. -/
def issueSecond (c : Controller) (first : Command) : Except Abort Controller := do
  let (cmd, q) ← c.cmdQueue.getCommandToIssue cfg c.channelState
  let c := {c with cmdQueue := q}
  match cmd with
  | some cmd => if cmd.isReadWrite ≠ first.isReadWrite then c.issueCommand cfg cmd else return c
  | none => return c

/-- The part of a cycle that issues, with whether it did. -/
def issue (c : Controller) : Except Abort (Controller × Bool) := do
  let (cmd, q) ← c.nextCommand cfg
  let c := {c with cmdQueue := q}
  match cmd with
  | none => return (c, false)
  | some cmd =>
    let c ← c.issueCommand cfg cmd
    if cfg.enableHbmDualCmd then return (← c.issueSecond cfg cmd, true)
    else return (c, true)

/-- The cycles for which each rank has been idle. -/
def countIdle (c : Controller) : Controller :=
  let ch := c.channelState
  {c with channelState := {ch with
    rankIdleCycles := Lib.forEach
      (fun i n => if ch.rankIsSref i then n else if ch.isAllBankIdleInRank cfg i then n + 1 else 0)
      ((List.range cfg.ranks.toNat).map Int.ofNat) ch.rankIdleCycles}}

/-- Whether a rank should change between refreshing itself and not. -/
def selfRefreshCommand (c : Controller) (rank : Int) : Option Command :=
  if c.channelState.rankIsSref rank then
    if c.cmdQueue.rankQEmpty rank then none else some ⟨.srefExit, {rank := rank}, noAddr⟩
  else if c.cmdQueue.rankQEmpty rank ∧ cfg.srefThreshold ≤ c.channelState.rankIdleCycles rank then
    some ⟨.srefEnter, {rank := rank}, noAddr⟩
  else none

/-- The first rank whose change is due makes it. -/
def selfRefresh (c : Controller) : List Int → Except Abort Controller
  | [] => .ok c
  | rank :: rest =>
    match c.selfRefreshCommand cfg rank with
    | none => c.selfRefresh rest
    | some cmd => do
      match ← c.channelState.getReadyCommand cfg cmd c.clk with
      | none => c.selfRefresh rest
      | some r => c.issueCommand cfg r

def clockTick (c : Controller) : Except Abort Controller := do
  let (refresh, ch) ← c.refresh.clockTick cfg c.channelState
  let (c, issued) ← {c with
    refresh := refresh
    channelState := ch}.issue cfg
  let c := c.countIdle cfg
  let c ← (if cfg.enableSelfRefresh && !issued then
      c.selfRefresh cfg ((List.range cfg.ranks.toNat).map Int.ofNat)
    else .ok c)
  let c := c.scheduleTransaction cfg
  return {c with
    clk := c.clk + 1
    cmdQueue := {c.cmdQueue with clk := c.cmdQueue.clk + 1}}

/-! ### Runs -/

/-- What the memory system does with a controller. -/
inductive Event where
  /-- A transaction that is offered; it is added if there is room. -/
  | add (addr : UInt64) (isWrite : Bool)
  /-- One call of `ReturnDoneTrans`. -/
  | collect (clk : Nat)
  | tick
  deriving DecidableEq, Repr

def step (c : Controller) : Event → Except Abort Controller
  | .add addr isWrite =>
    .ok (if c.willAcceptTransaction cfg isWrite then c.addTransaction cfg addr isWrite else c)
  | .collect clk => .ok (c.returnDoneTrans clk).2
  | .tick => c.clockTick cfg

def run (c : Controller) : List Event → Except Abort Controller
  | [] => .ok c
  | e :: rest => do (← c.step cfg e).run rest

end Controller

end Hsim.Dramsim3
