import Hsim.Dramsim3.ChannelState

/-! The commands that wait for a channel, `CommandQueue`.

There is a queue for each bank or for each rank. The queues take turns, and a turn
issues the first command of its queue that is ready, or what that command needs
first: a row is closed only for the oldest command of its bank, and only if no
command waits for the open row or enough have had it. While a refresh is due, the
queues it concerns are passed over. -/
namespace Hsim.Dramsim3

namespace Config
variable (cfg : Config)

def numQueues : Nat :=
  match cfg.queueStructure with
  | .perBank => (cfg.banks * cfg.ranks).toNat
  | .perRank => cfg.ranks.toNat

/-- `GetQueueIndex`. -/
def queueIndex (b : Bank) : Int :=
  match cfg.queueStructure with
  | .perRank => b.rank
  | .perBank => b.rank * cfg.banks + b.bankgroup * cfg.banksPerGroup + b.bank

end Config

structure CommandQueue where
  queues : Int → List Command := fun _ => []
  rankQEmpty : Int → Bool := fun _ => true
  refQIndices : List Int := []
  isInRef : Bool := false
  queueIdx : Int := 0
  clk : Nat := 0

namespace CommandQueue
variable (cfg : Config)

/-- `GetRefQIndices`: the queues that a refresh holds up. -/
def refIndices (ref : Command) : List Int :=
  if ref.cmdType = .refresh then
    match cfg.queueStructure with
    | .perBank =>
      ((List.range cfg.numQueues).map Int.ofNat).filter fun i => i.tdiv cfg.banks = ref.addr.rank
    | .perRank => [ref.addr.rank]
  else [cfg.queueIndex ref.place]

/-- `ArbitratePrecharge`, with the queue before the command and from it on. -/
def arbitratePrecharge (ch : ChannelState) (before : List Command) (cmd : Command)
    (rest : List Command) : Bool :=
  if before.any fun c => c.place = cmd.place then false
  else
    let open_ := (ch.bankStates cmd.place).openRow
    let pendingRowHitsExist := (cmd :: rest).any fun c => c.addr.row = open_ ∧ c.place = cmd.place
    let rowhitLimitReached := decide (4 ≤ (ch.bankStates cmd.place).rowHitCount)
    !pendingRowHitsExist || rowhitLimitReached

/-- `HasRWDependency`: an earlier read of the same place. The rank is not compared. -/
def hasRWDependency (before : List Command) (cmd : Command) : Bool :=
  before.any fun c => c.isRead ∧ c.addr.row = cmd.addr.row ∧ c.addr.column = cmd.addr.column ∧
    c.addr.bank = cmd.addr.bank ∧ c.addr.bankgroup = cmd.addr.bankgroup

/-- `GetFirstReadyInQueue`, with the part of the queue that has been passed. -/
def getFirstReady (ch : ChannelState) (clk : Nat) (before : List Command) :
    List Command → Except Abort (Option Command)
  | [] => .ok none
  | cmd :: rest => do
    match ← ch.getReadyCommand cfg cmd clk with
    | none => getFirstReady ch clk (before ++ [cmd]) rest
    | some r =>
      if r.cmdType = .precharge ∧ ¬ arbitratePrecharge ch before cmd rest then
        getFirstReady ch clk (before ++ [cmd]) rest
      else if r.isWrite ∧ hasRWDependency before cmd then
        getFirstReady ch clk (before ++ [cmd]) rest
      else return some r

/-- `GetNextQueue`. -/
def nextQueue (q : CommandQueue) : CommandQueue :=
  {q with queueIdx := if q.queueIdx + 1 = cfg.numQueues then 0 else q.queueIdx + 1}

def eraseRWCommand (q : CommandQueue) (cmd : Command) : Except Abort CommandQueue :=
  let i := cfg.queueIndex cmd.place
  let same := fun c : Command => cmd.hexAddr == c.hexAddr && cmd.cmdType == c.cmdType
  if (q.queues i).any same then
    .ok {q with queues := Function.update q.queues i ((q.queues i).eraseP same)}
  else .error .cannotFindCmd

/-- The loop of `GetCommandToIssue`, for the turns that are left. -/
def issueFrom (ch : ChannelState) : Nat → CommandQueue → Except Abort (Option Command × CommandQueue)
  | 0, q => .ok (none, q)
  | turns + 1, q =>
    let q := q.nextQueue cfg
    if q.isInRef ∧ q.queueIdx ∈ q.refQIndices then issueFrom ch turns q
    else do
      match ← getFirstReady cfg ch q.clk [] (q.queues q.queueIdx) with
      | none => issueFrom ch turns q
      | some cmd =>
        if cmd.isReadWrite then return (some cmd, ← q.eraseRWCommand cfg cmd)
        else return (some cmd, q)

def getCommandToIssue (q : CommandQueue) (ch : ChannelState) :
    Except Abort (Option Command × CommandQueue) := issueFrom cfg ch cfg.numQueues q

/-- `FinishRefresh`, for the refresh at the front. -/
def finishRefresh (q : CommandQueue) (ch : ChannelState) (ref : Command) :
    Except Abort (Option Command × CommandQueue) := do
  let q := if q.isInRef then q else {q with
    refQIndices := q.refQIndices ++ refIndices cfg ref
    isInRef := true}
  let cmd ← ch.getReadyCommand cfg ref q.clk
  return (cmd, if cmd.any Command.isRefresh then {q with
    refQIndices := []
    isInRef := false} else q)

def willAcceptCommand (q : CommandQueue) (b : Bank) : Bool :=
  (q.queues (cfg.queueIndex b)).length < cfg.cmdQueueSize

/-- `QueueEmpty`. -/
def queueEmpty (q : CommandQueue) : Bool :=
  (List.range cfg.numQueues).all fun i : Nat => (q.queues i).isEmpty

def addCommand (q : CommandQueue) (cmd : Command) : CommandQueue :=
  let i := cfg.queueIndex cmd.place
  if (q.queues i).length < cfg.cmdQueueSize then {q with
    queues := Function.update q.queues i (q.queues i ++ [cmd])
    rankQEmpty := Function.update q.rankQEmpty cmd.addr.rank false}
  else q

end CommandQueue

end Hsim.Dramsim3
