import Hsim.Dramsim3.Config

/-! The spacing of commands, `Timing`.

For every command the cycles after which another may follow: in the same bank, in
the other banks of its group, in the other groups of its rank, in other ranks, and
for commands to a whole rank in that rank. -/
namespace Hsim.Dramsim3

abbrev Delays := List (CommandType × Int)

namespace Config
variable (cfg : Config)

/-- With one bank group the short distances hold in the group as well. -/
def long (l s : Int) : Int := if cfg.bankgroups = 1 then s else l

def readToReadL : Int := cfg.long (max cfg.burstCycle cfg.tCCD_L) (max cfg.burstCycle cfg.tCCD_S)
def readToReadS : Int := max cfg.burstCycle cfg.tCCD_S
def readToReadO : Int := cfg.burstCycle + cfg.tRTRS
def readToWrite : Int := cfg.rl + cfg.burstCycle - cfg.wl + cfg.tRTRS
def readToWriteO : Int := cfg.readDelay + cfg.burstCycle + cfg.tRTRS - cfg.writeDelay
def readToPrecharge : Int := cfg.al + cfg.tRTP
def readpToAct : Int := cfg.al + cfg.burstCycle + cfg.tRTP + cfg.tRP

def writeToReadL : Int := cfg.long (cfg.writeDelay + cfg.tWTR_L) (cfg.writeDelay + cfg.tWTR_S)
def writeToReadS : Int := cfg.writeDelay + cfg.tWTR_S
def writeToReadO : Int := cfg.writeDelay + cfg.burstCycle + cfg.tRTRS - cfg.readDelay
def writeToWriteL : Int := cfg.long (max cfg.burstCycle cfg.tCCD_L) (max cfg.burstCycle cfg.tCCD_S)
def writeToWriteS : Int := max cfg.burstCycle cfg.tCCD_S
def writeToWriteO : Int := cfg.burstCycle
def writeToPrecharge : Int := cfg.wl + cfg.burstCycle + cfg.tWR

def prechargeToActivate : Int := cfg.tRP
def prechargeToPrecharge : Int := cfg.tPPD
def readToActivate : Int := cfg.readToPrecharge + cfg.prechargeToActivate
def writeToActivate : Int := cfg.writeToPrecharge + cfg.prechargeToActivate

def activateToActivate : Int := cfg.tRC
def activateToActivateL : Int := cfg.long cfg.tRRD_L cfg.tRRD_S
def activateToActivateS : Int := cfg.tRRD_S
def activateToPrecharge : Int := cfg.tRAS
def activateToRead : Int :=
  if cfg.protocol.isGddr || cfg.protocol.isHbm then cfg.tRCDRD else cfg.tRCD - cfg.al
def activateToWrite : Int :=
  if cfg.protocol.isGddr || cfg.protocol.isHbm then cfg.tRCDWR else cfg.tRCD - cfg.al
def activateToRefresh : Int := cfg.tRC

def refreshToRefresh : Int := cfg.tREFI
def refreshToActivate : Int := cfg.tRFC
def selfRefreshEntryToExit : Int := cfg.tCKESR
def selfRefreshExit : Int := cfg.tXS

/-- The four entries that a column command leaves for the column commands after it. -/
def columns (toRead toWrite : Int) : Delays :=
  [(.read, toRead), (.write, toWrite), (.readPrecharge, toRead), (.writePrecharge, toWrite)]

/-- The entries for what needs a closed bank. -/
def closed (toActivate toRefresh : Int) : Delays :=
  [(.activate, toActivate), (.refresh, toRefresh), (.refreshBank, toRefresh), (.srefEnter, toRefresh)]

def sameBank : CommandType → Delays
  | .read => columns cfg.readToReadL cfg.readToWrite ++ [(.precharge, cfg.readToPrecharge)]
  | .write => columns cfg.writeToReadL cfg.writeToWriteL ++ [(.precharge, cfg.writeToPrecharge)]
  | .readPrecharge => closed cfg.readpToAct cfg.readToActivate
  | .writePrecharge => closed cfg.writeToActivate cfg.writeToActivate
  | .activate => (.activate, cfg.activateToActivate) :: columns cfg.activateToRead cfg.activateToWrite ++
      [(.precharge, cfg.activateToPrecharge)]
  | .precharge => closed cfg.prechargeToActivate cfg.prechargeToActivate
  | _ => []

/-- Two precharges in different banks, where the protocol keeps them apart. -/
def prechargeGap : Delays :=
  if cfg.protocol.isGddr || cfg.protocol == .lpddr4 then [(.precharge, cfg.prechargeToPrecharge)] else []

def otherBanksSameBankgroup : CommandType → Delays
  | .read | .readPrecharge => columns cfg.readToReadL cfg.readToWrite
  | .write | .writePrecharge => columns cfg.writeToReadL cfg.writeToWriteL
  | .activate => [(.activate, cfg.activateToActivateL), (.refreshBank, cfg.activateToRefresh)]
  | .precharge => cfg.prechargeGap
  | .refreshBank => [(.activate, cfg.refreshToActivate), (.refreshBank, cfg.refreshToRefresh)]
  | _ => []

def otherBankgroupsSameRank : CommandType → Delays
  | .read | .readPrecharge => columns cfg.readToReadS cfg.readToWrite
  | .write | .writePrecharge => columns cfg.writeToReadS cfg.writeToWriteS
  | .activate => [(.activate, cfg.activateToActivateS), (.refreshBank, cfg.activateToRefresh)]
  | .precharge => cfg.prechargeGap
  | .refreshBank => [(.activate, cfg.refreshToActivate), (.refreshBank, cfg.refreshToRefresh)]
  | _ => []

def otherRanks : CommandType → Delays
  | .read | .readPrecharge => columns cfg.readToReadO cfg.readToWriteO
  | .write | .writePrecharge => columns cfg.writeToReadO cfg.writeToWriteO
  | _ => []

/-- The entry for a bank refresh is in this table as well, where nothing reads it. -/
def sameRank : CommandType → Delays
  | .refreshBank => closed cfg.tRFCb cfg.tRFCb
  | .refresh =>
    [(.activate, cfg.refreshToActivate), (.refresh, cfg.refreshToActivate), (.srefEnter, cfg.refreshToActivate)]
  | .srefEnter => [(.srefExit, cfg.selfRefreshEntryToExit)]
  | .srefExit => closed cfg.selfRefreshExit cfg.selfRefreshExit
  | _ => []

end Config

end Hsim.Dramsim3
