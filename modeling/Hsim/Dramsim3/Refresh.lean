import Hsim.Dramsim3.ChannelState

/-! When a channel is refreshed, `Refresh`.

Every interval one refresh is put in the channel's queue: of the first rank that does
not refresh itself, of the ranks in turn, or of the banks in turn. -/
namespace Hsim.Dramsim3

structure Refresh where
  clk : Nat := 0
  nextRank : Int := 0
  nextBg : Int := 0
  nextBank : Int := 0

namespace Config
variable (cfg : Config)

/-- `refresh_interval_` as the unsigned word it is compared as. -/
def refreshInterval : Nat :=
  let interval := match cfg.refreshPolicy with
    | .rankLevelSimultaneous => cfg.tREFI
    | .bankLevelStaggered => cfg.tREFIb
    | .rankLevelStaggered => cfg.tREFI.tdiv cfg.ranks
  (interval % 2 ^ 64).toNat

/-- The first rank that does not refresh itself. -/
def firstAwake (ch : ChannelState) : Option Int :=
  ((List.range cfg.ranks.toNat).map Int.ofNat).find? fun i => !ch.rankIsSref i

end Config

namespace Refresh
variable (cfg : Config)

def iterateNext (r : Refresh) : Refresh :=
  match cfg.refreshPolicy with
  | .rankLevelStaggered => {r with nextRank := (r.nextRank + 1).tmod cfg.ranks}
  | .bankLevelStaggered =>
    let bg := (r.nextBg + 1).tmod cfg.bankgroups
    if bg = 0 then
      let bank := (r.nextBank + 1).tmod cfg.banksPerGroup
      if bank = 0 then {r with
        nextBg := bg
        nextBank := bank
        nextRank := (r.nextRank + 1).tmod cfg.ranks}
      else {r with
        nextBg := bg
        nextBank := bank}
    else {r with nextBg := bg}
  | .rankLevelSimultaneous => r

def insertRefresh (r : Refresh) (ch : ChannelState) : Refresh × ChannelState :=
  match cfg.refreshPolicy with
  | .rankLevelSimultaneous =>
    match cfg.firstAwake ch with
    | some i => (r, ch.rankNeedRefresh i true)
    | none => (r, ch)
  | .rankLevelStaggered =>
    (r.iterateNext cfg, if ch.rankIsSref r.nextRank then ch else ch.rankNeedRefresh r.nextRank true)
  | .bankLevelStaggered =>
    (r.iterateNext cfg,
      if ch.rankIsSref r.nextRank then ch else ch.bankNeedRefresh r.nextRank r.nextBg r.nextBank true)

def clockTick (r : Refresh) (ch : ChannelState) : Except Abort (Refresh × ChannelState) :=
  if cfg.refreshInterval = 0 then .error .divisionByZero
  else
    let (r, ch) := if r.clk % cfg.refreshInterval = 0 ∧ 0 < r.clk then r.insertRefresh cfg ch else (r, ch)
    .ok ({r with clk := r.clk + 1}, ch)

end Refresh

end Hsim.Dramsim3
