import Hsim.Dramsim3.Command

/-! The configuration of a memory system, `Config`.

An `.ini` file is read section by section, with a default for every option. The
number of ranks follows from the sizes, and the address mapping from a string that
names the six fields of an address, the highest first, two letters each. Each
field is as wide as the logarithm of its count, rounded down. -/
namespace Hsim.Dramsim3

/-- `INIReader`, as far as it is asked: section, option, default. -/
structure Reader where
  get : String → String → String → String
  getInteger : String → String → Int → Int
  getBoolean : String → String → Bool → Bool

inductive Protocol where
  | ddr3
  | ddr4
  | gddr5
  | gddr5x
  | gddr6
  | lpddr
  | lpddr3
  | lpddr4
  | lpddr5
  | hbm
  | hbm2
  | hmc
  deriving DecidableEq, Repr

namespace Protocol

def isGddr (p : Protocol) : Bool := p == .gddr5 || p == .gddr5x || p == .gddr6

def isHbm (p : Protocol) : Bool := p == .hbm || p == .hbm2

/-- `GetDRAMProtocol`. -/
def ofName : String → Except Abort Protocol
  | "DDR3" => .ok .ddr3
  | "DDR4" => .ok .ddr4
  | "GDDR5" => .ok .gddr5
  | "GDDR5X" => .ok .gddr5x
  | "GDDR6" => .ok .gddr6
  | "LPDDR" => .ok .lpddr
  | "LPDDR3" => .ok .lpddr3
  | "LPDDR4" => .ok .lpddr4
  | "LPDDR5" => .ok .lpddr5
  | "HBM" => .ok .hbm
  | "HBM2" => .ok .hbm2
  | "HMC" => .ok .hmc
  | _ => .error .badConfig

end Protocol

inductive RefreshPolicy where
  | rankLevelSimultaneous
  | rankLevelStaggered
  | bankLevelStaggered
  deriving DecidableEq, Repr

inductive RowBufPolicy where
  | openPage
  | closePage
  deriving DecidableEq, Repr

inductive QueueStructure where
  | perRank
  | perBank
  deriving DecidableEq, Repr

/-! ### The address mapping -/

/-- The six fields of an address. -/
inductive Field where
  | ch
  | ra
  | bg
  | ba
  | ro
  | co
  deriving DecidableEq, Repr

/-- The two letters by which `field_widths` knows a field. -/
def Field.ofToken : List Char → Except Abort Field
  | ['c', 'h'] => .ok .ch
  | ['r', 'a'] => .ok .ra
  | ['b', 'g'] => .ok .bg
  | ['b', 'a'] => .ok .ba
  | ['r', 'o'] => .ok .ro
  | ['c', 'o'] => .ok .co
  | _ => .error .badConfig

/-- `LogBase2`. -/
def logBase2 (n : Nat) : Nat := if 1 < n then logBase2 (n / 2) + 1 else 0
termination_by n

/-- Where each field starts and how many bits it has. -/
structure Mapping where
  shiftBits : Nat
  pos : Field → Nat
  width : Field → Nat

/-- The tokens of the mapping string. -/
def tokens : List Char → List (List Char)
  | a :: b :: rest => [a, b] :: tokens rest
  | [a] => [[a]]
  | [] => []

/-- The loop that empties `fields` from its back. A field named twice gets the later place. -/
def placeFields (width : Field → Nat) : List Field → Nat → (Field → Option Nat) → Field → Option Nat
  | [], _, pos => pos
  | f :: rest, at_, pos => placeFields width rest (at_ + width f) (Function.update pos f (some at_))

/-- `field_pos.at(f)`, which throws for a field the string does not name. -/
def placed (pos : Field → Option Nat) (f : Field) : Except Abort Nat :=
  match pos f with
  | some n => .ok n
  | none => .error .badConfig

/-- The field names, the lowest field first. -/
def mappingFields (addressMapping : String) : Except Abort (List Field) :=
  if addressMapping.toList.length ≠ 12 then .error .badConfig
  else (tokens addressMapping.toList).reverse.mapM Field.ofToken

/-- `SetAddressMapping`, for the widths it has computed. -/
def setAddressMapping (addressMapping : String) (shiftBits : Nat) (width : Field → Nat) :
    Except Abort Mapping := do
  let fields ← mappingFields addressMapping
  let pos := placeFields width fields 0 fun _ => none
  let ch ← placed pos .ch
  let ra ← placed pos .ra
  let bg ← placed pos .bg
  let ba ← placed pos .ba
  let ro ← placed pos .ro
  let co ← placed pos .co
  return {
    shiftBits := shiftBits
    pos := fun
      | .ch => ch
      | .ra => ra
      | .bg => bg
      | .ba => ba
      | .ro => ro
      | .co => co
    width := width}

namespace Mapping

def mask (m : Mapping) (f : Field) : Nat := 2 ^ m.width f - 1

/-- One field of an address. -/
def field (m : Mapping) (hexAddr : UInt64) (f : Field) : Nat :=
  ((hexAddr.toNat >>> m.shiftBits) >>> m.pos f) &&& m.mask f

/-- `Config::AddressMapping`. -/
def addressMapping (m : Mapping) (hexAddr : UInt64) : Address where
  channel := m.field hexAddr .ch
  rank := m.field hexAddr .ra
  bankgroup := m.field hexAddr .bg
  bank := m.field hexAddr .ba
  row := m.field hexAddr .ro
  column := m.field hexAddr .co

/-- `BaseDRAMSystem::GetChannel`. -/
def getChannel (m : Mapping) (hexAddr : UInt64) : Nat := m.field hexAddr .ch

end Mapping

/-! ### The configuration -/

/-- The fields of `Config` that the simulator reads beside power and output. -/
structure Config where
  protocol : Protocol
  channels : Int
  ranks : Int
  bankgroups : Int
  banksPerGroup : Int
  /-- `AddressMapping` with the positions and masks it reads. -/
  mapping : Mapping
  burstCycle : Int
  al : Int
  cl : Int
  cwl : Int
  tCCD_L : Int
  tCCD_S : Int
  tRTRS : Int
  tRTP : Int
  tWTR_L : Int
  tWTR_S : Int
  tWR : Int
  tRP : Int
  tRRD_L : Int
  tRRD_S : Int
  tRAS : Int
  tRCD : Int
  tRFC : Int
  tCKESR : Int
  tXS : Int
  tRFCb : Int
  tREFI : Int
  tREFIb : Int
  tFAW : Int
  tPPD : Int
  t32AW : Int
  tRCDRD : Int
  tRCDWR : Int
  queueStructure : QueueStructure
  rowBufPolicy : RowBufPolicy
  refreshPolicy : RefreshPolicy
  cmdQueueSize : Nat
  unifiedQueue : Bool
  transQueueSize : Nat
  enableSelfRefresh : Bool
  srefThreshold : Int
  enableHbmDualCmd : Bool

namespace Config

def banks (cfg : Config) : Int := cfg.bankgroups * cfg.banksPerGroup

def tRC (cfg : Config) : Int := cfg.tRAS + cfg.tRP

def rl (cfg : Config) : Int := cfg.al + cfg.cl

def wl (cfg : Config) : Int := cfg.al + cfg.cwl

def readDelay (cfg : Config) : Int := cfg.rl + cfg.burstCycle

def writeDelay (cfg : Config) : Int := cfg.wl + cfg.burstCycle

/-- The banks of a rank in the order in which the loops visit them. -/
def banksOf (cfg : Config) (rank : Int) : List Bank :=
  (List.range cfg.bankgroups.toNat).flatMap fun j : Nat =>
    (List.range cfg.banksPerGroup.toNat).map fun k : Nat => ⟨rank, j, k⟩

/-- A channel has at least one bank. -/
structure Counts (cfg : Config) : Prop where
  ranks : 0 < cfg.ranks
  bankgroups : 0 < cfg.bankgroups
  banksPerGroup : 0 < cfg.banksPerGroup

/-- The mapping names banks that the channel has. -/
def Places (cfg : Config) : Prop :=
  ∀ addr, (cfg.mapping.addressMapping addr).place ∈ cfg.banksOf (cfg.mapping.addressMapping addr).rank

end Config

/-! ### Reading the file -/

/-- The options of `[dram_structure]`, with the bank groups merged where they are disabled. -/
structure Structure where
  protocol : Protocol
  bankgroups : Int
  banksPerGroup : Int
  rows : Int
  columns : Int
  deviceWidth : Int
  bl : Int
  burstCycle : Int
  hbmDualCmd : Bool

/-- The burst length in clock cycles. -/
def burstCycles (protocol : Protocol) (bl : Int) : Int :=
  if bl = 0 then 0
  else match protocol with
    | .gddr5 => bl.tdiv 4
    | .gddr5x => bl.tdiv 8
    | .gddr6 => bl.tdiv 16
    | _ => bl.tdiv 2

/-- `InitDRAMParams`. -/
def initDramParams (r : Reader) : Except Abort Structure := do
  let protocol ← Protocol.ofName (r.get "dram_structure" "protocol" "DDR3")
  let bankgroups := r.getInteger "dram_structure" "bankgroups" 2
  let banksPerGroup := r.getInteger "dram_structure" "banks_per_group" 2
  let enable := r.getBoolean "dram_structure" "bankgroup_enable" true
  let columns := r.getInteger "dram_structure" "columns" (2 ^ 10)
  let deviceWidth := r.getInteger "dram_structure" "device_width" 8
  let asked := r.getInteger "dram_structure" "BL" 8
  let bl := if protocol = .hmc then (r.getInteger "hmc" "block_size" 64 * 8).tdiv deviceWidth else asked
  let burst := if bl = 0 then (if protocol.isHbm then 4 else 8) else bl
  return {
    protocol := protocol
    bankgroups := if enable then bankgroups else 1
    banksPerGroup := if enable then banksPerGroup else banksPerGroup * bankgroups
    rows := r.getInteger "dram_structure" "rows" (2 ^ 16)
    columns := if protocol.isGddr then columns * burst else if protocol.isHbm then columns * 2 else columns
    deviceWidth := deviceWidth
    bl := burst
    burstCycle := burstCycles protocol bl
    hbmDualCmd := r.getBoolean "dram_structure" "hbm_dual_cmd" true && protocol.isHbm}

/-- `CalculateSize`: the number of ranks. -/
def calculateRanks (d : Structure) (busWidth channelSize : Int) : Except Abort Int :=
  let pageSize := (d.columns * d.deviceWidth).tdiv 8
  let megsPerBank := (pageSize * d.rows.tdiv 1024).tdiv 1024
  let megsPerRank := megsPerBank * (d.bankgroups * d.banksPerGroup) * busWidth.tdiv d.deviceWidth
  if d.deviceWidth = 0 then .error .divisionByZero
  else if megsPerRank > channelSize then .ok 1
  else if megsPerRank = 0 then .error .divisionByZero
  else .ok (channelSize.tdiv megsPerRank)

/-- `field_widths`. A negative column width has no meaning in the source either. -/
def fieldWidths (d : Structure) (channels ranks : Int) : Field → Nat
  | .ch => logBase2 channels.toNat
  | .ra => logBase2 ranks.toNat
  | .bg => logBase2 d.bankgroups.toNat
  | .ba => logBase2 d.banksPerGroup.toNat
  | .ro => logBase2 d.rows.toNat
  | .co => logBase2 d.columns.toNat - logBase2 d.bl.toNat

def readRefreshPolicy : String → Except Abort RefreshPolicy
  | "RANK_LEVEL_SIMULTANEOUS" => .ok .rankLevelSimultaneous
  | "RANK_LEVEL_STAGGERED" => .ok .rankLevelStaggered
  | "BANK_LEVEL_STAGGERED" => .ok .bankLevelStaggered
  | _ => .error .badConfig

/-- The constructor of `CommandQueue` reads this one. -/
def readQueueStructure : String → Except Abort QueueStructure
  | "PER_BANK" => .ok .perBank
  | "PER_RANK" => .ok .perRank
  | _ => .error .badConfig

/-- The constructors of `CommandQueue` and `Controller` reserve that much, which throws for a
negative size. -/
def readQueueSize (size : Int) : Except Abort Nat :=
  if size < 0 then .error .badConfig else .ok size.toNat

/-- `Config::Config`, with the options that `CommandQueue` and `Controller` read from it. -/
def initConfig (r : Reader) : Except Abort Config := do
  let time := fun name default => r.getInteger "timing" name default
  let channels := r.getInteger "system" "channels" 1
  let busWidth := r.getInteger "system" "bus_width" 64
  let refreshPolicy ← readRefreshPolicy (r.get "system" "refresh_policy" "RANK_LEVEL_STAGGERED")
  let d ← initDramParams r
  let ranks ← calculateRanks d busWidth (r.getInteger "system" "channel_size" 1024)
  let mapping ← setAddressMapping (r.get "system" "address_mapping" "chrobabgraco")
    (logBase2 (busWidth.tdiv 8 * d.bl).toNat) (fieldWidths d channels ranks)
  let queueStructure ← readQueueStructure (r.get "system" "queue_structure" "PER_BANK")
  let cmdQueueSize ← readQueueSize (r.getInteger "system" "cmd_queue_size" 16)
  let transQueueSize ← readQueueSize (r.getInteger "system" "trans_queue_size" 32)
  return {
    protocol := d.protocol
    channels := channels
    ranks := ranks
    bankgroups := d.bankgroups
    banksPerGroup := d.banksPerGroup
    mapping := mapping
    burstCycle := d.burstCycle
    al := time "AL" 0
    cl := time "CL" 12
    cwl := time "CWL" 12
    tCCD_L := time "tCCD_L" 6
    tCCD_S := time "tCCD_S" 4
    tRTRS := time "tRTRS" 2
    tRTP := time "tRTP" 5
    tWTR_L := time "tWTR_L" 5
    tWTR_S := time "tWTR_S" 5
    tWR := time "tWR" 10
    tRP := time "tRP" 10
    tRRD_L := time "tRRD_L" 4
    tRRD_S := time "tRRD_S" 4
    tRAS := time "tRAS" 24
    tRCD := time "tRCD" 10
    tRFC := time "tRFC" 74
    tCKESR := time "tCKESR" 12
    tXS := time "tXS" 432
    tRFCb := time "tRFCb" 20
    tREFI := time "tREFI" 7800
    tREFIb := time "tREFIb" 1950
    tFAW := time "tFAW" 50
    tPPD := time "tPPD" 0
    t32AW := time "t32AW" 330
    tRCDRD := time "tRCDRD" 24
    tRCDWR := time "tRCDWR" 20
    queueStructure := queueStructure
    rowBufPolicy :=
      if r.get "system" "row_buf_policy" "OPEN_PAGE" = "CLOSE_PAGE" then .closePage else .openPage
    refreshPolicy := refreshPolicy
    cmdQueueSize := cmdQueueSize
    unifiedQueue := r.getBoolean "system" "unified_queue" false
    transQueueSize := transQueueSize
    enableSelfRefresh := r.getBoolean "system" "enable_self_refresh" false
    srefThreshold := r.getInteger "system" "sref_threshold" 1000
    enableHbmDualCmd := d.hbmDualCmd}

/-! ### A shipped file -/

/-- The reader of a file with these options; their names differ in all sections. -/
def Reader.ofOptions (texts : List (String × String)) (numbers : List (String × Int)) : Reader where
  get _ option default := (texts.lookup option).getD default
  getInteger _ option default := (numbers.lookup option).getD default
  getBoolean _ _ default := default

/-- `configs/LPDDR5/8Gb_x16_6400_ch4.ini`. -/
def lpddr5File : Reader := .ofOptions
  [("protocol", "LPDDR5"), ("address_mapping", "robarabgcoch"), ("queue_structure", "PER_BANK"),
    ("refresh_policy", "RANK_LEVEL_STAGGERED"), ("row_buf_policy", "OPEN_PAGE")]
  [("bankgroups", 4), ("banks_per_group", 4), ("rows", 65536), ("columns", 1024), ("device_width", 16),
    ("BL", 16), ("AL", 0), ("CL", 20), ("CWL", 11), ("tRCD", 15), ("tRP", 17), ("tRAS", 34), ("tWR", 28),
    ("tRTP", 4), ("tRRD_S", 4), ("tRRD_L", 4), ("tCCD_S", 4), ("tCCD_L", 4), ("tWTR_S", 5), ("tWTR_L", 10),
    ("tFAW", 16), ("tRFC", 800), ("tREFI", 3900), ("tCKESR", 7), ("tRTRS", 1), ("tXS", 800),
    ("channel_size", 8192), ("channels", 4), ("bus_width", 64), ("cmd_queue_size", 8), ("trans_queue_size", 32)]

/-- What that file is read as. -/
def lpddr5Ch4 : Config where
  protocol := .lpddr5
  channels := 4
  ranks := 1
  bankgroups := 4
  banksPerGroup := 4
  mapping := {
    shiftBits := 7
    pos := fun
      | .ch => 0
      | .ra => 10
      | .bg => 8
      | .ba => 10
      | .ro => 12
      | .co => 2
    width := fun
      | .ch => 2
      | .ra => 0
      | .bg => 2
      | .ba => 2
      | .ro => 16
      | .co => 6}
  burstCycle := 8
  al := 0
  cl := 20
  cwl := 11
  tCCD_L := 4
  tCCD_S := 4
  tRTRS := 1
  tRTP := 4
  tWTR_L := 10
  tWTR_S := 5
  tWR := 28
  tRP := 17
  tRRD_L := 4
  tRRD_S := 4
  tRAS := 34
  tRCD := 15
  tRFC := 800
  tCKESR := 7
  tXS := 800
  tRFCb := 20
  tREFI := 3900
  tREFIb := 1950
  tFAW := 16
  tPPD := 0
  t32AW := 330
  tRCDRD := 24
  tRCDWR := 20
  queueStructure := .perBank
  rowBufPolicy := .openPage
  refreshPolicy := .rankLevelStaggered
  cmdQueueSize := 8
  unifiedQueue := false
  transQueueSize := 32
  enableSelfRefresh := false
  srefThreshold := 1000
  enableHbmDualCmd := false

theorem lpddr5Ch4_counts : lpddr5Ch4.Counts := ⟨by decide, by decide, by decide⟩

end Hsim.Dramsim3
