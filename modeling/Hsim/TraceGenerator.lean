import Hsim.Configurations

/-! The control trace, `TraceGenerator::load_speculative_control_trace`.

A control trace is a file of JSON records, one a line. The loader validates each
record and groups the records into samples; it may then take the prompt prefill
out of each sample's first record, checks that the caches of neighbouring records
fit together, and selects what is replayed. -/
namespace Hsim.TraceGenerator

structure SpeculativeControl where
  sampleIndex : UInt32 := 0
  iteration : UInt32
  prefixLenBefore : UInt32
  prefixLenAfter : UInt32
  gamma : UInt32
  targetQueryTokens : UInt32
  targetKvCacheTokens : UInt32
  targetKvWriteTokens : UInt32
  draftQueryTokensPerProposal : UInt32
  draftProposalCount : UInt32
  draftKvCacheTokens : UInt32
  draftKvWriteTokens : UInt32
  targetInputTokens : UInt32
  draftInputTokens : UInt32
  targetKvCacheTokensAfterForward : UInt32
  draftKvCacheTokensAfterForward : UInt32
  targetKvCacheTokensAfterDecision : UInt32
  draftKvCacheTokensAfterDecision : UInt32
  targetGeneratedTokens : UInt32
  draftGeneratedTokens : UInt32
  draftForwardSteps : UInt32
  traceVersion : UInt32
  prefillExcluded : Bool
  modeBefore : String
  modeAfter : String
  decision : String
  acceptedTokens : UInt32
  rollbackTo : Int
  algorithm : String
  targetDependsOnDraftIteration : Int
  draftPrecomputeForIteration : Int
  draftOverlapsTarget : Bool
  draftTreeSteps : UInt32
  draftTreeQueryTokens : UInt32
  draftFanOutList : List UInt32
  deriving DecidableEq, Repr

/-- A line of the file: nothing, a text that is not JSON, or a parsed value. -/
inductive Line where
  | empty
  | malformed
  | value (root : Json)

/-! ### One record -/

/-- The fields a record of trace version 2 or later must have. -/
def requiredFields : List String :=
  ["target_input_tokens", "target_kv_cache_tokens", "target_uncached_query_tokens",
    "target_kv_write_tokens", "draft_input_tokens", "draft_kv_cache_tokens",
    "draft_uncached_query_tokens", "draft_forward_steps", "draft_decoder_tokens",
    "draft_kv_write_tokens", "target_kv_cache_tokens_after_forward",
    "draft_kv_cache_tokens_after_forward", "target_kv_cache_tokens_after_decision",
    "draft_kv_cache_tokens_after_decision"]

/-- The checks of a record of trace version 2 or later. -/
def checkShape (lineNo : Nat) (root : Json) : Except String Unit := do
  for field in requiredFields do
    reject ((← root.isMember field) = false)
      ("PEARL v2 control trace line " ++ toString lineNo ++ " is missing " ++ field)
  let targetInput ← (← root.field "target_input_tokens").asUInt
  let targetCache ← (← root.field "target_kv_cache_tokens").asUInt
  let targetUncached ← (← root.field "target_uncached_query_tokens").asUInt
  let draftInput ← (← root.field "draft_input_tokens").asUInt
  let draftCache ← (← root.field "draft_kv_cache_tokens").asUInt
  let draftUncached ← (← root.field "draft_uncached_query_tokens").asUInt
  let draftSteps ← (← root.field "draft_forward_steps").asUInt
  let draftDecoder ← (← root.field "draft_decoder_tokens").asUInt
  reject (targetInput < targetCache ∨ draftInput < draftCache ∨
      targetUncached ≠ targetInput - targetCache ∨ draftUncached ≠ draftInput - draftCache ∨
      targetUncached = 0 ∨ draftSteps = 0 ∨ draftDecoder ≠ draftUncached + draftSteps - 1)
    ("Invalid PEARL v2 cache/work shape in control trace line " ++ toString lineNo)

/-- `root.get(key, value)` for an unsigned default. -/
def getNumber (root : Json) (key : String) (default : UInt32) : Except String UInt32 := do
  (← root.get key (.int default.toNat)).asUInt

def readFanOut (lineNo : Nat) (root : Json) : Except String (List UInt32) := do
  if (← root.isMember "draft_fan_out_list") = false then
    return []
  let fanOut ← root.field "draft_fan_out_list"
  reject (fanOut.isArray = false)
    ("SSD draft_fan_out_list must be an array in control trace line " ++ toString lineNo)
  fanOut.elements.mapM fun count => do
    let branchCount ← count.asUInt
    reject (branchCount = 0)
      ("SSD draft_fan_out_list contains a zero branch count in control trace line " ++
        toString lineNo)
    return branchCount

/-- The checks of an SSD record's tree. The fan-out is added up in 64 bits. -/
def checkTree (lineNo : Nat) (treeSteps treeQueryTokens proposalCount : UInt32)
    (fanOut : List UInt32) : Except String Unit := do
  reject (treeSteps = 0 ∨ treeQueryTokens = 0 ∨ fanOut = [])
    ("SSD control trace must provide non-zero draft_tree_steps, draft_tree_query_tokens, " ++
      "and draft_fan_out_list in line " ++ toString lineNo)
  reject ((fanOut.map UInt32.toUInt64).sum ≠ treeQueryTokens.toUInt64 ∨
      proposalCount ≠ treeQueryTokens)
    ("SSD tree shape does not match draft proposal count in control trace line " ++ toString lineNo)

/-- A control record of one line, with its sample id if it has one. Values of other
events are passed over. -/
def readControl (lineNo : Nat) (root : Json) :
    Except String (Option (SpeculativeControl × Option UInt64)) := do
  if (← root.isMember "event") && (← (← root.field "event").asString) != "control" then
    return none
  let iteration ← (← root.field "iteration").asUInt
  let algorithm ← (← root.get "algorithm" (.str "pearl")).asString
  let prefixBefore ← (← root.field "prefix_len_before").asUInt
  let prefixAfter ← (← root.field "prefix_len_after").asUInt
  let traceVersion ← getNumber root "trace_version" 1
  let prefillExcluded ← (← root.get "prefill_excluded" (.bool false)).asBool
  if 2 ≤ traceVersion then
    checkShape lineNo root
  let gamma ← root.field "gamma"
  let draftKvTokens ← (← root.get "draft_precompute_kv_cache_tokens"
    (← root.get "draft_kv_cache_tokens"
      (.int (if algorithm = "ssd" then prefixAfter else prefixBefore).toNat))).asUInt
  let draftProposalCount ← (← root.get "draft_decoder_tokens"
    (← root.get "draft_proposal_count" gamma)).asUInt
  let draftTreeSteps ← (← root.get "draft_tree_steps"
    (if algorithm = "ssd" then gamma else .int 1)).asUInt
  let draftTreeQueryTokens ← getNumber root "draft_tree_query_tokens" draftProposalCount
  let draftFanOutList ← readFanOut lineNo root
  if algorithm = "ssd" then
    checkTree lineNo draftTreeSteps draftTreeQueryTokens draftProposalCount draftFanOutList
  let explicitId ← if ← root.isMember "sample_index" then
      pure (some (← (← root.field "sample_index").asUInt64))
    else pure none
  let targetQuery ← root.get "target_uncached_query_tokens" (← root.get "target_query_tokens" (.int 1))
  let rollback ← root.field "rollback_to"
  let control : SpeculativeControl := {
    iteration := iteration
    prefixLenBefore := prefixBefore
    prefixLenAfter := prefixAfter
    gamma := ← gamma.asUInt
    targetQueryTokens := ← targetQuery.asUInt
    targetKvCacheTokens := ← getNumber root "target_kv_cache_tokens" prefixBefore
    targetKvWriteTokens := ← (← root.get "target_kv_write_tokens" targetQuery).asUInt
    draftQueryTokensPerProposal := ← getNumber root "draft_query_tokens_per_proposal" 1
    draftProposalCount := draftProposalCount
    draftKvCacheTokens := draftKvTokens
    draftKvWriteTokens := ← (← root.get "draft_kv_write_tokens" (← root.get "draft_decoder_tokens"
      (← root.get "draft_proposal_count" gamma))).asUInt
    targetInputTokens := ← getNumber root "target_input_tokens" prefixBefore
    draftInputTokens := ← getNumber root "draft_input_tokens" prefixBefore
    targetKvCacheTokensAfterForward := ← getNumber root "target_kv_cache_tokens_after_forward" 0
    draftKvCacheTokensAfterForward := ← getNumber root "draft_kv_cache_tokens_after_forward" 0
    targetKvCacheTokensAfterDecision := ← getNumber root "target_kv_cache_tokens_after_decision" 0
    draftKvCacheTokensAfterDecision := ← getNumber root "draft_kv_cache_tokens_after_decision" 0
    targetGeneratedTokens := ← getNumber root "target_generated_tokens" 1
    draftGeneratedTokens := ← (← root.get "draft_generated_tokens" gamma).asUInt
    draftForwardSteps := ← (← root.get "draft_forward_steps" gamma).asUInt
    traceVersion := traceVersion
    prefillExcluded := prefillExcluded
    modeBefore := ← (← root.field "mode_before").asString
    modeAfter := ← (← root.field "mode_after").asString
    decision := ← (← root.field "decision").asString
    acceptedTokens := ← (← root.field "accepted_tokens").asUInt
    rollbackTo := ← if rollback.isNull then pure (-1) else rollback.asInt64
    algorithm := algorithm
    targetDependsOnDraftIteration :=
      ← (← root.get "target_depends_on_draft_iteration" (.int (iteration.toNat - 1))).asInt64
    draftPrecomputeForIteration :=
      ← (← root.get "draft_precompute_for_iteration" (.int (iteration.toNat + 1))).asInt64
    draftOverlapsTarget :=
      ← (← root.get "draft_overlaps_target" (.bool (algorithm == "ssd"))).asBool
    draftTreeSteps := draftTreeSteps
    draftTreeQueryTokens := draftTreeQueryTokens
    draftFanOutList := draftFanOutList}
  return some (control, explicitId)

/-! ### Samples -/

/-- The samples read so far, and the one being read with the id it began with. -/
structure Grouping where
  samples : List (List SpeculativeControl) := []
  currentSample : List SpeculativeControl := []
  currentId : Option UInt64 := none

/-- Whether a record does not belong to the sample being read. A record without an id
starts a sample by its iteration number. -/
def Grouping.startsNewSample (g : Grouping) (control : SpeculativeControl) :
    Option UInt64 → Bool
  | some id => g.currentSample ≠ [] ∧ g.currentId ≠ some id
  | none => g.currentSample ≠ [] ∧ control.iteration = 0

def Grouping.add (g : Grouping) (control : SpeculativeControl) (id : Option UInt64) : Grouping :=
  if g.startsNewSample control id then {
    samples := g.samples ++ [g.currentSample]
    currentSample := [control]
    currentId := id}
  else {g with
    currentSample := g.currentSample ++ [control]
    currentId := if g.currentSample = [] then id else g.currentId}

def Grouping.finish (g : Grouping) : List (List SpeculativeControl) :=
  if g.currentSample = [] then g.samples else g.samples ++ [g.currentSample]

def readLine (g : Grouping) : Nat × Line → Except String Grouping
  | (_, .empty) => .ok g
  | (lineNo, .malformed) =>
    .error ("Invalid JSON in speculative control trace line " ++ toString lineNo)
  | (lineNo, .value root) => do
    match ← readControl lineNo root with
    | none => return g
    | some (control, id) => return g.add control id

def readSamples (lines : List Line) : Except String (List (List SpeculativeControl)) := do
  return (← (lines.zipIdx 1 |>.map fun e => (e.2, e.1)).foldlM readLine {}).finish

/-! ### The prefill -/

/-- The first record of a sample without the prompt's prefill: the caches are warm, and
each actor starts from the last prompt token. -/
def SpeculativeControl.withoutPrefill (first : SpeculativeControl) : SpeculativeControl :=
  let warmCacheTokens := first.prefixLenBefore - 1
  {first with
    targetInputTokens := first.prefixLenBefore
    targetKvCacheTokens := warmCacheTokens
    targetQueryTokens := 1
    targetKvWriteTokens := 1
    targetKvCacheTokensAfterForward := first.prefixLenBefore
    draftInputTokens := first.prefixLenBefore
    draftKvCacheTokens := warmCacheTokens
    draftQueryTokensPerProposal := 1
    draftProposalCount := first.draftForwardSteps
    draftKvWriteTokens := first.draftForwardSteps
    draftKvCacheTokensAfterForward := warmCacheTokens + first.draftForwardSteps
    prefillExcluded := true}

def normalizeSample : List SpeculativeControl → Except String (List SpeculativeControl)
  | [] => .ok []
  | first :: rest => do
    reject (first.traceVersion < 2)
      "speculative.exclude_prefill requires a PEARL v2 trace with actor cache fields"
    if first.prefillExcluded then
      return first :: rest
    reject (first.prefixLenBefore = 0 ∨ first.targetKvCacheTokens ≠ 0 ∨ first.draftKvCacheTokens ≠ 0)
      ("Cannot identify prompt prefill in the first PEARL v2 record; " ++
        "set prefill_excluded=true in the trace if it was already removed")
    return first.withoutPrefill :: rest

/-- The samples as the rest of the loader sees them. -/
def preparedSamples (spec : SpeculativeInfo) (lines : List Line) :
    Except String (List (List SpeculativeControl)) := do
  let samples ← readSamples lines
  if spec.excludePrefill then samples.mapM normalizeSample else return samples

/-! ### Continuity -/

/-- The caches the earlier record's decision leaves are the ones the later starts from. -/
def Continues (previous current : SpeculativeControl) : Prop :=
  previous.targetKvCacheTokensAfterDecision = current.targetKvCacheTokens ∧
    previous.draftKvCacheTokensAfterDecision = current.draftKvCacheTokens

instance (previous current : SpeculativeControl) : Decidable (Continues previous current) :=
  inferInstanceAs (Decidable (_ ∧ _))

/-- The check of neighbouring records, over one sample. -/
def checkSample : List SpeculativeControl → Except String Unit
  | previous :: current :: rest => do
    reject (2 ≤ previous.traceVersion ∧ 2 ≤ current.traceVersion ∧ ¬Continues previous current)
      ("PEARL v2 cache continuity error between iterations " ++
        toString previous.iteration.toNat ++ " and " ++ toString current.iteration.toNat)
    checkSample (current :: rest)
  | _ => .ok ()

/-! ### Selection -/

/-- The records of the warm-up are not replayed. -/
def kept (spec : SpeculativeInfo) (control : SpeculativeControl) : Bool :=
  !(control.iteration < spec.skipWarmupIterations)

/-- The replay has as many records as it may have. -/
def full (spec : SpeculativeInfo) (acc : List SpeculativeControl) : Bool :=
  spec.maxControlIterations != 0 && spec.maxControlIterations.toNat ≤ acc.length

/-- `control.sample_index = sample_id`. -/
def SpeculativeControl.inSample (control : SpeculativeControl) (id : UInt32) : SpeculativeControl :=
  {control with sampleIndex := id}

def selectSample (spec : SpeculativeInfo) (id : UInt32) :
    List SpeculativeControl → List SpeculativeControl → List SpeculativeControl
  | acc, [] => acc
  | acc, control :: rest =>
    if kept spec control = false then selectSample spec id acc rest
    else if full spec acc then acc
    else selectSample spec id (acc ++ [control.inSample id]) rest

def selectSamples (spec : SpeculativeInfo) :
    List SpeculativeControl → List (UInt32 × List SpeculativeControl) → List SpeculativeControl
  | acc, [] => acc
  | acc, (id, sample) :: rest =>
    let acc := selectSample spec id acc sample
    if full spec acc then acc else selectSamples spec acc rest

/-- The samples the replay takes its records from, with their positions: the one asked
for, or all of them. The number of samples is a 32-bit one. -/
def replayedSamples (spec : SpeculativeInfo) (samples : List (List SpeculativeControl)) :
    List (UInt32 × List SpeculativeControl) :=
  let numbered := samples.zipIdx.map fun e => (UInt32.ofNat e.2, e.1)
  if spec.sampleIndex < 0 then numbered.take (UInt32.ofNat samples.length).toNat
  else (numbered.drop spec.sampleIndex.toNat).take 1

/-- `load_speculative_control_trace`, of a file's lines. -/
def loadSpeculativeControlTrace (spec : SpeculativeInfo) (lines : List Line) :
    Except String (List SpeculativeControl) := do
  let samples ← preparedSamples spec lines
  for sample in samples do
    checkSample sample
  reject (0 ≤ spec.sampleIndex ∧ samples.length ≤ spec.sampleIndex.toNat)
    ("Requested speculative sample_index=" ++ toString spec.sampleIndex ++
      " but control trace contains " ++ toString samples.length ++ " sample(s)")
  let controls := selectSamples spec [] (replayedSamples spec samples)
  reject (controls = []) "No speculative control records remain after warm-up filtering."
  return controls

end Hsim.TraceGenerator
