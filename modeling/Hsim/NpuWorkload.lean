import Hsim.Lib.Words
import Hsim.NpuTraceReplayer
import Mathlib.Algebra.Order.BigOperators.Group.List
import Mathlib.Tactic.Ring

/-! The work of an NPU run, across its modes.

Collapsing the layers of a fast run into one changes how many requests carry the
data, not how much there is: a sum over `n` layers is `n` times one layer's, in
64-bit arithmetic. The detailed replay moves what the fast one does as long as no
transfer outgrows the 32 bits its byte count is narrowed to. -/
namespace Hsim.NpuTraceReplayer

variable (cfg : Config) (l : Launch)

/-! ### What a run is made of -/

/-- Every transfer holds the requests its mode issues for its byte count. -/
def Issued (m : Mode) : Segment → Prop
  | .transfer _ _ command bytes layer requests =>
    (command = .read ∨ command = .write) ∧ requests = m.issue command bytes layer
  | _ => True

/-- Every transfer is under a label that continues one of the given ones. -/
def Segment.Under (labels : List String) : Segment → Prop
  | .transfer _ _ _ _ layer _ => ∃ label ∈ labels, ∃ rest, layer = label ++ rest
  | _ => True

theorem Segment.Under.mono {labels labels' : List String} (hsub : labels ⊆ labels') {g : Segment}
    (h : g.Under labels) : g.Under labels' := by
  cases g with
  | transfer op kind command bytes layer requests =>
    obtain ⟨label, hlabel, hlayer⟩ := h
    exact ⟨label, hsub hlabel, hlayer⟩
  | _ => trivial

/-- A transfer of a layer. -/
theorem transfer_placed (m : Mode) (i : Nat) (kind : TensorKind) {command : Command}
    (hc : command = .read ∨ command = .write) (bytes : UInt64) (layer rest : String) :
    Issued m (m.transfer i kind command bytes (layer ++ rest)) ∧
      (m.transfer i kind command bytes (layer ++ rest)).Under [layer] :=
  ⟨⟨hc, rfl⟩, layer, List.mem_singleton_self layer, rest, rfl⟩

theorem reads_placed (m : Mode) (layer : String) (i : Nat) (op : ModelOperationInfo) :
    ∀ s ∈ cfg.reads l m layer i op, Issued m s ∧ s.Under [layer] := by
  intro s hs
  simp only [Config.reads, List.mem_append, String.append_assoc] at hs
  rcases hs with hs | hs
  · split at hs
    · rw [List.mem_singleton.mp hs]
      exact transfer_placed m i _ (.inl rfl) _ layer _
    · cases hs
  · split at hs
    · rw [List.mem_singleton.mp hs]
      exact transfer_placed m i _ (.inl rfl) _ layer _
    · cases hs

theorem writes_placed (m : Mode) (layer : String) (i : Nat) (op : ModelOperationInfo) :
    ∀ s ∈ cfg.writes l m layer i op, Issued m s ∧ s.Under [layer] := by
  intro s hs
  simp only [Config.writes, String.append_assoc] at hs
  split at hs
  · rw [List.mem_singleton.mp hs]
    exact transfer_placed m i _ (.inr rfl) _ layer _
  · cases hs

theorem compute_placed (m : Mode) (layer : String) (i : Nat) (c : UInt64) :
    ∀ s ∈ m.compute i c, Issued m s ∧ s.Under [layer] := by
  intro s hs
  rw [Mode.compute] at hs
  split at hs <;> simp at hs
  rw [hs]
  exact ⟨trivial, trivial⟩

theorem replayOps_placed (m : Mode) (layer : String) (ops : List ModelOperationInfo) (i : Nat)
    (assigned : UInt64) :
    ∀ s ∈ (cfg.replayOps l m layer i ops assigned).1, Issued m s ∧ s.Under [layer] := by
  induction ops generalizing i assigned with
  | nil => simp [Config.replayOps]
  | cons op rest ih =>
    intro s hs
    rw [Config.replayOps] at hs
    split at hs
    · rcases List.mem_append.mp hs with h | h
      · exact reads_placed cfg l m layer i op s h
      · rw [List.mem_singleton.mp h]
        exact ⟨trivial, trivial⟩
    · simp only [List.mem_append] at hs
      rcases hs with ((h | h) | h) | h
      · exact reads_placed cfg l m layer i op s h
      · exact compute_placed m layer i _ s h
      · exact writes_placed cfg l m layer i op s h
      · exact ih _ _ s h

theorem replayLayer_placed (m : Mode) (layer : String) :
    ∀ s ∈ (cfg.replayLayer l m layer).1, Issued m s ∧ s.Under [layer] := by
  intro s hs
  have hops := replayOps_placed cfg l m layer cfg.layerProfile.operations 0 0
  rw [Config.replayLayer] at hs
  split at hs
  · next heq =>
    rw [heq] at hops
    rcases List.mem_cons.mp hs with rfl | h
    · exact ⟨trivial, trivial⟩
    · exact hops s h
  · next heq =>
    rw [heq] at hops
    simp only [List.cons_append, List.mem_cons, List.mem_append, List.not_mem_nil, or_false] at hs
    rcases hs with rfl | h | rfl | rfl
    · exact ⟨trivial, trivial⟩
    · exact hops s h
    · exact transfer_placed m 0 _ (.inr rfl) _ layer _
    · exact ⟨trivial, trivial⟩

theorem replayLayers_placed (m : Mode) (labels : List String) :
    ∀ s ∈ cfg.replayLayers l m labels, Issued m s ∧ s.Under labels := by
  induction labels with
  | nil =>
    intro s hs
    rw [Config.replayLayers, List.mem_singleton] at hs
    rw [hs]
    exact ⟨trivial, trivial⟩
  | cons layer rest ih =>
    intro s hs
    have hlayer : ∀ s ∈ (cfg.replayLayer l m layer).1, Issued m s ∧ s.Under (layer :: rest) :=
      fun s hs => (replayLayer_placed cfg l m layer s hs).imp_right (Segment.Under.mono (by simp))
    rw [Config.replayLayers] at hs
    split at hs
    · next heq =>
      rw [heq] at hlayer
      exact hlayer s hs
    · next heq =>
      rw [heq] at hlayer
      rcases List.mem_append.mp hs with h | h
      · exact hlayer s h
      · exact (ih s h).imp_right (Segment.Under.mono (List.subset_cons_self layer rest))

theorem replayLayers_issued (m : Mode) (labels : List String) :
    ∀ s ∈ cfg.replayLayers l m labels, Issued m s :=
  fun s hs => (replayLayers_placed cfg l m labels s hs).1

/-! ### Totals of a fast run -/

/-- What is added up over a run: the bytes of one tensor kind of one operation, or the
compute time. -/
inductive Quantity where
  | bytes (op : Nat) (kind : TensorKind)
  | computeNs

/-- What a segment adds. The bytes of a request are the ones `macro_bytes` reads back. -/
def Quantity.amount : Quantity → Segment → UInt64
  | .bytes op kind, .transfer op' kind' _ _ _ requests =>
    if op' = op ∧ kind' = kind then (requests.map Payload.macroBytes).sum else 0
  | .computeNs, .compute _ ns => ns
  | _, _ => 0

def Quantity.total (q : Quantity) (segments : List Segment) : UInt64 :=
  (segments.map q.amount).sum

@[simp] theorem total_nil (q : Quantity) : q.total [] = 0 := rfl

@[simp] theorem total_append (q : Quantity) (a b : List Segment) :
    q.total (a ++ b) = q.total a + q.total b := by
  simp [Quantity.total]

@[simp] theorem total_cons (q : Quantity) (s : Segment) (rest : List Segment) :
    q.total (s :: rest) = q.amount s + q.total rest := by
  simp [Quantity.total]

/-- A byte count survives its encoding in a tensor-sized request. -/
theorem issueFastMemory_macroBytes (command : Command) (bytes : UInt64) (layer : String) :
    (cfg.issueFastMemory command bytes layer).map Payload.macroBytes =
      if bytes = 0 then [] else [bytes] := by
  rw [Config.issueFastMemory]
  split
  · rfl
  · rw [List.map_singleton, macroBytes_words _ bytes rfl rfl]

theorem issueFastMemory_sum (command : Command) (bytes : UInt64) (layer : String) :
    ((cfg.issueFastMemory command bytes layer).map Payload.macroBytes).sum = bytes := by
  rw [issueFastMemory_macroBytes]
  split
  · next h => rw [h]; rfl
  · simp

theorem multiplier_one : UInt32.toUInt64 1 = 1 := rfl

/-- A transfer's share of a total grows with the multiplier and ignores the label. -/
theorem amount_transfer (q : Quantity) (n : UInt32) (i : Nat) (kind : TensorKind)
    (command : Command) (bytes : UInt64) (layer layer' : String) :
    q.amount ((cfg.fast n).transfer i kind command bytes layer) =
      n.toUInt64 * q.amount ((cfg.fast 1).transfer i kind command bytes layer') := by
  cases q with
  | computeNs => simp [Quantity.amount, Mode.transfer]
  | bytes op kind' =>
    simp only [Quantity.amount, Mode.transfer, Config.fast]
    split
    · rw [issueFastMemory_sum, issueFastMemory_sum, multiplier_one, UInt64.mul_one, UInt64.mul_comm]
    · simp

theorem total_compute (q : Quantity) (n : UInt32) (i : Nat) (c : UInt64) :
    q.total ((cfg.fast n).compute i c) = n.toUInt64 * q.total ((cfg.fast 1).compute i c) := by
  cases q with
  | computeNs =>
    simp [Mode.compute, Config.fast, Quantity.amount, UInt64.mul_comm]
  | bytes op kind => simp [Mode.compute, Config.fast, Quantity.amount]

theorem total_reads (q : Quantity) (n : UInt32) (layer layer' : String) (i : Nat)
    (op : ModelOperationInfo) : q.total (cfg.reads l (cfg.fast n) layer i op) =
      n.toUInt64 * q.total (cfg.reads l (cfg.fast 1) layer' i op) := by
  simp only [Config.reads, total_append, UInt64.mul_add]
  congr 1
  · split
    · simp [amount_transfer cfg q n i _ _ _ _ (layer' ++ ".op." ++ op.name ++ ".weight")]
    · simp
  · split
    · simp [amount_transfer cfg q n i _ _ _ _ (layer' ++ ".op." ++ op.name ++ ".kv_cache.read")]
    · simp

theorem total_writes (q : Quantity) (n : UInt32) (layer layer' : String) (i : Nat)
    (op : ModelOperationInfo) : q.total (cfg.writes l (cfg.fast n) layer i op) =
      n.toUInt64 * q.total (cfg.writes l (cfg.fast 1) layer' i op) := by
  simp only [Config.writes]
  split
  · simp [amount_transfer cfg q n i _ _ _ _ (layer' ++ ".op." ++ op.name ++ ".kv_cache.write")]
  · simp

/-- The compute time assigned by the end of a layer is the same in every mode. -/
theorem replayOps_assigned (m m' : Mode) (layer layer' : String) (ops : List ModelOperationInfo)
    (i : Nat) (assigned : UInt64) : (cfg.replayOps l m layer i ops assigned).2 =
      (cfg.replayOps l m' layer' i ops assigned).2 := by
  induction ops generalizing i assigned with
  | nil => rfl
  | cons op rest ih =>
    rw [Config.replayOps, Config.replayOps]
    split
    · rfl
    · exact ih _ _

theorem total_replayOps (q : Quantity) (n : UInt32) (layer layer' : String)
    (ops : List ModelOperationInfo) (i : Nat) (assigned : UInt64) :
    q.total (cfg.replayOps l (cfg.fast n) layer i ops assigned).1 =
      n.toUInt64 * q.total (cfg.replayOps l (cfg.fast 1) layer' i ops assigned).1 := by
  induction ops generalizing i assigned with
  | nil => simp [Config.replayOps]
  | cons op rest ih =>
    rw [Config.replayOps, Config.replayOps]
    split
    · simp only [total_append, total_cons, total_nil]
      rw [total_reads cfg l q n layer layer' i op]
      cases q <;> simp [Quantity.amount]
    · simp only [total_append, UInt64.mul_add]
      rw [total_reads cfg l q n layer layer' i op, total_writes cfg l q n layer layer' i op,
        total_compute, ih]

/-- No division by zero: the analytical model divides by nothing, and with a single
operation the share of the last is all there is. -/
def Config.ComputeDefined (cfg : Config) : Prop :=
  cfg.profile.analyticalComputeEnabled = true ∨ cfg.totalComputeShare ≠ 0 ∨
    cfg.layerProfile.operations.length ≤ 1

theorem perLayerCompute_isSome (isLast : Bool) (assigned : UInt64) (op : ModelOperationInfo)
    (h : cfg.profile.analyticalComputeEnabled = true ∨ cfg.totalComputeShare ≠ 0 ∨ isLast = true) :
    ∃ c, cfg.perLayerCompute l isLast assigned op = some c := by
  rw [Config.perLayerCompute]
  split
  · exact ⟨_, rfl⟩
  · split
    · exact ⟨_, rfl⟩
    · simp_all

theorem replayOps_defined (m : Mode) (layer : String) (ops : List ModelOperationInfo) (i : Nat)
    (assigned : UInt64) (h : cfg.profile.analyticalComputeEnabled = true ∨
      cfg.totalComputeShare ≠ 0 ∨ ops.length ≤ 1) :
    ∃ a, (cfg.replayOps l m layer i ops assigned).2 = some a := by
  induction ops generalizing i assigned with
  | nil => exact ⟨assigned, rfl⟩
  | cons op rest ih =>
    have hlast : cfg.profile.analyticalComputeEnabled = true ∨ cfg.totalComputeShare ≠ 0 ∨
        rest.isEmpty = true := by
      rcases h with h | h | h
      · exact .inl h
      · exact .inr (.inl h)
      · exact .inr (.inr (by simpa using h))
    have hrest : cfg.profile.analyticalComputeEnabled = true ∨ cfg.totalComputeShare ≠ 0 ∨
        rest.length ≤ 1 := by
      rcases h with h | h | h
      · exact .inl h
      · exact .inr (.inl h)
      · exact .inr (.inr (by simp at h; simp [h]))
    obtain ⟨c, hc⟩ := perLayerCompute_isSome cfg l rest.isEmpty assigned op hlast
    rw [Config.replayOps, hc]
    exact ih _ _ hrest

/-- A layer that does not trap: what it is made of. -/
theorem replayLayer_eq (m : Mode) (layer : String) {assigned : UInt64}
    (h : (cfg.replayOps l m layer 0 cfg.layerProfile.operations 0).2 = some assigned) :
    cfg.replayLayer l m layer =
      (.layerStart layer :: (cfg.replayOps l m layer 0 cfg.layerProfile.operations 0).1 ++
        [m.transfer 0 .output .write (cfg.outputWriteBytes * l.queryTokens.toUInt64)
          (layer ++ ".output"), .layerEnd layer (assigned * m.multiplier.toUInt64)], false) := by
  rw [Config.replayLayer]
  split
  · next heq => simp [heq] at h
  · next heq =>
    simp only [heq, Option.some.injEq] at h
    rw [heq, h]

theorem total_replayLayer (q : Quantity) (n : UInt32) (layer layer' : String)
    (hdef : cfg.ComputeDefined) :
    q.total (cfg.replayLayer l (cfg.fast n) layer).1 =
      n.toUInt64 * q.total (cfg.replayLayer l (cfg.fast 1) layer').1 := by
  obtain ⟨a, ha⟩ := replayOps_defined cfg l (cfg.fast n) layer cfg.layerProfile.operations 0 0 hdef
  have ha' : (cfg.replayOps l (cfg.fast 1) layer' 0 cfg.layerProfile.operations 0).2 = some a := by
    rw [replayOps_assigned cfg l (cfg.fast 1) (cfg.fast n) layer' layer, ha]
  rw [replayLayer_eq cfg l _ layer ha, replayLayer_eq cfg l _ layer' ha']
  have hframe : ∀ name b, q.amount (.layerStart name) = 0 ∧ q.amount (.layerEnd name b) = 0 := by
    intro name b
    cases q <;> exact ⟨rfl, rfl⟩
  simp only [List.cons_append, total_cons, total_append, total_nil, (hframe _ 0).1, (hframe _ _).2]
  rw [total_replayOps cfg l q n layer layer', amount_transfer cfg q n _ _ _ _ _ (layer' ++ ".output")]
  simp only [UInt64.zero_add, UInt64.add_zero, UInt64.mul_add]

/-- A run over several layers is that many times the first. -/
theorem total_replayLayers (q : Quantity) (hdef : cfg.ComputeDefined) (layer : String)
    (labels : List String) : q.total (cfg.replayLayers l (cfg.fast 1) labels) =
      UInt64.ofNat labels.length * q.total (cfg.replayLayer l (cfg.fast 1) layer).1 := by
  have hfinish : q.amount .finish = 0 := by cases q <;> rfl
  induction labels with
  | nil => simp [Config.replayLayers, hfinish]
  | cons label rest ih =>
    obtain ⟨a, ha⟩ := replayOps_defined cfg l (cfg.fast 1) label cfg.layerProfile.operations 0 0 hdef
    have hlayer := replayLayer_eq cfg l _ label ha
    rw [Config.replayLayers]
    split
    · next heq => simp [hlayer] at heq
    · next segments heq =>
      have hsame := total_replayLayer cfg l q 1 label layer hdef
      rw [heq, multiplier_one, UInt64.one_mul] at hsame
      rw [total_append, ih, hsame, List.length_cons, UInt64.ofNat_add]
      grind

/-- The granularity of a fast run does not change its work: each operation moves the
same bytes of each tensor kind, the compute time is the same, and every byte count is
read back whole from the request that carries it. -/
theorem granularity_keeps_workload (hdef : cfg.ComputeDefined) (run : UInt32) :
    (∀ q : Quantity, q.total (cfg.replayAs true .macro_ l run) =
      q.total (cfg.replayAs true .layer l run)) ∧
    ∀ granularity op kind command bytes layer requests,
      .transfer op kind command bytes layer requests ∈ cfg.replayAs true granularity l run →
      requests.map Payload.macroBytes = if bytes = 0 then [] else [bytes] := by
  constructor
  · intro q
    have hfinish : q.amount .finish = 0 := by cases q <;> rfl
    have hcount : UInt64.ofNat (cfg.layerLabels run).length = cfg.layerProfile.layerCount.toUInt64 := by
      simp [Config.layerLabels]
    obtain ⟨a, ha⟩ := replayOps_defined cfg l (cfg.fast cfg.layerProfile.layerCount)
      (runLabel run ++ ".macro") cfg.layerProfile.operations 0 0 hdef
    have hlayer := replayLayer_eq cfg l _ _ ha
    have hmany := total_replayLayer cfg l q cfg.layerProfile.layerCount (runLabel run ++ ".macro")
      "" hdef
    show q.total (cfg.replayLayers l (cfg.fast cfg.layerProfile.layerCount)
        [runLabel run ++ ".macro"]) = q.total (cfg.replayLayers l (cfg.fast 1) (cfg.layerLabels run))
    rw [total_replayLayers cfg l q hdef "", hcount, ← hmany, Config.replayLayers]
    split
    · next heq => simp [hlayer] at heq
    · next heq => simp [heq, Config.replayLayers, hfinish]
  · intro granularity op kind command bytes layer requests hmem
    have hissued : requests = cfg.issueFastMemory command bytes layer := by
      cases granularity with
      | macro_ => exact (replayLayers_issued cfg l _ _ _ hmem).2
      | layer => exact (replayLayers_issued cfg l _ _ _ hmem).2
    rw [hissued, issueFastMemory_macroBytes]

/-- Two layers of a projection and an attention product, with a share-based compute
time that does not divide evenly. -/
def twoOperations : Config where
  profile := {
    enabled := true
    computeNsPerLayer := 10
    analyticalComputeEnabled := false}
  layerProfile := {
    layerCount := 2
    outputWriteBytes := 64
    kvCacheBytesPerToken := 16
    operations := [{
      name := "v_proj"
      weightReadBytes := 100}, {
      name := "qkt"
      computeShare := 2}]}
  dramReqBytes := 64
  memory := .dram
  operationComputeNs := fun _ _ => 0

theorem granularity_keeps_workload_twoOperations :
    Quantity.computeNs.total (twoOperations.replayAs true .layer {} 0) = 20 ∧
      Quantity.computeNs.total (twoOperations.replayAs true .macro_ {} 0) =
        Quantity.computeNs.total (twoOperations.replayAs true .layer {} 0) :=
  ⟨by decide, (granularity_keeps_workload twoOperations {} (.inr (.inl (by decide))) 0).1 .computeNs⟩

/-! ### The detailed replay -/

/-- What a run does to the memory and the compute array, in order. -/
inductive Event where
  | layer (label : String)
  | memory (op : Nat) (kind : TensorKind) (command : Command) (label : String) (bytes : Nat)
  | compute (op : Nat) (ns : UInt64)
  | trap
  | finish
  deriving DecidableEq, Repr

/-- The bytes of the transactions issued: their data lengths, or for a tensor-sized
request the count it encodes. -/
def movedBytes (requests : List Payload) : Nat :=
  (requests.map fun t => t.chargedBytes.toNat).sum

/-- A transfer that moves nothing and an operation that takes no time leave no event. -/
def Segment.events : Segment → List Event
  | .layerStart layer => [.layer layer]
  | .transfer op kind command _ layer requests =>
    if movedBytes requests = 0 then [] else [.memory op kind command layer (movedBytes requests)]
  | .compute op ns => if ns = 0 then [] else [.compute op ns]
  | .layerEnd _ _ => []
  | .trap => [.trap]
  | .finish => [.finish]

def events (segments : List Segment) : List Event := segments.flatMap Segment.events

@[simp] theorem events_append (a b : List Segment) : events (a ++ b) = events a ++ events b :=
  List.flatMap_append

@[simp] theorem events_nil : events [] = [] := rfl

@[simp] theorem events_cons (s : Segment) (rest : List Segment) :
    events (s :: rest) = s.events ++ events rest := List.flatMap_cons

/-- The bytes of the memory events. -/
def volume (es : List Event) : Nat :=
  (es.map fun
    | .memory _ _ _ _ bytes => bytes
    | _ => 0).sum

@[simp] theorem volume_append (a b : List Event) : volume (a ++ b) = volume a + volume b := by
  simp [volume]

/-- The tensors an operation reads, and the ones it writes, by their sizes. -/
def Config.readSizes (op : ModelOperationInfo) : List UInt64 :=
  (if 0 < op.weightReadBytes then [op.weightReadBytes] else []) ++
  (if op.name = "qkt" ∧ 0 < cfg.layerProfile.kvCacheBytesPerToken then
    [cfg.layerProfile.kvCacheBytesPerToken * l.contextTokens.toUInt64] else [])

def Config.writeSizes (op : ModelOperationInfo) : List UInt64 :=
  if op.name = "v_proj" ∧ 0 < cfg.layerProfile.kvCacheBytesPerToken then
    [cfg.layerProfile.kvCacheBytesPerToken * l.kvWriteTokens.toUInt64] else []

/-- The sizes of the tensors a layer moves. Where the compute time is not defined the
run ends at the first operation's, after its reads. -/
def Config.tensorSizes : List UInt64 :=
  if cfg.profile.analyticalComputeEnabled = true ∨ cfg.totalComputeShare ≠ 0 ∨
      cfg.layerProfile.operations.length ≤ 1 then
    cfg.layerProfile.operations.flatMap (fun op => cfg.readSizes l op ++ cfg.writeSizes l op) ++
      [cfg.outputWriteBytes * l.queryTokens.toUInt64]
  else cfg.layerProfile.operations.head?.toList.flatMap (cfg.readSizes l)

/-- A mode that takes the layers one at a time, and how many bytes it moves of a tensor. -/
structure Sized (m : Mode) (size : UInt64 → Nat) : Prop where
  single : m.multiplier = 1
  moved : ∀ command bytes layer, movedBytes (m.issue command bytes layer) = size bytes

section
variable {m : Mode} {size : UInt64 → Nat} (hm : Sized m size)
include hm

theorem transfer_events (i : Nat) (kind : TensorKind) (command : Command) (bytes : UInt64)
    (layer : String) : (m.transfer i kind command bytes layer).events =
      if size bytes = 0 then [] else [.memory i kind command layer (size bytes)] := by
  simp [Mode.transfer, Segment.events, hm.single, hm.moved]

theorem compute_events (i : Nat) (c : UInt64) :
    events (m.compute i c) = if c = 0 then [] else [.compute i c] := by
  simp only [Mode.compute, hm.single, multiplier_one, UInt64.mul_one]
  split
  · next h => simp [h.2]
  · simp [Segment.events]

theorem transfer_volume (i : Nat) (kind : TensorKind) (command : Command) (bytes : UInt64)
    (layer : String) : volume (m.transfer i kind command bytes layer).events = size bytes := by
  rw [transfer_events hm]
  split
  · next h => rw [h]; rfl
  · rfl

theorem compute_volume (i : Nat) (c : UInt64) : volume (events (m.compute i c)) = 0 := by
  rw [compute_events hm]
  split <;> rfl

theorem reads_volume (layer : String) (i : Nat) (op : ModelOperationInfo) :
    volume (events (cfg.reads l m layer i op)) = ((cfg.readSizes l op).map size).sum := by
  rw [Config.reads, Config.readSizes, events_append, volume_append, List.map_append, List.sum_append]
  congr 1
  · split
    · simpa using transfer_volume hm ..
    · rfl
  · split
    · simpa using transfer_volume hm ..
    · rfl

theorem writes_volume (layer : String) (i : Nat) (op : ModelOperationInfo) :
    volume (events (cfg.writes l m layer i op)) = ((cfg.writeSizes l op).map size).sum := by
  rw [Config.writes, Config.writeSizes]
  split
  · simpa using transfer_volume hm ..
  · rfl

theorem replayOps_volume (layer : String) (ops : List ModelOperationInfo) (i : Nat)
    (assigned : UInt64) {a : UInt64}
    (h : (cfg.replayOps l m layer i ops assigned).2 = some a) :
    volume (events (cfg.replayOps l m layer i ops assigned).1) =
      ((ops.flatMap fun op => cfg.readSizes l op ++ cfg.writeSizes l op).map size).sum := by
  induction ops generalizing i assigned with
  | nil => rfl
  | cons op rest ih =>
    rw [Config.replayOps] at h ⊢
    split at h
    · cases h
    · simp only [events_append, volume_append, List.flatMap_cons, List.map_append, List.sum_append,
        reads_volume cfg l hm, writes_volume cfg l hm, compute_volume hm, ih _ _ h]
      omega

end

/-! A run that traps does so at its first operation, after the reads. -/

theorem not_defined (h : ¬cfg.ComputeDefined) :
    ∃ op next rest, cfg.layerProfile.operations = op :: next :: rest ∧
      ∀ assigned, cfg.perLayerCompute l false assigned op = none := by
  simp only [Config.ComputeDefined, not_or, not_not, not_le] at h
  obtain ⟨hana, htotal, hlen⟩ := h
  match hops : cfg.layerProfile.operations with
  | [] => simp [hops] at hlen
  | [_] => simp [hops] at hlen
  | op :: next :: rest =>
    exact ⟨op, next, rest, rfl, fun _ => by simp [Config.perLayerCompute, hana, htotal]⟩

/-- A layer of a run that traps. -/
theorem replayLayer_trapped (m : Mode) (layer : String) (h : ¬cfg.ComputeDefined) :
    ∃ op, cfg.layerProfile.operations.head? = some op ∧
      cfg.replayLayer l m layer = (.layerStart layer :: cfg.reads l m layer 0 op ++ [.trap], true) := by
  obtain ⟨op, next, rest, hops, hnone⟩ := not_defined cfg l h
  have hreplay : cfg.replayOps l m layer 0 cfg.layerProfile.operations 0 =
      (cfg.reads l m layer 0 op ++ [.trap], none) := by
    rw [hops, Config.replayOps, List.isEmpty_cons, hnone]
  exact ⟨op, by rw [hops]; rfl, by rw [Config.replayLayer, hreplay]; rfl⟩

theorem replayLayer_volume {m : Mode} {size : UInt64 → Nat} (hm : Sized m size) (layer : String) :
    volume (events (cfg.replayLayer l m layer).1) = ((cfg.tensorSizes l).map size).sum := by
  rw [Config.tensorSizes]
  split
  · next hdef =>
    obtain ⟨a, ha⟩ := replayOps_defined cfg l m layer cfg.layerProfile.operations 0 0 hdef
    rw [replayLayer_eq cfg l m layer ha]
    simp only [List.cons_append, events_cons, events_append, events_nil, volume_append,
      replayOps_volume cfg l hm _ _ _ _ ha, transfer_volume hm, List.map_append, List.sum_append]
    simp [volume, Segment.events]
  · next hdef =>
    obtain ⟨op, hop, hlayer⟩ := replayLayer_trapped cfg l m layer hdef
    rw [hlayer, hop]
    simp only [List.cons_append, events_cons, events_append, events_nil, volume_append,
      reads_volume cfg l hm]
    simp [volume, Segment.events]

/-! Modes that move the same of every tensor of a layer leave the same events. -/

section
variable {m m' : Mode} {size size' : UInt64 → Nat} (hm : Sized m size) (hm' : Sized m' size')
include hm hm'

theorem transfer_events_eq (i : Nat) (kind : TensorKind) (command : Command) {bytes : UInt64}
    (layer : String) (h : size bytes = size' bytes) :
    (m.transfer i kind command bytes layer).events = (m'.transfer i kind command bytes layer).events := by
  rw [transfer_events hm, transfer_events hm', h]

theorem reads_events_eq (layer : String) (i : Nat) (op : ModelOperationInfo)
    (h : ∀ b ∈ cfg.readSizes l op, size b = size' b) :
    events (cfg.reads l m layer i op) = events (cfg.reads l m' layer i op) := by
  simp only [Config.readSizes, List.forall_mem_append] at h
  rw [Config.reads, Config.reads, events_append, events_append]
  congr 1
  · split
    · next hw => simpa [hw] using transfer_events_eq hm hm' _ _ _ _ (h.1 _ (by simp [hw]))
    · rfl
  · split
    · next hkv => simpa using transfer_events_eq hm hm' _ _ _ _ (h.2 _ (by simp [hkv]))
    · rfl

theorem writes_events_eq (layer : String) (i : Nat) (op : ModelOperationInfo)
    (h : ∀ b ∈ cfg.writeSizes l op, size b = size' b) :
    events (cfg.writes l m layer i op) = events (cfg.writes l m' layer i op) := by
  rw [Config.writeSizes] at h
  rw [Config.writes, Config.writes]
  split
  · next hkv => simpa using transfer_events_eq hm hm' _ _ _ _ (h _ (by simp [hkv]))
  · rfl

theorem replayOps_events_eq (layer : String) (ops : List ModelOperationInfo) (i : Nat)
    (assigned : UInt64)
    (h : ∀ b ∈ ops.flatMap fun op => cfg.readSizes l op ++ cfg.writeSizes l op, size b = size' b) :
    events (cfg.replayOps l m layer i ops assigned).1 =
      events (cfg.replayOps l m' layer i ops assigned).1 := by
  induction ops generalizing i assigned with
  | nil => rfl
  | cons op rest ih =>
    simp only [List.flatMap_cons, List.forall_mem_append] at h
    have hreads := reads_events_eq cfg l hm hm' layer i op h.1.1
    rw [Config.replayOps, Config.replayOps]
    split
    · simp only [events_append, hreads]
    · simp only [events_append, hreads, writes_events_eq cfg l hm hm' layer i op h.1.2, ih _ _ h.2,
        compute_events hm, compute_events hm']

theorem replayLayer_events_eq (layer : String)
    (h : ∀ b ∈ cfg.tensorSizes l, size b = size' b) :
    events (cfg.replayLayer l m layer).1 = events (cfg.replayLayer l m' layer).1 := by
  rw [Config.tensorSizes] at h
  split at h
  · next hdef =>
    obtain ⟨a, ha⟩ := replayOps_defined cfg l m layer cfg.layerProfile.operations 0 0 hdef
    have ha' := ha
    rw [replayOps_assigned cfg l m m' layer layer] at ha'
    simp only [List.forall_mem_append, List.forall_mem_singleton] at h
    rw [replayLayer_eq cfg l m layer ha, replayLayer_eq cfg l m' layer ha']
    simp only [List.cons_append, events_cons, events_append, hm.single, hm'.single,
      replayOps_events_eq cfg l hm hm' layer _ 0 0 h.1, transfer_events_eq hm hm' _ _ _ _ h.2]
  · next hdef =>
    obtain ⟨op, hop, hlayer⟩ := replayLayer_trapped cfg l m layer hdef
    obtain ⟨op', hop', hlayer'⟩ := replayLayer_trapped cfg l m' layer hdef
    cases hop.symm.trans hop'
    rw [hop] at h
    rw [hlayer, hlayer']
    simp only [List.cons_append, events_cons, events_append,
      reads_events_eq cfg l hm hm' layer 0 op (by simpa using h)]

end

/-- Whether a layer traps is the same in every mode. -/
theorem replayLayer_trap (m : Mode) (layer : String) :
    (cfg.replayLayer l m layer).2 = true ↔ ¬cfg.ComputeDefined := by
  constructor
  · intro htrap hdef
    obtain ⟨a, ha⟩ := replayOps_defined cfg l m layer cfg.layerProfile.operations 0 0 hdef
    rw [replayLayer_eq cfg l m layer ha] at htrap
    cases htrap
  · intro hdef
    obtain ⟨op, -, hlayer⟩ := replayLayer_trapped cfg l m layer hdef
    rw [hlayer]

theorem replayLayers_defined (m : Mode) (hdef : cfg.ComputeDefined) (layer : String)
    (rest : List String) : cfg.replayLayers l m (layer :: rest) =
      (cfg.replayLayer l m layer).1 ++ cfg.replayLayers l m rest := by
  rw [Config.replayLayers]
  split
  · next heq => exact absurd hdef ((replayLayer_trap cfg l m layer).mp (by rw [heq]))
  · next heq => rw [heq]

theorem replayLayers_trapped (m : Mode) (hdef : ¬cfg.ComputeDefined) (layer : String)
    (rest : List String) : cfg.replayLayers l m (layer :: rest) = (cfg.replayLayer l m layer).1 := by
  have htrap := (replayLayer_trap cfg l m layer).mpr hdef
  rw [Config.replayLayers]
  split
  · next heq => rw [heq]
  · next heq => rw [heq] at htrap; cases htrap

theorem replayLayers_events_eq {m m' : Mode} {size size' : UInt64 → Nat} (hm : Sized m size)
    (hm' : Sized m' size') (labels : List String) (h : ∀ b ∈ cfg.tensorSizes l, size b = size' b) :
    events (cfg.replayLayers l m labels) = events (cfg.replayLayers l m' labels) := by
  induction labels with
  | nil => rfl
  | cons layer rest ih =>
    have hlayer := replayLayer_events_eq cfg l hm hm' layer h
    by_cases hdef : cfg.ComputeDefined
    · rw [replayLayers_defined cfg l m hdef, replayLayers_defined cfg l m' hdef, events_append,
        events_append, hlayer, ih]
    · rw [replayLayers_trapped cfg l m hdef, replayLayers_trapped cfg l m' hdef, hlayer]

/-- The bytes of a run are a positive number of times those of a layer, the same
number in every mode. -/
theorem replayLayers_volume (layer : String) (rest : List String) :
    ∃ k > 0, ∀ m size, Sized m size → volume (events (cfg.replayLayers l m (layer :: rest))) =
      k * ((cfg.tensorSizes l).map size).sum := by
  by_cases hdef : cfg.ComputeDefined
  · refine ⟨rest.length + 1, Nat.succ_pos _, fun m size hm => ?_⟩
    have hall : ∀ labels, volume (events (cfg.replayLayers l m labels)) =
        labels.length * ((cfg.tensorSizes l).map size).sum := by
      intro labels
      induction labels with
      | nil => rw [List.length_nil, Nat.zero_mul]; rfl
      | cons label labels ih =>
        rw [replayLayers_defined cfg l m hdef, events_append, volume_append,
          replayLayer_volume cfg l hm, ih, List.length_cons, Nat.succ_mul, Nat.add_comm]
    rw [hall, List.length_cons]
  · refine ⟨1, Nat.one_pos, fun m size hm => ?_⟩
    rw [replayLayers_trapped cfg l m hdef, replayLayer_volume cfg l hm, Nat.one_mul]

/-! How much of a tensor each mode moves. -/

theorem requestBytes_pos : 1 ≤ cfg.requestBytes.toNat := by
  show 1 ≤ (if 1 ≤ cfg.dramReqBytes then cfg.dramReqBytes else 1).toNat
  split
  · next h => exact UInt32.le_iff_toNat_le.mp h
  · rfl

theorem splitRequests_moved (command : Command) (layer : String) (burstSize : UInt32) (turns : Nat)
    (remaining burstId : UInt32) (h : remaining.toNat ≤ turns) :
    movedBytes (cfg.splitRequests command layer burstSize turns remaining burstId) =
      remaining.toNat := by
  induction turns generalizing remaining burstId with
  | zero => exact (Nat.le_zero.mp h).symm
  | succ turns ih =>
    rw [Config.splitRequests]
    split
    · next hzero => rw [hzero]; rfl
    · next hpos =>
      have hreq := requestBytes_pos cfg
      have hrem : 0 < remaining.toNat := by
        rw [Nat.pos_iff_ne_zero]
        exact fun hz => hpos (UInt32.toNat_inj.mp hz)
      have hsub : (remaining - min remaining cfg.requestBytes).toNat =
          remaining.toNat - min remaining.toNat cfg.requestBytes.toNat := by
        rw [UInt32.toNat_sub_of_le, Lib.toNat_min]
        rw [UInt32.le_iff_toNat_le, Lib.toNat_min]
        exact min_le_left _ _
      have htail := ih (remaining - min remaining cfg.requestBytes) (burstId + 1) (by omega)
      have hhead : (cfg.request command layer (min remaining cfg.requestBytes) burstId burstSize
          "").chargedBytes.toNat = min remaining.toNat cfg.requestBytes.toNat := Lib.toNat_min _ _
      rw [movedBytes] at htail ⊢
      rw [List.map_cons, List.sum_cons, htail, hhead, hsub]
      omega

/-- Nothing is issued for a count the burst size's sum overflows on. -/
theorem issueMemory_moved (command : Command) (bytes : UInt32) (layer : String) :
    movedBytes (cfg.issueMemory command bytes layer) =
      if bytes.toNat + cfg.requestBytes.toNat ≤ 2 ^ 32 then bytes.toNat else 0 := by
  have hreq := requestBytes_pos cfg
  have hbytes := bytes.toNat_lt
  have hburst : (bytes + cfg.requestBytes - 1) / cfg.requestBytes = 0 ↔
      bytes.toNat = 0 ∨ 2 ^ 32 < bytes.toNat + cfg.requestBytes.toNat := by
    have hround : ((bytes + cfg.requestBytes - 1) / cfg.requestBytes).toNat =
        (bytes.toNat + cfg.requestBytes.toNat - 1) % 2 ^ 32 / cfg.requestBytes.toNat := by
      rw [UInt32.toNat_div, UInt32.toNat_sub, UInt32.toNat_add, UInt32.toNat_one]
      have := cfg.requestBytes.toNat_lt
      congr 1
      omega
    rw [← UInt32.toNat_inj, hround, UInt32.toNat_zero, Nat.div_eq_zero_iff]
    have := cfg.requestBytes.toNat_lt
    omega
  rw [Config.issueMemory]
  split
  · next h =>
    rcases hburst.mp h with h | h
    · simp [movedBytes, h]
    · rw [if_neg (by omega)]
      rfl
  · next h =>
    rw [hburst, not_or] at h
    rw [splitRequests_moved cfg _ _ _ _ _ _ le_rfl, if_pos (by omega)]

def Config.detailedSize (bytes : UInt64) : Nat :=
  if bytes.toUInt32.toNat + cfg.requestBytes.toNat ≤ 2 ^ 32 then bytes.toUInt32.toNat else 0

theorem detailed_sized : Sized cfg.detailed cfg.detailedSize :=
  ⟨rfl, fun command bytes layer => issueMemory_moved cfg command bytes.toUInt32 layer⟩

theorem fast_sized : Sized (cfg.fast 1) UInt64.toNat := by
  refine ⟨rfl, fun command bytes layer => ?_⟩
  show movedBytes (cfg.issueFastMemory command bytes layer) = bytes.toNat
  rw [Config.issueFastMemory]
  split
  · next h => rw [h]; rfl
  · have hbytes : (cfg.request command layer (lowWord bytes) 0 (highWord bytes)
        "fast_memory").chargedBytes = bytes := macroBytes_words _ bytes rfl rfl
    simp [movedBytes, hbytes]

theorem detailedSize_le (bytes : UInt64) : cfg.detailedSize bytes ≤ bytes.toNat := by
  have hnarrow : bytes.toUInt32.toNat ≤ bytes.toNat := by
    rw [UInt64.toNat_toUInt32]
    exact Nat.mod_le _ _
  rw [Config.detailedSize]
  split
  · exact hnarrow
  · exact Nat.zero_le _

/-- The detailed replay moves a tensor whole exactly when its size, rounded up to
requests, is within 32 bits. -/
theorem detailedSize_eq_iff (bytes : UInt64) :
    cfg.detailedSize bytes = bytes.toNat ↔ bytes.toNat + cfg.requestBytes.toNat ≤ 2 ^ 32 := by
  have hreq := requestBytes_pos cfg
  have hlt := cfg.requestBytes.toNat_lt
  rw [Config.detailedSize, UInt64.toNat_toUInt32]
  split <;> omega

/-- Terms that are each at most another's and add up to the same are the same. -/
theorem eq_of_sum_eq {α : Type} {f g : α → Nat} {xs : List α} (hle : ∀ x, f x ≤ g x)
    (hsum : (xs.map f).sum = (xs.map g).sum) : ∀ x ∈ xs, f x = g x := by
  induction xs with
  | nil => simp
  | cons x xs ih =>
    have htail : (xs.map f).sum ≤ (xs.map g).sum := List.sum_le_sum fun y _ => hle y
    have hhead := hle x
    simp only [List.map_cons, List.sum_cons] at hsum
    intro y hy
    rcases List.mem_cons.mp hy with rfl | hy
    · omega
    · exact ih (by omega) y hy

/-- The detailed replay and the fast one layer by layer leave the same events, in the
same order, exactly when no tensor of a layer is too large for a 32-bit byte count. -/
theorem detailed_eq_fast_iff (files : Files) (fileName : String)
    (hload : loadModelLayerProfile files fileName = .ok cfg.layerProfile) (run : UInt32) :
    events (cfg.replayAs false .layer l run) = events (cfg.replayAs true .layer l run) ↔
      ∀ bytes ∈ cfg.tensorSizes l, bytes.toNat + cfg.requestBytes.toNat ≤ 2 ^ 32 := by
  show events (cfg.replayLayers l cfg.detailed (cfg.layerLabels run)) =
    events (cfg.replayLayers l (cfg.fast 1) (cfg.layerLabels run)) ↔ _
  constructor
  · intro heq
    have hne : cfg.layerLabels run ≠ [] := by
      have hcount := (loadModelLayerProfile_valid hload).layers
      rw [Config.layerLabels, ne_eq, List.map_eq_nil_iff, List.range_eq_nil]
      exact fun hz => hcount (UInt32.toNat_inj.mp hz)
    obtain ⟨layer, rest, hlabels⟩ := List.exists_cons_of_ne_nil hne
    obtain ⟨k, hk, hvolume⟩ := replayLayers_volume cfg l layer rest
    rw [hlabels] at heq
    have hsum := congrArg volume heq
    rw [hvolume _ _ (detailed_sized cfg), hvolume _ _ (fast_sized cfg)] at hsum
    intro bytes hbytes
    rw [← detailedSize_eq_iff]
    exact eq_of_sum_eq (detailedSize_le cfg) (Nat.eq_of_mul_eq_mul_left hk hsum) bytes hbytes
  · intro hfit
    exact replayLayers_events_eq cfg l (detailed_sized cfg) (fast_sized cfg) _
      fun bytes hbytes => (detailedSize_eq_iff cfg bytes).mpr (hfit bytes hbytes)

/-- A model file with one layer and one projection, of weights of the given size. -/
def projectionFile (weightBytes : Int) : Json :=
  .obj [("decoder_layers", .int 1),
    ("operations", .arr [.obj [("name", .str "q_proj"), ("weight_read_bytes", .int weightBytes)]])]

/-- The NPU of that model, with 64-byte DRAM requests. -/
def projection (weightBytes : UInt64) : Config where
  profile := {
    enabled := true
    computeNsPerLayer := 10
    analyticalComputeEnabled := false}
  layerProfile := {
    name := "projection"
    layerCount := 1
    operations := [{
      name := "q_proj"
      weightReadBytes := weightBytes}]}
  dramReqBytes := 64
  memory := .dram
  operationComputeNs := fun _ _ => 0

/-- Two requests of 64 bytes and one of 22 carry what one tensor-sized request does. -/
theorem detailed_eq_fast_projection :
    events ((projection 150).replayAs false .layer {} 0) =
      events ((projection 150).replayAs true .layer {} 0) := by
  have hsizes : (projection 150).tensorSizes {} = [150, 0] := by decide
  refine (detailed_eq_fast_iff (projection 150) {} (fun _ => .ok (projectionFile 150)) "projection"
    rfl 0).mpr fun bytes hbytes => ?_
  rw [hsizes, List.mem_pair] at hbytes
  rcases hbytes with rfl | rfl <;> decide

/-- Weights of 4 GiB are not read at all by the detailed replay: their size is zero in
32 bits. -/
theorem large_weights_not_read :
    loadModelLayerProfile (fun _ => .ok (projectionFile (2 ^ 32))) "projection" =
        .ok (projection (2 ^ 32)).layerProfile ∧
      events ((projection (2 ^ 32)).replayAs false .layer {} 0) ≠
        events ((projection (2 ^ 32)).replayAs true .layer {} 0) :=
  ⟨rfl, by decide⟩

end Hsim.NpuTraceReplayer
