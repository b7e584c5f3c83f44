import Hsim.Effect

/-! The cycle log, `Logger`.

For each device the log keeps one record for a layer label, a start and an end.
The first start of a label stays, and the last end: two activities under one
label become one record that spans both. -/
namespace Hsim

/-- `NPUCycle`. -/
structure NPUCycle where
  start : Int := -1
  finish : Int := -1
  computeCycle : Int := -1
  deriving DecidableEq, Repr

structure Logger where
  hostInfo : AList (fun _ : String => Int × Int) := ∅
  npuInfo : AList (fun _ : String => NPUCycle) := ∅
  dramInfo : AList (fun _ : String => Int × Int) := ∅
  pimInfo : AList (fun _ : String => Int × Int) := ∅

namespace Logger

/-- `if (info.find(layer) == info.end()) info[layer].first = cycle`. -/
def start (info : AList (fun _ : String => Int × Int)) (layer : String) (cycle : Int) :
    AList (fun _ : String => Int × Int) :=
  if (info.lookup layer).isSome then info else info.insert layer (cycle, 0)

/-- `info[layer].second = cycle`. -/
def finish (info : AList (fun _ : String => Int × Int)) (layer : String) (cycle : Int) :
    AList (fun _ : String => Int × Int) :=
  info.insert layer (((info.lookup layer).getD (0, 0)).1, cycle)

def updateStartAt (l : Logger) (layer : String) (type : DeviceType) (cycle : Int) : Logger :=
  match type with
  | .host => {l with hostInfo := start l.hostInfo layer cycle}
  | .npu =>
    if (l.npuInfo.lookup layer).isSome then l
    else {l with npuInfo := l.npuInfo.insert layer {start := cycle}}
  | .pim => {l with pimInfo := start l.pimInfo layer cycle}
  | .dram => {l with dramInfo := start l.dramInfo layer cycle}
  | _ => l

def updateEndAt (l : Logger) (layer : String) (type : DeviceType) (cycle : Int) : Logger :=
  match type with
  | .host => {l with hostInfo := finish l.hostInfo layer cycle}
  | .pim => {l with pimInfo := finish l.pimInfo layer cycle}
  | .dram => {l with dramInfo := finish l.dramInfo layer cycle}
  | _ => l

/-- `update_npu_start`, at the current cycle. -/
def updateNpuStart (l : Logger) (layer : String) (current startCycle : Int) : Logger :=
  let info := (l.npuInfo.lookup layer).getD {}
  let info :=
    if layer = "D_MHA_out" then {info with start := startCycle}
    else if info.start = -1 then
      if layer = "D_Q0" then {info with start := current} else {info with start := startCycle}
    else info
  {l with npuInfo := l.npuInfo.insert layer info}

def updateNpuEnd (l : Logger) (layer : String) (finish computeCycle : Int) : Logger :=
  let info := (l.npuInfo.lookup layer).getD {}
  {l with npuInfo := l.npuInfo.insert layer {info with
    finish := finish
    computeCycle := computeCycle}}

/-- What a call does to the log. The replayer reports its starts at the current cycle. -/
def apply (l : Logger) : Effect → Logger
  | .updateStart layer type cycle => l.updateStartAt layer type cycle
  | .updateEnd layer type cycle => l.updateEndAt layer type cycle
  | .updateNpuStart layer cycle => l.updateNpuStart layer cycle cycle
  | .updateNpuEnd layer cycle compute => l.updateNpuEnd layer cycle compute.toInt64.toInt
  | _ => l

/-- The log after the calls of a run. -/
def of (effects : List Effect) : Logger := effects.foldl apply {}

/-- The record of a layer on the PIM. -/
def bar (effects : List Effect) (layer : String) : Option (Int × Int) := (of effects).pimInfo.lookup layer

/-! ### One record -/

/-- A call that writes the record of a layer on the PIM. -/
def Writes (layer : String) : Effect → Prop
  | .updateStart name .pim _ | .updateEnd name .pim _ => name = layer
  | _ => False

/-- A call writes one record. -/
theorem Writes.unique {a b : String} {e : Effect} (ha : Writes a e) (hb : Writes b e) : a = b := by
  unfold Writes at ha hb
  split at ha
  · exact ha.symm.trans hb
  · exact ha.symm.trans hb
  · exact ha.elim

@[simp] theorem bar_nil (layer : String) : bar [] layer = none := rfl

theorem of_append (a b : List Effect) : of (a ++ b) = b.foldl apply (of a) := List.foldl_append

theorem apply_pimInfo_other (l : Logger) {layer : String} {e : Effect} (h : ¬Writes layer e) :
    (l.apply e).pimInfo.lookup layer = l.pimInfo.lookup layer := by
  cases e with
  | updateStart name type cycle =>
    cases type with
    | pim =>
      have hne : layer ≠ name := fun he => h he.symm
      simp only [apply, updateStartAt, start]
      split
      · rfl
      · exact AList.lookup_insert_ne hne
    | npu =>
      simp only [apply, updateStartAt]
      split <;> rfl
    | _ => rfl
  | updateEnd name type cycle =>
    cases type with
    | pim => exact AList.lookup_insert_ne fun he => h he.symm
    | _ => rfl
  | _ => rfl

/-- Calls that write other records. -/
theorem bar_append_other (log : List Effect) {effects : List Effect} {layer : String}
    (h : ∀ e ∈ effects, ¬Writes layer e) : bar (log ++ effects) layer = bar log layer := by
  rw [bar, bar, of_append]
  generalize of log = l
  induction effects generalizing l with
  | nil => rfl
  | cons e effects ih =>
    obtain ⟨he, hrest⟩ := List.forall_mem_cons.mp h
    rw [List.foldl_cons, ih hrest, apply_pimInfo_other l he]

/-- The first start of a layer. -/
theorem bar_start {log : List Effect} {layer : String} (h : bar log layer = none) (cycle : Int) :
    bar (log ++ [.updateStart layer .pim cycle]) layer = some (cycle, 0) := by
  have hnone : (of log).pimInfo.lookup layer = none := h
  simp only [bar, of_append, List.foldl_cons, List.foldl_nil, apply, updateStartAt, start, hnone,
    Option.isSome_none, Bool.false_eq_true, if_false]
  exact AList.lookup_insert _

/-- An end of a layer that has started. -/
theorem bar_end {log : List Effect} {layer : String} {record : Int × Int}
    (h : bar log layer = some record) (cycle : Int) :
    bar (log ++ [.updateEnd layer .pim cycle]) layer = some (record.1, cycle) := by
  have hsome : (of log).pimInfo.lookup layer = some record := h
  simp only [bar, of_append, List.foldl_cons, List.foldl_nil, apply, updateEndAt, finish, hsome,
    Option.getD_some]
  exact AList.lookup_insert _

end Logger

end Hsim
