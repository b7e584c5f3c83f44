import Hsim.NpuRun
import Hsim.PimTimeline

/-! The labels of the NPU's traffic.

Every request of a run is under the run's own label, which no draft macro has,
and the replay thread writes only the NPU's records of the log. -/
namespace Hsim.NpuTraceReplayer

open PimWrapper (isDraft Unmarked unmarked_nil unmarked_cons)

/-- A label of some run. -/
def OfRun (layer : String) : Prop := ∃ rest, layer = "target_npu.run" ++ rest

theorem OfRun.not_isDraft {layer : String} (h : OfRun layer) : isDraft layer = false := by
  obtain ⟨rest, rfl⟩ := h
  exact PimWrapper.not_isDraft (c := 't') (by simp) (by decide)

theorem OfRun.append {layer : String} (h : OfRun layer) (rest : String) : OfRun (layer ++ rest) := by
  obtain ⟨front, rfl⟩ := h
  exact ⟨front ++ rest, String.append_assoc ..⟩

/-! ### What a run is made of -/

def Segment.Named : Segment → Prop
  | .transfer _ _ _ _ _ requests => ∀ t ∈ requests, OfRun t.layer
  | _ => True

section
variable (cfg : Config)

theorem splitRequests_layer (command : Command) (layer : String) (burstSize : UInt32) (turns : Nat)
    (remaining burstId : UInt32) :
    ∀ t ∈ cfg.splitRequests command layer burstSize turns remaining burstId, t.layer = layer := by
  induction turns generalizing remaining burstId with
  | zero => simp [Config.splitRequests]
  | succ turns ih =>
    rw [Config.splitRequests]
    split
    · simp
    · exact List.forall_mem_cons.mpr ⟨rfl, ih _ _⟩

theorem issueMemory_layer (command : Command) (bytes : UInt32) (layer : String) :
    ∀ t ∈ cfg.issueMemory command bytes layer, t.layer = layer := by
  simp only [Config.issueMemory]
  split
  · simp
  · exact splitRequests_layer cfg _ _ _ _ _ _

theorem issueFastMemory_layer (command : Command) (bytes : UInt64) (layer : String) :
    ∀ t ∈ cfg.issueFastMemory command bytes layer, t.layer = layer := by
  rw [Config.issueFastMemory]
  split
  · simp
  · exact List.forall_mem_singleton.mpr rfl

theorem layerLabels_ofRun (run : UInt32) : ∀ label ∈ cfg.layerLabels run, OfRun label := by
  intro label hlabel
  obtain ⟨id, -, rfl⟩ := List.mem_map.mp hlabel
  have hrun : OfRun (runLabel run) := ⟨_, rfl⟩
  exact (hrun.append _).append _

theorem named_of_placed {m : Mode} {labels : List String} {g : Segment}
    (hm : ∀ command bytes layer, ∀ t ∈ m.issue command bytes layer, t.layer = layer)
    (hlabels : ∀ label ∈ labels, OfRun label) (h : Issued m g ∧ g.Under labels) : g.Named := by
  cases g with
  | transfer op kind command bytes layer requests =>
    obtain ⟨⟨-, rfl⟩, label, hlabel, rest, rfl⟩ := h
    intro t ht
    rw [hm _ _ _ t ht]
    exact (hlabels label hlabel).append rest
  | _ => trivial

theorem replayTrace_named (l : Launch) (run : UInt32) : ∀ g ∈ cfg.replayTrace l run, g.Named := by
  intro g hg
  unfold Config.replayTrace Config.replayAs at hg
  split at hg
  · split at hg
    · refine named_of_placed (issueFastMemory_layer cfg) ?_ (replayLayers_placed cfg l _ _ g hg)
      have hrun : OfRun (runLabel run) := ⟨_, rfl⟩
      exact List.forall_mem_singleton.mpr (hrun.append _)
    · exact named_of_placed (issueFastMemory_layer cfg) (layerLabels_ofRun cfg run)
        (replayLayers_placed cfg l _ _ g hg)
  · exact named_of_placed (fun command bytes => issueMemory_layer cfg command bytes.toUInt32)
      (layerLabels_ofRun cfg run) (replayLayers_placed cfg l _ _ g hg)

end

/-! ### The thread -/

/-- What the thread has still to send. -/
structure Named (s : State) : Prop where
  unsent : ∀ t ∈ s.thread.unsent, OfRun t.layer
  script : ∀ g ∈ s.thread.script, g.Named

theorem named_initial : Named {} := by
  constructor <;> simp [Thread.unsent, Thread.script]

/-- An activation by its labels. -/
structure Speaks (s' : State) (effects : List Effect) : Prop where
  named : Named s'
  requests : ∀ t ∈ requestsOf effects, OfRun t.layer
  unmarked : Unmarked effects

/-- The thread stops at a wait. -/
theorem speaks_nothing {s : State} (h : Named s) : Speaks s [] := ⟨h, by simp, unmarked_nil⟩

theorem Speaks.cons {s' : State} {effects : List Effect} {e : Effect} (h : Speaks s' effects)
    (he : PimWrapper.Marks e = false) (hrequest : ∀ t ∈ requestsOf [e], OfRun t.layer) :
    Speaks s' (e :: effects) := by
  refine ⟨h.named, ?_, unmarked_cons he h.unmarked⟩
  rw [← List.singleton_append, requestsOf_append]
  exact List.forall_mem_append.mpr ⟨hrequest, h.requests⟩

section
variable {cfg : Config}

theorem issue_speaks {rest : List Segment} {next : Action State} (hrest : ∀ g ∈ rest, g.Named)
    (hnext : ∀ s, Speaks (next s).1 (next s).2) {requests : List Payload}
    (hrequests : ∀ t ∈ requests, OfRun t.layer) (s : State) :
    Speaks (issue cfg rest next requests s).1 (issue cfg rest next requests s).2 := by
  induction requests generalizing s with
  | nil =>
    simp only [issue]
    split
    · exact hnext s
    · exact speaks_nothing ⟨by simp [Thread.unsent], hrest⟩
  | cons body requests ih =>
    obtain ⟨hbody, htail⟩ := List.forall_mem_cons.mp hrequests
    simp only [issue]
    split
    · have hwait : Named {(send cfg body s).1 with thread := .throttled requests rest} := ⟨htail, hrest⟩
      exact (speaks_nothing hwait).cons rfl (List.forall_mem_singleton.mpr hbody)
    · exact (ih htail (send cfg body s).1).cons rfl (List.forall_mem_singleton.mpr hbody)

theorem advance_speaks (now : Time) {script : List Segment} (hscript : ∀ g ∈ script, g.Named)
    (s : State) : Speaks (advance cfg now script s).1 (advance cfg now script s).2 := by
  have hdone : ∀ s' : State, s'.thread.unsent = [] → s'.thread.script = [] → Named s' := by
    intro s' hunsent hscript
    constructor
    · simp [hunsent]
    · simp [hscript]
  induction script generalizing s with
  | nil => exact speaks_nothing (hdone _ rfl rfl)
  | cons g rest ih =>
    obtain ⟨hg, hrest⟩ := List.forall_mem_cons.mp hscript
    cases g with
    | layerStart layer => exact (ih hrest {s with npuStartTime := now}).cons rfl (by simp [requestsOf])
    | transfer op kind command bytes layer requests =>
      simp only [advance]
      split
      · exact ih hrest s
      · exact issue_speaks hrest (ih hrest) hg _
    | compute op computeNs =>
      have hwait : Named {s with thread := .computing (now + ns computeNs.toNat) rest} :=
        ⟨by simp [Thread.unsent], hrest⟩
      exact (speaks_nothing hwait).cons rfl (by simp [requestsOf])
    | layerEnd layer compute =>
      exact ((ih hrest s).cons rfl (by simp [requestsOf])).cons rfl (by simp [requestsOf])
    | trap => exact speaks_nothing (hdone _ rfl rfl)
    | finish =>
      exact ((speaks_nothing (hdone _ rfl rfl)).cons rfl (by simp [requestsOf])).cons rfl
        (by simp [requestsOf])

variable {s : State} (h : Named s) (now : Time)
include h

theorem startRun_speaks : Speaks (startRun cfg now s).1 (startRun cfg now s).2 := by
  unfold startRun
  dsimp only
  split
  · exact advance_speaks now (replayTrace_named cfg _ _) _
  · exact speaks_nothing ⟨h.unsent, h.script⟩

theorem onResponse_speaks : Speaks (onResponse cfg now s).1 (onResponse cfg now s).2 := by
  have hunsent := h.unsent
  have hscript := h.script
  unfold onResponse
  dsimp only
  split
  · next requests rest hthread =>
    rw [hthread] at hunsent hscript
    exact issue_speaks hscript (advance_speaks now hscript) hunsent _
  · next rest hthread =>
    rw [hthread] at hscript
    split
    · exact advance_speaks now hscript _
    · exact speaks_nothing ⟨h.unsent, h.script⟩
  · exact speaks_nothing ⟨h.unsent, h.script⟩

theorem endCompute_speaks : Speaks (endCompute cfg now s).1 (endCompute cfg now s).2 := by
  have hscript := h.script
  unfold endCompute
  split
  · next wake rest hthread =>
    rw [hthread] at hscript
    exact advance_speaks now hscript s
  · exact speaks_nothing h

end

end Hsim.NpuTraceReplayer
