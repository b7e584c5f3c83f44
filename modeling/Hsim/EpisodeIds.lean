import Hsim.DraftCommands
import Hsim.DraftLabels
import Hsim.System

/-! Episode ids, there and back.

The host files a stage under its name. The NPU learns which episode it works for from
the launch, the PIM module from the label of the stage's last command; both search the
label for the name. Of a label only the head is searched past, so nothing that may
follow the name changes what is found. -/
namespace Hsim.Host

open TraceGenerator (SpeculativeControl)
open PimWrapper (isDraft)

theorem episodeIdFromLayer_launch (control : SpeculativeControl) :
    episodeIdFromLayer (Config.launch control).layer = samplePrefix control := by
  have hlabel : (Config.launch control).layer = "target." ++ samplePrefix control ++ "" :=
    String.append_empty.symm
  rw [hlabel]
  exact episodeIdFromLayer_name (by decide) control (by simp)

/-- The name is found in the label of a macro, whatever the macro is for. -/
theorem episodeIdFromLayer_label (control : SpeculativeControl) (work : WorkPosition) (layer : Option UInt32)
    (operation : String) :
    episodeIdFromLayer
        (Coordinates.label ⟨control.sampleIndex, control.iteration, work, layer, operation⟩) =
      samplePrefix control := by
  have hlabel : Coordinates.label ⟨control.sampleIndex, control.iteration, work, layer, operation⟩ =
      "draft_pim." ++ samplePrefix control ++ (work.label ++ (layerLabel layer ++ (".op." ++ operation))) := by
    simp only [Coordinates.label, samplePrefix, String.append_assoc]
  rw [hlabel]
  refine episodeIdFromLayer_name (by decide) control ?_
  rw [String.toList_append]
  exact work.label_noDigit _

/-- A stage is filed under its name. -/
theorem launchStage_begins (cfg : Config) (allocate : Nat → Nat) (now : Time) (control : SpeculativeControl)
    (rest : List SpeculativeControl) (s : State) :
    ∀ id launch, Effect.metrics (.beginEpisode id launch) ∈ (launchStage cfg allocate now control rest s).2 →
      id = samplePrefix control := by
  intro id launch hmem
  unfold launchStage at hmem
  split at hmem
  · simp at hmem
  · simp only [List.mem_cons, Effect.metrics.injEq, Metrics.Call.beginEpisode.injEq, List.not_mem_nil,
      reduceCtorEq, or_false] at hmem
    exact hmem.1

/-- **The episode is found again.** What the NPU reads off the launch, and the PIM module off
the label of a draft command, is the id under which the host has begun the episode: for every
work item, layer and operation, and for every command the host issues. -/
theorem episodeIds_roundTrip (control : SpeculativeControl) :
    episodeIdFromLayer (Config.launch control).layer = samplePrefix control ∧
    (∀ work layer operation,
      episodeIdFromLayer
          (Coordinates.label ⟨control.sampleIndex, control.iteration, work, layer, operation⟩) =
        samplePrefix control) ∧
    (∀ (cfg : Config) draft, cfg.draftTransactions control = .ok draft →
      ∀ t ∈ draft, isDraft t.layer = true ∧ episodeIdFromLayer t.layer = samplePrefix control) ∧
    ∀ cfg allocate now rest s id launch,
      Effect.metrics (.beginEpisode id launch) ∈ (launchStage cfg allocate now control rest s).2 →
        id = samplePrefix control :=
  ⟨episodeIdFromLayer_launch control, episodeIdFromLayer_label control,
    fun cfg _ hdraft => cfg.draftTransactions_forall
      (fun _ _ _ _ _ hops => cfg.operationTransactions_labelled hops) hdraft,
    fun cfg allocate now rest s => launchStage_begins cfg allocate now control rest s⟩

end Hsim.Host
