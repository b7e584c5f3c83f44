import Hsim.MetricsStages
import Hsim.Reporting

/-! What the modules report about a stage.

Only the host launches an episode. The PIM's thread reports the completion of
every command it puts into its completion queue, and the falling edge closes the
episode named by the marked command. The NPU closes its episode just before it
announces the end of its run. -/
namespace Hsim

open Metrics (Call begun completedCommands begun_append completedCommands_append)

/-- No call launches an episode. -/
def NoLaunch (effects : List Effect) : Prop := begun (metricsCalls effects) = []

theorem noLaunch_of_none {effects : List Effect} (h : metricsCalls effects = []) : NoLaunch effects := by
  rw [NoLaunch, h]
  rfl

theorem noLaunch_of_calls {effects : List Effect}
    (h : ∀ c ∈ metricsCalls effects, ∀ id launch, c ≠ .beginEpisode id launch) : NoLaunch effects := by
  refine List.filterMap_eq_nil_iff.mpr fun c hc => ?_
  have hnot := h c hc
  cases c with
  | beginEpisode id launch => exact absurd rfl (hnot id launch)
  | _ => rfl

theorem NoLaunch.append {a b : List Effect} (ha : NoLaunch a) (hb : NoLaunch b) : NoLaunch (a ++ b) := by
  rw [NoLaunch, metricsCalls_append, begun_append, ha, hb]
  rfl

theorem begun_completed (d : Metrics.Device) (done : List (Time × Payload)) :
    begun (done.map fun e => .completed d e.2 e.1) = [] := by
  induction done with
  | nil => rfl
  | cons e done ih => exact ih

theorem completedCommands_completed (done : List (Time × Payload)) :
    completedCommands (done.map fun e => .completed .pim e.2 e.1) =
      (done.map (·.2)).filter Payload.isPim := by
  induction done with
  | nil => rfl
  | cons e done ih =>
    rw [List.map_cons, ← List.singleton_append, completedCommands_append, ih, List.map_cons]
    cases hk : e.2.isPim <;> simp [completedCommands, hk]

/-! ### The DRAM module -/

namespace MemWrapper

theorem sendRequests_noLaunch (cfg : Config) (now : Time) (s : State) :
    NoLaunch (sendRequests cfg now s).2 := by
  have hone : ∀ t s, NoLaunch (sendRequest cfg now t s).2 := by
    intro t s
    unfold sendRequest
    dsimp only
    split <;> rfl
  refine sendRequests_rule cfg now s (fun _ _ effects => NoLaunch effects) rfl ?_
  intro t _ s effects heffects
  exact heffects.append (hone t s)

theorem iterate_noLaunch {s : State} (h : Carries s) (cfg : Config) (env : Env) (now : Time) :
    NoLaunch (iterate cfg env now s).2 := by
  have h₁ := completeFastMemoryRequests_moves h now
  have h₂ := takeCompleted_moves h₁.carries cfg now
  have hdone : NoLaunch (completeFastMemoryRequests now s).2 := by
    rw [NoLaunch, completeFastMemoryRequests, metricsCalls_completed]
    exact begun_completed .dram _
  have htake : NoLaunch (takeCompleted cfg now (completeFastMemoryRequests now s).1).2 := by
    rcases takeCompleted_cases h₁.carries cfg now with he | ⟨t, bridge, -, he⟩ <;> rw [he] <;> rfl
  simp only [iterate, Action.seq_snd]
  rw [if_neg h₂.carries.runs]
  refine hdone.append (htake.append ((sendRequests_noLaunch cfg now _).append ?_))
  obtain ⟨thread, -, -, heffects⟩ := finishIteration_cases cfg env now
  rcases heffects with he | he <;> rw [he] <;> rfl

theorem clockNegedge_noLaunch (s : State) : NoLaunch (clockNegedge s).2 := by
  unfold clockNegedge
  split <;> rfl

end MemWrapper

/-! ### The PIM module -/

namespace PimWrapper

/-- What an activation of the thread completes of the compute kind enters the queue. -/
structure Completes (s s' : State) (effects : List Effect) : Prop where
  queue : s'.computeCompletedQueue =
    s.computeCompletedQueue ++ completedCommands (metricsCalls effects)
  noLaunch : NoLaunch effects

theorem Completes.trans {a b c : State} {e e' : List Effect} (h : Completes a b e)
    (h' : Completes b c e') : Completes a c (e ++ e') := by
  refine ⟨?_, h.noLaunch.append h'.noLaunch⟩
  rw [h'.queue, h.queue, metricsCalls_append, completedCommands_append, List.append_assoc]

theorem completes_of_none {s s' : State} {effects : List Effect}
    (hqueue : s'.computeCompletedQueue = s.computeCompletedQueue) (h : metricsCalls effects = []) :
    Completes s s' effects := by
  refine ⟨?_, noLaunch_of_none h⟩
  rw [hqueue, h]
  exact (List.append_nil _).symm

section
variable {s : State} (h : Kinds s)
include h

theorem completeFastMemoryRequests_completes (now : Time) :
    Completes s (completeFastMemoryRequests now s).1 (completeFastMemoryRequests now s).2 := by
  have hnone : ((Lib.due now s.fastMemoryCompletedQueue).map (·.2)).filter Payload.isPim = [] := by
    rw [List.filter_eq_nil_iff]
    intro t ht
    obtain ⟨e, he, rfl⟩ := List.mem_map.mp ht
    simp [h false e (mem_of_mem_due he)]
  constructor
  · simp only [completeFastMemoryRequests, metricsCalls_due, completedCommands_completed, hnone,
      List.append_nil]
  · simp only [NoLaunch, completeFastMemoryRequests, metricsCalls_due, begun_completed]

theorem completeFastComputeRequests_completes (now : Time) :
    Completes s (completeFastComputeRequests now s).1 (completeFastComputeRequests now s).2 := by
  have hall : ((Lib.due now s.fastComputeCompletedQueue).map (·.2)).filter Payload.isPim =
      (Lib.due now s.fastComputeCompletedQueue).map (·.2) := by
    rw [List.filter_eq_self]
    intro t ht
    obtain ⟨e, he, rfl⟩ := List.mem_map.mp ht
    exact h true e (mem_of_mem_due he)
  constructor
  · simp only [completeFastComputeRequests, metricsCalls_due, completedCommands_completed, hall]
  · simp only [NoLaunch, completeFastComputeRequests, metricsCalls_due, begun_completed]

omit h in
theorem takeCompleted_completes (now : Time) (s : State) :
    Completes s (takeCompleted now s).1 (takeCompleted now s).2 := by
  unfold takeCompleted
  split
  · exact completes_of_none rfl rfl
  · next t bridge _ =>
    split
    · next hcommand =>
      have hk : t.isPim = true := by simp [Payload.isPim, hcommand]
      exact ⟨by simp [metricsCalls, completedCommands, hk], rfl⟩
    · next hcommand =>
      have hk : t.isPim = false := by simp [Payload.isPim, hcommand]
      exact ⟨by simp [metricsCalls, completedCommands, hk], rfl⟩

theorem collect_completes (now : Time) : Completes s (collect now s).1 (collect now s).2 := by
  have h₁ := (completeFastMemoryRequests_atDesk now s).kinds h
  exact (completeFastMemoryRequests_completes h now).trans
    ((completeFastComputeRequests_completes h₁ now).trans (takeCompleted_completes now _))

end

section
variable (cfg : Config) (env : Env) (now : Time)

theorem finishIteration_completes (blocked : Bool) (s : State) :
    Completes s (finishIteration cfg env now blocked s).1 (finishIteration cfg env now blocked s).2 := by
  obtain ⟨thread, -, hs, heffects⟩ := finishIteration_spec cfg env now blocked s
  rw [hs, heffects]
  refine completes_of_none rfl ?_
  split <;> rfl

theorem handOver_completes (t : Payload) (s : State) :
    Completes s (handOver cfg now t s).1 (handOver cfg now t s).2 := by
  obtain ⟨start, channel, hreport, -, -⟩ := handOver_atDesk cfg now t s
  have hqueue : (handOver cfg now t s).1.computeCompletedQueue = s.computeCompletedQueue := by
    unfold handOver
    split
    · unfold handOverCompute
      dsimp only
      split <;> rfl
    · unfold handOverMemory
      dsimp only
      split <;> rfl
  refine ⟨?_, ?_⟩
  · rw [hqueue, hreport]
    exact (List.append_nil _).symm
  · rw [NoLaunch, hreport]
    rfl

theorem sendTransaction_completes (t : Payload) (s : State) :
    Completes s (sendTransaction cfg env now t s).1 (sendTransaction cfg env now t s).2 := by
  unfold sendTransaction
  split
  · exact (handOver_completes cfg now t s).trans (finishIteration_completes cfg env now false _)
  · exact completes_of_none rfl rfl

/-- **An iteration reports the commands it completes.** -/
theorem iterate_completes {s : State} (h : Kinds s) :
    Completes s (iterate cfg env now s).1 (iterate cfg env now s).2 := by
  rw [iterate, Action.seq_fst, Action.seq_snd]
  refine (collect_completes h now).trans ?_
  generalize (collect now s).1 = c
  rcases process_cases cfg env now c with
    ⟨-, hp⟩ | ⟨t, rest, -, -, -, hp⟩ | ⟨t, rest, s₀, effects, -, -, hdeq, heffects, hp⟩
  · rw [hp]
    exact finishIteration_completes cfg env now _ c
  · rw [hp]
    have hnote : Completes c (noteContention now t c) [] := by
      refine completes_of_none ?_ rfl
      unfold noteContention
      split <;> rfl
    exact hnote.trans (finishIteration_completes cfg env now _ _)
  · rw [hp]
    obtain ⟨waits, target, draft, rfl⟩ := hdeq
    have hwait : Completes c {c with
        pendingQueue := rest
        contentionWaitStart := waits
        targetMemoryWaitCount := target
        draftComputeWaitCount := draft} effects := by
      rcases heffects with rfl | ⟨layer, start, finish, draft, rfl⟩
      · exact completes_of_none rfl rfl
      · exact ⟨(List.append_nil _).symm, rfl⟩
    exact hwait.trans (sendTransaction_completes cfg env now t _)

theorem resume_completes (t : Payload) (s : State) :
    Completes s (resume cfg env now t s).1 (resume cfg env now t s).2 := by
  have hsend := (handOver_completes cfg now t {s with pimMode := targetMode t}).trans
    (finishIteration_completes cfg env now false _)
  exact ⟨hsend.queue, hsend.noLaunch⟩

theorem clockNegedge_noLaunch (s : State) : NoLaunch (clockNegedge cfg now s).2 := by
  refine noLaunch_of_calls fun c hc id launch he => ?_
  obtain ⟨id', finish, rfl⟩ := metricsCalls_clockNegedge cfg now s c hc
  cases he

/-- The falling edge closes the episode of the marked command, if it is draft work. -/
theorem clockNegedge_announces {s : State} {t : Payload} {rest : List Payload}
    (hq : s.computeCompletedQueue = t :: rest) (hlast : t.last = true) (hdraft : isDraft t.layer = true) :
    Call.pimEpisode (episodeIdFromLayer t.layer) now ∈ metricsCalls (clockNegedge cfg now s).2 := by
  simp only [clockNegedge, hq, metricsCalls_append, hlast, if_true, metricsCalls_announceLast, hdraft]
  exact List.mem_append_right _ List.mem_cons_self

end

end PimWrapper

/-! ### The NPU -/

namespace NpuTraceReplayer

/-- An activation that announces the end of a run has closed its episode. -/
structure Closes (episodeId : String) (now : Time) (effects : List Effect) : Prop where
  closed : Effect.npuTraceDone ∈ effects → Call.npuEpisode episodeId now ∈ metricsCalls effects
  noLaunch : NoLaunch effects

theorem closes_of_none {episodeId : String} {now : Time} {effects : List Effect}
    (hdone : Effect.npuTraceDone ∉ effects) (h : metricsCalls effects = []) :
    Closes episodeId now effects :=
  ⟨fun he => absurd he hdone, noLaunch_of_none h⟩

/-- Calls before the end of a run. -/
theorem Closes.after {episodeId : String} {now : Time} {effects : List Effect}
    (h : Closes episodeId now effects) (before : List Effect) (hdone : Effect.npuTraceDone ∉ before)
    (hbefore : NoLaunch before) : Closes episodeId now (before ++ effects) := by
  refine ⟨fun he => ?_, hbefore.append h.noLaunch⟩
  rw [metricsCalls_append]
  exact List.mem_append_right _ (h.closed ((List.mem_append.mp he).resolve_left hdone))

theorem issue_closes {cfg : Config} {now : Time} {rest : List Segment} {next : Action State}
    (hnext : ∀ s, Closes s.launch.episodeId now (next s).2) (requests : List Payload) (s : State) :
    Closes s.launch.episodeId now (issue cfg rest next requests s).2 := by
  induction requests generalizing s with
  | nil =>
    simp only [issue]
    split
    · exact hnext s
    · exact closes_of_none (by simp) rfl
  | cons body requests ih =>
    simp only [issue]
    split
    · exact closes_of_none (by simp) rfl
    · have hone : NoLaunch [.request (send cfg body s).2] := noLaunch_of_none rfl
      exact (ih (send cfg body s).1).after _ (by simp) hone

theorem advance_closes (cfg : Config) (now : Time) (script : List Segment) (s : State) :
    Closes s.launch.episodeId now (advance cfg now script s).2 := by
  induction script generalizing s with
  | nil => exact closes_of_none (by simp [advance]) rfl
  | cons g rest ih =>
    cases g with
    | layerStart layer =>
      exact (ih {s with npuStartTime := now}).after [.updateNpuStart layer (toCycle now)] (by simp)
        (noLaunch_of_none rfl)
    | transfer op kind command bytes layer requests =>
      simp only [advance]
      split
      · exact ih s
      · exact issue_closes ih requests {s with pendingResponses := 0}
    | compute op computeNs => exact ⟨by simp [advance], rfl⟩
    | layerEnd layer compute =>
      exact (ih s).after [.updateNpuEnd layer (toCycle now) compute,
        .metrics (.npuInterval s.npuStartTime now)] (by simp) rfl
    | trap => exact closes_of_none (by simp [advance]) rfl
    | finish => exact ⟨by simp [advance, metricsCalls], rfl⟩

section
variable (cfg : Config) (now : Time) (s : State)

theorem startRun_closes : Closes s.launch.episodeId now (startRun cfg now s).2 := by
  unfold startRun
  dsimp only
  split
  · exact advance_closes cfg now _ {s with
      startEvent := false
      activeCore := true
      runId := s.runId + 1}
  · exact closes_of_none (by simp) rfl

theorem onResponse_closes : Closes s.launch.episodeId now (onResponse cfg now s).2 := by
  unfold onResponse
  dsimp only
  split
  · exact issue_closes (advance_closes cfg now _) _ {s with responseEvent := false}
  · split
    · exact advance_closes cfg now _ {s with responseEvent := false}
    · exact closes_of_none (by simp) rfl
  · exact closes_of_none (by simp) rfl

theorem endCompute_closes : Closes s.launch.episodeId now (endCompute cfg now s).2 := by
  unfold endCompute
  split
  · exact advance_closes cfg now _ _
  · exact closes_of_none (by simp) rfl

end

end NpuTraceReplayer

end Hsim
