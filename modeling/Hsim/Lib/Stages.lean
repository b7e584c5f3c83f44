import Hsim.Lib.Reach
import Mathlib.Data.Multiset.AddSub

/-! Stages behind a barrier.

A coordinator works through stages. A stage is a list of jobs, put on a lane
that serves them in order, and a start for a worker, which then sends requests
and waits for their answers as it likes. The coordinator launches the next stage
when it has seen two events since: the lane's, raised when a job marked as last
is served, and the worker's, raised when it is done.

If the last job of every stage is marked and no other is, the barrier does what
it is for: no two stages overlap. -/
namespace Hsim.Lib.Stages

variable {α : Type*}

/-- Where the coordinator is; at the barrier, with the events seen. -/
inductive Phase where
  | idle
  | barrier (lane worker : Bool)
  | halted
  deriving DecidableEq

structure State (α : Type*) where
  phase : Phase := .idle
  stage : Nat := 0
  /-- The jobs of the stage, those served, and those on the lane. -/
  emitted : List α := []
  served : List α := []
  lane : List α := []
  /-- The requests of the worker that are not answered. -/
  traffic : Multiset α := 0
  /-- Starts on their way, and whether one has arrived and waits to be taken up. -/
  starts : List α := []
  armed : Bool := false
  running : Bool := false
  workerStage : Nat := 0
  /-- Events raised and not seen. -/
  laneDone : Bool := false
  workerDone : Bool := false

/-- The marks of a job: the stage it belongs to, and whether it is the last. -/
structure Marks (α : Type*) where
  stage : α → Nat
  last : α → Bool

/-- An activation of the worker: what it sends, whether it is still at work, and whether
it says it is done. -/
structure Work (α : Type*) where
  requests : Multiset α
  running : Bool
  done : Bool

def State.work (s : State α) (w : Work α) : State α :=
  {s with
    traffic := s.traffic + w.requests
    running := w.running
    workerDone := s.workerDone || w.done}

/-- The worker says it is done only when it is, has then an answer to every request, and
sends in the name of the start it took up. -/
structure Work.Proper (m : Marks α) (s : State α) (w : Work α) : Prop where
  done : w.done = true → w.running = false
  settled : w.running = false → s.traffic + w.requests = 0
  stage : ∀ t ∈ w.requests, m.stage t = s.workerStage

def Phase.seeLane : Phase → Phase
  | .barrier _ worker => .barrier true worker
  | p => p

def Phase.seeWorker : Phase → Phase
  | .barrier lane _ => .barrier lane true
  | p => p

/-- The steps, for a coordinator whose stages are among `emits`. -/
inductive Step (m : Marks α) (emits : List α → Prop) (s : State α) : State α → Prop where
  | launch (start : α) (jobs : List α) : s.phase = .idle → m.stage start = s.stage + 1 →
    (∀ t ∈ jobs, m.stage t = s.stage + 1) → emits jobs →
    Step m emits s {s with
      phase := .barrier false false
      stage := s.stage + 1
      emitted := jobs
      served := []
      lane := s.lane ++ jobs
      starts := s.starts ++ [start]}
  | pass : s.phase = .barrier true true → Step m emits s {s with phase := .idle}
  | halt : s.phase = .idle → Step m emits s {s with phase := .halted}
  | serve (t : α) (rest : List α) : s.lane = t :: rest →
    Step m emits s {s with
      lane := rest
      served := s.served ++ [t]
      laneDone := s.laneDone || m.last t}
  | seeLane : s.laneDone = true →
    Step m emits s {s with laneDone := false, phase := s.phase.seeLane}
  | seeWorker : s.workerDone = true →
    Step m emits s {s with workerDone := false, phase := s.phase.seeWorker}
  | arm (t : α) (rest : List α) : s.starts = t :: rest →
    Step m emits s {s with
      starts := rest
      armed := true
      workerStage := m.stage t}
  | start (w : Work α) : s.armed = true → w.Proper m s →
    Step m emits s ({s with armed := false}.work w)
  | goOn (w : Work α) : s.running = true → w.Proper m s → Step m emits s (s.work w)
  | answer (t : α) (rest : Multiset α) : s.traffic = t ::ₘ rest →
    Step m emits s {s with traffic := rest}

/-- The last job is marked and no other is. -/
def Final (m : Marks α) (jobs : List α) : Prop :=
  ∃ front t, jobs = front ++ [t] ∧ m.last t = true ∧ ∀ x ∈ front, m.last x = false

/-- Nothing of any stage is left. -/
structure Quiet (s : State α) : Prop where
  lane : s.lane = []
  traffic : s.traffic = 0
  starts : s.starts = []
  armed : s.armed = false
  running : s.running = false
  laneDone : s.laneDone = false
  workerDone : s.workerDone = false

/-- How often the worker's work of a stage is in the system, from its start on the way to
its event seen. -/
def State.tokens (s : State α) (seen : Bool) : Nat :=
  s.starts.length + s.armed.toNat + s.running.toNat + s.workerDone.toNat + seen.toNat

/-- What holds at the barrier, and elsewhere. -/
def AtPhase (m : Marks α) (s : State α) : Prop :=
  match s.phase with
  | .barrier lane worker => Final m s.emitted ∧
      (s.served.filter m.last).length = s.laneDone.toNat + lane.toNat ∧ s.tokens worker ≤ 1
  | _ => Quiet s

structure Inv (m : Marks α) (s : State α) : Prop where
  order : s.served ++ s.lane = s.emitted
  laneStage : ∀ t ∈ s.lane, m.stage t = s.stage
  trafficStage : ∀ t ∈ s.traffic, m.stage t = s.stage
  startStage : ∀ t ∈ s.starts, m.stage t = s.stage
  workerStage : s.armed = true ∨ s.running = true → s.workerStage = s.stage
  settled : s.running = false → s.traffic = 0
  atPhase : AtPhase m s

/-- A marked job among those served is the last one of the stage. -/
theorem Final.all_served {m : Marks α} {jobs served lane : List α} (h : Final m jobs)
    (horder : served ++ lane = jobs) (hserved : served.filter m.last ≠ []) :
    lane = [] ∧ (served.filter m.last).length = 1 := by
  obtain ⟨front, t, rfl, ht, hfront⟩ := h
  have hnone : front.filter m.last = [] := by
    rw [List.filter_eq_nil_iff]
    intro x hx
    rw [hfront x hx]
    simp
  rcases List.eq_nil_or_concat lane with rfl | ⟨init, x, rfl⟩
  · rw [List.append_nil] at horder
    subst horder
    refine ⟨rfl, ?_⟩
    rw [List.filter_append, hnone]
    simp [ht]
  · -- otherwise what is served is among the unmarked jobs
    rw [List.concat_eq_append, ← List.append_assoc] at horder
    obtain ⟨hinit, -⟩ := List.append_inj' horder rfl
    refine absurd ?_ hserved
    rw [← hinit, List.filter_append, List.append_eq_nil_iff] at hnone
    exact hnone.1

/-- **The barrier.** When both events are seen, every job of the stage is served and
nothing of it is left. -/
theorem Inv.quiet_at_barrier {m : Marks α} {s : State α} (h : Inv m s)
    (hphase : s.phase = .barrier true true) : Quiet s ∧ s.served = s.emitted := by
  have hat := h.atPhase
  rw [AtPhase, hphase] at hat
  obtain ⟨hfinal, hcount, htokens⟩ := hat
  simp only [State.tokens, Bool.toNat_true] at hcount htokens
  have hserved : s.served.filter m.last ≠ [] := by
    intro he
    rw [he, List.length_nil] at hcount
    omega
  obtain ⟨hlane, hone⟩ := hfinal.all_served h.order hserved
  have hlaneDone : s.laneDone = false := by
    rw [← Bool.toNat_eq_zero]
    omega
  have hzero : s.starts.length = 0 ∧ s.armed.toNat = 0 ∧ s.running.toNat = 0 ∧
      s.workerDone.toNat = 0 := by omega
  obtain ⟨hstarts, harmed, hrunning, hdone⟩ := hzero
  rw [Bool.toNat_eq_zero] at harmed hrunning hdone
  refine ⟨⟨hlane, h.settled hrunning, List.length_eq_zero_iff.mp hstarts, harmed, hrunning,
    hlaneDone, hdone⟩, ?_⟩
  rw [← h.order, hlane, List.append_nil]

/-- Something is going on only behind the barrier. -/
theorem Inv.barrier {m : Marks α} {s : State α} (h : Inv m s) (hbusy : ¬ Quiet s) :
    ∃ lane worker, s.phase = .barrier lane worker ∧ Final m s.emitted ∧
      (s.served.filter m.last).length = s.laneDone.toNat + lane.toNat ∧ s.tokens worker ≤ 1 := by
  have hat := h.atPhase
  rw [AtPhase] at hat
  split at hat
  · next lane worker hphase => exact ⟨lane, worker, hphase, hat⟩
  · exact absurd hat hbusy

/-- What holds at the barrier carries over to a state at the same barrier. -/
theorem atPhase_barrier {m : Marks α} {s : State α} {lane worker : Bool}
    (hphase : s.phase = .barrier lane worker) (hfinal : Final m s.emitted)
    (hcount : (s.served.filter m.last).length = s.laneDone.toNat + lane.toNat)
    (htokens : s.tokens worker ≤ 1) : AtPhase m s := by
  rw [AtPhase, hphase]
  exact ⟨hfinal, hcount, htokens⟩

/-- While the lane holds a job, no marked one has been served. -/
theorem Final.none_served {m : Marks α} {jobs served lane : List α} (h : Final m jobs)
    (horder : served ++ lane = jobs) (hlane : lane ≠ []) : served.filter m.last = [] := by
  by_contra hserved
  exact hlane (h.all_served horder hserved).1

section
variable {m : Marks α} {emits : List α → Prop} {s : State α} (h : Inv m s)
include h

theorem Inv.launch (hidle : s.phase = .idle) {start : α} {jobs : List α}
    (hstart : m.stage start = s.stage + 1) (hjobs : ∀ t ∈ jobs, m.stage t = s.stage + 1)
    (hfinal : Final m jobs) :
    Inv m {s with
      phase := .barrier false false
      stage := s.stage + 1
      emitted := jobs
      served := []
      lane := s.lane ++ jobs
      starts := s.starts ++ [start]} := by
  have hquiet : Quiet s := by
    have hat := h.atPhase
    rwa [AtPhase, hidle] at hat
  have hempty : s.lane ++ jobs = jobs := by rw [hquiet.lane, List.nil_append]
  refine ⟨hempty, ?_, ?_, ?_, ?_, fun _ => hquiet.traffic, ⟨hfinal, ?_, ?_⟩⟩
  · show ∀ t ∈ s.lane ++ jobs, _
    rw [hempty]
    exact hjobs
  · show ∀ t ∈ s.traffic, _
    rw [hquiet.traffic]
    simp
  · show ∀ t ∈ s.starts ++ [start], _
    rw [hquiet.starts, List.nil_append, List.forall_mem_singleton]
    exact hstart
  · show s.armed = true ∨ s.running = true → _
    rw [hquiet.armed, hquiet.running]
    simp
  · show 0 = s.laneDone.toNat + 0
    rw [hquiet.laneDone]
    rfl
  · show (s.starts ++ [start]).length + s.armed.toNat + s.running.toNat + s.workerDone.toNat + 0 ≤ 1
    rw [hquiet.starts, hquiet.armed, hquiet.running, hquiet.workerDone]
    exact le_rfl

theorem Inv.serve {t : α} {rest : List α} (hlane : s.lane = t :: rest) :
    Inv m {s with
      lane := rest
      served := s.served ++ [t]
      laneDone := s.laneDone || m.last t} := by
  have hbusy : ¬ Quiet s := by
    intro hquiet
    rw [hquiet.lane] at hlane
    exact absurd hlane (by simp)
  obtain ⟨lane, worker, hphase, hfinal, hcount, htokens⟩ := h.barrier hbusy
  have hnone := hfinal.none_served h.order (by rw [hlane]; simp)
  refine ⟨?_, ?_, h.trafficStage, h.startStage, h.workerStage, h.settled, ?_⟩
  · show s.served ++ [t] ++ rest = s.emitted
    rw [← h.order, hlane, List.append_assoc, List.singleton_append]
  · intro x hx
    exact h.laneStage x (by rw [hlane]; exact List.mem_cons_of_mem t hx)
  · refine atPhase_barrier hphase hfinal ?_ htokens
    show ((s.served ++ [t]).filter m.last).length = (s.laneDone || m.last t).toNat + lane.toNat
    rw [hnone, List.length_nil] at hcount
    have hdone : s.laneDone = false ∧ lane = false := by
      rw [← Bool.toNat_eq_zero, ← Bool.toNat_eq_zero]
      omega
    rw [List.filter_append, hnone, hdone.1, hdone.2]
    cases hlast : m.last t <;> simp [hlast]

theorem Inv.seeLane (hdone : s.laneDone = true) :
    Inv m {s with laneDone := false, phase := s.phase.seeLane} := by
  have hbusy : ¬ Quiet s := by
    intro hquiet
    rw [hquiet.laneDone] at hdone
    exact absurd hdone (by simp)
  obtain ⟨lane, worker, hphase, hfinal, hcount, htokens⟩ := h.barrier hbusy
  have hserved : s.served.filter m.last ≠ [] := by
    intro he
    rw [he, hdone] at hcount
    simp at hcount
    omega
  have hone := (hfinal.all_served h.order hserved).2
  refine ⟨h.order, h.laneStage, h.trafficStage, h.startStage, h.workerStage, h.settled, ?_⟩
  have hphase' : s.phase.seeLane = .barrier true worker := by rw [hphase]; rfl
  exact atPhase_barrier hphase' hfinal hone htokens

theorem Inv.seeWorker (hdone : s.workerDone = true) :
    Inv m {s with workerDone := false, phase := s.phase.seeWorker} := by
  have hbusy : ¬ Quiet s := by
    intro hquiet
    rw [hquiet.workerDone] at hdone
    exact absurd hdone (by simp)
  obtain ⟨lane, worker, hphase, hfinal, hcount, htokens⟩ := h.barrier hbusy
  refine ⟨h.order, h.laneStage, h.trafficStage, h.startStage, h.workerStage, h.settled, ?_⟩
  have hphase' : s.phase.seeWorker = .barrier lane true := by rw [hphase]; rfl
  refine atPhase_barrier hphase' hfinal hcount ?_
  rw [State.tokens, hdone] at htokens
  show s.starts.length + s.armed.toNat + s.running.toNat + 0 + 1 ≤ 1
  rw [Bool.toNat_true] at htokens
  omega

theorem Inv.arm {t : α} {rest : List α} (hstarts : s.starts = t :: rest) :
    Inv m {s with
      starts := rest
      armed := true
      workerStage := m.stage t} := by
  have hbusy : ¬ Quiet s := by
    intro hquiet
    rw [hquiet.starts] at hstarts
    exact absurd hstarts (by simp)
  obtain ⟨lane, worker, hphase, hfinal, hcount, htokens⟩ := h.barrier hbusy
  have htag : ∀ x ∈ t :: rest, m.stage x = s.stage := hstarts ▸ h.startStage
  refine ⟨h.order, h.laneStage, h.trafficStage, ?_, ?_, h.settled, ?_⟩
  · exact fun x hx => htag x (List.mem_cons_of_mem t hx)
  · exact fun _ => htag t List.mem_cons_self
  · refine atPhase_barrier hphase hfinal hcount ?_
    rw [State.tokens, hstarts, List.length_cons] at htokens
    show rest.length + 1 + s.running.toNat + s.workerDone.toNat + worker.toNat ≤ 1
    omega

/-- An activation of a worker that has taken up the start of the stage. -/
theorem Inv.work {w : Work α} (hw : w.Proper m s) {armed : Bool}
    (hactive : s.running = true ∧ armed = s.armed ∨ s.armed = true ∧ armed = false) :
    Inv m ({s with armed := armed}.work w) := by
  have hbusy : ¬ Quiet s := by
    intro hquiet
    rw [hquiet.running, hquiet.armed] at hactive
    exact absurd hactive (by simp)
  obtain ⟨lane, worker, hphase, hfinal, hcount, htokens⟩ := h.barrier hbusy
  have hstage : s.workerStage = s.stage := by
    refine h.workerStage ?_
    rcases hactive with hactive | hactive
    · exact .inr hactive.1
    · exact .inl hactive.1
  have hone : s.starts.length + armed.toNat + s.workerDone.toNat + worker.toNat = 0 := by
    rw [State.tokens] at htokens
    rcases hactive with ⟨hrunning, rfl⟩ | ⟨harmed, rfl⟩
    · rw [hrunning, Bool.toNat_true] at htokens
      omega
    · rw [harmed, Bool.toNat_true] at htokens
      simp only [Bool.toNat_false]
      omega
  have hdone : s.workerDone = false := by
    rw [← Bool.toNat_eq_zero]
    omega
  refine ⟨h.order, h.laneStage, ?_, h.startStage, fun _ => hstage, hw.settled, ?_⟩
  · intro t ht
    rcases Multiset.mem_add.mp ht with ht | ht
    · exact h.trafficStage t ht
    · exact (hw.stage t ht).trans hstage
  · refine atPhase_barrier hphase hfinal hcount ?_
    show s.starts.length + armed.toNat + w.running.toNat + (s.workerDone || w.done).toNat +
      worker.toNat ≤ 1
    rw [hdone, Bool.false_or]
    have hexclusive : w.running.toNat + w.done.toNat ≤ 1 := by
      cases hd : w.done with
      | false => cases w.running <;> simp
      | true => rw [hw.done hd]; simp
    omega

theorem Inv.answer {t : α} {rest : Multiset α} (htraffic : s.traffic = t ::ₘ rest) :
    Inv m {s with traffic := rest} := by
  have hbusy : ¬ Quiet s := by
    intro hquiet
    rw [hquiet.traffic] at htraffic
    exact absurd htraffic.symm (by simp)
  obtain ⟨lane, worker, hphase, hfinal, hcount, htokens⟩ := h.barrier hbusy
  refine ⟨h.order, h.laneStage, fun x hx => ?_, h.startStage, h.workerStage, fun hrunning => ?_,
    atPhase_barrier hphase hfinal hcount htokens⟩
  · exact h.trafficStage x (by rw [htraffic]; exact Multiset.mem_cons_of_mem hx)
  · have hzero := h.settled hrunning
    rw [htraffic] at hzero
    exact absurd hzero (by simp)

end

theorem Step.inv {m : Marks α} {emits : List α → Prop} (hemits : ∀ jobs, emits jobs → Final m jobs)
    {s s' : State α} (h : Inv m s) (hs : Step m emits s s') : Inv m s' := by
  have hquiet : ∀ phase, Quiet s → Quiet {s with phase := phase} := fun _ hq =>
    ⟨hq.lane, hq.traffic, hq.starts, hq.armed, hq.running, hq.laneDone, hq.workerDone⟩
  cases hs with
  | launch start jobs hidle hstart hjobs hemit =>
    exact h.launch hidle hstart hjobs (hemits jobs hemit)
  | pass hphase =>
    exact ⟨h.order, h.laneStage, h.trafficStage, h.startStage, h.workerStage, h.settled,
      hquiet .idle (h.quiet_at_barrier hphase).1⟩
  | halt hidle =>
    have hat := h.atPhase
    rw [AtPhase, hidle] at hat
    exact ⟨h.order, h.laneStage, h.trafficStage, h.startStage, h.workerStage, h.settled,
      hquiet .halted hat⟩
  | serve t rest hlane => exact h.serve hlane
  | seeLane hdone => exact h.seeLane hdone
  | seeWorker hdone => exact h.seeWorker hdone
  | arm t rest hstarts => exact h.arm hstarts
  | start w harmed hw => exact h.work hw (.inr ⟨harmed, rfl⟩)
  | goOn w hrunning hw => exact h.work hw (.inl ⟨hrunning, rfl⟩)
  | answer t rest htraffic => exact h.answer htraffic

theorem inv_initial (m : Marks α) : Inv m ({} : State α) := by
  refine ⟨rfl, ?_, ?_, ?_, ?_, fun _ => rfl, ⟨rfl, rfl, rfl, rfl, rfl, rfl, rfl⟩⟩ <;> simp

end Hsim.Lib.Stages
