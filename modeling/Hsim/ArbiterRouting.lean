import Hsim.BridgeTicked
import Hsim.Lib.Conveyor

/-! Where the arbiter sends.

The arbiter numbers its sockets by what it takes to be the order of binding: the
DRAM module first and the PIM module second, the host first and the NPU second.
The modules are bound in that order, but only those that the configuration asks
for: without a PIM module there is no second target socket. -/
namespace Hsim.Arbiter

/-- `tlm_phase`. -/
inductive Phase where
  | uninitialized
  | beginReq
  | endReq
  | beginResp
  | endResp
  deriving DecidableEq, Repr

/-- The arbiter with its phase tables and what has left through its sockets. -/
structure Trace where
  arbiter : State := {}
  fwPhaseMap : AList (fun _ : Nat => Phase) := ∅
  bwPhaseMap : AList (fun _ : Nat => Phase) := ∅
  forwarded : List (Payload × Nat) := []
  fwPhases : List Phase := []
  returned : List (Payload × Nat) := []
  bwPhases : List Phase := []

/-- What happens at the arbiter: a transport call, a queued transaction whose zero delay
is over, or a clock edge. A wrapper answers with `BEGIN_RESP`. -/
inductive Call where
  | transportFw (t : Payload) (phase : Phase)
  | transportBw (t : Payload)
  | peqFw
  | peqBw
  | posedge
  | negedge

def Trace.call (dramEnabled : Bool) (r : Trace) : Call → Trace
  | .transportFw t phase =>
    if phase = .beginReq then {r with
      fwPhaseMap := r.fwPhaseMap.insert t.ptr phase
      arbiter := {r.arbiter with peqFw := r.arbiter.peqFw ++ [t]}}
    else r
  | .transportBw t => {r with
      bwPhaseMap := r.bwPhaseMap.insert t.ptr .beginResp
      arbiter := {r.arbiter with peqBw := r.arbiter.peqBw ++ [t]}}
  | .peqFw =>
    match r.arbiter.peqFw with
    | [] => r
    | t :: rest => {r with arbiter := peqFwCb dramEnabled t {r.arbiter with peqFw := rest}}
  | .peqBw =>
    match r.arbiter.peqBw with
    | [] => r
    | t :: rest => {r with arbiter := peqBwCb t {r.arbiter with peqBw := rest}}
  | .posedge =>
    match r.arbiter.bwQueue with
    | [] => r
    | e :: rest => {r with
        arbiter := {r.arbiter with bwQueue := rest}
        returned := r.returned ++ [e]
        bwPhases := r.bwPhases ++ [(r.bwPhaseMap.lookup e.1.ptr).getD .uninitialized]}
  | .negedge =>
    match r.arbiter.fwQueue with
    | [] => r
    | e :: rest => {r with
        arbiter := {r.arbiter with fwQueue := rest}
        forwarded := r.forwarded ++ [e]
        fwPhases := r.fwPhases ++ [(r.fwPhaseMap.lookup e.1.ptr).getD .uninitialized]}

def run (dramEnabled : Bool) (calls : List Call) : Trace := calls.foldl (Trace.call dramEnabled) {}

/-- The requests among the calls. -/
def requests (calls : List Call) : List Payload :=
  calls.filterMap fun
    | .transportFw t .beginReq => some t
    | _ => none

/-- The responses among the calls. -/
def responses (calls : List Call) : List Payload :=
  calls.filterMap fun
    | .transportBw t => some t
    | _ => none

/-! ### Two lanes

Requests and responses go through the arbiter alike. -/

open Lib (Conveyor)

/-- One direction: the transactions, and the phases noted and passed on. -/
structure Lane where
  conveyor : Conveyor Payload Nat
  phaseMap : AList (fun _ : Nat => Phase)
  phases : List Phase

namespace Lane

def put (l : Lane) (phase : Phase) (t : Payload) : Lane where
  conveyor := l.conveyor.put t
  phaseMap := l.phaseMap.insert t.ptr phase
  phases := l.phases

def stage (l : Lane) (label : Payload → Nat) : Lane := {l with conveyor := l.conveyor.stage label}

def deliver (l : Lane) : Lane where
  conveyor := l.conveyor.deliver
  phaseMap := l.phaseMap
  phases := match l.conveyor.queue with
    | [] => l.phases
    | e :: _ => l.phases ++ [(l.phaseMap.lookup e.1.ptr).getD .uninitialized]

/-- What was accepted is inside or went out, in order, under the arbiter's numbers and
with the phase it came with. -/
structure Inv (label : Payload → Nat) (phase : Phase) (accepted : List Payload) (l : Lane) : Prop where
  items : l.conveyor.items = accepted
  labelled : l.conveyor.Labelled label
  staged : ∀ t ∈ l.conveyor.staged, l.phaseMap.lookup t.ptr = some phase
  queued : ∀ e ∈ l.conveyor.queue, l.phaseMap.lookup e.1.ptr = some phase
  phases : l.phases = List.replicate l.conveyor.delivered.length phase

variable {label : Payload → Nat} {phase : Phase} {accepted : List Payload} {l : Lane}

theorem Inv.put (h : Inv label phase accepted l) (t : Payload) :
    Inv label phase (accepted ++ [t]) (l.put phase t) := by
  -- a payload that is inside already keeps its phase, which is the same
  have hinsert : ∀ ptr, l.phaseMap.lookup ptr = some phase →
      (l.phaseMap.insert t.ptr phase).lookup ptr = some phase := by
    intro ptr hptr
    by_cases heq : ptr = t.ptr
    · rw [heq, AList.lookup_insert]
    · rw [AList.lookup_insert_ne heq, hptr]
  refine ⟨by simp [Lane.put, h.items], h.labelled.put t, fun t' ht' => ?_,
    fun e he => hinsert _ (h.queued e he), h.phases⟩
  rcases List.mem_append.mp ht' with ht' | ht'
  · exact hinsert _ (h.staged t' ht')
  · rw [List.mem_singleton.mp ht', Lane.put, AList.lookup_insert]

theorem Inv.stage (h : Inv label phase accepted l) : Inv label phase accepted (l.stage label) := by
  cases hq : l.conveyor.staged with
  | nil =>
    have hsame : l.stage label = l := by simp [Lane.stage, Conveyor.stage, hq]
    rw [hsame]
    exact h
  | cons t rest =>
    have hstage : l.conveyor.stage label = {l.conveyor with
        staged := rest
        queue := l.conveyor.queue ++ [(t, label t)]} := by
      simp [Conveyor.stage, hq]
    refine ⟨by simp [Lane.stage, h.items], h.labelled.stage, fun t' ht' => ?_, fun e he => ?_, ?_⟩
    · rw [Lane.stage, hstage] at ht'
      exact h.staged t' (by rw [hq]; exact List.mem_cons_of_mem _ ht')
    · rw [Lane.stage, hstage] at he
      rcases List.mem_append.mp he with he | he
      · exact h.queued e he
      · rw [List.mem_singleton.mp he]
        exact h.staged t (by rw [hq]; exact List.mem_cons_self ..)
    · rw [Lane.stage, hstage]
      exact h.phases

theorem Inv.deliver (h : Inv label phase accepted l) : Inv label phase accepted l.deliver := by
  cases hq : l.conveyor.queue with
  | nil =>
    have hsame : l.deliver = l := by simp [Lane.deliver, Conveyor.deliver, hq]
    rw [hsame]
    exact h
  | cons e rest =>
    have hdeliver : l.conveyor.deliver = {l.conveyor with
        queue := rest
        delivered := l.conveyor.delivered ++ [e]} := by
      simp [Conveyor.deliver, hq]
    refine ⟨by simp [Lane.deliver, h.items], h.labelled.deliver, fun t ht => ?_, fun e' he' => ?_, ?_⟩
    · rw [Lane.deliver, hdeliver] at ht
      exact h.staged t ht
    · rw [Lane.deliver, hdeliver] at he'
      exact h.queued e' (by rw [hq]; exact List.mem_cons_of_mem _ he')
    · have hphase : l.phaseMap.lookup e.1.ptr = some phase := by
        apply h.queued
        rw [hq]
        exact List.mem_cons_self ..
      simp only [Lane.deliver, hdeliver, hq, hphase, h.phases, Option.getD_some, List.length_append,
        List.length_singleton, List.replicate_succ']

end Lane

/-- The socket of a response. -/
def sourceIndex (t : Payload) : Nat := if t.srcId = .host then 0 else 1

def Trace.forwarding (r : Trace) : Conveyor Payload Nat where
  staged := r.arbiter.peqFw
  queue := r.arbiter.fwQueue
  delivered := r.forwarded

def Trace.returning (r : Trace) : Conveyor Payload Nat where
  staged := r.arbiter.peqBw
  queue := r.arbiter.bwQueue
  delivered := r.returned

def Trace.fw (r : Trace) : Lane where
  conveyor := r.forwarding
  phaseMap := r.fwPhaseMap
  phases := r.fwPhases

def Trace.bw (r : Trace) : Lane where
  conveyor := r.returning
  phaseMap := r.bwPhaseMap
  phases := r.bwPhases

/-- What a call does to the requests. -/
theorem fw_call (dramEnabled : Bool) (r : Trace) (c : Call) :
    (r.call dramEnabled c).fw = match c with
      | .transportFw t .beginReq => r.fw.put .beginReq t
      | .peqFw => r.fw.stage (targetIndex dramEnabled)
      | .negedge => r.fw.deliver
      | _ => r.fw := by
  cases c with
  | transportFw t phase => cases phase <;> rfl
  | transportBw t => rfl
  | peqFw =>
    cases hq : r.arbiter.peqFw <;> simp [Trace.call, Trace.fw, Trace.forwarding, Lane.stage,
      Conveyor.stage, peqFwCb, hq]
  | peqBw => cases hq : r.arbiter.peqBw <;> simp [Trace.call, Trace.fw, Trace.forwarding, peqBwCb, hq]
  | posedge => cases hq : r.arbiter.bwQueue <;> simp [Trace.call, Trace.fw, Trace.forwarding, hq]
  | negedge =>
    cases hq : r.arbiter.fwQueue <;> simp [Trace.call, Trace.fw, Trace.forwarding, Lane.deliver,
      Conveyor.deliver, hq]

/-- What a call does to the responses. -/
theorem bw_call (dramEnabled : Bool) (r : Trace) (c : Call) :
    (r.call dramEnabled c).bw = match c with
      | .transportBw t => r.bw.put .beginResp t
      | .peqBw => r.bw.stage sourceIndex
      | .posedge => r.bw.deliver
      | _ => r.bw := by
  cases c with
  | transportFw t phase => cases phase <;> rfl
  | transportBw t => rfl
  | peqFw => cases hq : r.arbiter.peqFw <;> simp [Trace.call, Trace.bw, Trace.returning, peqFwCb, hq]
  | peqBw =>
    cases hq : r.arbiter.peqBw <;>
      simp [Trace.call, Trace.bw, Trace.returning, Lane.stage, Conveyor.stage, peqBwCb, sourceIndex, hq]
  | posedge =>
    cases hq : r.arbiter.bwQueue <;> simp [Trace.call, Trace.bw, Trace.returning, Lane.deliver,
      Conveyor.deliver, hq]
  | negedge => cases hq : r.arbiter.fwQueue <;> simp [Trace.call, Trace.bw, Trace.returning, hq]

theorem run_append (dramEnabled : Bool) (calls more : List Call) :
    run dramEnabled (calls ++ more) = more.foldl (Trace.call dramEnabled) (run dramEnabled calls) :=
  List.foldl_append

theorem run_fw (dramEnabled : Bool) (calls : List Call) :
    (run dramEnabled calls).fw.Inv (targetIndex dramEnabled) .beginReq (requests calls) := by
  induction calls using List.reverseRecOn with
  | nil => exact ⟨rfl, ⟨by simp [run, Trace.fw, Trace.forwarding],
      by simp [run, Trace.fw, Trace.forwarding]⟩, by simp [run, Trace.fw, Trace.forwarding],
      by simp [run, Trace.fw, Trace.forwarding], rfl⟩
  | append_singleton calls c ih =>
    rw [run_append, List.foldl_cons, List.foldl_nil, fw_call, requests, List.filterMap_append]
    rcases c with ⟨t, phase⟩ | t | _ | _ | _ | _
    · cases phase with
      | beginReq => exact ih.put t
      | _ => simpa [requests] using ih
    · simpa [requests] using ih
    · simpa [requests] using ih.stage
    · simpa [requests] using ih
    · simpa [requests] using ih
    · simpa [requests] using ih.deliver

theorem run_bw (dramEnabled : Bool) (calls : List Call) :
    (run dramEnabled calls).bw.Inv sourceIndex .beginResp (responses calls) := by
  induction calls using List.reverseRecOn with
  | nil => exact ⟨rfl, ⟨by simp [run, Trace.bw, Trace.returning],
      by simp [run, Trace.bw, Trace.returning]⟩, by simp [run, Trace.bw, Trace.returning],
      by simp [run, Trace.bw, Trace.returning], rfl⟩
  | append_singleton calls c ih =>
    rw [run_append, List.foldl_cons, List.foldl_nil, bw_call, responses, List.filterMap_append]
    rcases c with ⟨t, phase⟩ | t | _ | _ | _ | _
    · simpa [responses] using ih
    · exact ih.put t
    · simpa [responses] using ih
    · simpa [responses] using ih.stage
    · simpa [responses] using ih.deliver
    · simpa [responses] using ih

/-! ### Running empty -/

/-- Edges enough for everything that is inside. -/
def settle (r : Trace) : List Call :=
  List.replicate r.arbiter.peqFw.length .peqFw ++
    List.replicate (r.arbiter.fwQueue.length + r.arbiter.peqFw.length) .negedge ++
    List.replicate r.arbiter.peqBw.length .peqBw ++
    List.replicate (r.arbiter.bwQueue.length + r.arbiter.peqBw.length) .posedge

/-- A call repeated, on a part of the trace that it changes by itself. -/
theorem foldl_replicate {σ : Type} (part : Trace → σ) (f : σ → σ) {dramEnabled : Bool} {c : Call}
    (h : ∀ r, part (r.call dramEnabled c) = f (part r)) (n : Nat) (r : Trace) :
    part ((List.replicate n c).foldl (Trace.call dramEnabled) r) = f^[n] (part r) := by
  induction n generalizing r with
  | zero => rfl
  | succ n ih => rw [List.replicate_succ, List.foldl_cons, ih, h, Function.iterate_succ_apply]

theorem settle_forwards (dramEnabled : Bool) (r : Trace) :
    ((settle r).foldl (Trace.call dramEnabled) r).forwarded.map (·.1) = r.forwarding.items := by
  have hcall := fun (r : Trace) c => congrArg Lane.conveyor (fw_call dramEnabled r c)
  have hall : ((settle r).foldl (Trace.call dramEnabled) r).forwarding =
      Conveyor.deliver^[r.arbiter.fwQueue.length + r.arbiter.peqFw.length]
        ((Conveyor.stage (targetIndex dramEnabled))^[r.arbiter.peqFw.length] r.forwarding) := by
    rw [settle, List.foldl_append, List.foldl_append, List.foldl_append,
      foldl_replicate Trace.forwarding id fun r => hcall r .posedge, Function.iterate_id, id,
      foldl_replicate Trace.forwarding id fun r => hcall r .peqBw, Function.iterate_id, id,
      foldl_replicate Trace.forwarding Conveyor.deliver fun r => hcall r .negedge,
      foldl_replicate Trace.forwarding (Conveyor.stage (targetIndex dramEnabled)) fun r =>
        hcall r .peqFw]
  rw [← Conveyor.delivered_of_moves (targetIndex dramEnabled) r.forwarding (le_refl _) (le_refl _)]
  exact congrArg (fun c : Conveyor Payload Nat => c.delivered.map (·.1)) hall

theorem settle_returns (dramEnabled : Bool) (r : Trace) :
    ((settle r).foldl (Trace.call dramEnabled) r).returned.map (·.1) = r.returning.items := by
  have hcall := fun (r : Trace) c => congrArg Lane.conveyor (bw_call dramEnabled r c)
  have hall : ((settle r).foldl (Trace.call dramEnabled) r).returning =
      Conveyor.deliver^[r.arbiter.bwQueue.length + r.arbiter.peqBw.length]
        ((Conveyor.stage sourceIndex)^[r.arbiter.peqBw.length] r.returning) := by
    rw [settle, List.foldl_append, List.foldl_append, List.foldl_append,
      foldl_replicate Trace.returning Conveyor.deliver fun r => hcall r .posedge,
      foldl_replicate Trace.returning (Conveyor.stage sourceIndex) fun r => hcall r .peqBw,
      foldl_replicate Trace.returning id fun r => hcall r .negedge, Function.iterate_id, id,
      foldl_replicate Trace.returning id fun r => hcall r .peqFw, Function.iterate_id, id]
  rw [← Conveyor.delivered_of_moves sourceIndex r.returning (le_refl _) (le_refl _)]
  exact congrArg (fun c : Conveyor Payload Nat => c.delivered.map (·.1)) hall

theorem filterMap_settle {α : Type} {f : Call → Option α} (hpeqFw : f .peqFw = none)
    (hnegedge : f .negedge = none) (hpeqBw : f .peqBw = none) (hposedge : f .posedge = none)
    (r : Trace) : (settle r).filterMap f = [] := by
  simp [settle, List.filterMap_append, List.filterMap_replicate_of_none, hpeqFw, hnegedge, hpeqBw,
    hposedge]

theorem requests_settle (calls : List Call) (r : Trace) :
    requests (calls ++ settle r) = requests calls := by
  rw [requests, List.filterMap_append, filterMap_settle rfl rfl rfl rfl, List.append_nil]
  rfl

theorem responses_settle (calls : List Call) (r : Trace) :
    responses (calls ++ settle r) = responses calls := by
  rw [responses, List.filterMap_append, filterMap_settle rfl rfl rfl rfl, List.append_nil]
  rfl

/-- All requests and then all responses, without an edge in between. -/
def arrivals (stream answers : List Payload) : List Call :=
  stream.map (.transportFw · .beginReq) ++ answers.map .transportBw

theorem requests_arrivals (stream answers : List Payload) :
    requests (arrivals stream answers) = stream := by
  simp [requests, arrivals, List.filterMap_append, List.filterMap_map]

theorem responses_arrivals (stream answers : List Payload) :
    responses (arrivals stream answers) = answers := by
  simp [responses, arrivals, List.filterMap_append, List.filterMap_map]

/-! ### The sockets -/

/-- The modules `bind_modules` binds to the arbiter's target sockets, in order. -/
def boundTargets (c : SystemInfo) : List DeviceType :=
  (if c.dramEnabled then [.dram] else []) ++ (if c.pimEnabled then [.pim] else [])

theorem targets_of (c : Configurations) (models : System.Models) :
    (System.Config.of c models).targets = boundTargets c.toSystemInfo := rfl

/-- The modules it binds to the arbiter from the other side. -/
def boundInitiators : List DeviceType := [.host, .npu]

/-- The module a transaction is for: the one it names, or the PIM module if there is no
other. -/
def destination (c : SystemInfo) (t : Payload) : DeviceType :=
  if c.dramEnabled then t.dstId else .pim

/-- A stream of requests and a stream of responses are routed: after any calls that make
them, with clock edges anywhere in between, what has been forwarded is a beginning of the
stream and went to the bound socket of its module, what has been returned is a beginning
of the responses and went to the socket of its initiator, and the edges that are still
missing complete both. -/
def Routes (c : SystemInfo) (stream answers : List Payload) : Prop :=
  ∀ calls, requests calls = stream → responses calls = answers →
    let r := run c.dramEnabled calls
    let settled := run c.dramEnabled (calls ++ settle r)
    (r.forwarded.map (·.1) <+: stream ∧ settled.forwarded.map (·.1) = stream ∧
      (∀ e ∈ r.forwarded, (boundTargets c)[e.2]? = some (destination c e.1)) ∧
      ∀ phase ∈ r.fwPhases, phase = .beginReq) ∧
    r.returned.map (·.1) <+: answers ∧ settled.returned.map (·.1) = answers ∧
      (∀ e ∈ r.returned, boundInitiators[e.2]? = some e.1.srcId) ∧
      ∀ phase ∈ r.bwPhases, phase = .beginResp

/-- Where the socket the arbiter chooses is bound, it is the right one. -/
theorem bound_iff (c : SystemInfo) {t : Payload} (h : t.dstId = .dram ∨ t.dstId = .pim) :
    (boundTargets c)[targetIndex c.dramEnabled t]? = some (destination c t) ↔
      (c.pimEnabled = true ∨ t.dstId ≠ .pim) := by
  cases hc : c.memoryStructure <;> rcases h with h | h <;>
    simp [boundTargets, targetIndex, destination, SystemInfo.dramEnabled, SystemInfo.pimEnabled, hc, h]

theorem bound_source {t : Payload} (h : t.srcId = .host ∨ t.srcId = .npu) :
    boundInitiators[sourceIndex t]? = some t.srcId := by
  rcases h with h | h <;> simp [boundInitiators, sourceIndex, h]

/-- Without a PIM module a request for it is forwarded to a socket that is not there. -/
theorem bound_of_routes {c : SystemInfo} {stream answers : List Payload}
    (hstream : ∀ t ∈ stream, t.dstId = .dram ∨ t.dstId = .pim) (hroutes : Routes c stream answers) :
    c.pimEnabled = true ∨ ∀ t ∈ stream, t.dstId ≠ .pim := by
  by_contra hnot
  rw [not_or] at hnot
  obtain ⟨hpim, hsome⟩ := hnot
  push Not at hsome
  obtain ⟨t, ht, hdst⟩ := hsome
  -- all calls first, then the edges: the request for the PIM module is forwarded
  have hfirst := hroutes (arrivals stream answers) (requests_arrivals _ _) (responses_arrivals _ _)
  have hsettled := hroutes (arrivals stream answers ++ settle (run c.dramEnabled
    (arrivals stream answers))) (by rw [requests_settle, requests_arrivals])
    (by rw [responses_settle, responses_arrivals])
  have hmem : t ∈ (run c.dramEnabled (arrivals stream answers ++ settle (run c.dramEnabled
      (arrivals stream answers)))).forwarded.map (·.1) := by
    rw [hfirst.1.2.1]
    exact ht
  obtain ⟨e, he, rfl⟩ := List.mem_map.mp hmem
  have hindex := (run_fw c.dramEnabled _).labelled.2 e he
  have hbound := hsettled.1.2.2.1 e he
  rw [hindex] at hbound
  rcases (bound_iff c (hstream _ ht)).mp hbound with h | h
  · exact hpim h
  · exact h hdst

theorem routes_of_bound {c : SystemInfo} {stream answers : List Payload}
    (hstream : ∀ t ∈ stream, t.dstId = .dram ∨ t.dstId = .pim)
    (hanswers : ∀ t ∈ answers, t.srcId = .host ∨ t.srcId = .npu)
    (hbound : c.pimEnabled = true ∨ ∀ t ∈ stream, t.dstId ≠ .pim) : Routes c stream answers := by
  rintro calls rfl rfl
  have hfw := run_fw c.dramEnabled calls
  have hbw := run_bw c.dramEnabled calls
  refine ⟨⟨?_, ?_, fun e he => ?_, fun phase hphase => ?_⟩, ?_, ?_, fun e he => ?_,
    fun phase hphase => ?_⟩
  · rw [← hfw.items, Conveyor.items, List.append_assoc]
    exact List.prefix_append _ _
  · rw [run_append, settle_forwards]
    exact hfw.items
  · have hmem : e.1 ∈ requests calls := by
      rw [← hfw.items, Conveyor.items]
      exact List.mem_append_left _ (List.mem_append_left _ (List.mem_map_of_mem he))
    rw [hfw.labelled.2 e he, bound_iff c (hstream _ hmem)]
    exact hbound.imp_right fun h => h _ hmem
  · rw [show (run c.dramEnabled calls).fwPhases = _ from hfw.phases] at hphase
    exact List.eq_of_mem_replicate hphase
  · rw [← hbw.items, Conveyor.items, List.append_assoc]
    exact List.prefix_append _ _
  · rw [run_append, settle_returns]
    exact hbw.items
  · have hmem : e.1 ∈ responses calls := by
      rw [← hbw.items, Conveyor.items]
      exact List.mem_append_left _ (List.mem_append_left _ (List.mem_map_of_mem he))
    rw [hbw.labelled.2 e he]
    exact bound_source (hanswers _ hmem)
  · rw [show (run c.dramEnabled calls).bwPhases = _ from hbw.phases] at hphase
    exact List.eq_of_mem_replicate hphase

/-- **Routing.** A stream of requests to the memory modules, and any responses to the
host and the NPU, are routed in every interleaving exactly when there is a PIM module or
no request is for it. -/
theorem routes_iff (c : SystemInfo) {stream answers : List Payload}
    (hstream : ∀ t ∈ stream, t.dstId = .dram ∨ t.dstId = .pim)
    (hanswers : ∀ t ∈ answers, t.srcId = .host ∨ t.srcId = .npu) :
    Routes c stream answers ↔ (c.pimEnabled = true ∨ ∀ t ∈ stream, t.dstId ≠ .pim) :=
  ⟨bound_of_routes hstream, routes_of_bound hstream hanswers⟩

/-- A draft command of the host, and a read of the NPU that is answered. -/
theorem routes_iff_partitioned :
    ∃ c, initConfigurations (System.projectionFiles ⟨false, false, false, true⟩ .partitioned) = .ok c ∧
      Routes c.toSystemInfo
        [{ptr := 1, command := .pim, srcId := .host, dstId := .pim},
          {ptr := 2, command := .read, srcId := .npu, dstId := .dram}]
        [{ptr := 2, command := .read, srcId := .npu, dstId := .dram}] := by
  obtain ⟨c, hc, hmemory, -⟩ := System.projectionFiles_accepted ⟨false, false, false, true⟩ .partitioned
  refine ⟨c, hc, (routes_iff c.toSystemInfo (by simp) (by simp)).mpr (.inl ?_)⟩
  rw [SystemInfo.pimEnabled, hmemory]

/-! ### The arbiter in the system -/

theorem call_arbiter_transports (dramEnabled : Bool) (stream answers : List Payload) (r : Trace) :
    ((arrivals stream answers).foldl (Trace.call dramEnabled) r).arbiter = {r.arbiter with
      peqFw := r.arbiter.peqFw ++ stream
      peqBw := r.arbiter.peqBw ++ answers} := by
  have hfw : ∀ r : Trace, ((stream.map (Call.transportFw · .beginReq)).foldl
      (Trace.call dramEnabled) r).arbiter =
        {r.arbiter with peqFw := r.arbiter.peqFw ++ stream} := by
    induction stream with
    | nil => intro r; simp
    | cons t stream ih =>
      intro r
      rw [List.map_cons, List.foldl_cons, ih]
      simp [Trace.call]
  have hbw : ∀ r : Trace, ((answers.map Call.transportBw).foldl (Trace.call dramEnabled) r).arbiter =
      {r.arbiter with peqBw := r.arbiter.peqBw ++ answers} := by
    induction answers with
    | nil => intro r; simp
    | cons t answers ih =>
      intro r
      rw [List.map_cons, List.foldl_cons, ih]
      simp [Trace.call]
  rw [arrivals, List.foldl_append, hbw, hfw]

end Hsim.Arbiter

namespace Hsim.System

open TraceGenerator (SpeculativeControl)
open Arbiter (arrivals)

/-- The requests the modules have made of the arbiter. -/
def arbiterRequests (log : List Effect) : List Payload :=
  (requestsOf log).filter (fun t => ¬ t.dstId = .npu)

/-- The arbiter has come to its state by the calls the modules made, some clock edges in
between. -/
def ArbiterTraced (cfg : Config) (s : State) : Prop :=
  ∃ calls, (Arbiter.run cfg.dramEnabled calls).arbiter = s.arbiter ∧
    Arbiter.requests calls = arbiterRequests s.log ∧ Arbiter.responses calls = responsesOf s.log

variable {cfg : Config} {s s' : State}

theorem ArbiterTraced.congr (h : ArbiterTraced cfg s) (harbiter : s'.arbiter = s.arbiter)
    (hlog : s'.log = s.log) : ArbiterTraced cfg s' := by
  unfold ArbiterTraced
  rw [harbiter, hlog]
  exact h

/-- A module's calls reach the arbiter. -/
theorem ArbiterTraced.perform (h : ArbiterTraced cfg s) {effects : List Effect}
    (hs : s'.arbiter = s.arbiter) (hlog : s'.log = s.log) :
    ArbiterTraced cfg (performAll s' effects) := by
  obtain ⟨calls, harbiter, hrequests, hresponses⟩ := h.congr hs hlog
  refine ⟨calls ++ arrivals (arbiterRequests effects) (responsesOf effects), ?_, ?_, ?_⟩
  · rw [Arbiter.run_append, Arbiter.call_arbiter_transports, harbiter, performAll_eq]
    rfl
  · rw [Arbiter.requests, List.filterMap_append, ← Arbiter.requests, ← Arbiter.requests,
      Arbiter.requests_arrivals, hrequests, performAll_eq]
    simp [arbiterRequests, requestsOf]
  · rw [Arbiter.responses, List.filterMap_append, ← Arbiter.responses, ← Arbiter.responses,
      Arbiter.responses_arrivals, hresponses, performAll_eq]
    simp [responsesOf]

/-- An activation of the arbiter itself. -/
theorem ArbiterTraced.call (h : ArbiterTraced cfg s) {c : Arbiter.Call}
    (hrequests : Arbiter.requests [c] = []) (hresponses : Arbiter.responses [c] = [])
    (harbiter : ∀ r : Arbiter.Trace, r.arbiter = s.arbiter →
      (r.call cfg.dramEnabled c).arbiter = s'.arbiter) (hlog : s'.log = s.log) :
    ArbiterTraced cfg s' := by
  obtain ⟨calls, hstate, hreq, hresp⟩ := h
  refine ⟨calls ++ [c], ?_, ?_, ?_⟩
  · rw [Arbiter.run_append]
    exact harbiter _ hstate
  · rw [Arbiter.requests, List.filterMap_append, ← Arbiter.requests, ← Arbiter.requests, hrequests,
      List.append_nil, hreq, hlog]
  · rw [Arbiter.responses, List.filterMap_append, ← Arbiter.responses, ← Arbiter.responses,
      hresponses, List.append_nil, hresp, hlog]

theorem deliverFw_arbiter (cfg : Config) (t : Payload) (index : Nat) (s : State) :
    (deliverFw cfg t index s).arbiter = s.arbiter ∧ (deliverFw cfg t index s).log = s.log := by
  unfold deliverFw
  split <;> exact ⟨rfl, rfl⟩

theorem deliverBw_arbiter (t : Payload) (index : Nat) (s : State) :
    (deliverBw t index s).arbiter = s.arbiter ∧ (deliverBw t index s).log = s.log := by
  unfold deliverBw
  split <;> exact ⟨rfl, rfl⟩

theorem ArbiterTraced.move (h : ArbiterTraced cfg s) (hmove : Move cfg s s') :
    ArbiterTraced cfg s' := by
  cases hmove with
  | elapse | pimTraceDone | npuTraceDone | npuPeqFw | memPosedge => exact h.congr rfl rfl
  | host => exact h.perform rfl rfl
  | hostNegedge => exact h.perform rfl rfl
  | npuStart => exact h.perform rfl rfl
  | npuCompute => exact h.perform rfl rfl
  | npuPeqBw => exact h.perform rfl rfl
  | npuResponse => exact h.perform rfl rfl
  | memPeq => exact h.perform rfl rfl
  | memIterate => exact h.perform rfl rfl
  | memNegedge => exact h.perform rfl rfl
  | pimPeq => exact h.perform rfl rfl
  | pimIterate => exact h.perform rfl rfl
  | pimResume => exact h.perform rfl rfl
  | pimPosedge => exact h.perform rfl rfl
  | pimNegedge =>
    have hrun : ArbiterTraced cfg (runPim (PimWrapper.clockNegedge cfg.pim s.now) s) :=
      h.perform rfl rfl
    exact hrun.congr rfl rfl
  | arbiterPeqFw t rest hq =>
    refine h.call (c := .peqFw) rfl rfl (fun r hr => ?_) rfl
    simp [Arbiter.Trace.call, hr, hq]
  | arbiterPeqBw t rest hq =>
    refine h.call (c := .peqBw) rfl rfl (fun r hr => ?_) rfl
    simp [Arbiter.Trace.call, hr, hq]
  | arbiterNegedge t index rest hq =>
    refine h.call (c := .negedge) rfl rfl (fun r hr => ?_) (deliverFw_arbiter cfg t index _).2
    rw [(deliverFw_arbiter cfg t index _).1]
    simp [Arbiter.Trace.call, hr, hq]
  | arbiterPosedge t index rest hq =>
    refine h.call (c := .posedge) rfl rfl (fun r hr => ?_) (deliverBw_arbiter t index _).2
    rw [(deliverBw_arbiter t index _).1]
    simp [Arbiter.Trace.call, hr, hq]

/-- In every run of the system the arbiter is in a state of one of its own runs. -/
theorem reachable_arbiterTraced {controls : List SpeculativeControl}
    (h : Reachable cfg controls s) : ArbiterTraced cfg s := by
  refine h.invariant (P := ArbiterTraced cfg) ?_ fun _ _ hs hstep => hs.move hstep.2
  rintro _ rfl
  exact ⟨[], rfl, rfl, rfl⟩

/-- Whether the first draft command, sent to the PIM module, ends the simulation. -/
def unboundRun (c : Configurations) : Bool :=
  match TraceGenerator.loadSpeculativeControlTrace c.speculative [TraceGenerator.warmRecord 1 10 11] with
  | .error _ => false
  | .ok controls =>
    match run (Config.of c idleModels) {host := {controls := controls}}
      [.host, .hostNegedge, .hostNegedge, .arbiterPeqFw, .arbiterNegedge] with
    | none => false
    | some s => s.failed && decide ((arbiterRequests s.log).map (·.dstId) = [DeviceType.pim])

/-- The baseline has no PIM module, and its configuration is accepted: the first draft
command of the host is forwarded to socket 1, which is not bound. -/
theorem baseline_command_unbound :
    ∃ c controls s,
      initConfigurations (projectionFiles ⟨false, false, false, true⟩ .baseline) = .ok c ∧
      TraceGenerator.loadSpeculativeControlTrace c.speculative [TraceGenerator.warmRecord 1 10 11] =
        .ok controls ∧
      Reachable (Config.of c idleModels) controls s ∧ s.failed = true ∧
      ¬ Arbiter.Routes c.toSystemInfo (arbiterRequests s.log) (responsesOf s.log) := by
  obtain ⟨c, hc, hmemory, -⟩ := projectionFiles_accepted ⟨false, false, false, true⟩ .baseline
  have hfails : unboundRun c = true := by
    have hrun : (initConfigurations (projectionFiles ⟨false, false, false, true⟩ .baseline)).toOption.map
        unboundRun = some true := by
      decide +kernel
    rw [hc] at hrun
    exact Option.some.inj hrun
  unfold unboundRun at hfails
  split at hfails
  · cases hfails
  · next controls hcontrols =>
    split at hfails
    · cases hfails
    · next s hs =>
      simp only [Bool.and_eq_true, decide_eq_true_eq] at hfails
      obtain ⟨hfailed, hrequests⟩ := hfails
      refine ⟨c, controls, s, hc, hcontrols, reachable_of_run hs, hfailed, fun hroutes => ?_⟩
      have hdst : ∀ t ∈ arbiterRequests s.log, t.dstId = .pim := by
        intro t ht
        have hmem := List.mem_map_of_mem (f := Payload.dstId) ht
        rw [hrequests] at hmem
        exact List.mem_singleton.mp hmem
      rcases Arbiter.bound_of_routes (fun t ht => .inr (hdst t ht)) hroutes with h | h
      · rw [SystemInfo.pimEnabled, hmemory] at h
        cases h
      · obtain ⟨t, ht⟩ : ∃ t, t ∈ arbiterRequests s.log := by
          apply List.exists_mem_of_length_pos
          rw [← List.length_map (f := Payload.dstId), hrequests]
          decide
        exact h t ht (hdst t ht)

end Hsim.System
