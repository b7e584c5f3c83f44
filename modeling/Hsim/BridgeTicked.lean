import Hsim.PimEngine
import Hsim.Schedule
import Hsim.TraceContinuity
import Hsim.TrafficControl

/-! Who ticks the bridges.

Whether a transaction goes to a bridge is decided for each transaction, from its
command text and the mode of the actor that sends it. Whether a bridge is ticked
is decided once, from the modes of both actors. The two agree when fast-layer mode
is off for both, or when the NPU's requests are tensor-sized and the host's
commands are macros. Otherwise a transaction is left in a bridge that never
ticks, and the configuration that leaves it there is accepted. -/
namespace Hsim

/-- The simulation loop calls `ClockTick` in its iterations. -/
def MemWrapper.Config.Ticks (cfg : MemWrapper.Config) : Prop :=
  ∀ env now s, (MemWrapper.tick cfg env now s).bridge =
    Bridge.clockTick cfg.memorySystem s.bridge now env.answers

def PimWrapper.Config.Ticks (cfg : PimWrapper.Config) : Prop :=
  ∀ env now s, (PimWrapper.tick cfg env now s).bridge =
    Bridge.clockTick cfg.memorySystem s.bridge now env.answers

/-- A finished command in an otherwise empty bridge, which a tick moves. -/
def finishedCommand : Bridge.State where
  pimComputeQueue := [(0, {ptr := 1, command := .pim, srcId := .host, dstId := .pim})]

theorem clockTick_finishedCommand (m : Bridge.MemorySystem) :
    Bridge.clockTick m finishedCommand 0 {} ≠ finishedCommand := by
  intro h
  rw [PimWrapper.Engine.clockTick_noMemory m finishedCommand 0 {} (fun _ => rfl) rfl rfl] at h
  have hqueue := congrArg (fun b => b.pimComputeQueue.length) h
  exact absurd hqueue (by decide)

theorem MemWrapper.ticks_iff (cfg : MemWrapper.Config) : cfg.Ticks ↔ cfg.fastLayerMode = false := by
  constructor
  · intro h
    by_contra hfast
    have htick := h {} 0 {bridge := finishedCommand}
    simp only [MemWrapper.tick, Bool.not_eq_false] at htick hfast
    rw [if_pos hfast] at htick
    exact clockTick_finishedCommand cfg.memorySystem htick.symm
  · intro hmode env now s
    simp only [MemWrapper.tick, hmode, Bool.false_eq_true, if_false]

theorem PimWrapper.ticks_iff (cfg : PimWrapper.Config) : cfg.Ticks ↔ cfg.fastLayerMode = false := by
  constructor
  · intro h
    by_contra hfast
    have htick := h {} 0 {bridge := finishedCommand}
    simp only [PimWrapper.tick, Bool.not_eq_false] at htick hfast
    rw [if_pos hfast] at htick
    exact clockTick_finishedCommand cfg.memorySystem htick.symm
  · intro hmode env now s
    simp only [PimWrapper.tick, hmode, Bool.false_eq_true, if_false]

namespace System

open PimWrapper (MemoryStructure)
open TraceGenerator (SpeculativeControl Line)

/-- A module that has a transaction in its bridge ticks it. -/
def Unparked (cfg : Config) (s : State) : Prop :=
  (Bridge.contents s.mem.bridge ≠ 0 → cfg.mem.Ticks) ∧
    (Bridge.contents s.pim.bridge ≠ 0 → cfg.pim.Ticks)

/-! ### The modes of a configuration -/

structure ModeFlags where
  npuFast : Bool
  pimFast : Bool
  aggregate : Bool
  enabled : Bool
  deriving DecidableEq, Repr

def modeFlags (c : Configurations) : ModeFlags where
  npuFast := c.syntheticNpu.fastLayerMode
  pimFast := c.syntheticPim.fastLayerMode
  aggregate := c.syntheticPim.aggregateMicroCommands
  enabled := c.syntheticPim.enabled

/-- If either actor is in fast-layer mode, the NPU is, and the synthetic PIM sends macros. -/
def ModeFlags.Agree (f : ModeFlags) : Prop :=
  f.npuFast = true ∨ f.pimFast = true →
    f.npuFast = true ∧ f.enabled = true ∧ (f.aggregate = true ∨ f.pimFast = true)

instance (f : ModeFlags) : Decidable f.Agree := inferInstanceAs (Decidable (_ → _))

/-- In fast-layer mode, modes that agree keep everything out of the bridges. -/
theorem linked_of_agree {c : Configurations} (hmemory : c.memoryStructure ≠ .baseline)
    (hagree : (modeFlags c).Agree) (models : Models) (hfast : c.fastLayerModeEnabled = true) :
    (Config.of c models).Linked := by
  have hor : c.syntheticNpu.fastLayerMode = true ∨ c.syntheticPim.fastLayerMode = true := by
    simpa [Configurations.fastLayerModeEnabled] using hfast
  obtain ⟨hnpu, henabled, hmacros⟩ := hagree hor
  refine ⟨?_, rfl, rfl, fun _ => hnpu, fun _ control transactions hemission => ?_⟩
  · show c.pimEnabled = true
    cases hc : c.memoryStructure <;> simp_all [SystemInfo.pimEnabled]
  · refine Host.Config.emission_staysLocal _ henabled ?_ hemission
    show (c.syntheticPim.aggregateMicroCommands || c.syntheticPim.fastLayerMode) = true
    simpa [modeFlags] using hmacros

/-- In every run of a configuration whose modes agree, every bridge with a transaction in
it is ticked. -/
theorem unparked_of_agree {c : Configurations} (hmemory : c.memoryStructure ≠ .baseline)
    (hagree : (modeFlags c).Agree) (models : Models) {controls : List SpeculativeControl} {s : State}
    (h : Reachable (Config.of c models) controls s) : Unparked (Config.of c models) s := by
  cases hfast : c.fastLayerModeEnabled with
  | false => exact ⟨fun _ => (MemWrapper.ticks_iff _).mpr hfast,
      fun _ => (PimWrapper.ticks_iff _).mpr hfast⟩
  | true =>
    have hlinked := linked_of_agree hmemory hagree models hfast
    have hwired : Wired (Config.of c models) s := by
      refine h.invariant (P := Wired (Config.of c models)) (fun _ => wired_initial _) ?_
      exact fun s s' hs hstep => (hstep.2.refines hlinked hs).1
    exact ⟨fun hne => absurd (hwired.mem.noneInBridge hfast) hne,
      fun hne => absurd (hwired.pim.noneInBridge hfast) hne⟩

/-! ### A configuration for every combination of modes -/

/-- One layer of one projection. -/
def projectionModel : Json :=
  .obj [("decoder_layers", .int 1),
    ("operations", .arr [.obj [("name", .str "q_proj"), ("weight_read_bytes", .int 64)]])]

def structureName : MemoryStructure → String
  | .baseline => "baseline"
  | .partitioned => "partitioned"
  | .unified => "unified"

/-- The files of a replay in which the projection is one micro command on the PIM and one
read of 64 bytes on the NPU. -/
def projectionFiles (f : ModeFlags) (memory : MemoryStructure) : Files
  | "system" => .ok (.obj [
      ("architecture", .obj [("memory_structure", .str (structureName memory))]),
      ("frequency", .obj [("host", .int 1)]),
      ("speculative", .obj [("control_trace_file", .str "trace"),
        ("draft_profile_layer", .str "q_proj")]),
      ("synthetic_npu", .obj [("enabled", .bool true), ("fast_layer_mode", .bool f.npuFast),
        ("model_profile", .str "model")]),
      ("synthetic_pim", .obj [("aggregate_micro_commands", .bool f.aggregate),
        ("enabled", .bool f.enabled), ("fast_layer_mode", .bool f.pimFast),
        ("model_profile", .str "model")]),
      ("workload", .obj [("input_sequence_length", .int 1), ("model", .str "model")])])
  | "model" => .ok projectionModel
  | "memory" => .ok (.obj [
      ("dram", .obj [("clock_freq", .int 1), ("num_channels", .int 1)]),
      ("pim", .obj [("clock_freq", .int 1), ("memory_type", .str "lpddr5"),
        ("num_channels", .int 1)]),
      ("request_size", .int 64)])
  | "profile/host" => .ok (.obj [("host", .obj [])])
  | "profile/lpddr5" => .ok (.obj [
      ("layers", .obj [("q_proj", .str "gemv")]),
      ("mode_change_delay", .obj [("DRAM_to_PIM", .int 10), ("PIM_to_DRAM", .int 10)]),
      ("operations", .obj [("gemv", .arr [.obj [("output_tile", .int 1)],
        .obj [("count", .int 1), ("latency", .int 5), ("name", .str "mac")]])])])
  | name => .error ("Cannot open " ++ name)

/-- Every combination of modes and every memory structure is accepted. -/
theorem projectionFiles_accepted (f : ModeFlags) (memory : MemoryStructure) :
    ∃ c, initConfigurations (projectionFiles f memory) = .ok c ∧ c.memoryStructure = memory ∧
      modeFlags c = f := by
  have haccepted : ∀ npuFast pimFast aggregate enabled,
      ∀ memory ∈ [MemoryStructure.baseline, .partitioned, .unified],
      (initConfigurations (projectionFiles ⟨npuFast, pimFast, aggregate, enabled⟩ memory)).toOption.map
        (fun c => (c.memoryStructure, modeFlags c)) =
        some (memory, ⟨npuFast, pimFast, aggregate, enabled⟩) := by
    decide +kernel
  have hmap := haccepted f.npuFast f.pimFast f.aggregate f.enabled memory (by cases memory <;> simp)
  cases hfiles : initConfigurations (projectionFiles f memory) with
  | error e => rw [hfiles] at hmap; cases hmap
  | ok c =>
    rw [hfiles] at hmap
    obtain ⟨hmemory, hflags⟩ := Prod.mk.inj (Option.some.inj hmap)
    exact ⟨c, rfl, hmemory, hflags⟩

/-- The first request of the NPU, or the first command of the host, on its way to the
thread that hands it over. -/
def firstTransaction (f : ModeFlags) (memory : MemoryStructure) : List Process :=
  if f.npuFast then
    [.host, .hostNegedge, .hostNegedge, .arbiterPeqFw, .arbiterNegedge, .pimPeq, .pimIterate {},
      .pimResume {}]
  else
    [.host, .hostNegedge, .npuPeqFw, .npuStart, .arbiterPeqFw, .arbiterNegedge] ++
      if memory = .unified then [.pimPeq, .pimIterate {}]
      else [.memPeq, .memPosedge, .memIterate {}]

/-- A transaction waits on the first channel or for the compute engine. -/
def hasParked (b : Bridge.State) : Bool :=
  !(b.incomingQueue 0).isEmpty || !b.pimComputeQueue.isEmpty

theorem contents_of_hasParked {b : Bridge.State} (h : hasParked b = true) : Bridge.contents b ≠ 0 := by
  intro hzero
  rw [Multiset.eq_zero_iff_forall_notMem] at hzero
  simp only [hasParked, Bool.or_eq_true, Bool.not_eq_true', List.isEmpty_eq_false_iff] at h
  rcases h with h | h
  · obtain ⟨t, rest, hq⟩ := List.exists_cons_of_ne_nil h
    refine hzero t ?_
    simp only [Bridge.contents, Multiset.mem_add, Multiset.mem_sum]
    exact .inl (.inl (.inl (.inl ⟨0, Finset.mem_univ 0, by rw [hq]; simp⟩)))
  · obtain ⟨e, rest, hq⟩ := List.exists_cons_of_ne_nil h
    refine hzero e.2 ?_
    simp only [Bridge.contents, Multiset.mem_add]
    exact .inl (.inr (by rw [hq]; simp))

/-- Whether the first transaction of the projection is left in a bridge. -/
def parks (f : ModeFlags) (memory : MemoryStructure) : Bool :=
  match initConfigurations (projectionFiles f memory) with
  | .error _ => false
  | .ok c =>
    match TraceGenerator.loadSpeculativeControlTrace c.speculative [TraceGenerator.warmRecord 1 10 11] with
    | .error _ => false
    | .ok controls =>
      match run (Config.of c idleModels) {host := {controls := controls}}
        (firstTransaction f memory) with
      | none => false
      | some s => decide (modeFlags c = f) && decide (c.memoryStructure = memory) &&
        (hasParked s.mem.bridge || hasParked s.pim.bridge)

theorem parks_of_not_agree : ∀ npuFast pimFast aggregate enabled,
    ¬ (ModeFlags.mk npuFast pimFast aggregate enabled).Agree →
    parks ⟨npuFast, pimFast, aggregate, enabled⟩ .partitioned = true ∧
      parks ⟨npuFast, pimFast, aggregate, enabled⟩ .unified = true := by
  decide +kernel

/-- A run in which a transaction is left in a bridge that is not ticked. -/
theorem parked_run {f : ModeFlags} (hfast : f.npuFast = true ∨ f.pimFast = true)
    {memory : MemoryStructure} (h : parks f memory = true) :
    ∃ c lines controls models s, initConfigurations (projectionFiles f memory) = .ok c ∧
      modeFlags c = f ∧ c.memoryStructure = memory ∧
      TraceGenerator.loadSpeculativeControlTrace c.speculative lines = .ok controls ∧
      Reachable (Config.of c models) controls s ∧ ¬ Unparked (Config.of c models) s := by
  unfold parks at h
  split at h
  · cases h
  · next c hc =>
    split at h
    · cases h
    · next controls hcontrols =>
      split at h
      · cases h
      · next s hs =>
        simp only [Bool.and_eq_true, Bool.or_eq_true, decide_eq_true_eq] at h
        obtain ⟨⟨hflags, hmemory⟩, hparked⟩ := h
        refine ⟨c, _, controls, idleModels, s, hc, hflags, hmemory, hcontrols, reachable_of_run hs, ?_⟩
        have hmode : c.fastLayerModeEnabled = true := by
          rw [← hflags] at hfast
          simpa [Configurations.fastLayerModeEnabled, modeFlags] using hfast
        intro hunparked
        rcases hparked with hparked | hparked
        · have hticks := (MemWrapper.ticks_iff _).mp (hunparked.1 (contents_of_hasParked hparked))
          exact absurd (hmode.symm.trans hticks) (by simp)
        · have hticks := (PimWrapper.ticks_iff _).mp (hunparked.2 (contents_of_hasParked hparked))
          exact absurd (hmode.symm.trans hticks) (by simp)

/-- **Who is ticked.** For a combination of modes, no accepted configuration leaves a
transaction in a bridge that nobody ticks, in any run of any control trace, if and only
if the modes agree. -/
theorem unparked_iff_agree (f : ModeFlags) (memory : MemoryStructure) (hmemory : memory ≠ .baseline) :
    (∀ files c, initConfigurations files = .ok c → modeFlags c = f → c.memoryStructure = memory →
      ∀ lines controls,
        TraceGenerator.loadSpeculativeControlTrace c.speculative lines = .ok controls →
      ∀ models s, Reachable (Config.of c models) controls s → Unparked (Config.of c models) s) ↔
      f.Agree := by
  constructor
  · intro hall
    by_contra hagree
    have hfast : f.npuFast = true ∨ f.pimFast = true := by
      by_contra hoff
      exact hagree fun hon => absurd hon hoff
    have hboth := parks_of_not_agree f.npuFast f.pimFast f.aggregate f.enabled hagree
    have hparks : parks f memory = true := by
      cases memory with
      | baseline => exact absurd rfl hmemory
      | partitioned => exact hboth.1
      | unified => exact hboth.2
    obtain ⟨c, lines, controls, models, s, hc, hflags, hstructure, hload, hreach, hparked⟩ :=
      parked_run hfast hparks
    exact hparked (hall _ c hc hflags hstructure lines controls hload models s hreach)
  · rintro hagree files c - rfl rfl lines controls - models s h
    exact unparked_of_agree hmemory hagree models h

/-- A fast NPU with aggregated commands, on a unified memory. -/
theorem unparked_iff_agree_aggregated :
    ∃ c, initConfigurations (projectionFiles ⟨true, false, true, true⟩ .unified) = .ok c ∧
      ∀ lines controls,
        TraceGenerator.loadSpeculativeControlTrace c.speculative lines = .ok controls →
      ∀ models s, Reachable (Config.of c models) controls s → Unparked (Config.of c models) s := by
  obtain ⟨c, hok, hmemory, hmodes⟩ := projectionFiles_accepted ⟨true, false, true, true⟩ .unified
  have hall := (unparked_iff_agree ⟨true, false, true, true⟩ .unified (by decide)).mpr (by decide)
  exact ⟨c, hok, hall _ c hok hmodes hmemory⟩

/-- A fast NPU with the micro commands of the synthetic PIM: the first command stays in
the bridge. -/
theorem micro_command_parked : ¬ ∀ files c, initConfigurations files = .ok c →
    c.memoryStructure ≠ .baseline →
    ∀ lines controls, TraceGenerator.loadSpeculativeControlTrace c.speculative lines = .ok controls →
    ∀ models s, Reachable (Config.of c models) controls s → Unparked (Config.of c models) s := by
  intro hall
  have hparks : parks ⟨true, false, false, true⟩ .partitioned = true := by decide +kernel
  obtain ⟨c, lines, controls, models, s, hc, -, hmemory, hload, hreach, hparked⟩ :=
    parked_run (.inl rfl) hparks
  have hne : c.memoryStructure ≠ .baseline := by rw [hmemory]; decide
  exact hparked (hall _ c hc hne lines controls hload models s hreach)

end System

end Hsim
