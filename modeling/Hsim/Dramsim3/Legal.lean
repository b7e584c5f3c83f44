import Hsim.Dramsim3.Total

/-! What a device sees of a controller.

Whatever requests come, and whether or not ranks refresh themselves: a command comes
as long after each earlier one as the tables that are read for the earlier one ask
for (`commands_apart`), no rank has more activations in a window than it may
(`activations_spaced`), and the banks are in a state that takes it
(`commands_taken`). The distances after the refresh of a bank stand in the table of
its rank, which is read for rank commands only: they are not kept
(`opened_after_bank_refresh`). -/
namespace Hsim.Dramsim3

namespace Controller
variable {cfg : Config} {c c' : Controller}

/-! ### The tables -/

/-- A command and a later one, as far apart as the tables that `updateTiming` reads for the
first ask for. -/
def Apart (cfg : Config) (e e' : Nat × Command) : Prop :=
  e.1 ≤ e'.1 ∧ ∀ b ∈ cfg.targets e'.2, ∀ d, (e'.2.cmdType, d) ∈ cfg.delays e.2 b → later e.1 d ≤ e'.1

/-- The times of the banks remember every command that has been sent. -/
structure Remembers (cfg : Config) (c : Controller) : Prop where
  held : ∀ e ∈ c.cmdTrace, ∀ b t d, (t, d) ∈ cfg.delays e.2 b →
    later e.1 d ≤ (c.channelState.bankStates b).cmdTiming t
  past : ∀ e ∈ c.cmdTrace, e.1 ≤ c.clk
  apart : c.cmdTrace.Pairwise (Apart cfg)

/-- **The tables that are read are kept**: whatever comes, a command is sent at least as long
after every earlier one as `updateTiming` has them ask for in a bank that it acts on. -/
theorem commands_apart (hplaces : cfg.Places) {events : List Event} (h : run cfg {} events = .ok c) :
    c.cmdTrace.Pairwise (Apart cfg) := by
  refine (run_sends (I := Remembers cfg) hplaces ?_ ?_ h ⟨by simp, by simp, .nil⟩).apart
  · intro c c' hq hI
    refine ⟨?_, ?_, ?_⟩
    · rw [hq.cmdTrace, hq.bankStates]
      exact hI.held
    · rw [hq.cmdTrace]
      exact fun e he => (hI.past e he).trans hq.clk
    · rw [hq.cmdTrace]
      exact hI.apart
  · intro c cmd c' hs hI
    have hlast : ∀ {e}, e ∈ c'.cmdTrace → e ∈ c.cmdTrace ∨ e = (c.clk, cmd) := by
      intro e he
      rw [hs.cmdTrace] at he
      exact (List.mem_append.mp he).imp id List.mem_singleton.mp
    refine ⟨?_, ?_, ?_⟩
    · intro e he b t d hd
      rcases hlast he with he | rfl
      · exact (hI.held e he b t d hd).trans (hs.channel.le b t)
      · exact hs.channel.later_le hd
    · intro e he
      rw [hs.clk]
      rcases hlast he with he | rfl
      · exact hI.past e he
      · exact le_rfl
    · rw [hs.cmdTrace, List.pairwise_append]
      refine ⟨hI.apart, List.pairwise_singleton _ _, ?_⟩
      intro e he e' he'
      rw [List.mem_singleton.mp he']
      refine ⟨hI.past e he, ?_⟩
      intro b hb d hd
      exact (hI.held e he b cmd.cmdType d hd).trans (hs.ready.due b hb)

theorem commands_apart_lpddr5 : ∃ c,
    run lpddr5Ch4 {} (.add 0 false :: .add 0x80000 true :: List.replicate 100 .tick) = .ok c ∧
      c.cmdTrace.Pairwise (Apart lpddr5Ch4) := by
  obtain ⟨c, hrun⟩ := run_ok lpddr5Ch4_plain
    (.add 0 false :: .add 0x80000 true :: List.replicate 100 .tick)
  exact ⟨c, hrun, commands_apart lpddr5Ch4_places hrun⟩

/-- The shipped memory with a refresh of one bank in every cycle. -/
def bankRefreshed : Config := {lpddr5Ch4 with
  refreshPolicy := .bankLevelStaggered
  tREFIb := 1}

/-- What a run has sent, by its kinds and banks. -/
def sent (cfg : Config) (events : List Event) : Option (List (Nat × CommandType × Bank)) :=
  (run cfg {} events).toOption.map fun c => c.cmdTrace.map fun e => (e.1, e.2.cmdType, e.2.place)

/-- A bank is opened in the cycle after its refresh, where the table of the rank asks for twenty. -/
theorem opened_after_bank_refresh :
    sent bankRefreshed (.add 0 false :: List.replicate 3 .tick) =
        some [(1, .refreshBank, ⟨0, 0, 0⟩), (2, .activate, ⟨0, 0, 0⟩)] ∧
      (CommandType.activate, 20) ∈ bankRefreshed.sameRank .refreshBank := by
  refine ⟨?_, ?_⟩ <;> decide +kernel

/-! ### The activation windows -/

/-- When a rank has had its activations. -/
def activations (trace : List (Nat × Command)) (rank : Int) : List Nat :=
  (trace.filter fun e => e.2.cmdType = .activate ∧ e.2.addr.rank = rank).map Prod.fst

theorem activations_snoc (trace : List (Nat × Command)) (clk : Nat) (cmd : Command) (rank : Int) :
    activations (trace ++ [(clk, cmd)]) rank =
      if cmd.cmdType = .activate ∧ cmd.addr.rank = rank then activations trace rank ++ [clk]
      else activations trace rank := by
  unfold activations
  rw [List.filter_append, List.map_append]
  split
  · next h => rw [List.filter_cons_of_pos (by simpa using h)]; rfl
  · next h => rw [List.filter_cons_of_neg (by simpa using h)]; simp

/-- One of a rank's two windows, with what it has kept apart. -/
structure Windowed (size : Nat) (length : Int) (clk : Nat) (events window : List Nat) : Prop where
  window : Lib.Window size clk (events.map fun t => later t length) window
  spaced : Lib.Spaced size (fun t => later t length) events

theorem Windowed.mono {size clk clk' : Nat} {length : Int} {events window : List Nat}
    (h : Windowed size length clk events window) (hclk : clk ≤ clk') :
    Windowed size length clk' events window := ⟨h.window.mono hclk, h.spaced⟩

theorem Windowed.snoc {size clk : Nat} {length : Int} {events window : List Nat} (hsize : 0 < size)
    (h : Windowed size length clk events window) (hready : Lib.windowReady size window clk = true) :
    Windowed size length clk (events ++ [clk]) (Lib.slide window clk (later clk length)) where
  window := by
    rw [List.map_append]
    exact h.window.slide hsize hready
  spaced := h.spaced.snoc h.window hready hsize

/-- **Activations are spread**: of any five of a rank the last is tFAW after the first, and for
GDDR of any thirty-three t32AW. -/
theorem activations_spaced (hplaces : cfg.Places) {events : List Event}
    (h : run cfg {} events = .ok c) (rank : Int) :
    Lib.Spaced 4 (fun t => later t cfg.tFAW) (activations c.cmdTrace rank) ∧
      (cfg.protocol.isGddr = true →
        Lib.Spaced 32 (fun t => later t cfg.t32AW) (activations c.cmdTrace rank)) := by
  have hwindows := run_sends (I := fun c =>
    Windowed 4 cfg.tFAW c.clk (activations c.cmdTrace rank) (c.channelState.fourAw rank) ∧
    (cfg.protocol.isGddr = true →
      Windowed 32 cfg.t32AW c.clk (activations c.cmdTrace rank) (c.channelState.thirtyTwoAw rank)))
    hplaces ?_ ?_ h ?_
  · exact ⟨hwindows.1.spaced, fun hgddr => (hwindows.2 hgddr).spaced⟩
  · rintro c c' hq ⟨hfour, hthirty⟩
    rw [hq.cmdTrace, hq.fourAw, hq.thirtyTwoAw]
    exact ⟨hfour.mono hq.clk, fun hgddr => (hthirty hgddr).mono hq.clk⟩
  · rintro c cmd c' hs ⟨hfour, hthirty⟩
    rw [hs.cmdTrace, hs.clk, activations_snoc, hs.channel.fourAw, hs.channel.thirtyTwoAw]
    by_cases hact : cmd.cmdType = .activate
    · by_cases hrank : cmd.addr.rank = rank
      · subst hrank
        have hok := hs.ready.window hact
        unfold ChannelState.activationWindowOk at hok
        rw [if_pos ⟨hact, rfl⟩, if_pos hact, Function.update_self]
        refine ⟨hfour.snoc (by decide) ?_, ?_⟩
        · split at hok
          · exact (Bool.and_eq_true _ _ ▸ hok).1
          · exact hok
        · intro hgddr
          rw [if_pos hgddr] at hok
          rw [if_pos ⟨hact, hgddr⟩, Function.update_self]
          exact (hthirty hgddr).snoc (by decide) (Bool.and_eq_true _ _ ▸ hok).2
      · rw [if_neg (by simp [hrank]), if_pos hact, Function.update_of_ne (Ne.symm hrank)]
        refine ⟨hfour, ?_⟩
        intro hgddr
        rw [if_pos ⟨hact, hgddr⟩, Function.update_of_ne (Ne.symm hrank)]
        exact hthirty hgddr
    · rw [if_neg (by simp [hact]), if_neg hact, if_neg (by simp [hact])]
      exact ⟨hfour, hthirty⟩
  · exact ⟨⟨Lib.Window.start, by simp [Lib.Spaced, activations]⟩,
      fun _ => ⟨Lib.Window.start, by simp [Lib.Spaced, activations]⟩⟩

/-- Reads of six banks of the rank. -/
theorem activations_spaced_lpddr5 : ∃ c,
    run lpddr5Ch4 {} (((List.range 6).map fun i => .add (.ofNat (0x8000 * i)) false) ++
        List.replicate 100 .tick) = .ok c ∧
      Lib.Spaced 4 (fun t => later t 16) (activations c.cmdTrace 0) := by
  obtain ⟨c, hrun⟩ := run_ok lpddr5Ch4_plain
    (((List.range 6).map fun i => .add (.ofNat (0x8000 * i)) false) ++ List.replicate 100 .tick)
  exact ⟨c, hrun, (activations_spaced lpddr5Ch4_places hrun 0).1⟩

end Controller

/-! ### The rows -/

/-- What a device knows of a bank. -/
inductive RowState where
  | closed
  | opened (row : Int)
  | asleep
  deriving DecidableEq, Repr

namespace RowState

/-- A device takes a command or refuses it: rows are opened in closed banks only, and only the
open row is read and written. -/
def take (s : RowState) (cmd : Command) : Except Command RowState :=
  match s, cmd.cmdType with
  | .closed, .activate => .ok (.opened cmd.addr.row)
  | .closed, .refresh | .closed, .refreshBank => .ok .closed
  | .closed, .srefEnter => .ok .asleep
  | .opened row, .read | .opened row, .write => if cmd.addr.row = row then .ok (.opened row) else .error cmd
  | .opened row, .readPrecharge | .opened row, .writePrecharge =>
    if cmd.addr.row = row then .ok .closed else .error cmd
  | .opened _, .precharge => .ok .closed
  | .asleep, .srefExit => .ok .closed
  | _, _ => .error cmd

/-- A command to all banks it acts on. -/
def takeAll (cfg : Config) (rows : Bank → RowState) (cmd : Command) : Except Command (Bank → RowState) :=
  Lib.forEachM (fun _ s => s.take cmd) (cfg.targets cmd) rows

/-- What the banks are after all that has been sent. -/
def replay (cfg : Config) (rows : Bank → RowState) : List (Nat × Command) → Except Command (Bank → RowState)
  | [] => .ok rows
  | e :: rest => do replay cfg (← takeAll cfg rows e.2) rest

theorem replay_snoc {cfg : Config} {rows rows' rows'' : Bank → RowState}
    {trace : List (Nat × Command)}
    {e : Nat × Command} (h : replay cfg rows trace = .ok rows')
    (he : takeAll cfg rows' e.2 = .ok rows'') :
    replay cfg rows (trace ++ [e]) = .ok rows'' := by
  induction trace generalizing rows with
  | nil =>
    cases h
    show takeAll cfg _ e.2 >>= _ = _
    rw [he]
    rfl
  | cons first rest ih =>
    obtain ⟨rows₁, hfirst, h⟩ := ok_of_bind h
    show takeAll cfg rows first.2 >>= _ = _
    rw [hfirst]
    exact ih h

/-- The device's view of a bank. -/
def ofBank (b : BankState) : RowState :=
  match b.state with
  | .closed => .closed
  | .open => .opened b.openRow
  | .sref => .asleep

@[simp] theorem ofBank_updateTimings (b : BankState) (delays : List (CommandType × Int)) (clk : Nat) :
    ofBank (b.updateTimings delays clk) = ofBank b := by
  simp [ofBank]

theorem take_ofBank {b b' : BankState} {cmd : Command} (hadmits : b.Admits cmd)
    (h : b.updateState cmd = .ok b') : (ofBank b).take cmd = .ok (ofBank b') := by
  unfold BankState.Admits at hadmits
  unfold BankState.updateState at h
  cases hs : b.state <;> cases hc : cmd.cmdType <;> simp only [hs, hc] at h hadmits <;> cases h <;>
    simp [ofBank, take, hs, hc, hadmits]

end RowState

namespace Controller
variable {cfg : Config} {c c' : Controller}

/-- **Every bank is in a state for what it is sent.** -/
theorem commands_taken (hplaces : cfg.Places) {events : List Event} (h : run cfg {} events = .ok c) :
    RowState.replay cfg (fun _ => .closed) c.cmdTrace =
      .ok fun b => RowState.ofBank (c.channelState.bankStates b) := by
  refine run_sends (I := fun c => RowState.replay cfg (fun _ => .closed) c.cmdTrace =
    .ok fun b => RowState.ofBank (c.channelState.bankStates b)) hplaces ?_ ?_ h rfl
  · intro c c' hq hI
    rw [hq.cmdTrace, hq.bankStates]
    exact hI
  · intro c cmd c' hs hI
    rw [hs.cmdTrace]
    refine RowState.replay_snoc hI ?_
    have hnodup : (cfg.targets cmd).Nodup := by
      unfold Config.targets
      split
      · exact cfg.nodup_banksOf _
      · exact List.nodup_singleton _
    refine (Lib.forEachM_eq_ok hnodup).mpr ⟨?_, ?_⟩
    · intro b hb
      obtain ⟨s, hstate, heq⟩ := hs.channel.target b hb
      rw [heq, RowState.ofBank_updateTimings]
      exact RowState.take_ofBank (hs.ready.admits b hb) hstate
    · intro b hb
      rw [hs.channel.other b hb, RowState.ofBank_updateTimings]

theorem commands_taken_lpddr5 : ∃ c,
    run lpddr5Ch4 {} (.add 0 false :: .add 0x80000 true :: List.replicate 100 .tick) = .ok c ∧
      RowState.replay lpddr5Ch4 (fun _ => .closed) c.cmdTrace =
        .ok fun b => RowState.ofBank (c.channelState.bankStates b) := by
  obtain ⟨c, hrun⟩ := run_ok lpddr5Ch4_plain
    (.add 0 false :: .add 0x80000 true :: List.replicate 100 .tick)
  exact ⟨c, hrun, commands_taken lpddr5Ch4_places hrun⟩

end Controller

end Hsim.Dramsim3
