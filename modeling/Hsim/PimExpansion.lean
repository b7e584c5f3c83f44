import Hsim.BridgeTicked
import Hsim.DraftCommands
import Hsim.Lib.Words

/-! From the operations of a PIM profile to the commands the host issues.

`init_pim_profile` takes the entries of an operation apart: the names in their
order, and a map from a name to its latency and count. The host walks the names
and looks each up. What comes out is the array again if a name always stands for
the same cost; of entries that share a name and differ, every one gets the cost
of the last. -/
namespace Hsim.Host

/-! ### The entries of an operation -/

/-- The command that an entry of an operation describes. An entry with the number of
output tiles describes none. -/
def command? : Json → Option (String × DelayCount)
  | .obj members =>
    if (members.lookup "output_tile").isSome then none
    else do
      let name ← (← members.lookup "name").asString.toOption
      let latency ← (← members.lookup "latency").asUInt.toOption
      let count ← (← members.lookup "count").asUInt.toOption
      return (name, {
        delay := latency
        count := count})
  | _ => none

/-- The PIM profile file of the configured memory type and workload. -/
def pimProfileFile (files : Files) (system : SystemInfo) : Except String Json := do
  let pim ← (← files "memory").field "pim"
  let pimType ← (← pim.field "memory_type").asString
  files (pimProfileName pimType system.inputSequenceLength system.targetModel)

/-- The entries of the operation that a layer is mapped to. -/
def operationEntries (root : Json) (layer : String) : Except String (List Json) := do
  let operation ← (← (← root.field "layers").field layer).asString
  return (← (← root.field "operations").field operation).elements

/-- A name stands for one cost. -/
def Identified (commands : List (String × DelayCount)) : Prop :=
  ∀ a ∈ commands, ∀ b ∈ commands, a.1 = b.1 → a.2 = b.2

/-- The transactions of some tiles, from commands with their costs. -/
def expand (scale : UInt32 → UInt32) (commands : List (String × DelayCount)) (tileCount : UInt32)
    (layer : String) : List Payload :=
  (List.range tileCount.toNat).flatMap fun _ =>
    commands.flatMap fun c =>
      (List.range c.2.count.toNat).map fun burst =>
        generateTrans (scale c.2.delay) (.ofNat burst) c.2.count layer c.1

/-- The names of a profile with the costs the host looks up. -/
def commandStream (profile : PIMCmdProfile) : List (String × DelayCount) :=
  profile.orderedCmdName.map fun name => (name, profile.get name)

/-- The host issues these commands for a tile, and counts them. -/
structure Expands (profile : PIMCmdProfile) (commands : List (String × DelayCount)) : Prop where
  stream : commandStream profile = commands
  emitted : ∀ tileCount layer,
    microTransactions profile tileCount layer = expand (scaledDelay profile) commands tileCount layer
  /-- A `Json::Value` has no more than 2^32 elements. -/
  total : commands.length ≤ 2 ^ 32 →
    (Config.commandsPerTile profile).toNat = (commands.map (·.2.count.toNat)).sum

/-! ### Reading the entries -/

theorem requireMember_ok {operation key : String} {ofKind : Json → Bool} {members : List (String × Json)}
    {value : Json} (h : requireMember operation key ofKind (.obj members) = .ok value) :
    members.lookup key = some value := by
  obtain ⟨found, hfound, h⟩ := ok_of_bind h
  obtain ⟨_, hmember, h⟩ := ok_of_bind h
  obtain ⟨field, hfield, h⟩ := ok_of_bind h
  obtain ⟨_, -, h⟩ := ok_of_bind h
  cases hfound
  cases hfield
  cases h
  have hsome : (members.lookup key).isSome = true := by simpa using not_of_reject hmember
  obtain ⟨value, hvalue⟩ := Option.isSome_iff_exists.mp hsome
  rw [hvalue]
  rfl

/-- An accepted entry adds the command it describes, or none. -/
theorem readCommand_ok {operation : String} {acc acc' : PIMCmdProfile × Option UInt32} {entry : Json}
    (h : readCommand operation acc entry = .ok acc') :
    command? entry = none ∧ acc'.1 = acc.1 ∨
      ∃ c, command? entry = some c ∧ acc'.1 = acc.1.push c.1 c.2 := by
  obtain ⟨tiled, htiled, h⟩ := ok_of_bind h
  cases entry with
  | obj members =>
    have htiled : tiled = (members.lookup "output_tile").isSome := by
      cases htiled
      rfl
    cases hcase : tiled with
    | true =>
      rw [hcase] at h htiled
      obtain ⟨_, -, h⟩ := ok_of_bind h
      obtain ⟨_, -, h⟩ := ok_of_bind h
      obtain ⟨_, -, h⟩ := ok_of_bind h
      cases h
      exact .inl ⟨if_pos htiled.symm, rfl⟩
    | false =>
      rw [hcase] at h htiled
      obtain ⟨name, hname, h⟩ := ok_of_bind h
      obtain ⟨latency, hlatency, h⟩ := ok_of_bind h
      obtain ⟨count, hcount, h⟩ := ok_of_bind h
      obtain ⟨delay, hdelay, h⟩ := ok_of_bind h
      obtain ⟨number, hnumber, h⟩ := ok_of_bind h
      obtain ⟨text, htext, h⟩ := ok_of_bind h
      cases h
      refine .inr ⟨(text, {
        delay := delay
        count := number}), ?_, rfl⟩
      rw [command?, ← htiled, if_neg (by simp), requireMember_ok hname, requireMember_ok hlatency,
        requireMember_ok hcount]
      simp [htext, hdelay, hnumber, Except.toOption]
  | null =>
    cases htiled
    obtain ⟨name, hname, -⟩ := ok_of_bind h
    cases hname
  | _ => cases htiled

/-- What reading some commands leaves: the names in order, and the newest cost of a name
first. -/
structure Holds (profile : PIMCmdProfile) (commands : List (String × DelayCount)) : Prop where
  costs : profile.cmdMap = commands.reverse
  names : profile.orderedCmdName = commands.map (·.1)

theorem Holds.push {profile : PIMCmdProfile} {commands : List (String × DelayCount)}
    (h : Holds profile commands) (c : String × DelayCount) :
    Holds (profile.push c.1 c.2) (commands ++ [c]) := by
  constructor
  · show c :: profile.cmdMap = _
    rw [h.costs, List.reverse_append]
    rfl
  · show profile.orderedCmdName ++ [c.1] = _
    rw [h.names, List.map_append]
    rfl

/-- By induction on the entries that are left. -/
theorem readCommands_holds {operation : String} {entries : List Json}
    {commands : List (String × DelayCount)}
    {acc acc' : PIMCmdProfile × Option UInt32} (hacc : Holds acc.1 commands)
    (h : entries.foldlM (readCommand operation) acc = .ok acc') :
    Holds acc'.1 (commands ++ entries.filterMap command?) := by
  induction entries generalizing acc commands with
  | nil =>
    cases h
    rw [List.filterMap_nil, List.append_nil]
    exact hacc
  | cons entry entries ih =>
    rw [List.foldlM_cons] at h
    obtain ⟨next, hnext, h⟩ := ok_of_bind h
    rcases readCommand_ok hnext with ⟨hnone, hsame⟩ | ⟨c, hsome, hpush⟩
    · rw [List.filterMap_cons_none hnone]
      exact ih (hsame ▸ hacc) h
    · have htail := ih (hpush ▸ hacc.push c) h
      rw [List.append_assoc] at htail
      rw [List.filterMap_cons_some hsome]
      exact htail

theorem readPimLayer_holds {pimChannels : UInt32} {root layers : Json} {name : String}
    {entry : String × PIMCmdProfile × Option UInt32} (hlayers : root.field "layers" = .ok layers)
    (h : readPimLayer pimChannels root layers name = .ok entry) :
    entry.1 = name ∧ ∃ entries, operationEntries root name = .ok entries ∧
      Holds entry.2.1 (entries.filterMap command?) := by
  obtain ⟨value, hvalue, h⟩ := ok_of_bind h
  obtain ⟨operation, hoperation, h⟩ := ok_of_bind h
  obtain ⟨operations, hoperations, h⟩ := ok_of_bind h
  obtain ⟨commands, hcommands, h⟩ := ok_of_bind h
  obtain ⟨scalings, -, h⟩ := ok_of_bind h
  obtain ⟨member, -, h⟩ := ok_of_bind h
  -- whichever scaling applies, the entries are read next
  have hread : ∃ scale profile tiles, entry = (name, profile, tiles) ∧
      commands.elements.foldlM (readCommand operation) ({channelLatencyScale := scale}, none) =
        .ok (profile, tiles) := by
    dsimp only at h
    have hjoin : ∃ scaling, (channelLatencyScale pimChannels operation scaling >>= fun scale =>
        commands.elements.foldlM (readCommand operation) ({channelLatencyScale := scale}, none) >>=
          fun r => .ok (name, r.1, r.2)) = .ok entry := by
      split at h
      · obtain ⟨scaling, -, h⟩ := ok_of_bind h
        exact ⟨scaling, h⟩
      · split at h
        · obtain ⟨scaling, -, h⟩ := ok_of_bind h
          exact ⟨scaling, h⟩
        · obtain ⟨scaling, -, h⟩ := ok_of_bind h
          exact ⟨scaling, h⟩
    obtain ⟨scaling, h⟩ := hjoin
    obtain ⟨scale, -, h⟩ := ok_of_bind h
    obtain ⟨⟨profile, tiles⟩, hfold, h⟩ := ok_of_bind h
    cases h
    exact ⟨scale, profile, tiles, rfl, hfold⟩
  obtain ⟨scale, profile, tiles, rfl, hfold⟩ := hread
  refine ⟨rfl, commands.elements, ?_, ?_⟩
  · simp only [operationEntries, hlayers, hvalue, hoperation, hoperations, hcommands, bind, Except.bind]
    rfl
  · have hnone : Holds {channelLatencyScale := scale} [] := ⟨rfl, rfl⟩
    have hholds := readCommands_holds hnone hfold
    rw [List.nil_append] at hholds
    exact hholds

theorem mem_of_lookup {α : Type} {entries : List (String × α)} {name : String} {x : α}
    (h : entries.lookup name = some x) : (name, x) ∈ entries := by
  obtain ⟨before, after, rfl, -⟩ := List.lookup_eq_some_iff.mp h
  simp

/-- The profile of a layer holds the entries of its operation. -/
theorem initConfigurations_holds {files : Files} {c : Configurations} (h : initConfigurations files = .ok c)
    {layer : String} {profile : PIMCmdProfile} (hlayer : c.pimProfile.lookup layer = some profile) :
    ∃ root entries, pimProfileFile files c.toSystemInfo = .ok root ∧
      operationEntries root layer = .ok entries ∧ Holds profile (entries.filterMap command?) := by
  obtain ⟨system, -, h⟩ := ok_of_bind h
  have hsystem := initDram_system h
  simp only [initDram, bind_eq_ok] at h
  -- the memory file up to its type, the host's latencies, then the profile file
  obtain ⟨memory, hmemory, _, -, pim, hpim, _, -, _, -, _, -, _, -, _, -, _, -, _, -, _, -, h⟩ := h
  obtain ⟨value, hvalue, pimType, htype, _, -, pimChannels, -, _, -, _, -, _, -, root, hroot, _, -, _, -, _, -, h⟩ := h
  obtain ⟨_, -, _, -, layers, hlayers, names, -, read, hread, h⟩ := h
  cases h
  have hmem : (layer, profile) ∈ read.map fun e => (e.1, e.2.1) := mem_of_lookup hlayer
  obtain ⟨entry, hentry, heq⟩ := List.mem_map.mp hmem
  obtain ⟨name, -, hname⟩ := mem_of_mapM hread entry hentry
  obtain ⟨hsame, entries, hentries, hholds⟩ := readPimLayer_holds hlayers hname
  cases heq
  refine ⟨root, entries, ?_, hsame ▸ hentries, hholds⟩
  simp only [pimProfileFile, hmemory, hpim, hvalue, htype, bind, Except.bind]
  exact hroot

/-! ### The commands the host issues -/

section
variable {profile : PIMCmdProfile} {commands : List (String × DelayCount)}

/-- The host's walks over a profile are walks over its stream. -/
theorem microTransactions_eq (tileCount : UInt32) (layer : String) :
    microTransactions profile tileCount layer =
      expand (scaledDelay profile) (commandStream profile) tileCount layer := by
  simp only [microTransactions, expand, commandStream, List.flatMap_map]

theorem commandsPerTile_eq :
    Config.commandsPerTile profile = ((commandStream profile).map (·.2.count.toUInt64)).sum := by
  rw [Config.commandsPerTile, commandStream, List.map_map]
  rfl

/-- Counts of at most 2^32 commands add up in 64 bits. -/
theorem toNat_sum_counts (hlength : commands.length ≤ 2 ^ 32) :
    (commands.map fun c : String × DelayCount => c.2.count.toUInt64).sum.toNat =
      (commands.map fun c => c.2.count.toNat).sum := by
  have hlt := Lib.sum_words_lt (show (commands.map (·.2.count)).length ≤ 2 ^ 32 by simpa using hlength)
  rw [List.map_map] at hlt
  rw [Lib.toNat_sum, List.map_map]
  exact Nat.mod_eq_of_lt hlt

variable (h : Holds profile commands)
include h

theorem Holds.stream_eq : commandStream profile = commands.map fun c => (c.1, profile.get c.1) := by
  rw [commandStream, h.names, List.map_map]
  rfl

/-- The looked-up cost of a name is that of one of its entries. -/
theorem Holds.get_mem {c : String × DelayCount} (hc : c ∈ commands) :
    (c.1, profile.get c.1) ∈ commands := by
  have hknown := profile.known c.1 (by rw [h.names]; exact List.mem_map_of_mem hc)
  obtain ⟨cost, hcost⟩ := Option.isSome_iff_exists.mp hknown
  have hmem := mem_of_lookup hcost
  rw [h.costs, List.mem_reverse] at hmem
  rw [PIMCmdProfile.get, hcost, Option.getD_some]
  exact hmem

theorem Holds.expands_iff_identified : Expands profile commands ↔ Identified commands := by
  constructor
  · intro hexpands
    have hstream := hexpands.stream
    rw [h.stream_eq] at hstream
    have hown : ∀ c ∈ commands, (c.1, profile.get c.1) = c := by
      have hmap : commands.map (fun c => (c.1, profile.get c.1)) = commands.map id := by
        rw [hstream, List.map_id]
      exact List.map_inj_left.mp hmap
    intro a ha b hb hname
    rw [← hown a ha, ← hown b hb]
    exact congrArg profile.get hname
  · intro hidentified
    have hstream : commandStream profile = commands := by
      rw [h.stream_eq]
      conv_rhs => rw [← List.map_id commands]
      refine List.map_congr_left fun c hc => ?_
      exact Prod.ext rfl (hidentified _ (h.get_mem hc) c hc rfl)
    refine ⟨hstream, fun tileCount layer => ?_, fun hlength => ?_⟩
    · rw [microTransactions_eq, hstream]
    · rw [commandsPerTile_eq, hstream, toNat_sum_counts hlength]

end

/-- **The host issues the entries of an operation exactly if a name always has one cost.**
Every accepted configuration and every layer of its PIM profile. -/
theorem expansion_iff {files : Files} {c : Configurations} (h : initConfigurations files = .ok c)
    {layer : String} {profile : PIMCmdProfile} (hlayer : c.pimProfile.lookup layer = some profile)
    {root : Json} (hroot : pimProfileFile files c.toSystemInfo = .ok root) {entries : List Json}
    (hentries : operationEntries root layer = .ok entries) :
    Expands profile (entries.filterMap command?) ↔ Identified (entries.filterMap command?) := by
  obtain ⟨root', entries', hroot', hentries', hholds⟩ := initConfigurations_holds h hlayer
  cases hroot.symm.trans hroot'
  cases hentries.symm.trans hentries'
  exact hholds.expands_iff_identified

/-- One command entry. -/
def macEntry (latency count : UInt32) : Json :=
  .obj [("count", .int count.toNat), ("latency", .int latency.toNat), ("name", .str "mac")]

/-- The replay of one projection whose operation has these entries. -/
def gemvFiles (entries : List Json) : Files
  | "profile/lpddr5" => .ok (.obj [
      ("layers", .obj [("q_proj", .str "gemv")]),
      ("mode_change_delay", .obj [("DRAM_to_PIM", .int 10), ("PIM_to_DRAM", .int 10)]),
      ("operations", .obj [("gemv", .arr entries)])])
  | name => System.projectionFiles ⟨false, false, false, true⟩ .partitioned name

/-- The configuration is accepted, with these entries and commands for the projection. -/
def gemvStream (entries : List Json) (costs stream : List (String × DelayCount)) : Bool :=
  (initConfigurations (gemvFiles entries)).toOption.any fun c =>
    (c.pimProfile.lookup "q_proj").any fun profile =>
      profile.cmdMap.reverse == costs && commandStream profile == stream

theorem gemvStream_accepted {entries : List Json} {costs stream : List (String × DelayCount)}
    (h : gemvStream entries costs stream = true) :
    ∃ c profile, initConfigurations (gemvFiles entries) = .ok c ∧
      c.pimProfile.lookup "q_proj" = some profile ∧ profile.cmdMap.reverse = costs ∧
      commandStream profile = stream := by
  obtain ⟨c, hc, hany⟩ := ok_of_any h
  cases hprofile : c.pimProfile.lookup "q_proj" with
  | none =>
    rw [hprofile] at hany
    cases hany
  | some profile =>
    rw [hprofile] at hany
    have hboth : profile.cmdMap.reverse = costs ∧ commandStream profile = stream := by simpa using hany
    exact ⟨c, profile, hc, hprofile, hboth⟩

/-- Two entries of the same name and the same cost come out as they went in. -/
theorem expansion_same_cost : ∃ c profile,
    initConfigurations (gemvFiles [macEntry 5 1, macEntry 5 1]) = .ok c ∧
    c.pimProfile.lookup "q_proj" = some profile ∧
    Expands profile [("mac", ⟨5, 1⟩), ("mac", ⟨5, 1⟩)] := by
  have hstream : gemvStream [macEntry 5 1, macEntry 5 1] [("mac", ⟨5, 1⟩), ("mac", ⟨5, 1⟩)]
      [("mac", ⟨5, 1⟩), ("mac", ⟨5, 1⟩)] = true := by decide +kernel
  obtain ⟨c, profile, hc, hprofile, hcosts, -⟩ := gemvStream_accepted hstream
  obtain ⟨root, entries, hroot, hentries, hholds⟩ := initConfigurations_holds hc hprofile
  rw [hholds.costs, List.reverse_reverse] at hcosts
  have hexpands := (expansion_iff hc hprofile hroot hentries).mpr (by
    rw [hcosts]
    intro a ha b hb _
    simp only [List.mem_cons, List.not_mem_nil, or_false, or_self] at ha hb
    rw [ha, hb])
  rw [hcosts] at hexpands
  exact ⟨c, profile, hc, hprofile, hexpands⟩

/-- Two entries of the same name and different latencies: both get the second one's. -/
theorem expansion_last_cost : ∃ c profile,
    initConfigurations (gemvFiles [macEntry 5 1, macEntry 7 1]) = .ok c ∧
    c.pimProfile.lookup "q_proj" = some profile ∧
    [macEntry 5 1, macEntry 7 1].filterMap command? = [("mac", ⟨5, 1⟩), ("mac", ⟨7, 1⟩)] ∧
    commandStream profile = [("mac", ⟨7, 1⟩), ("mac", ⟨7, 1⟩)] ∧
    ¬ Expands profile ([macEntry 5 1, macEntry 7 1].filterMap command?) := by
  have hstream : gemvStream [macEntry 5 1, macEntry 7 1] [("mac", ⟨5, 1⟩), ("mac", ⟨7, 1⟩)]
      [("mac", ⟨7, 1⟩), ("mac", ⟨7, 1⟩)] = true := by decide +kernel
  obtain ⟨c, profile, hc, hprofile, -, heq⟩ := gemvStream_accepted hstream
  refine ⟨c, profile, hc, hprofile, by decide +kernel, heq, fun h => ?_⟩
  have hdiffer := h.stream
  rw [heq] at hdiffer
  exact absurd hdiffer (by decide +kernel)

end Hsim.Host
