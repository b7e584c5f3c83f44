import Hsim.ReportText

/-! The report is JSON.

Each writer is followed through its literals once: it begins at a place in the text
and ends at another, for all the figures it prints. The two loops that place commas
themselves end where an array can be closed, whether they printed nothing, skipped
everything or stopped behind a value. -/
namespace Hsim.Metrics

open Lib.JsonText (Segment Frame scan)

/-- What is known of an item as a piece of the text. -/
def Item.segment (print : Rat → String) : Item → Segment
  | .literal t => .literal t
  | .indent count => .blank (Metrics.indent count)
  | .unsigned n => .number (toString n)
  | .signed n => .number (toString n)
  | .fixed x => .number (print x)
  | .string t => .chars t

theorem text_segments (print : Rat → String) (items : List Item) :
    Lib.JsonText.text (items.map (Item.segment print)) = render print items := by
  rw [Lib.JsonText.text, render, List.map_map]
  refine congrArg String.join (List.map_congr_left fun item _ => ?_)
  cases item <;> rfl

def Item.string? : Item → Option String
  | .string t => some t
  | _ => none

/-- Items that lead a reader of JSON from one place to another, with strings that need no
escape. -/
structure Leads (print : Rat → String) (s s' : Lib.JsonText.State) (items : List Item) : Prop where
  scan : scan s (items.map (Item.segment print)) = some s'
  strings : ∀ t ∈ items.filterMap Item.string?, Lib.JsonText.Chars t.toList

section
variable (print : Rat → String) (frames : List Frame)

theorem leads_nil (s : Lib.JsonText.State) : Leads print s s [] := ⟨rfl, List.forall_mem_nil _⟩

variable {print} in
theorem Leads.append {s s₁ s₂ : Lib.JsonText.State} {a b : List Item} (ha : Leads print s s₁ a)
    (hb : Leads print s₁ s₂ b) : Leads print s s₂ (a ++ b) := by
  refine ⟨?_, ?_⟩
  · rw [List.map_append, Lib.JsonText.scan_append ha.scan]
    exact hb.scan
  · rw [List.filterMap_append]
    exact List.forall_mem_append.mpr ⟨ha.strings, hb.strings⟩

variable {print} in
/-- Items without strings, followed through their literals. -/
theorem leads_of_scan {s s' : Lib.JsonText.State} {items : List Item}
    (hscan : scan s (items.map (Item.segment print)) = some s')
    (hstrings : items.filterMap Item.string? = []) : Leads print s s' items :=
  ⟨hscan, hstrings ▸ List.forall_mem_nil _⟩

/-! ### A device -/

theorem percentile95_isSome (samples : List UInt64) : ∃ value, percentile95 samples = some value := by
  rcases eq_or_ne samples [] with rfl | hne
  · exact ⟨0, rfl⟩
  · obtain ⟨_, hvalue⟩ := percentile95_eq hne
    exact ⟨_, hvalue⟩

set_option maxRecDepth 4000 in
theorem writeTrafficJson_leads (stats : TrafficStats) (simulationNs : UInt64) (spaces : Nat) :
    ∃ items, writeTrafficJson stats simulationNs spaces = some items ∧
      Leads print ⟨.names, frames⟩ ⟨.after, .object :: frames⟩ items := by
  obtain ⟨p95, hp95⟩ := percentile95_isSome stats.queueWaitSamples
  rw [writeTrafficJson, quotient_eq, percent?_eq, quotient_eq, hp95]
  exact ⟨_, rfl, leads_of_scan rfl rfl⟩

/-- Before a value of an array. -/
def BeforeItem (s : Lib.JsonText.State) (frames : List Frame) : Prop :=
  s = ⟨.items, frames⟩ ∨ s = ⟨.value, .array :: frames⟩

/-- Where an array can be closed. -/
def Closable (s : Lib.JsonText.State) (frames : List Frame) : Prop :=
  s = ⟨.items, frames⟩ ∨ s = ⟨.after, .array :: frames⟩

theorem writeChannels_leads (simulationNs : UInt64) (spaces size channel : Nat) (value : ChannelStats)
    (rest : List ChannelStats) (hsize : channel + (value :: rest).length = size)
    {s : Lib.JsonText.State} (hs : BeforeItem s frames) :
    ∃ items, writeChannels simulationNs spaces size channel (value :: rest) = some items ∧
      Leads print s ⟨.after, .array :: frames⟩ items := by
  induction rest generalizing channel value s with
  | nil =>
    obtain rfl : channel + 1 = size := hsize
    rw [writeChannels, percent?_eq, writeChannels, if_pos rfl]
    refine ⟨_, rfl, ?_⟩
    rcases hs with rfl | rfl <;> exact leads_of_scan rfl rfl
  | cons next rest ih =>
    have hmore : channel + 1 ≠ size := by
      simp only [List.length_cons] at hsize
      omega
    have hnext : channel + 1 + (next :: rest).length = size := by
      rw [← hsize, List.length_cons (a := value)]
      omega
    obtain ⟨items, hitems, hleads⟩ := ih (channel + 1) next hnext (.inr rfl)
    rw [writeChannels, percent?_eq, hitems, if_neg hmore]
    refine ⟨_, rfl, Leads.append ?_ hleads⟩
    rcases hs with rfl | rfl <;> exact leads_of_scan rfl rfl

/-- The rows of `per_channel`, of which there may be none. -/
theorem writeChannels_closable (simulationNs : UInt64) (spaces : Nat) (rows : List ChannelStats) :
    ∃ items s, writeChannels simulationNs spaces rows.length 0 rows = some items ∧
      Closable s frames ∧ Leads print ⟨.items, frames⟩ s items := by
  cases rows with
  | nil => exact ⟨_, _, rfl, .inl rfl, leads_nil print _⟩
  | cons value rest =>
    obtain ⟨items, hitems, hleads⟩ := writeChannels_leads print frames simulationNs spaces
      (value :: rest).length 0 value rest (Nat.zero_add _) (.inl rfl)
    exact ⟨items, _, hitems, .inr rfl, hleads⟩

set_option maxRecDepth 4000 in
theorem writeDeviceJson_leads (stats : DeviceStats) (simulationNs : UInt64) (spaces : Nat)
    (hmode : Lib.JsonText.Chars stats.channelMode.toList) :
    ∃ items, writeDeviceJson stats simulationNs spaces = some items ∧
      Leads print ⟨.names, frames⟩ ⟨.after, .object :: frames⟩ items := by
  obtain ⟨memory, hmemory, hmemoryLeads⟩ := writeTrafficJson_leads print (.object :: frames)
    stats.memory simulationNs (spaces + 2)
  obtain ⟨compute, hcompute, hcomputeLeads⟩ := writeTrafficJson_leads print (.object :: frames)
    stats.compute simulationNs (spaces + 2)
  obtain ⟨channels, s, hchannels, hclosable, hchannelsLeads⟩ :=
    writeChannels_closable print (.object :: frames) simulationNs spaces stats.perChannel
  rw [writeDeviceJson, percent?_eq, hmemory, hcompute, hchannels]
  refine ⟨_, rfl, ?_⟩
  refine ((((Leads.append ?_ hmemoryLeads).append ?_).append hcomputeLeads).append ?_).append
    hchannelsLeads |>.append ?_
  · exact ⟨rfl, List.forall_mem_singleton.mpr hmode⟩
  · exact leads_of_scan rfl rfl
  · exact leads_of_scan rfl rfl
  · rcases hclosable with rfl | rfl <;> exact leads_of_scan rfl rfl

/-! ### The sections of the report -/

set_option maxRecDepth 4000 in
theorem overlapItems_leads (o : Overlap) :
    ∃ items, overlapItems o = some items ∧ Leads print ⟨.name, frames⟩ ⟨.name, frames⟩ items := by
  rw [overlapItems, percent?_eq, percent?_eq, percent?_eq]
  exact ⟨_, rfl, leads_of_scan rfl rfl⟩

set_option maxRecDepth 4000 in
theorem balanceItems_leads (pimDraftBusyNs npuTargetBusyNs : UInt64) :
    ∃ items, balanceItems pimDraftBusyNs npuTargetBusyNs = some items ∧
      Leads print ⟨.name, frames⟩ ⟨.name, frames⟩ items := by
  rw [balanceItems, quotient_eq]
  refine ⟨_, rfl, leads_of_scan ?_ rfl⟩
  repeat first
    | refine Lib.JsonText.scan_literal rfl ?_
    | refine Lib.JsonText.scan_piece rfl ?_
  rfl

/-- The loop prints a comma before every episode but the first it prints. -/
theorem writeEpisodes_leads (first : Bool) {episodes : List ParallelEpisode}
    (hids : ∀ e ∈ episodes, Lib.JsonText.Chars e.id.toList) :
    ∃ items s, writeEpisodes first episodes = some items ∧ Closable s frames ∧
      Leads print (if first then ⟨.items, frames⟩ else ⟨.after, .array :: frames⟩) s items := by
  induction episodes generalizing first with
  | nil =>
    refine ⟨[], _, rfl, ?_, leads_nil print _⟩
    cases first
    · exact .inr rfl
    · exact .inl rfl
  | cons episode rest ih =>
    obtain ⟨hid, hrest⟩ := List.forall_mem_cons.mp hids
    rw [writeEpisodes]
    split
    · exact ih first hrest
    · obtain ⟨items, s, hitems, hclosable, hleads⟩ := ih false hrest
      simp only [eei?_eq, hitems]
      refine ⟨_, s, rfl, hclosable, Leads.append ?_ hleads⟩
      cases first
      · exact ⟨rfl, List.forall_mem_singleton.mpr hid⟩
      · exact ⟨rfl, List.forall_mem_singleton.mpr hid⟩

set_option maxRecDepth 4000 in
theorem imbalanceItems_leads (r : Imbalance) {episodes : List ParallelEpisode}
    (hids : ∀ e ∈ episodes, Lib.JsonText.Chars e.id.toList) :
    ∃ items, imbalanceItems r episodes = some items ∧
      Leads print ⟨.name, frames⟩ ⟨.name, frames⟩ items := by
  obtain ⟨printed, s, hprinted, hclosable, hleads⟩ :=
    writeEpisodes_leads print (.object :: .object :: frames) true hids
  rw [imbalanceItems, eei?_eq, hprinted]
  refine ⟨_, rfl, (Leads.append (leads_of_scan ?_ rfl) hleads).append ?_⟩
  · repeat first
      | refine Lib.JsonText.scan_literal rfl ?_
      | refine Lib.JsonText.scan_piece rfl ?_
    rfl
  · rcases hclosable with rfl | rfl <;> exact leads_of_scan rfl rfl

theorem stallItems_leads (draftComputeNs targetMemoryNs : UInt64) :
    Leads print ⟨.name, frames⟩ ⟨.after, .object :: frames⟩ (stallItems draftComputeNs targetMemoryNs) :=
  leads_of_scan rfl rfl

/-! ### The whole text -/

/-- The name of a stage. -/
def IsStage (id : String) : Prop :=
  ∃ sample iteration : Nat, id = "sample" ++ toString sample ++ ".iter" ++ toString iteration

theorem IsStage.chars {id : String} (h : IsStage id) : Lib.JsonText.Chars id.toList := by
  obtain ⟨sample, iteration, rfl⟩ := h
  have hdigits : ∀ n : Nat, ∀ c ∈ (toString n).toList, Lib.JsonText.isPlain c = true := by
    intro n c hc
    have hdigit := Host.isDigit_toString n c hc
    simp only [Char.isDigit, Bool.and_eq_true, decide_eq_true_eq] at hdigit
    have hspace : ' ' ≤ c := UInt32.le_trans (show ' '.val ≤ '0'.val by decide) hdigit.1
    have hquote : c ≠ '"' := fun h => absurd (h ▸ hdigit.1) (by decide)
    have hslash : c ≠ '\\' := fun h => absurd (h ▸ hdigit.2) (by decide)
    simp [Lib.JsonText.isPlain, hspace, hquote, hslash]
  refine Lib.JsonText.chars_of_plain ?_
  simp only [String.toList_append, List.forall_mem_append]
  exact ⟨⟨⟨List.all_eq_true.mp rfl, hdigits _⟩, List.all_eq_true.mp rfl⟩, hdigits _⟩

/-- What the report prints as it is: episodes are named by stages, and the modes need no
escape. -/
structure State.Printable (s : State) : Prop where
  ids : ∀ id ∈ s.episodeIds, IsStage id
  modes : ∀ d, ∀ c ∈ (s.deviceStats d).channelMode.toList, Lib.JsonText.isPlain c = true

theorem State.reportItems_leads {s : State} (h : s.Printable) (simulationEnd : Time) :
    ∃ items, s.reportItems simulationEnd = some items ∧ Leads print ⟨.start, []⟩ ⟨.after, []⟩ items := by
  have hids : ∀ e ∈ s.parallelEpisodes, Lib.JsonText.Chars e.id.toList :=
    fun e he => (h.ids e.id (List.mem_map_of_mem he)).chars
  obtain ⟨dram, hdram, hdramLeads⟩ := writeDeviceJson_leads print [.object] s.dram
    (UInt64.ofInt (max 0 (toNs simulationEnd))) 4 (Lib.JsonText.chars_of_plain (h.modes .dram))
  obtain ⟨pim, hpim, hpimLeads⟩ := writeDeviceJson_leads print [.object] s.pim
    (UInt64.ofInt (max 0 (toNs simulationEnd))) 4 (Lib.JsonText.chars_of_plain (h.modes .pim))
  obtain ⟨overlap, hoverlap, hoverlapLeads⟩ := overlapItems_leads print []
    (npuPimOverlap s.npuIntervals s.pimComputeIntervals)
  obtain ⟨balance, hbalance, hbalanceLeads⟩ := balanceItems_leads print [] s.pimDraftBusyNs
    (intervalUnionNs s.npuComputeIntervals)
  obtain ⟨imbalance, himbalance, himbalanceLeads⟩ := imbalanceItems_leads print [] s.imbalance hids
  have hstallLeads := stallItems_leads print [] s.pimDraftComputeResourceStallNs
    s.pimTargetMemoryResourceStallNs
  simp only [State.reportItems, hdram, hpim, hoverlap, hbalance, himbalance]
  refine ⟨_, rfl, ?_⟩
  refine ((((((((Leads.append ?_ hdramLeads).append ?_).append hpimLeads).append ?_).append
    hoverlapLeads).append hbalanceLeads).append himbalanceLeads).append hstallLeads).append ?_
  · exact leads_of_scan rfl rfl
  · exact leads_of_scan rfl rfl
  · exact leads_of_scan rfl rfl
  · exact leads_of_scan rfl rfl

end

theorem indent_blank (count : Nat) : Lib.JsonText.Blank (indent count).toList := by
  intro c hc
  rw [indent, String.toList_ofList] at hc
  rw [List.eq_of_mem_replicate hc]
  rfl

/-- Items that lead through a whole object print one, if their numbers print as numbers. -/
theorem Leads.object {print : Rat → String} {items : List Item}
    (h : Leads print ⟨.start, []⟩ ⟨.after, []⟩ items)
    (hnumber : ∀ x, Item.fixed x ∈ items → Lib.JsonText.Number (print x).toList) :
    Lib.JsonText.Object (render print items).toList := by
  rw [← text_segments]
  refine Lib.JsonText.scan_object (List.forall_mem_map.mpr fun item hitem => ?_) h.scan
  cases item with
  | literal t => trivial
  | indent count => exact indent_blank count
  | unsigned n => exact Lib.JsonText.number_nat n
  | signed n => exact Lib.JsonText.number_int n
  | fixed x => exact hnumber x hitem
  | string t => exact h.strings t (List.mem_filterMap.mpr ⟨_, hitem, rfl⟩)

/-! ### Runs -/

/-- The modes the wrappers configure their devices with. -/
def channelModes : List String :=
  ["physical_address_mapped", "logical_balanced_macro", "logical_balanced_pim_model"]

/-- No call changes a mode. -/
theorem apply_channelMode (s : State) (c : Call) (d : Device) :
    ((apply s c).deviceStats d).channelMode = (s.deviceStats d).channelMode := by
  have hmode : ∀ (stats : DeviceStats) (k : Bool) (t : TrafficStats),
      (stats.setTraffic k t).channelMode = stats.channelMode := by
    intro stats k t
    cases k <;> rfl
  by_cases hrequest : c.isRequest = false
  · rw [(apply_aside s hrequest).2 d]
  · cases c with
    | arrived device t bytes k now =>
      simp only [apply, requestArrived]
      split
      · rfl
      · split
        · rfl
        · rw [deviceStats_setRequests]
    | started device t start channel =>
      simp only [apply, requestStarted]
      split
      · rfl
      · split
        · rfl
        · rw [deviceStats_setRequests, deviceStats_setDevice]
          split
          · next hd => rw [hmode, hd]
          · rfl
    | completed device t finish =>
      simp only [apply, requestCompleted]
      split
      · rfl
      · split
        · rw [deviceStats_setRequests]
        · next request _ _ =>
          have hset : ∀ stats : DeviceStats, stats.channelMode = (s.deviceStats device).channelMode →
              (((s.setRequests (s.requests.erase t.ptr)).setDevice device stats).deviceStats d).channelMode =
                (s.deviceStats d).channelMode := by
            intro stats hstats
            rw [deviceStats_setDevice, deviceStats_setRequests]
            split
            · next hd => rw [hstats, hd]
            · rfl
          split
          · rw [deviceStats_recordPimCompute]
            exact hset _ (hmode _ _ _)
          · exact hset _ (hmode _ _ _)
    | _ => exact absurd rfl hrequest

/-- A launch adds its own name or none. -/
theorem beginParallelEpisode_ids (s : State) (id : String) (launch : Time) :
    ∀ id' ∈ (beginParallelEpisode s id launch).episodeIds, id' ∈ s.episodeIds ∨ id' = id := by
  intro id' hid'
  unfold beginParallelEpisode at hid'
  split at hid'
  · exact .inl hid'
  · simpa [State.episodeIds] using hid'

theorem apply_printable {s : State} (h : s.Printable) (c : Call)
    (hc : ∀ id launch, c = .beginEpisode id launch → IsStage id) : (apply s c).Printable := by
  refine ⟨?_, fun d => by rw [apply_channelMode]; exact h.modes d⟩
  by_cases hbegin : ∃ id launch, c = .beginEpisode id launch
  · obtain ⟨id, launch, rfl⟩ := hbegin
    intro id' hid'
    rcases beginParallelEpisode_ids s id launch id' hid' with hold | rfl
    · exact h.ids id' hold
    · exact hc _ launch rfl
  · push Not at hbegin
    rw [(apply_ids s c hbegin).1]
    exact h.ids

theorem applyAll_printable {s : State} (h : s.Printable) (calls : List Call)
    (hcalls : ∀ id launch, Call.beginEpisode id launch ∈ calls → IsStage id) :
    (applyAll s calls).Printable := by
  induction calls generalizing s with
  | nil => exact h
  | cons c calls ih =>
    refine ih (apply_printable h c fun id launch hc => ?_) fun id launch hmem => ?_
    · exact hcalls id launch (hc ▸ List.mem_cons_self)
    · exact hcalls id launch (List.mem_cons_of_mem _ hmem)

theorem channelModes_plain : ∀ mode ∈ channelModes, ∀ c ∈ mode.toList, Lib.JsonText.isPlain c = true := by
  have hall : channelModes.all (fun mode => mode.toList.all Lib.JsonText.isPlain) = true := by decide
  simpa [List.all_eq_true] using hall

theorem configure_ids (s : State) (device : Device) (channels : UInt32) (mode : String) :
    (configure s device channels mode).episodeIds = s.episodeIds := by
  cases device <;> rfl

theorem configure_printable {s : State} (h : s.Printable) (device : Device) (channels : UInt32)
    {mode : String} (hmode : mode ∈ channelModes) : (configure s device channels mode).Printable := by
  refine ⟨by rw [configure_ids]; exact h.ids, fun d => ?_⟩
  rw [configure, deviceStats_setDevice]
  split
  · exact channelModes_plain _ hmode
  · exact h.modes d

theorem configured_printable {setup : List (Device × UInt32 × String)}
    (h : ∀ entry ∈ setup, entry.2.2 ∈ channelModes) : (configured setup).Printable := by
  suffices hall : ∀ s : State, s.Printable →
      (setup.foldl (fun s entry => configure s entry.1 entry.2.1 entry.2.2) s).Printable by
    refine hall {} ⟨List.forall_mem_nil _, fun d => ?_⟩
    cases d <;> exact channelModes_plain _ (by decide)
  induction setup with
  | nil => exact fun s hs => hs
  | cons entry setup ih =>
    obtain ⟨hentry, hsetup⟩ := List.forall_mem_cons.mp h
    exact fun s hs => ih hsetup _ (configure_printable hs entry.1 entry.2.1 hentry)

/-- **The report is one JSON object.** No figure of it divides by zero and no percentile
misses its samples, and its text is an object, provided that the printed doubles are
numbers. -/
theorem writeJson_object (print : Rat → String) {s : State} (h : s.Printable) (simulationEnd : Time) :
    ∃ items, (∀ filename ≠ "", s.writeJson filename true simulationEnd = some (.report items)) ∧
      ((∀ x, Item.fixed x ∈ items → Lib.JsonText.Number (print x).toList) →
        Lib.JsonText.Object (render print items).toList) := by
  obtain ⟨items, hitems, hleads⟩ := State.reportItems_leads print h simulationEnd
  refine ⟨items, fun filename hname => ?_, hleads.object⟩
  rw [State.writeJson, if_neg hname, hitems]
  rfl

/-! ### A report -/

/-- Three decimals, rounded to the nearest. -/
def fixedThree (x : Rat) : String :=
  let thousandths := (1000 * |x| + 1 / 2).floor.toNat
  (if x < 0 then "-" else "") ++ toString (thousandths / 1000) ++ "." ++
    String.ofList ([thousandths / 100 % 10, thousandths / 10 % 10, thousandths % 10].map Nat.digitChar)

theorem number_fixedThree (x : Rat) : Lib.JsonText.Number (fixedThree x).toList := by
  have hdigit : ∀ m : Nat, (m % 10).digitChar.isDigit = true := by
    intro m
    rw [Nat.isDigit_digitChar]
    exact decide_eq_true (Nat.mod_lt m (by decide))
  generalize hn : (1000 * |x| + 1 / 2).floor.toNat = n
  refine ⟨if x < 0 then ['-'] else [], Nat.toDigits 10 (n / 1000),
    '.' :: [n / 100 % 10, n / 10 % 10, n % 10].map Nat.digitChar, [], ?_, Lib.JsonText.whole_toDigits _,
    .inr ⟨_, ⟨List.cons_ne_nil _ _, ?_⟩, rfl⟩, .inl rfl, ?_⟩
  · split <;> simp
  · simp [hdigit]
  · rw [fixedThree, hn]
    split <;> simp [String.toList_append, Nat.toList_repr]

/-- A device that was never configured, one that was, and two episodes, of which one is not
complete. -/
def halfDone : State :=
  applyAll (configured [(.pim, 2, "logical_balanced_pim_model")]) [
    .beginEpisode "sample0.iter0" 1000, .npuEpisode "sample0.iter0" 4000, .pimEpisode "sample0.iter0" 3000,
    .beginEpisode "sample0.iter1" 5000, .npuInterval 1000 4000]

theorem halfDone_printable : halfDone.Printable := by
  refine applyAll_printable (configured_printable (by decide)) _ fun id launch hmem => ?_
  simp only [List.mem_cons, Call.beginEpisode.injEq, List.not_mem_nil, or_false, reduceCtorEq, false_or] at hmem
  rcases hmem with ⟨rfl, -⟩ | ⟨rfl, -⟩
  · exact ⟨0, 0, by decide⟩
  · exact ⟨0, 1, by decide⟩

theorem writeJson_object_halfDone :
    ∃ items, (∀ filename ≠ "", halfDone.writeJson filename true 9000 = some (.report items)) ∧
      Lib.JsonText.Object (render fixedThree items).toList := by
  obtain ⟨items, hwritten, hobject⟩ := writeJson_object fixedThree halfDone_printable 9000
  exact ⟨items, hwritten, hobject fun x _ => number_fixedThree x⟩

end Hsim.Metrics
