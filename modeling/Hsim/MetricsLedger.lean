import Hsim.Metrics
import Mathlib.Tactic.Ring

/-! The ledger balances.

Whatever the order of the calls — duplicates, starts without an arrival,
completions without a start — the counters of a device agree with the lists kept
beside them, every started request is either closed or still open, and the bytes
of the channel rows add up to the bytes of the traffic they were split from. -/
namespace Hsim.Metrics

/-! ### Reading a device after a write -/

@[simp] theorem deviceStats_setDevice (s : State) (d d' : Device) (x : DeviceStats) :
    (s.setDevice d x).deviceStats d' = if d' = d then x else s.deviceStats d' := by
  cases d <;> cases d' <;> rfl

@[simp] theorem setDevice_requests (s : State) (d : Device) (x : DeviceStats) :
    (s.setDevice d x).requests = s.requests := by
  cases d <;> rfl

@[simp] theorem setRequests_requests (s : State) (m : AList (fun _ : Nat => Request)) :
    (s.setRequests m).requests = m := rfl

@[simp] theorem deviceStats_setRequests (s : State) (m : AList (fun _ : Nat => Request))
    (d : Device) : (s.setRequests m).deviceStats d = s.deviceStats d := by
  cases d <;> rfl

@[simp] theorem recordPimCompute_requests (s : State) (t : Payload) (i : Interval) :
    (s.recordPimCompute t i).requests = s.requests := rfl

@[simp] theorem deviceStats_recordPimCompute (s : State) (t : Payload) (i : Interval)
    (d : Device) : (s.recordPimCompute t i).deviceStats d = s.deviceStats d := by
  cases d <;> rfl

@[simp] theorem traffic_setTraffic (stats : DeviceStats) (k k' : Bool) (t : TrafficStats) :
    (stats.setTraffic k t).traffic k' = if k' = k then t else stats.traffic k' := by
  cases k <;> cases k' <;> rfl

@[simp] theorem setTraffic_perChannel (stats : DeviceStats) (k : Bool) (t : TrafficStats) :
    (stats.setTraffic k t).perChannel = stats.perChannel := by
  cases k <;> rfl

@[simp] theorem addChannelService_traffic (stats : DeviceStats) (r : Request) (i : Interval)
    (k : Bool) : (addChannelService stats r i).traffic k = stats.traffic k := rfl

/-! ### The books -/

/-- Requests of a device and kind that have started and are not yet closed. -/
def openStarted (s : State) (d : Device) (k : Bool) : Nat :=
  s.requests.entries.countP fun e => e.2.device == d && e.2.pimCompute == k && decide (0 ≤ e.2.startNs)

/-- The bytes attributed to a device's channels. -/
def channelBytes (rows : List ChannelStats) : UInt64 := (rows.map (·.bytes)).sum

/-- One traffic record against its lists, with `opened` requests still in service. -/
structure TrafficOk (t : TrafficStats) (opened : Nat) : Prop where
  requests : t.requests = t.serviceIntervals.length
  wait : t.queueWaitNs = t.queueWaitSamples.sum
  waitBound : ∀ w ∈ t.queueWaitSamples, w ≤ t.maxQueueWaitNs
  waitAttained : t.maxQueueWaitNs ∈ t.queueWaitSamples ∨
    t.queueWaitSamples = [] ∧ t.maxQueueWaitNs = 0
  samples : t.queueWaitSamples.length = t.requests + opened
  ordered : ∀ i ∈ t.serviceIntervals, i.startNs ≤ i.endNs

/-- What the report relies on, for both devices and both kinds of traffic. -/
structure Ledger (s : State) : Prop where
  traffic : ∀ d k, TrafficOk ((s.deviceStats d).traffic k) (openStarted s d k)
  channels : ∀ d, channelBytes (s.deviceStats d).perChannel =
    (s.deviceStats d).memory.bytes + (s.deviceStats d).compute.bytes

/-- An open record of a payload that `owner` serves. -/
structure RecordOk (owner : Nat → Device) (e : Sigma fun _ : Nat => Request) : Prop where
  device : e.2.device = owner e.1
  arrival : 0 ≤ e.2.arrivalNs

/-- The ledger with what its upkeep needs: open records name their device and
arrived at a real time, and no device has more rows than a channel count can name. -/
structure Books (owner : Nat → Device) (s : State) : Prop extends Ledger s where
  records : ∀ e ∈ s.requests.entries, RecordOk owner e
  rows : ∀ d, (s.deviceStats d).perChannel.length < 2 ^ 32

/-! ### One record changes -/

/-- A record the table holds, and the rest of the table. -/
theorem entries_perm {m : AList (fun _ : Nat => Request)} {ptr : Nat} {r : Request}
    (h : m.lookup ptr = some r) : m.entries.Perm (⟨ptr, r⟩ :: (m.erase ptr).entries) := by
  have hmem : ⟨ptr, r⟩ ∈ m.entries := AList.mem_lookup_iff.mp h
  obtain ⟨b, l₁, l₂, hnot, hl, he⟩ := List.exists_of_kerase (List.mem_keys_of_mem hmem)
  have hb : b = r := by
    have hb' : (⟨ptr, b⟩ : Sigma fun _ : Nat => Request) ∈ m.entries := by rw [hl]; simp
    have : m.lookup ptr = some b := AList.mem_lookup_iff.mpr hb'
    rw [h] at this
    exact (Option.some.inj this).symm
  subst hb
  show m.entries.Perm (_ :: List.kerase ptr m.entries)
  rw [he, hl]
  exact List.perm_middle

theorem erase_entries_subset (m : AList (fun _ : Nat => Request)) (ptr : Nat)
    (e : Sigma fun _ : Nat => Request) (h : e ∈ (m.erase ptr).entries) : e ∈ m.entries :=
  (List.kerase_sublist ptr m.entries).subset h

theorem insert_entries (m : AList (fun _ : Nat => Request)) (ptr : Nat) (r : Request) :
    (m.insert ptr r).entries = ⟨ptr, r⟩ :: (m.erase ptr).entries := rfl

/-! ### Channel rows -/

theorem channelShare_eq (bytes : UInt64) (n id : Nat) (hid : id < n) (hn : n < 2 ^ 64) :
    channelShare bytes n id =
      UInt64.ofNat (bytes.toNat / n) + UInt64.ofNat (if id < bytes.toNat % n then 1 else 0) := by
  have hnn : (UInt64.ofNat n).toNat = n := UInt64.toNat_ofNat_of_lt' hn
  have hii : (UInt64.ofNat id).toNat = id := UInt64.toNat_ofNat_of_lt' (lt_trans hid hn)
  have hdiv : bytes / UInt64.ofNat n = UInt64.ofNat (bytes.toNat / n) := by
    apply UInt64.toNat_inj.mp
    rw [UInt64.toNat_div, hnn, UInt64.toNat_ofNat_of_lt']
    exact lt_of_le_of_lt (Nat.div_le_self _ _) bytes.toNat_lt
  have hcond : (UInt64.ofNat id < bytes % UInt64.ofNat n) ↔ id < bytes.toNat % n := by
    rw [UInt64.lt_iff_toNat_lt, UInt64.toNat_mod, hnn, hii]
  unfold channelShare
  rw [hdiv]
  by_cases h : id < bytes.toNat % n
  · rw [if_pos (hcond.mpr h), if_pos h]; rfl
  · rw [if_neg (fun hc => h (hcond.mp hc)), if_neg h]; rfl

/-- The first `r` of `n` channels take one byte each: `r` bytes. -/
theorem extra_bytes (n r : Nat) (h : r ≤ n) :
    ((List.range n).map fun id => if id < r then 1 else 0).sum = r := by
  induction n generalizing r with
  | zero => simp [Nat.le_zero.mp h]
  | succ n ih =>
    rw [List.range_succ, List.map_append, List.sum_append]
    rcases Nat.lt_or_ge n r with hr | hr
    · have hr' : r = n + 1 := by omega
      have hall : (List.range n).map (fun id => if id < r then 1 else 0) =
          (List.range n).map (fun id => if id < n then 1 else 0) := by
        apply List.map_congr_left
        intro id hid
        have := List.mem_range.mp hid
        simp [show id < r by omega, this]
      rw [hall, ih n le_rfl]
      simp [hr']
    · rw [ih r hr]
      simp [show ¬ n < r by omega]

/-- The shares of a transfer add up to the transfer. -/
theorem channelShare_sum (bytes : UInt64) (n : Nat) (hpos : 0 < n) (hn : n < 2 ^ 64) :
    ((List.range n).map (channelShare bytes n)).sum = bytes := by
  have hmap : (List.range n).map (channelShare bytes n) =
      ((List.range n).map fun id =>
        bytes.toNat / n + if id < bytes.toNat % n then 1 else 0).map UInt64.ofNat := by
    rw [List.map_map]
    apply List.map_congr_left
    intro id hid
    rw [channelShare_eq bytes n id (List.mem_range.mp hid) hn, ← UInt64.ofNat_add]
    rfl
  have hsum : ((List.range n).map fun id =>
      bytes.toNat / n + if id < bytes.toNat % n then 1 else 0).sum = bytes.toNat := by
    have hadd : ∀ l : List Nat, (l.map fun id =>
        bytes.toNat / n + if id < bytes.toNat % n then 1 else 0).sum =
        l.length * (bytes.toNat / n) + (l.map fun id => if id < bytes.toNat % n then 1 else 0).sum := by
      intro l
      induction l with
      | nil => simp
      | cons x l ih =>
        simp only [List.map_cons, List.sum_cons, List.length_cons, ih]
        ring
    rw [hadd, extra_bytes n _ (Nat.mod_lt _ hpos).le, List.length_range]
    exact Nat.div_add_mod _ _
  rw [hmap, sum_ofNat, hsum, UInt64.ofNat_toNat]

theorem channelBytes_append (a b : List ChannelStats) :
    channelBytes (a ++ b) = channelBytes a + channelBytes b := by
  simp [channelBytes]

/-- Serving every row adds every row's share. -/
theorem channelBytes_mapIdx (rows : List ChannelStats) (share : Nat → UInt64) (i : Interval) :
    channelBytes (rows.mapIdx fun id c => c.serve (share id) i) =
      channelBytes rows + ((List.range rows.length).map share).sum := by
  induction rows using List.reverseRecOn with
  | nil => rfl
  | append_singleton rows c ih =>
    rw [List.mapIdx_concat, channelBytes_append, ih, channelBytes_append, List.length_append,
      List.length_singleton, List.range_succ, List.map_append, List.sum_append]
    simp only [channelBytes, List.map_cons, List.map_nil, List.sum_cons, List.sum_nil,
      ChannelStats.serve]
    grind

/-- Serving one row adds its bytes once. -/
theorem channelBytes_modify (rows : List ChannelStats) (n : Nat) (bytes : UInt64) (i : Interval)
    (h : n < rows.length) :
    channelBytes (rows.modify n (·.serve bytes i)) = channelBytes rows + bytes := by
  induction rows generalizing n with
  | nil => simp at h
  | cons c rows ih =>
    cases n with
    | zero =>
      simp only [List.modify_zero_cons, channelBytes, List.map_cons, List.sum_cons,
        ChannelStats.serve]
      grind
    | succ n =>
      have hn : n < rows.length := by simpa using h
      have := ih n hn
      simp only [channelBytes, List.modify_succ_cons, List.map_cons, List.sum_cons] at this ⊢
      rw [this]
      grind

theorem channelBytes_zeros (n : Nat) : channelBytes (List.replicate n {}) = 0 := by
  induction n with
  | zero => rfl
  | succ n ih =>
    rw [channelBytes] at ih
    rw [channelBytes, List.replicate_succ, List.map_cons, List.sum_cons, ih]
    rfl

theorem max_one_bounds (c : UInt32) : 0 < (max 1 c).toNat ∧ (max 1 c).toNat < 2 ^ 32 := by
  refine ⟨?_, UInt32.toNat_lt _⟩
  by_cases h : (1 : UInt32) ≤ c
  · rw [show max 1 c = c from if_pos h]
    exact UInt32.le_iff_toNat_le.mp h
  · rw [show max 1 c = 1 from if_neg h]
    decide

theorem serviceRows_length (stats : DeviceStats) (h : stats.perChannel.length < 2 ^ 32) :
    0 < (serviceRows stats).length ∧ (serviceRows stats).length < 2 ^ 32 := by
  unfold serviceRows
  split
  · simpa [resize] using max_one_bounds stats.channels
  · rename_i hne
    exact ⟨List.length_pos_iff.mpr (by simpa using hne), h⟩

theorem serviceRows_bytes (stats : DeviceStats) :
    channelBytes (serviceRows stats) = channelBytes stats.perChannel := by
  unfold serviceRows
  split
  · rename_i he
    rw [resize, List.take_nil, List.nil_append, channelBytes_zeros, List.isEmpty_iff.mp he]
    rfl
  · rfl

/-- A closed request's bytes are in the rows once, whatever channel it names. -/
theorem addChannelService_bytes (stats : DeviceStats) (r : Request) (i : Interval)
    (h : stats.perChannel.length < 2 ^ 32) :
    channelBytes (addChannelService stats r i).perChannel =
      channelBytes stats.perChannel + r.bytes := by
  have hlen := serviceRows_length stats h
  rw [← serviceRows_bytes stats]
  simp only [addChannelService]
  split
  · rename_i hc
    rw [channelBytes_modify _ _ _ _ hc.2]
  · rw [channelBytes_mapIdx, channelShare_sum _ _ hlen.1 (by omega)]

theorem addChannelService_rows (stats : DeviceStats) (r : Request) (i : Interval)
    (h : stats.perChannel.length < 2 ^ 32) :
    (addChannelService stats r i).perChannel.length < 2 ^ 32 := by
  have hlen := (serviceRows_length stats h).2
  simp only [addChannelService]
  split
  · simpa using hlen
  · simpa using hlen

/-! ### One call at a time -/

theorem max_wait (a b : UInt64) : a ≤ max a b ∧ b ≤ max a b ∧ (max a b = a ∨ max a b = b) := by
  by_cases h : a ≤ b
  · rw [show max a b = b from if_pos h]
    exact ⟨h, UInt64.le_refl b, .inr rfl⟩
  · rw [show max a b = a from if_neg h]
    exact ⟨UInt64.le_refl a, (UInt64.le_total a b).resolve_left h, .inl rfl⟩

/-- A start adds one sample and opens one request. -/
theorem TrafficOk.wait_sample {t : TrafficStats} {n : Nat} (h : TrafficOk t n) (w : UInt64) :
    TrafficOk (t.wait w) (n + 1) where
  requests := h.requests
  wait := by
    show t.queueWaitNs + w = (t.queueWaitSamples ++ [w]).sum
    rw [h.wait, List.sum_append]
    simp
  waitBound := by
    intro v hv
    obtain ⟨ha, hb, _⟩ := max_wait t.maxQueueWaitNs w
    rcases List.mem_append.mp hv with hv | hv
    · exact UInt64.le_trans (h.waitBound v hv) ha
    · rw [List.mem_singleton.mp hv]
      exact hb
  waitAttained := by
    obtain ⟨_, _, hm⟩ := max_wait t.maxQueueWaitNs w
    left
    show max t.maxQueueWaitNs w ∈ t.queueWaitSamples ++ [w]
    rcases hm with hm | hm
    · rw [hm]
      rcases h.waitAttained with hin | ⟨_, hzero⟩
      · exact List.mem_append_left _ hin
      · -- no sample yet: the running maximum is the initial zero, so the new one is zero too
        have hw : w = 0 := by
          have hle : w ≤ t.maxQueueWaitNs := hm ▸ (max_wait t.maxQueueWaitNs w).2.1
          rw [hzero] at hle
          exact UInt64.le_zero_iff.mp hle
        rw [hzero, hw]
        exact List.mem_append_right _ (List.mem_singleton_self _)
    · rw [hm]
      exact List.mem_append_right _ (List.mem_singleton_self _)
  samples := by
    show (t.queueWaitSamples ++ [w]).length = t.requests + (n + 1)
    rw [List.length_append, h.samples, List.length_singleton]
    omega
  ordered := h.ordered

/-- A completion turns an open request into a service interval. -/
theorem TrafficOk.serve_interval {t : TrafficStats} {n : Nat} (h : TrafficOk t (n + 1))
    (bytes : UInt64) (i : Interval) (hi : i.startNs ≤ i.endNs) : TrafficOk (t.serve bytes i) n where
  requests := by
    show t.requests + 1 = (t.serviceIntervals ++ [i]).length
    rw [List.length_append, ← h.requests, List.length_singleton]
  wait := h.wait
  waitBound := h.waitBound
  waitAttained := h.waitAttained
  samples := by
    show t.queueWaitSamples.length = t.requests + 1 + n
    rw [h.samples]
    omega
  ordered := by
    intro j hj
    rcases List.mem_append.mp hj with hj | hj
    · exact h.ordered j hj
    · rw [List.mem_singleton.mp hj]
      exact hi

/-- Whether a record is a started request of this device and kind. -/
def counts (d : Device) (k : Bool) (r : Request) : Bool :=
  r.device == d && r.pimCompute == k && decide (0 ≤ r.startNs)

theorem openStarted_eq (s : State) (d : Device) (k : Bool) :
    openStarted s d k = s.requests.entries.countP (fun e => counts d k e.2) := rfl

theorem openStarted_lookup {s : State} {ptr : Nat} {r : Request}
    (h : s.requests.lookup ptr = some r) (d : Device) (k : Bool) :
    openStarted s d k = (s.requests.erase ptr).entries.countP (fun e => counts d k e.2) +
      if counts d k r then 1 else 0 := by
  rw [openStarted_eq, (entries_perm h).countP_eq, List.countP_cons]

/-- A call that changes one device's traffic of one kind, its rows and the table. -/
theorem Books.update {owner : Nat → Device} {s s' : State} (h : Books owner s) (d₀ : Device)
    (k₀ : Bool) (device : ∀ d, d ≠ d₀ → s'.deviceStats d = s.deviceStats d)
    (kind : (s'.deviceStats d₀).traffic (!k₀) = (s.deviceStats d₀).traffic (!k₀))
    (opened : ∀ d k, (d ≠ d₀ ∨ k ≠ k₀) → openStarted s' d k = openStarted s d k)
    (traffic : TrafficOk ((s'.deviceStats d₀).traffic k₀) (openStarted s' d₀ k₀))
    (channels : channelBytes (s'.deviceStats d₀).perChannel =
      (s'.deviceStats d₀).memory.bytes + (s'.deviceStats d₀).compute.bytes)
    (records : ∀ e ∈ s'.requests.entries, RecordOk owner e)
    (rows : (s'.deviceStats d₀).perChannel.length < 2 ^ 32) : Books owner s' where
  traffic := by
    intro d k
    by_cases hd : d = d₀
    · subst hd
      by_cases hk : k = k₀
      · subst hk
        exact traffic
      · have hk' : k = !k₀ := by cases k <;> cases k₀ <;> simp_all
        rw [opened d k (.inr hk), hk', kind]
        exact h.traffic d _
    · rw [opened d k (.inl hd), device d hd]
      exact h.traffic d k
  channels := by
    intro d
    by_cases hd : d = d₀
    · rw [hd, channels]
    · rw [device d hd]
      exact h.channels d
  records := records
  rows := by
    intro d
    by_cases hd : d = d₀
    · rw [hd]
      exact rows
    · rw [device d hd]
      exact h.rows d

/-- A record outside the counted device or kind does not count. -/
theorem counts_other {d d₀ : Device} {k k₀ : Bool} {r : Request} (hd : r.device = d₀)
    (hk : r.pimCompute = k₀) (h : d ≠ d₀ ∨ k ≠ k₀) : counts d k r = false := by
  rcases h with h | h
  · simp [counts, hd, Ne.symm h]
  · simp [counts, hk, Ne.symm h]

theorem requestArrived_books {owner : Nat → Device} {s : State} (h : Books owner s) (t : Payload)
    (bytes : UInt64) (k : Bool) (now : Time) :
    Books owner (requestArrived s (owner t.ptr) t bytes k now) := by
  unfold requestArrived
  split
  · exact h
  split
  · exact h
  · rename_i hnone
    have hnot : t.ptr ∉ s.requests := by simpa [AList.lookup_isSome] using hnone
    refine ⟨⟨fun d k' => ?_, fun d => ?_⟩, fun e he => ?_, fun d => ?_⟩
    · have hold := h.traffic d k'
      rw [openStarted_eq] at hold ⊢
      simp only [setRequests_requests, AList.entries_insert_of_notMem hnot, List.countP_cons,
        deviceStats_setRequests]
      simpa [counts] using hold
    · simpa using h.channels d
    · simp only [setRequests_requests, AList.entries_insert_of_notMem hnot, List.mem_cons] at he
      rcases he with rfl | he
      · exact ⟨rfl, toNs_nonneg now⟩
      · exact h.records e he
    · simpa using h.rows d

theorem requestStarted_books {owner : Nat → Device} {s : State} (h : Books owner s) (t : Payload)
    (start : Time) (channel : Int) :
    Books owner (requestStarted s (owner t.ptr) t start channel) := by
  unfold requestStarted
  cases hl : s.requests.lookup t.ptr with
  | none => exact h
  | some r =>
    have hr : RecordOk owner ⟨t.ptr, r⟩ := h.records _ (AList.mem_lookup_iff.mp hl)
    have hdev : r.device = owner t.ptr := hr.device
    have harr : 0 ≤ r.arrivalNs := hr.arrival
    simp only
    split
    · exact h
    · rename_i hcond
      have hneg : ¬ 0 ≤ r.startNs := (not_or.mp hcond).2
      have hstart : 0 ≤ max r.arrivalNs (toNs start) := le_trans harr (le_max_left _ _)
      have hnow : counts (owner t.ptr) r.pimCompute r = false := by simp [counts, hneg]
      apply h.update (owner t.ptr) r.pimCompute
      · intro d hd
        simp [hd]
      · simp
      · intro d k hdk
        rw [openStarted_lookup hl, openStarted_eq]
        simp only [setRequests_requests, insert_entries, List.countP_cons]
        have hafter : counts d k { r with
            startNs := max r.arrivalNs (toNs start), channel := channel } = false :=
          counts_other hdev rfl hdk
        rw [hafter, counts_other hdev rfl hdk]
      · have hold := h.traffic (owner t.ptr) r.pimCompute
        rw [openStarted_lookup hl, hnow] at hold
        rw [openStarted_eq]
        simp only [setRequests_requests, insert_entries, List.countP_cons, deviceStats_setRequests,
          deviceStats_setDevice, traffic_setTraffic, if_true]
        rw [if_pos (by simp [counts, hdev, hstart])]
        exact hold.wait_sample _
      · have := h.channels (owner t.ptr)
        cases hk : r.pimCompute <;>
          simpa [hk, DeviceStats.setTraffic, DeviceStats.traffic, TrafficStats.wait] using this
      · intro e he
        simp only [setRequests_requests, insert_entries, List.mem_cons] at he
        rcases he with rfl | he
        · exact ⟨hdev, harr⟩
        · exact h.records e (erase_entries_subset _ _ _ he)
      · simpa using h.rows (owner t.ptr)

/-- Dropping a record that does not count changes no count. -/
theorem erase_books {owner : Nat → Device} {s : State} (h : Books owner s) {ptr : Nat} {r : Request}
    (hl : s.requests.lookup ptr = some r) (hr : r.startNs < 0) :
    Books owner (s.setRequests (s.requests.erase ptr)) := by
  refine ⟨⟨fun d k => ?_, fun d => ?_⟩, fun e he => ?_, fun d => ?_⟩
  · have hold := h.traffic d k
    rw [openStarted_lookup hl, show counts d k r = false by simp [counts, not_le.mpr hr]] at hold
    simpa [openStarted_eq] using hold
  · simpa using h.channels d
  · exact h.records e (erase_entries_subset _ _ _ he)
  · simpa using h.rows d

theorem requestCompleted_books {owner : Nat → Device} {s : State} (h : Books owner s) (t : Payload)
    (finish : Time) : Books owner (requestCompleted s (owner t.ptr) t finish) := by
  unfold requestCompleted
  cases hl : s.requests.lookup t.ptr with
  | none => exact h
  | some r =>
    have hdev : r.device = owner t.ptr := (h.records _ (AList.mem_lookup_iff.mp hl)).device
    simp only
    split
    · rename_i hcond
      exact erase_books h hl (hcond.resolve_left (fun hne => hne hdev))
    · rename_i hcond
      have hstart : 0 ≤ r.startNs := not_lt.mp (not_or.mp hcond).2
      -- the optional compute timeline touches neither the table nor a device
      suffices hmain : ∀ s' : State,
          s'.requests = s.requests.erase t.ptr →
          (∀ d, s'.deviceStats d = if d = owner t.ptr then
            addChannelService ((s.deviceStats (owner t.ptr)).setTraffic r.pimCompute
              (((s.deviceStats (owner t.ptr)).traffic r.pimCompute).serve r.bytes
                ⟨r.startNs, max r.startNs (toNs finish)⟩)) r
              ⟨r.startNs, max r.startNs (toNs finish)⟩ else s.deviceStats d) →
          Books owner s' by
        split
        · exact hmain _ (by simp) (by intro d; simp)
        · exact hmain _ (by simp) (by intro d; simp)
      intro s' hreq hstats
      have hopen : ∀ d k, openStarted s' d k =
          (s.requests.erase t.ptr).entries.countP (fun e => counts d k e.2) := by
        intro d k
        rw [openStarted_eq, hreq]
      apply h.update (owner t.ptr) r.pimCompute
      · intro d hd
        rw [hstats, if_neg hd]
      · rw [hstats, if_pos rfl]
        simp
      · intro d k hdk
        rw [hopen, openStarted_lookup hl, counts_other hdev rfl hdk]
        simp
      · have hold := h.traffic (owner t.ptr) r.pimCompute
        rw [openStarted_lookup hl, if_pos (by simp [counts, hdev, hstart])] at hold
        rw [hopen, hstats, if_pos rfl, addChannelService_traffic, traffic_setTraffic, if_pos rfl]
        exact hold.serve_interval _ _ (le_max_left _ _)
      · have hold := h.channels (owner t.ptr)
        have hrows := h.rows (owner t.ptr)
        rw [hstats, if_pos rfl, addChannelService_bytes _ _ _ (by simpa using hrows),
          setTraffic_perChannel, hold]
        cases hk : r.pimCompute <;>
          simp [DeviceStats.setTraffic, DeviceStats.traffic, TrafficStats.serve, addChannelService] <;>
          grind
      · intro e he
        rw [hreq] at he
        exact h.records e (erase_entries_subset _ _ _ he)
      · rw [hstats, if_pos rfl]
        exact addChannelService_rows _ _ _ (by simpa using h.rows (owner t.ptr))

/-- The device a call names is the one that serves its payload. -/
def Call.names (owner : Nat → Device) : Call → Prop
  | .arrived d t _ _ _ => d = owner t.ptr
  | .started d t _ _ => d = owner t.ptr
  | .completed d t _ => d = owner t.ptr
  | _ => True

theorem Books.of_view {owner : Nat → Device} {s s' : State} (h : Books owner s)
    (hreq : s'.requests = s.requests) (hstats : ∀ d, s'.deviceStats d = s.deviceStats d) :
    Books owner s' := by
  refine ⟨⟨fun d k => ?_, fun d => ?_⟩, fun e he => ?_, fun d => ?_⟩
  · rw [hstats, openStarted_eq, hreq]
    exact h.traffic d k
  · rw [hstats]
    exact h.channels d
  · rw [hreq] at he
    exact h.records e he
  · rw [hstats]
    exact h.rows d

theorem completeEpisode_view (set : ParallelEpisode → Int → ParallelEpisode) (s : State)
    (id : String) (finish : Time) :
    (completeEpisode set s id finish).requests = s.requests ∧
      ∀ d, (completeEpisode set s id finish).deviceStats d = s.deviceStats d := by
  unfold completeEpisode
  cases s.parallelEpisodeIndex.lookup id with
  | none => exact ⟨rfl, fun _ => rfl⟩
  | some index => exact ⟨rfl, fun d => by cases d <;> rfl⟩

/-- The hooks of the request table. -/
def Call.isRequest : Call → Bool
  | .arrived .. => true
  | .started .. => true
  | .completed .. => true
  | _ => false

/-- A call outside the request hooks leaves table and devices alone. -/
theorem apply_aside (s : State) {c : Call} (h : c.isRequest = false) :
    (apply s c).requests = s.requests ∧ ∀ d, (apply s c).deviceStats d = s.deviceStats d := by
  cases c with
  | arrived d t bytes k now => simp [Call.isRequest] at h
  | started d t start channel => simp [Call.isRequest] at h
  | completed d t finish => simp [Call.isRequest] at h
  | stall start finish draft =>
    simp only [apply, recordPimResourceStall]
    split
    · exact ⟨rfl, fun _ => rfl⟩
    · split <;> exact ⟨rfl, fun d => by cases d <;> rfl⟩
  | npuInterval start finish =>
    simp only [apply, recordNpuInterval]
    split <;> exact ⟨rfl, fun d => by cases d <;> rfl⟩
  | npuComputeInterval start finish =>
    simp only [apply, recordNpuComputeInterval]
    split <;> exact ⟨rfl, fun d => by cases d <;> rfl⟩
  | beginEpisode id launch =>
    simp only [apply, beginParallelEpisode]
    split <;> exact ⟨rfl, fun d => by cases d <;> rfl⟩
  | npuEpisode id finish => exact completeEpisode_view _ s id finish
  | pimEpisode id finish => exact completeEpisode_view _ s id finish

theorem apply_books {owner : Nat → Device} {s : State} (h : Books owner s) (c : Call)
    (hc : c.names owner) : Books owner (apply s c) := by
  by_cases hreq : c.isRequest = false
  · exact h.of_view (apply_aside s hreq).1 (apply_aside s hreq).2
  · cases c with
    | arrived d t bytes k now =>
      cases hc
      exact requestArrived_books h t bytes k now
    | started d t start channel =>
      cases hc
      exact requestStarted_books h t start channel
    | completed d t finish =>
      cases hc
      exact requestCompleted_books h t finish
    | _ => exact absurd rfl hreq

theorem applyAll_books {owner : Nat → Device} (calls : List Call) {s : State} (h : Books owner s)
    (hcalls : ∀ c ∈ calls, c.names owner) : Books owner (applyAll s calls) := by
  induction calls generalizing s with
  | nil => exact h
  | cons c calls ih =>
    exact ih (apply_books h c (hcalls c (List.mem_cons_self ..)))
      (fun c' hc' => hcalls c' (List.mem_cons_of_mem c hc'))

/-! ### From configuration to the end of a run -/

/-- The ledger after the wrappers' constructors have configured their devices. -/
def configured (setup : List (Device × UInt32 × String)) : State :=
  setup.foldl (fun s c => configure s c.1 c.2.1 c.2.2) {}

/-- Nothing recorded yet: only rows of zeros. -/
structure Blank (s : State) : Prop where
  requests : s.requests = ∅
  traffic : ∀ d k, (s.deviceStats d).traffic k = {}
  rows : ∀ d, ∃ n, n < 2 ^ 32 ∧ (s.deviceStats d).perChannel = List.replicate n {}

theorem configure_blank {s : State} (h : Blank s) (device : Device) (channels : UInt32)
    (mode : String) : Blank (configure s device channels mode) := by
  refine ⟨by simp [configure, h.requests], fun d k => ?_, fun d => ?_⟩
  · unfold configure
    rw [deviceStats_setDevice]
    split
    · rename_i hd
      subst hd
      exact h.traffic d k
    · exact h.traffic d k
  · unfold configure
    rw [deviceStats_setDevice]
    split
    · obtain ⟨n, _, hrows⟩ := h.rows device
      refine ⟨(max 1 channels).toNat, (max_one_bounds channels).2, ?_⟩
      simp only [resize, hrows, List.take_replicate, List.length_replicate, List.replicate_append_replicate]
      congr 1
      omega
    · exact h.rows d

theorem configured_blank (setup : List (Device × UInt32 × String)) : Blank (configured setup) := by
  have h0 : Blank {} := ⟨rfl, fun d k => by cases d <;> cases k <;> rfl,
    fun d => ⟨0, by decide, by cases d <;> rfl⟩⟩
  unfold configured
  induction setup using List.reverseRecOn with
  | nil => exact h0
  | append_singleton setup c ih =>
    rw [List.foldl_append]
    exact configure_blank ih _ _ _

theorem Blank.books {s : State} (h : Blank s) (owner : Nat → Device) : Books owner s := by
  have hbytes : ∀ d, (s.deviceStats d).memory.bytes + (s.deviceStats d).compute.bytes = 0 := by
    intro d
    have hm := h.traffic d false
    have hc := h.traffic d true
    simp only [DeviceStats.traffic, if_true, Bool.false_eq_true, if_false] at hm hc
    rw [hm, hc]
    rfl
  refine ⟨⟨fun d k => ?_, fun d => ?_⟩, fun e he => ?_, fun d => ?_⟩
  · rw [h.traffic d k, openStarted_eq, h.requests]
    exact ⟨rfl, rfl, by simp, .inr ⟨rfl, rfl⟩, rfl, by simp⟩
  · obtain ⟨n, _, hrows⟩ := h.rows d
    rw [hrows, channelBytes_zeros, hbytes]
  · rw [h.requests] at he
    simp at he
  · obtain ⟨n, hn, hrows⟩ := h.rows d
    rw [hrows, List.length_replicate]
    exact hn

/-- **The ledger balances** after any sequence of calls in which every payload is
reported by one device. -/
theorem ledger_balances (setup : List (Device × UInt32 × String)) (owner : Nat → Device)
    (calls : List Call) (hcalls : ∀ c ∈ calls, c.names owner) :
    Ledger (applyAll (configured setup) calls) :=
  (applyAll_books calls ((configured_blank setup).books owner) hcalls).toLedger

/-- A run with a duplicate arrival, a completion without a start, a transfer over all
three channels and one that names a channel that does not exist. -/
theorem ledger_balances_mixed :
    let a : Payload := {ptr := 1, command := .read, srcId := .npu, dstId := .dram}
    let b : Payload := {ptr := 3, command := .write, srcId := .npu, dstId := .dram}
    Ledger (applyAll (configured [(.dram, 3, "physical_address_mapped")])
      [.arrived .dram a 100 false 0, .arrived .dram a 7 false 0, .completed .dram b 0,
        .started .dram a 2000 kAllChannels, .completed .dram a 5000,
        .arrived .dram b 64 false 5000, .started .dram b 5000 9]) :=
  ledger_balances _ (fun _ => .dram) _ (by simp [Call.names])

/-! ### The life of one request

What the three hooks do to the record of a payload and to the service intervals,
for a component that calls them in order. -/

def State.intervals (s : State) (d : Device) (k : Bool) : List Interval :=
  ((s.deviceStats d).traffic k).serviceIntervals

theorem requestArrived_fresh {s : State} {d : Device} {t : Payload} (bytes : UInt64) (k : Bool)
    (now : Time) (hptr : t.ptr ≠ 0) (hl : s.requests.lookup t.ptr = none) :
    (requestArrived s d t bytes k now).requests =
        s.requests.insert t.ptr {device := d, bytes := bytes, pimCompute := k, arrivalNs := toNs now} ∧
      ∀ d' k', (requestArrived s d t bytes k now).intervals d' k' = s.intervals d' k' := by
  unfold requestArrived
  rw [if_neg hptr, hl]
  exact ⟨rfl, fun d' k' => by simp [State.intervals]⟩

theorem requestStarted_open {s : State} {d : Device} {t : Payload} {r : Request} (start : Time)
    (channel : Int) (hl : s.requests.lookup t.ptr = some r) (hd : r.device = d)
    (hr : r.startNs < 0) :
    (requestStarted s d t start channel).requests = s.requests.insert t.ptr
        {r with startNs := max r.arrivalNs (toNs start), channel := channel} ∧
      ∀ d' k', (requestStarted s d t start channel).intervals d' k' = s.intervals d' k' := by
  unfold requestStarted
  rw [hl]
  dsimp only
  rw [if_neg (by simp [hd, hr])]
  refine ⟨rfl, fun d' k' => ?_⟩
  simp only [State.intervals, deviceStats_setRequests, deviceStats_setDevice]
  split
  · rename_i hd'
    rw [hd', traffic_setTraffic]
    split
    · rename_i hk
      rw [hk]
      rfl
    · rfl
  · rfl

theorem requestCompleted_started {s : State} {d : Device} {t : Payload} {r : Request}
    (finish : Time) (hl : s.requests.lookup t.ptr = some r) (hd : r.device = d)
    (hr : 0 ≤ r.startNs) :
    (requestCompleted s d t finish).requests = s.requests.erase t.ptr ∧
      ∀ d' k', (requestCompleted s d t finish).intervals d' k' =
        if d' = d ∧ k' = r.pimCompute then
          s.intervals d' k' ++ [⟨r.startNs, max r.startNs (toNs finish)⟩]
        else s.intervals d' k' := by
  unfold requestCompleted
  rw [hl]
  dsimp only
  rw [if_neg (by simp [hd, hr])]
  have hview : ∀ s' : State, ∀ d' k', (s'.recordPimCompute t
      ⟨r.startNs, max r.startNs (toNs finish)⟩).intervals d' k' = s'.intervals d' k' := by
    intro s' d' k'
    simp [State.intervals]
  refine ⟨by split <;> simp, fun d' k' => ?_⟩
  rw [apply_ite (fun s' : State => s'.intervals d' k'), hview, ite_self]
  simp only [State.intervals, deviceStats_setRequests, deviceStats_setDevice]
  by_cases hd' : d' = d
  · subst hd'
    by_cases hk : k' = r.pimCompute
    · simp [hk, TrafficStats.serve]
    · simp [hk]
  · simp [hd']

end Hsim.Metrics
