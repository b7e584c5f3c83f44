import Hsim.DramMacroModel
import Hsim.NpuIssue

/-! One call of `issue_memory`.

The loop splits a byte count into requests of the DRAM's size, and waits whenever
its window is full and at the end for the last responses. What it sends is fixed
by the byte count: responses only say when. The burst size is rounded up in a sum
of 32 bits; where that sum overflows, the call returns without a request. -/
namespace Hsim.NpuTraceReplayer

/-! ### The requests of a byte count -/

section
variable (cfg : Config)

/-- The byte count in requests, rounded up. -/
def Config.requestCount (bytes : Nat) : Nat :=
  (bytes + cfg.requestBytes.toNat - 1) / cfg.requestBytes.toNat

theorem requestCount_zero : cfg.requestCount 0 = 0 := by
  have hpos := requestBytes_pos cfg
  rw [Config.requestCount, Nat.div_eq_zero_iff]
  omega

/-- A turn of the loop takes one request off. -/
theorem requestCount_turn {remaining : Nat} (h : 0 < remaining) :
    cfg.requestCount remaining =
      cfg.requestCount (remaining - min remaining cfg.requestBytes.toNat) + 1 := by
  have hpos := requestBytes_pos cfg
  unfold Config.requestCount
  generalize cfg.requestBytes.toNat = size at hpos
  rcases Nat.le_total size remaining with hle | hle
  · rw [min_eq_right hle, ← Nat.add_div_right _ (by omega)]
    congr 1
    omega
  · rw [min_eq_left hle, Nat.sub_self, Nat.zero_add, Nat.div_eq_of_lt (show size - 1 < size by omega)]
    refine Nat.div_eq_of_lt_le ?_ ?_ <;> omega

/-- Each request begins inside the byte count. -/
theorem index_lt {bytes i : Nat} (hi : i < cfg.requestCount bytes) :
    i * cfg.requestBytes.toNat < bytes := by
  have hpos := requestBytes_pos cfg
  rw [Config.requestCount, Nat.lt_div_iff_mul_lt (by omega)] at hi
  have hcomm := Nat.mul_comm i cfg.requestBytes.toNat
  omega

/-- The requests one by one. -/
theorem splitRequests_eq (command : Command) (layer : String) (burstSize : UInt32) (turns : Nat)
    (remaining burstId : UInt32) (h : remaining.toNat ≤ turns) :
    cfg.splitRequests command layer burstSize turns remaining burstId =
      (List.range (cfg.requestCount remaining.toNat)).map fun i =>
        cfg.request command layer
          (.ofNat (min (remaining.toNat - i * cfg.requestBytes.toNat) cfg.requestBytes.toNat))
          (burstId + .ofNat i) burstSize "" := by
  induction turns generalizing remaining burstId with
  | zero =>
    rw [Nat.le_zero.mp h, requestCount_zero]
    rfl
  | succ turns ih =>
    rw [Config.splitRequests]
    split
    · next hzero =>
      rw [hzero, UInt32.toNat_zero, requestCount_zero]
      rfl
    · next hne =>
      have hpos : 0 < remaining.toNat := Lib.toNat_pos hne
      have hsize := requestBytes_pos cfg
      have hsub : (remaining - min remaining cfg.requestBytes).toNat =
          remaining.toNat - min remaining.toNat cfg.requestBytes.toNat := by
        rw [UInt32.toNat_sub_of_le, Lib.toNat_min]
        rw [UInt32.le_iff_toNat_le, Lib.toNat_min]
        exact min_le_left _ _
      have htail := ih (remaining - min remaining cfg.requestBytes) (burstId + 1) (by omega)
      dsimp only
      rw [htail, hsub, requestCount_turn cfg hpos, List.range_succ_eq_map, List.map_cons, List.map_map]
      congr 1
      · rw [Nat.zero_mul, Nat.sub_zero, ← Lib.toNat_min, UInt32.ofNat_toNat]
        simp
      · refine List.map_congr_left fun i _ => ?_
        have hleft : remaining.toNat - min remaining.toNat cfg.requestBytes.toNat -
            i * cfg.requestBytes.toNat = remaining.toNat - (i + 1) * cfg.requestBytes.toNat := by
          rw [Nat.succ_mul]
          omega
        have hid : burstId + 1 + UInt32.ofNat i = burstId + UInt32.ofNat (i + 1) := by
          rw [UInt32.ofNat_add, UInt32.add_assoc, UInt32.add_comm 1]
          rfl
        rw [Function.comp_apply, hleft, hid]

/-- The rounded sum overflows, or the burst size is the number of requests. -/
theorem toNat_burstSize {bytes : UInt32} (h : bytes.toNat + cfg.requestBytes.toNat ≤ 2 ^ 32) :
    ((bytes + cfg.requestBytes - 1) / cfg.requestBytes).toNat = cfg.requestCount bytes.toNat :=
  Lib.toNat_ceilDiv (requestBytes_pos cfg) h

end

/-! ### What a call owes -/

/-- The requests of a byte count, from an address on. -/
structure Config.Covers (cfg : Config) (m : DramMacroModel) (bytes : UInt32) (address : UInt64)
    (sent : List Payload) : Prop where
  count : sent.length = cfg.requestCount bytes.toNat
  charged : sent.length = (m.requests bytes.toUInt64).toNat
  lengths : ∀ t ∈ sent, 1 ≤ t.dataLength.toNat ∧ t.dataLength.toNat ≤ cfg.requestBytes.toNat
  total : (sent.map fun t => t.dataLength.toNat).sum = bytes.toNat
  burst : ∀ (i : Nat) (t : Payload), sent[i]? = some t → t.bstId.toNat = i ∧ t.bstSize.toNat = sent.length
  placed : ∀ (i : Nat) (t : Payload), sent[i]? = some t →
    t.address = address + .ofNat (i * cfg.requestBytes.toNat)
  /-- No byte of the address space belongs to two requests. -/
  apart : sent.Pairwise fun t u => ∀ a < t.dataLength.toNat, ∀ b < u.dataLength.toNat,
    t.address + .ofNat a ≠ u.address + .ofNat b

section
variable (cfg : Config)

theorem numbered_getElem? (hmode : cfg.profile.fastLayerMode = false) (stage : Nat)
    (bodies : List Payload) (n : Nat) (address : UInt64) (i : Nat) :
    (cfg.numbered stage bodies n address)[i]? = bodies[i]?.map fun body => {body with
      ptr := cfg.allocate (n + i)
      address := address + .ofNat (i * cfg.requestBytes.toNat)
      stage := stage} := by
  induction bodies generalizing n address i with
  | nil => rfl
  | cons body bodies ih =>
    cases i with
    | zero => simp [Config.numbered]
    | succ i =>
      have hreserved : cfg.reserved body = .ofNat cfg.requestBytes.toNat := by
        simp [Config.reserved, hmode]
      have haddress : address + cfg.reserved body + .ofNat (i * cfg.requestBytes.toNat) =
          address + .ofNat ((i + 1) * cfg.requestBytes.toNat) := by
        rw [hreserved, Nat.succ_mul, UInt64.ofNat_add, UInt64.add_assoc,
          UInt64.add_comm (.ofNat cfg.requestBytes.toNat)]
      rw [Config.numbered, List.getElem?_cons_succ, List.getElem?_cons_succ, ih, haddress,
        Nat.add_right_comm, Nat.add_assoc]

theorem numbered_map_dataLength (stage : Nat) (bodies : List Payload) (n : Nat) (address : UInt64) :
    (cfg.numbered stage bodies n address).map (fun t => t.dataLength.toNat) =
      bodies.map fun t => t.dataLength.toNat := by
  induction bodies generalizing n address with
  | nil => rfl
  | cons body bodies ih => rw [Config.numbered, List.map_cons, List.map_cons, ih]

variable {cfg} {bytes : UInt32} (hfits : bytes.toNat + cfg.requestBytes.toNat ≤ 2 ^ 32)
include hfits

/-- The requests a call makes when the rounded sum does not overflow. -/
theorem issueMemory_eq (command : Command) (layer : String) :
    ∃ burstSize : UInt32, burstSize.toNat = cfg.requestCount bytes.toNat ∧
      cfg.issueMemory command bytes layer =
        (List.range (cfg.requestCount bytes.toNat)).map fun i => cfg.request command layer
          (.ofNat (min (bytes.toNat - i * cfg.requestBytes.toNat) cfg.requestBytes.toNat))
          (.ofNat i) burstSize "" := by
  refine ⟨_, toNat_burstSize cfg hfits, ?_⟩
  rw [Config.issueMemory]
  split
  · next hzero =>
    have hnone := toNat_burstSize cfg hfits
    rw [hzero, UInt32.toNat_zero] at hnone
    rw [← hnone]
    rfl
  · rw [splitRequests_eq cfg _ _ _ _ _ _ le_rfl]
    simp only [UInt32.zero_add]

/-- **The requests of a call cover its bytes.** -/
theorem issueMemory_covers (hmode : cfg.profile.fastLayerMode = false) {m : DramMacroModel}
    (hm : m.requestBytes = cfg.requestBytes) (command : Command) (layer : String) (stage n : Nat)
    (address : UInt64) :
    cfg.Covers m bytes address (cfg.numbered stage (cfg.issueMemory command bytes layer) n address) := by
  obtain ⟨burstSize, hburst, hissue⟩ := issueMemory_eq hfits command layer
  have hsize := requestBytes_pos cfg
  have hlength : (cfg.numbered stage (cfg.issueMemory command bytes layer) n address).length =
      cfg.requestCount bytes.toNat := by
    rw [numbered_length, hissue, List.length_map, List.length_range]
  -- the i-th request
  have hat : ∀ (i : Nat) (t : Payload),
      (cfg.numbered stage (cfg.issueMemory command bytes layer) n address)[i]? = some t →
      i < cfg.requestCount bytes.toNat ∧ t.bstId.toNat = i ∧ t.bstSize = burstSize ∧
        t.dataLength.toNat = min (bytes.toNat - i * cfg.requestBytes.toNat) cfg.requestBytes.toNat ∧
        t.address = address + .ofNat (i * cfg.requestBytes.toNat) := by
    intro i t ht
    have hi : i < cfg.requestCount bytes.toNat := by
      rw [← hlength]
      exact (List.getElem?_eq_some_iff.mp ht).1
    rw [numbered_getElem? cfg hmode, hissue, List.getElem?_map, List.getElem?_range hi] at ht
    cases ht
    have hbelow := index_lt cfg hi
    have hbytes := bytes.toNat_lt
    have hmul : i ≤ i * cfg.requestBytes.toNat := Nat.le_mul_of_pos_right i hsize
    refine ⟨hi, ?_, rfl, ?_, rfl⟩
    · exact UInt32.toNat_ofNat_of_lt' (show i < 2 ^ 32 by omega)
    · exact UInt32.toNat_ofNat_of_lt' (show min _ _ < 2 ^ 32 by omega)
  refine ⟨hlength, ?_, fun t ht => ?_, ?_, fun i t ht => ?_, fun i t ht => (hat i t ht).2.2.2.2, ?_⟩
  · rw [hlength, Config.requestCount, m.toNat_requests, hm]
    · rfl
    · rw [hm]
      show bytes.toUInt64.toNat + _ ≤ _
      rw [UInt32.toNat_toUInt64]
      omega
  · obtain ⟨i, hi, rfl⟩ := List.getElem_of_mem ht
    obtain ⟨hlt, -, -, hdata, -⟩ := hat i _ (List.getElem?_eq_getElem hi)
    have hbelow := index_lt cfg hlt
    omega
  · have hmoved := issueMemory_moved cfg command bytes layer
    rw [if_pos hfits, movedBytes, hissue, List.map_map] at hmoved
    rw [numbered_map_dataLength, hissue, List.map_map]
    refine Eq.trans ?_ hmoved
    rfl
  · obtain ⟨-, hid, hbst, -, -⟩ := hat i t ht
    exact ⟨hid, by rw [hbst, hburst, hlength]⟩
  · rw [List.pairwise_iff_getElem]
    intro i j hi hj hij a ha b hb heq
    obtain ⟨-, -, -, hdata, haddress⟩ := hat i _ (List.getElem?_eq_getElem hi)
    obtain ⟨hlt, -, -, hdata', haddress'⟩ := hat j _ (List.getElem?_eq_getElem hj)
    rw [haddress, haddress', UInt64.add_assoc, UInt64.add_assoc, ← UInt64.ofNat_add,
      ← UInt64.ofNat_add] at heq
    have hsame := congrArg UInt64.toNat ((UInt64.add_right_inj _).mp heq)
    have hbelow := index_lt cfg hlt
    have hbytes := bytes.toNat_lt
    have hstep : (i + 1) * cfg.requestBytes.toNat ≤ j * cfg.requestBytes.toNat :=
      Nat.mul_le_mul_right _ hij
    rw [Nat.succ_mul] at hstep
    rw [UInt64.toNat_ofNat_of_lt' (show _ < 2 ^ 64 by omega),
      UInt64.toNat_ofNat_of_lt' (show _ < 2 ^ 64 by omega)] at hsame
    omega

end

/-! ### The run of a call -/

/-- A call under way: the thread, the requests it has sent and those not answered yet. -/
structure Call where
  npu : State
  sent : List Payload := []
  outstanding : List Payload := []

namespace Call

/-- An activation of the thread. -/
def act (c : Call) (r : State × List Effect) : Call where
  npu := r.1
  sent := c.sent ++ requestsOf r.2
  outstanding := c.outstanding ++ requestsOf r.2

/-- A transfer of that many bytes, the only one the thread has to make, up to its first
wait. -/
def start (cfg : Config) (command : Command) (bytes : UInt32) (layer : String) (now : Time) (s : State) :
    Call :=
  act {npu := s} (advance cfg now [.transfer 0 .weight command bytes.toUInt64 layer
    (cfg.issueMemory command bytes layer)] s)

/-- A response to any of the outstanding requests, or the event of an earlier one. -/
inductive Step (cfg : Config) (c : Call) : Call → Prop where
  | respond (before after : List Payload) (t : Payload) : c.outstanding = before ++ t :: after →
    Step cfg c {c with
      npu := (peqBwCb t c.npu).1
      outstanding := before ++ after}
  | wake (now : Time) : c.npu.responseEvent = true → Step cfg c (c.act (onResponse cfg now c.npu))

abbrev Reachable (cfg : Config) (first : Call) : Call → Prop := Lib.Reach (· = first) (Step cfg)

/-- The call has returned. -/
def Returned (c : Call) : Prop := c.npu.thread = .waitStart

end Call

/-- The call makes the requests of its byte count, whatever the responses' order: it comes
to an end, not before, and then has sent them and has every response. -/
structure Config.IssuesExactly (cfg : Config) (m : DramMacroModel) (bytes : UInt32) (address : UInt64)
    (first : Call) : Prop where
  finite : ∀ run : Nat → Call, run 0 = first → ¬ ∀ i, (run i).Step cfg (run (i + 1))
  ends : ∀ c, Call.Reachable cfg first c → (∀ c', ¬ c.Step cfg c') → c.Returned
  covers : ∀ c, Call.Reachable cfg first c → c.Returned →
    c.outstanding = [] ∧ cfg.Covers m bytes address c.sent

/-- The account of a call: the bodies sent so far, and those left. -/
structure Call.Account (cfg : Config) (s : State) (bodies unsent : List Payload) (c : Call) : Prop where
  sent : c.sent = cfg.numbered s.stage bodies s.issued s.nextAddress
  stage : c.npu.stage = s.stage
  issued : c.npu.issued = s.issued + bodies.length
  nextAddress : c.npu.nextAddress = s.nextAddress + (bodies.map cfg.reserved).sum
  pending : c.npu.pendingResponses.toNat = c.outstanding.length
  room : c.outstanding.length + unsent.length < 2 ^ 32

/-- Where the thread is: it waits, and something will wake it, or it has returned. -/
def Call.At (unsent : List Payload) (c : Call) : Prop :=
  (c.npu.thread = .throttled unsent [] ∨ unsent = [] ∧ c.npu.thread = .draining []) ∧
      (c.npu.responseEvent = true ∨ c.outstanding ≠ []) ∨
    unsent = [] ∧ c.npu.thread = .waitStart ∧ c.outstanding = []

theorem numbered_append_singleton (cfg : Config) (stage : Nat) (bodies : List Payload) (body : Payload)
    (n : Nat) (address : UInt64) :
    cfg.numbered stage (bodies ++ [body]) n address =
      cfg.numbered stage bodies n address ++ [{body with
        ptr := cfg.allocate (n + bodies.length)
        address := address + (bodies.map cfg.reserved).sum
        stage := stage}] := by
  induction bodies generalizing n address with
  | nil => simp [Config.numbered]
  | cons b bodies ih =>
    rw [List.cons_append, Config.numbered, Config.numbered, ih, List.cons_append, List.length_cons,
      List.map_cons, List.sum_cons, ← UInt64.add_assoc, Nat.add_right_comm n 1, Nat.add_assoc n]

/-- One more request. -/
def Call.send (cfg : Config) (body : Payload) (c : Call) : Call where
  npu := (NpuTraceReplayer.send cfg body c.npu).1
  sent := c.sent ++ [(NpuTraceReplayer.send cfg body c.npu).2]
  outstanding := c.outstanding ++ [(NpuTraceReplayer.send cfg body c.npu).2]

/-- The thread stops. -/
def Call.stop (thread : Thread) (c : Call) : Call := {c with npu := {c.npu with thread := thread}}

/-- The rest of the call's requests and, at the end, its return. -/
def Call.issue (cfg : Config) (now : Time) (unsent : List Payload) (c : Call) : Call :=
  c.act (NpuTraceReplayer.issue cfg [] (advance cfg now []) unsent c.npu)

/-- The triggered event, before the thread goes on. -/
def Call.woken (c : Call) : Call := {c with npu := {c.npu with responseEvent := false}}

section
variable (cfg : Config) (now : Time) (c : Call)

theorem Call.act_stop (thread : Thread) : c.act ({c.npu with thread := thread}, []) = c.stop thread := by
  simp [Call.act, Call.stop, requestsOf]

theorem Call.issue_nil :
    c.issue cfg now [] = c.stop (if c.npu.pendingResponses = 0 then .waitStart else .draining []) := by
  rw [Call.issue, NpuTraceReplayer.issue]
  by_cases hzero : c.npu.pendingResponses = 0
  · simp only [hzero, if_true]
    exact c.act_stop .waitStart
  · simp only [hzero, if_false]
    exact c.act_stop (.draining [])

theorem Call.issue_cons (body : Payload) (unsent : List Payload) :
    c.issue cfg now (body :: unsent) =
      if cfg.windowFull (c.send cfg body).npu then (c.send cfg body).stop (.throttled unsent [])
      else (c.send cfg body).issue cfg now unsent := by
  rw [Call.issue, NpuTraceReplayer.issue]
  dsimp only
  show c.act (if cfg.windowFull (c.send cfg body).npu = true then _ else _) = _
  split
  · rfl
  · simp [Call.act, Call.issue, Call.send, requestsOf]

theorem Call.wake_throttled {unsent : List Payload} (h : c.npu.thread = .throttled unsent []) :
    c.act (onResponse cfg now c.npu) = c.woken.issue cfg now unsent := by
  unfold onResponse
  dsimp only
  split
  · next requests rest hthread =>
    cases h.symm.trans hthread
    rfl
  · next hthread => cases h.symm.trans hthread
  · next hthread _ => exact absurd h (hthread _ _)

/-- The thread looks at the count again, as it does at the end of the loop. -/
theorem Call.wake_draining (h : c.npu.thread = .draining []) :
    c.act (onResponse cfg now c.npu) = c.woken.issue cfg now [] := by
  rw [Call.issue_nil]
  unfold onResponse
  dsimp only
  split
  · next hthread => cases h.symm.trans hthread
  · next rest hthread =>
    cases h.symm.trans hthread
    by_cases hzero : c.npu.pendingResponses = 0
    · rw [if_pos hzero, if_pos (show c.woken.npu.pendingResponses = 0 from hzero)]
      exact c.woken.act_stop .waitStart
    · rw [if_neg hzero, if_neg (show c.woken.npu.pendingResponses ≠ 0 from hzero), ← Call.act_stop, ← h]
      rfl
  · next hthread => exact absurd h (hthread _)

theorem Call.wake_returned (h : c.npu.thread = .waitStart) :
    c.act (onResponse cfg now c.npu) = c.woken := by
  unfold onResponse
  dsimp only
  split
  · next hthread => cases h.symm.trans hthread
  · next hthread => cases h.symm.trans hthread
  · simp [Call.act, Call.woken, requestsOf]

end

section
variable {cfg : Config} {s : State}

theorem Call.Account.stop {bodies unsent : List Payload} {c : Call} (h : c.Account cfg s bodies unsent)
    (thread : Thread) : (c.stop thread).Account cfg s bodies unsent :=
  ⟨h.sent, h.stage, h.issued, h.nextAddress, h.pending, h.room⟩

/-- The account after one more request. -/
theorem Call.Account.send {bodies unsent : List Payload} {body : Payload} {c : Call}
    (h : c.Account cfg s bodies (body :: unsent)) :
    (c.send cfg body).Account cfg s (bodies ++ [body]) unsent := by
  have hroom := h.room
  rw [List.length_cons] at hroom
  have hpending : (c.npu.pendingResponses + 1).toNat = c.outstanding.length + 1 := by
    rw [UInt32.toNat_add, h.pending]
    show (c.outstanding.length + 1) % 2 ^ 32 = _
    omega
  have hlength : (c.send cfg body).outstanding.length = c.outstanding.length + 1 := by
    rw [Call.send, List.length_append, List.length_singleton]
  refine ⟨?_, h.stage, ?_, ?_, hpending.trans hlength.symm, ?_⟩
  · rw [numbered_append_singleton, ← h.sent, ← h.stage, ← h.issued, ← h.nextAddress]
    rfl
  · show c.npu.issued + 1 = _
    rw [h.issued, List.length_append, List.length_singleton, Nat.add_assoc]
  · show c.npu.nextAddress + cfg.reserved body = _
    rw [h.nextAddress, List.map_append, List.sum_append, ← UInt64.add_assoc]
    simp
  · omega

/-- What the call has left to do, in steps of the thread and of the memory. -/
def Call.rank (unsent : List Payload) (c : Call) : Nat :=
  3 * unsent.length + 2 * c.outstanding.length + c.npu.responseEvent.toNat

/-- The call part way: some of its bodies are sent, and the thread is where the others
leave it. -/
structure Call.Underway (cfg : Config) (s : State) (all unsent : List Payload) (c : Call) : Prop where
  account : ∃ bodies, bodies ++ unsent = all ∧ c.Account cfg s bodies unsent
  place : c.At unsent

/-- The requests that are left, up to the next wait. By induction on them. -/
theorem Call.Account.issue (now : Time) {unsent : List Payload} {bodies : List Payload} {c : Call}
    (h : c.Account cfg s bodies unsent) :
    ∃ unsent', (c.issue cfg now unsent).Underway cfg s (bodies ++ unsent) unsent' ∧
      (c.issue cfg now unsent).rank unsent' ≤ c.rank unsent := by
  induction unsent generalizing bodies c with
  | nil =>
    rw [Call.issue_nil]
    refine ⟨[], ⟨⟨bodies, rfl, h.stop _⟩, ?_⟩, le_rfl⟩
    have hpending := h.pending
    split
    · next hzero =>
      rw [hzero, UInt32.toNat_zero] at hpending
      exact .inr ⟨rfl, rfl, List.length_eq_zero_iff.mp hpending.symm⟩
    · next hne =>
      refine .inl ⟨.inr ⟨rfl, rfl⟩, .inr fun hnone => hne ?_⟩
      have hnone : c.outstanding = [] := hnone
      rw [hnone, List.length_nil] at hpending
      exact UInt32.toNat_inj.mp hpending
  | cons body unsent ih =>
    rw [Call.issue_cons]
    have hsend := h.send
    have hall : bodies ++ body :: unsent = (bodies ++ [body]) ++ unsent := by simp
    have hrank : (c.send cfg body).rank unsent ≤ c.rank (body :: unsent) := by
      show 3 * _ + 2 * (c.outstanding ++ [_]).length + c.npu.responseEvent.toNat ≤ _
      rw [Call.rank, List.length_append, List.length_singleton, List.length_cons]
      omega
    split
    · refine ⟨unsent, ⟨⟨bodies ++ [body], hall.symm, hsend.stop _⟩, .inl ⟨.inl rfl, .inr ?_⟩⟩, hrank⟩
      exact List.append_ne_nil_of_right_ne_nil _ (List.cons_ne_nil _ _)
    · obtain ⟨unsent', hunderway, hlower⟩ := ih hsend
      exact ⟨unsent', hall ▸ hunderway, hlower.trans hrank⟩

theorem Call.Account.woken {bodies unsent : List Payload} {c : Call} (h : c.Account cfg s bodies unsent) :
    c.woken.Account cfg s bodies unsent :=
  ⟨h.sent, h.stage, h.issued, h.nextAddress, h.pending, h.room⟩

theorem Call.rank_woken {unsent : List Payload} {c : Call} (h : c.npu.responseEvent = true) :
    c.woken.rank unsent < c.rank unsent := by
  simp [Call.rank, Call.woken, h]

/-- A response: one request less is outstanding. -/
theorem Call.Account.respond {bodies unsent before after : List Payload} {t : Payload} {c : Call}
    (h : c.Account cfg s bodies unsent) (hout : c.outstanding = before ++ t :: after) :
    Call.Account cfg s bodies unsent {c with
      npu := (peqBwCb t c.npu).1
      outstanding := before ++ after} := by
  have hroom := h.room
  have hpending := h.pending
  have hlength : c.outstanding.length = (before ++ after).length + 1 := by
    rw [hout, List.length_append, List.length_append, List.length_cons, Nat.add_assoc]
  refine ⟨h.sent, h.stage, h.issued, h.nextAddress, ?_, ?_⟩
  · show (c.npu.pendingResponses - 1).toNat = (before ++ after).length
    rw [Lib.toNat_pred (by omega)]
    omega
  · show (before ++ after).length + _ < _
    omega

/-- **A step of the memory or of the thread.** The call stays under way, with less to do. -/
theorem Call.Underway.step {all unsent : List Payload} {c c' : Call}
    (h : c.Underway cfg s all unsent) (hstep : c.Step cfg c') :
    ∃ unsent', c'.Underway cfg s all unsent' ∧ c'.rank unsent' < c.rank unsent := by
  obtain ⟨⟨bodies, rfl, haccount⟩, hplace⟩ := h
  cases hstep with
  | respond before after t hout =>
    refine ⟨unsent, ⟨⟨bodies, rfl, haccount.respond hout⟩, ?_⟩, ?_⟩
    · rcases hplace with ⟨hthread, -⟩ | ⟨-, -, hnone⟩
      · exact .inl ⟨hthread, .inl rfl⟩
      · rw [hnone] at hout
        exact absurd hout.symm (by simp)
    · show 3 * _ + 2 * (before ++ after).length + true.toNat < _
      have hlength : c.outstanding.length = (before ++ after).length + 1 := by
        rw [hout, List.length_append, List.length_append, List.length_cons, Nat.add_assoc]
      rw [Call.rank, hlength, Bool.toNat_true]
      omega
  | wake now hevent =>
    have hrank : c.woken.rank unsent < c.rank unsent := Call.rank_woken hevent
    rcases hplace with ⟨hthread | ⟨rfl, hthread⟩, -⟩ | ⟨rfl, hthread, hnone⟩
    · have hgo := c.wake_throttled cfg now hthread
      obtain ⟨unsent', hunderway, hlower⟩ := haccount.woken.issue now
      exact ⟨unsent', hgo ▸ hunderway, hgo ▸ hlower.trans_lt hrank⟩
    · have hgo := c.wake_draining cfg now hthread
      obtain ⟨unsent', hunderway, hlower⟩ := haccount.woken.issue now
      exact ⟨unsent', hgo ▸ hunderway, hgo ▸ hlower.trans_lt hrank⟩
    · rw [c.wake_returned cfg now hthread]
      exact ⟨[], ⟨⟨bodies, rfl, haccount.woken⟩, .inr ⟨rfl, hthread, hnone⟩⟩, hrank⟩

theorem Call.Underway.unsent_eq {all unsent : List Payload} {c : Call} (h : c.Underway cfg s all unsent) :
    c.npu.thread.unsent = unsent := by
  rcases h.place with ⟨hthread | ⟨rfl, hthread⟩, -⟩ | ⟨rfl, hthread, -⟩ <;> rw [hthread] <;> rfl

theorem Call.Underway.reachable {all unsent : List Payload} {first c : Call}
    (h : first.Underway cfg s all unsent) (hc : Call.Reachable cfg first c) :
    ∃ unsent, c.Underway cfg s all unsent := by
  induction hc with
  | start hfirst => exact hfirst ▸ ⟨unsent, h⟩
  | next _ hstep ih =>
    obtain ⟨unsent, hunderway⟩ := ih
    obtain ⟨unsent', hunderway', -⟩ := hunderway.step hstep
    exact ⟨unsent', hunderway'⟩

/-- A call comes to an end. -/
theorem Call.Underway.finite {all unsent : List Payload} {first : Call}
    (h : first.Underway cfg s all unsent) {run : Nat → Call} (hrun : run 0 = first) :
    ¬ ∀ i, (run i).Step cfg (run (i + 1)) := by
  have hlowers : ∀ c c', Call.Reachable cfg first c → c.Step cfg c' →
      c'.rank c'.npu.thread.unsent < c.rank c.npu.thread.unsent := by
    intro c c' hc hstep
    obtain ⟨unsent, hunderway⟩ := h.reachable hc
    obtain ⟨unsent', hunderway', hlower⟩ := hunderway.step hstep
    rw [hunderway.unsent_eq, hunderway'.unsent_eq]
    exact hlower
  exact Lib.Reach.finite hlowers hrun

/-- It does not stop before it returns. -/
theorem Call.Underway.returned {all unsent : List Payload} {c : Call} (h : c.Underway cfg s all unsent)
    (now : Time) (hstuck : ∀ c', ¬ c.Step cfg c') : c.Returned := by
  rcases h.place with ⟨-, hevent | hout⟩ | ⟨-, hthread, -⟩
  · exact absurd (.wake now hevent) (hstuck _)
  · obtain ⟨t, after, hcons⟩ := List.exists_cons_of_ne_nil hout
    exact absurd (.respond [] after t hcons) (hstuck _)
  · exact hthread

/-- When it returns all its requests have been sent and answered. -/
theorem Call.Underway.all_sent {all unsent : List Payload} {c : Call} (h : c.Underway cfg s all unsent)
    (hreturned : c.Returned) :
    c.outstanding = [] ∧ c.sent = cfg.numbered s.stage all s.issued s.nextAddress := by
  obtain ⟨⟨bodies, hall, haccount⟩, hplace⟩ := h
  have hthread : c.npu.thread = .waitStart := hreturned
  rw [Call.At, hthread] at hplace
  obtain ⟨rfl, -, hnone⟩ : unsent = [] ∧ Thread.waitStart = .waitStart ∧ c.outstanding = [] := by
    simpa using hplace
  rw [List.append_nil] at hall
  exact ⟨hnone, by rw [haccount.sent, hall]⟩

end

section
variable {cfg : Config} {bytes : UInt32} (command : Command) (layer : String) (now : Time) (s : State)

/-- A call whose sum does not overflow begins to send. -/
theorem Call.start_underway (hfits : bytes.toNat + cfg.requestBytes.toNat ≤ 2 ^ 32) (hbytes : bytes ≠ 0) :
    ∃ unsent, (Call.start cfg command bytes layer now s).Underway cfg s
      (cfg.issueMemory command bytes layer) unsent := by
  obtain ⟨burstSize, -, hissue⟩ := issueMemory_eq hfits command layer
  have hpos : 0 < bytes.toNat := Lib.toNat_pos hbytes
  have hlength : (cfg.issueMemory command bytes layer).length = cfg.requestCount bytes.toNat := by
    rw [hissue, List.length_map, List.length_range]
  have hsome : cfg.issueMemory command bytes layer ≠ [] := by
    intro hnil
    rw [hnil, requestCount_turn cfg hpos] at hlength
    exact absurd hlength (by simp)
  have hroom : (cfg.issueMemory command bytes layer).length < 2 ^ 32 := by
    have hturn := requestCount_turn cfg hpos
    have hlast := index_lt cfg
      (show cfg.requestCount bytes.toNat - 1 < cfg.requestCount bytes.toNat by omega)
    have hmul : cfg.requestCount bytes.toNat - 1 ≤
        (cfg.requestCount bytes.toNat - 1) * cfg.requestBytes.toNat :=
      Nat.le_mul_of_pos_right _ (requestBytes_pos cfg)
    have hlt := bytes.toNat_lt
    omega
  have hempty : Call.Account cfg s [] (cfg.issueMemory command bytes layer)
      {npu := {s with pendingResponses := 0}} :=
    ⟨rfl, rfl, rfl, by simp, rfl, by simpa using hroom⟩
  obtain ⟨unsent, hunderway, -⟩ := hempty.issue now
  refine ⟨unsent, ?_⟩
  rw [List.nil_append] at hunderway
  rw [Call.start, advance]
  simp only [if_neg hsome]
  exact hunderway

/-- Where the sum overflows, the call returns at once. -/
theorem Call.start_overflow (hover : 2 ^ 32 < bytes.toNat + cfg.requestBytes.toNat) :
    (Call.start cfg command bytes layer now s).Returned ∧
      (Call.start cfg command bytes layer now s).sent = [] := by
  have hnone : cfg.issueMemory command bytes layer = [] := by
    rw [Config.issueMemory, if_pos (Lib.ceilDiv_overflow hover)]
  rw [Call.start, hnone]
  exact ⟨rfl, rfl⟩

theorem not_issuesExactly_of_overflow {m : DramMacroModel} {address : UInt64} (hbytes : bytes ≠ 0)
    (hover : 2 ^ 32 < bytes.toNat + cfg.requestBytes.toNat) :
    ¬ cfg.IssuesExactly m bytes address (Call.start cfg command bytes layer now s) := by
  intro h
  obtain ⟨hreturned, hsent⟩ := Call.start_overflow command layer now s hover
  have hcount := (h.covers _ (.start rfl) hreturned).2.count
  have hpos : 0 < bytes.toNat := Lib.toNat_pos hbytes
  rw [hsent, requestCount_turn cfg hpos] at hcount
  exact absurd hcount (by simp)

/-- **A call of `issue_memory` is exact where its rounded sum fits in 32 bits.** The byte
count, the request size, the state of the thread and the order of the responses are
arbitrary. Only the detailed replay calls it, and the macro model is built with the same
request size. -/
theorem issueMemory_exact_iff (hmode : cfg.profile.fastLayerMode = false) (m : DramMacroModel)
    (hm : m.requestBytes = cfg.requestBytes) (hbytes : bytes ≠ 0) :
    cfg.IssuesExactly m bytes s.nextAddress (Call.start cfg command bytes layer now s) ↔
      bytes.toNat + cfg.requestBytes.toNat ≤ 2 ^ 32 := by
  constructor
  · intro h
    by_contra hover
    exact not_issuesExactly_of_overflow command layer now s hbytes (by omega) h
  · intro hfits
    obtain ⟨unsent₀, hstart⟩ := Call.start_underway command layer now s hfits hbytes
    refine ⟨fun run hrun => hstart.finite hrun, fun c hc hstuck => ?_, fun c hc hreturned => ?_⟩
    · obtain ⟨unsent, hunderway⟩ := hstart.reachable hc
      exact hunderway.returned now hstuck
    · obtain ⟨unsent, hunderway⟩ := hstart.reachable hc
      obtain ⟨hnone, hsent⟩ := hunderway.all_sent hreturned
      refine ⟨hnone, ?_⟩
      rw [hsent]
      exact issueMemory_covers hfits hmode hm command layer s.stage s.issued s.nextAddress

end

/-- The macro model that is built with 64-byte requests. -/
def macroOf64 : DramMacroModel where
  requestBytes := 64
  requestBytes_pos := by decide
  npuInfo := {}
  calibration := ⟨⟨40, 5⟩, ⟨40, 5⟩⟩

/-- 150 bytes go out in requests of 64, 64 and 22 bytes. -/
theorem issueMemory_exact_projection : (projection 150).IssuesExactly macroOf64 150 0x10000000
    (Call.start (projection 150) .read 150 "target_npu.run0.layer0.op.q_proj.weight" 0 {}) :=
  (issueMemory_exact_iff .read "target_npu.run0.layer0.op.q_proj.weight" 0 {} rfl macroOf64 rfl
    (by decide)).mpr (by decide)

/-- One byte short of 4 GiB: the macro model charges 2^26 requests, the call makes none. -/
theorem last_tensor_not_issued :
    (macroOf64.requests (2 ^ 32 - 1)).toNat = 2 ^ 26 ∧
    (Call.start (projection (2 ^ 32 - 1)) .read (2 ^ 32 - 1) "target_npu.run0.layer0.op.q_proj.weight" 0
      {}).sent = [] ∧
    ¬ (projection (2 ^ 32 - 1)).IssuesExactly macroOf64 (2 ^ 32 - 1) 0x10000000
      (Call.start (projection (2 ^ 32 - 1)) .read (2 ^ 32 - 1) "target_npu.run0.layer0.op.q_proj.weight" 0
        {}) := by
  have hover : 2 ^ 32 < (2 ^ 32 - 1 : UInt32).toNat + (projection (2 ^ 32 - 1)).requestBytes.toNat := by
    decide
  exact ⟨by decide, (Call.start_overflow _ _ _ _ hover).2,
    not_issuesExactly_of_overflow _ _ _ _ (by decide) hover⟩

end Hsim.NpuTraceReplayer
