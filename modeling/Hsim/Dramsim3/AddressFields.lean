import Hsim.Dramsim3.Config
import Hsim.Json
import Hsim.Lib.Packing
import Mathlib.Data.Fintype.Basic
import Mathlib.Algebra.BigOperators.Group.Finset.Basic
import Mathlib.Data.Nat.Log
import Mathlib.Order.Interval.Set.Basic

/-! What an address mapping does to addresses.

A mapping string is taken exactly if it names each of the six fields once. The
fields then lie side by side, so the coordinates of an address are its line in
another writing: no two lines have the same, and every combination in range is the
place of some line (`setAddressMapping_spec`). Widths are rounded down, so a
field never exceeds its count and the bank of an address exists; what is lost are
the counts that are not powers of two. -/
namespace Hsim.Dramsim3

open Lib (Packing.span Packing.offset Packing.pack Packing.field)

instance : Fintype Field where
  elems := {.ch, .ra, .bg, .ba, .ro, .co}
  complete f := by cases f <;> decide

/-- The letters of a field. -/
def Field.token : Field → List Char
  | .ch => ['c', 'h']
  | .ra => ['r', 'a']
  | .bg => ['b', 'g']
  | .ba => ['b', 'a']
  | .ro => ['r', 'o']
  | .co => ['c', 'o']

theorem Field.ofToken_eq_ok {t : List Char} {f : Field} : Field.ofToken t = .ok f ↔ t = f.token := by
  constructor
  · intro h
    unfold Field.ofToken at h
    split at h <;> cases h <;> rfl
  · rintro rfl
    cases f <;> rfl

theorem mapM_ofToken {names : List (List Char)} {fields : List Field} :
    names.mapM Field.ofToken = .ok fields ↔ names = fields.map Field.token := by
  induction names generalizing fields with
  | nil => cases fields <;> simp [pure, Except.pure]
  | cons t names ih =>
    rw [List.mapM_cons]
    constructor
    · intro h
      obtain ⟨f, hf, h⟩ := ok_of_bind h
      obtain ⟨rest, hrest, h⟩ := ok_of_bind h
      cases h
      rw [List.map_cons, ← ih.mp hrest, Field.ofToken_eq_ok.mp hf]
    · intro h
      cases fields with
      | nil => cases h
      | cons f rest =>
        obtain ⟨ht, hrest⟩ := List.cons.inj h
        rw [Field.ofToken_eq_ok.mpr ht, ih.mpr hrest]
        rfl

theorem tokens_flatten (fields : List Field) :
    tokens (fields.flatMap Field.token) = fields.map Field.token := by
  induction fields with
  | nil => rfl
  | cons f rest ih =>
    rw [List.flatMap_cons, List.map_cons, ← ih]
    cases f <;> rfl

theorem flatten_tokens (text : List Char) : (tokens text).flatten = text := by
  induction text using tokens.induct with
  | case1 a b rest ih => simp [tokens, ih]
  | case2 a => rfl
  | case3 => rfl

/-- Twelve letters are six names. -/
theorem mappingFields_eq_ok {text : String} {fields : List Field} :
    mappingFields text = .ok fields ↔
      fields.length = 6 ∧ text.toList = fields.reverse.flatMap Field.token := by
  have hlength : ∀ l : List Field, (l.flatMap Field.token).length = 2 * l.length := by
    intro l
    induction l with
    | nil => rfl
    | cons f rest ih =>
      rw [List.flatMap_cons, List.length_append, ih, List.length_cons]
      cases f <;> simp only [Field.token, List.length_cons, List.length_nil] <;> omega
  unfold mappingFields
  constructor
  · intro h
    split at h
    · cases h
    · next htwelve =>
      have hnames := mapM_ofToken.mp h
      have htext : text.toList = fields.reverse.flatMap Field.token := by
        rw [← flatten_tokens text.toList, List.flatMap, List.map_reverse, ← hnames, List.reverse_reverse]
      rw [not_not, htext, hlength, List.length_reverse] at htwelve
      exact ⟨by omega, htext⟩
  · rintro ⟨hsix, htext⟩
    have htwelve : ¬ text.toList.length ≠ 12 := by
      rw [not_not, htext, hlength, List.length_reverse, hsix]
    rw [if_neg htwelve, htext, tokens_flatten, List.map_reverse, List.reverse_reverse]
    exact mapM_ofToken.mpr rfl

/-! ### Where the fields lie -/

section
variable {width : Field → Nat} {fields : List Field} {f : Field}

theorem placeFields_other (hf : f ∉ fields) (at_ : Nat) (pos : Field → Option Nat) :
    placeFields width fields at_ pos f = pos f := by
  induction fields generalizing at_ pos with
  | nil => rfl
  | cons g rest ih =>
    obtain ⟨hne, hrest⟩ := not_or.mp (mt List.mem_cons.mpr hf)
    rw [placeFields, ih hrest]
    exact Function.update_of_ne hne _ _

theorem placeFields_mem (hnodup : fields.Nodup) (hf : f ∈ fields) (at_ : Nat)
    (pos : Field → Option Nat) :
    placeFields width fields at_ pos f = some (at_ + Packing.offset width fields f) := by
  induction fields generalizing at_ pos with
  | nil => cases hf
  | cons g rest ih =>
    obtain ⟨hnot, hrest⟩ := List.nodup_cons.mp hnodup
    rw [placeFields, Packing.offset]
    by_cases hg : f = g
    · subst hg
      rw [placeFields_other hnot, if_pos rfl]
      simp
    · have hmem : f ∈ rest := by simpa [hg] using hf
      rw [ih hrest hmem, if_neg hg, Nat.add_assoc]

/-- Six names with no field missing name each field once. -/
theorem perm_of_named (hsix : fields.length = 6) (hall : ∀ f, f ∈ fields) :
    fields.Nodup ∧ fields.Perm [.ch, .ra, .bg, .ba, .ro, .co] := by
  have hset : fields.toFinset = Finset.univ := by
    ext f
    simp [hall f]
  have hnodup : fields.Nodup := by
    have hcard : (fields : Multiset Field).toFinset.card = Multiset.card (fields : Multiset Field) := by
      rw [Multiset.coe_card, hsix, List.toFinset_coe, hset]
      rfl
    exact Multiset.coe_nodup.mp (Multiset.toFinset_card_eq_card_iff_nodup.mp hcard)
  refine ⟨hnodup, (List.perm_ext_iff_of_nodup hnodup (by decide)).mpr fun f => ?_⟩
  cases f <;> simp [hall]

end

/-- A mapping that is taken, seen from the order of its fields, the lowest first. -/
structure Mapping.Lays (m : Mapping) (fields : List Field) : Prop where
  nodup : fields.Nodup
  all : ∀ f, f ∈ fields
  pos : ∀ f, m.pos f = Packing.offset m.width fields f

theorem placed_eq_ok {pos : Field → Option Nat} {f : Field} {n : Nat} :
    placed pos f = .ok n ↔ pos f = some n := by
  unfold placed
  cases pos f <;> simp

theorem setAddressMapping_eq_ok {text : String} {shift : Nat} {width : Field → Nat} {m : Mapping}
    (h : setAddressMapping text shift width = .ok m) :
    m.shiftBits = shift ∧ m.width = width ∧
      ∃ fields, mappingFields text = .ok fields ∧ m.Lays fields := by
  obtain ⟨fields, hfields, h⟩ := ok_of_bind h
  obtain ⟨ch, hch, h⟩ := ok_of_bind h
  obtain ⟨ra, hra, h⟩ := ok_of_bind h
  obtain ⟨bg, hbg, h⟩ := ok_of_bind h
  obtain ⟨ba, hba, h⟩ := ok_of_bind h
  obtain ⟨ro, hro, h⟩ := ok_of_bind h
  obtain ⟨co, hco, h⟩ := ok_of_bind h
  cases h
  rw [placed_eq_ok] at hch hra hbg hba hro hco
  have hall : ∀ f, f ∈ fields := by
    intro f
    by_contra hf
    have hnone : placeFields width fields 0 (fun _ => none) f = none := placeFields_other hf _ _
    cases f <;> simp_all
  have hnodup := (perm_of_named (mappingFields_eq_ok.mp hfields).1 hall).1
  refine ⟨rfl, rfl, fields, hfields, hnodup, hall, fun f => ?_⟩
  have hf : placeFields width fields 0 (fun _ => none) f = some (0 + Packing.offset width fields f) :=
    placeFields_mem hnodup (hall f) _ _
  rw [Nat.zero_add] at hf
  cases f <;> simp_all

/-- A string that names each field once is taken. -/
theorem setAddressMapping_accepts {text : String} {fields : List Field}
    (hfields : mappingFields text = .ok fields) (hall : ∀ f, f ∈ fields) (shift : Nat)
    (width : Field → Nat) : ∃ m, setAddressMapping text shift width = .ok m := by
  have hnodup := (perm_of_named (mappingFields_eq_ok.mp hfields).1 hall).1
  have hplaced : ∀ f, placed (placeFields width fields 0 fun _ => none) f =
      .ok (0 + Packing.offset width fields f) := fun f =>
    placed_eq_ok.mpr (placeFields_mem hnodup (hall f) _ _)
  simp only [setAddressMapping, hfields, hplaced, bind, Except.bind]
  exact ⟨_, rfl⟩

/-! ### The coordinates of an address -/

section
variable {m : Mapping} {fields : List Field} (h : m.Lays fields)
include h

theorem Mapping.Lays.field_eq (a : UInt64) (f : Field) :
    m.field a f = Packing.field m.width fields (a.toNat / 2 ^ m.shiftBits) f := by
  rw [Mapping.field, Mapping.mask, Nat.and_two_pow_sub_one_eq_mod, Nat.shiftRight_eq_div_pow,
    Nat.shiftRight_eq_div_pow, h.pos]
  rfl

theorem Mapping.Lays.span_eq : Packing.span m.width fields = ∑ f, m.width f := by
  have hset : fields.toFinset = Finset.univ := by
    ext f
    simp [h.all f]
  rw [Packing.span, ← List.sum_toFinset _ h.nodup, hset]

end

/-- Coordinates that fit the fields. -/
def Mapping.InRange (m : Mapping) (c : Address) : Prop :=
  ∃ value : Field → Nat, (∀ f, value f < 2 ^ m.width f) ∧
    c = ⟨value .ch, value .ra, value .bg, value .ba, value .ro, value .co⟩

theorem Mapping.field_lt (m : Mapping) (a : UInt64) (f : Field) : m.field a f < 2 ^ m.width f := by
  rw [Mapping.field, Mapping.mask, Nat.and_two_pow_sub_one_eq_mod]
  exact Nat.mod_lt _ (Nat.two_pow_pos _)

/-- Addresses with equal coordinates agree field by field. -/
theorem Mapping.field_of_coordinates {m : Mapping} {a b : UInt64}
    (h : m.addressMapping a = m.addressMapping b) (f : Field) : m.field a f = m.field b f := by
  simp only [Mapping.addressMapping, Address.mk.injEq, Int.natCast_inj] at h
  cases f <;> simp only [h]

/-- **An address is its coordinates, in the order the mapping string gives.** The string is taken
exactly if it names each field once, and then the aligned addresses below the capacity and the
coordinates in range correspond one to one; the bits within a line do not matter. -/
theorem setAddressMapping_spec (text : String) (shift : Nat) (width : Field → Nat) :
    ((∃ m, setAddressMapping text shift width = .ok m) ↔
      ∃ order : List Field, order.Perm [.ch, .ra, .bg, .ba, .ro, .co] ∧
        text.toList = order.flatMap Field.token) ∧
    ∀ m, setAddressMapping text shift width = .ok m → shift + ∑ f, width f ≤ 64 →
      Set.BijOn m.addressMapping
        {a | a.toNat < 2 ^ (shift + ∑ f, width f) ∧ a.toNat % 2 ^ shift = 0} {c | m.InRange c} ∧
      ∀ a b : UInt64, a.toNat / 2 ^ shift = b.toNat / 2 ^ shift →
        m.addressMapping a = m.addressMapping b := by
  refine ⟨⟨?_, ?_⟩, ?_⟩
  · rintro ⟨m, hm⟩
    obtain ⟨-, -, fields, hfields, hlays⟩ := setAddressMapping_eq_ok hm
    obtain ⟨hsix, htext⟩ := mappingFields_eq_ok.mp hfields
    exact ⟨fields.reverse, (List.reverse_perm _).trans (perm_of_named hsix hlays.all).2, htext⟩
  · rintro ⟨order, hperm, htext⟩
    have hfields : mappingFields text = .ok order.reverse := by
      rw [mappingFields_eq_ok, List.length_reverse, hperm.length_eq, List.reverse_reverse]
      exact ⟨rfl, htext⟩
    refine setAddressMapping_accepts hfields (fun f => ?_) shift width
    rw [List.mem_reverse, hperm.mem_iff]
    cases f <;> decide
  · intro m hm hfits
    obtain ⟨hshift, hwidth, fields, -, hlays⟩ := setAddressMapping_eq_ok hm
    have hspan := hlays.span_eq
    rw [hwidth] at hspan
    have hline : ∀ a : UInt64, a.toNat < 2 ^ (shift + ∑ f, width f) →
        a.toNat / 2 ^ shift < 2 ^ Packing.span width fields := by
      intro a ha
      rw [hspan]
      exact Nat.div_lt_of_lt_mul (Nat.pow_add 2 shift _ ▸ ha)
    refine ⟨⟨?_, ?_, ?_⟩, ?_⟩
    · intro a _
      exact ⟨m.field a, m.field_lt a, rfl⟩
    · intro a ⟨ha, hal⟩ b ⟨hb, hbl⟩ hab
      have hlines : a.toNat / 2 ^ shift = b.toNat / 2 ^ shift := by
        refine Lib.Packing.eq_of_fields (hline a ha) (hline b hb) hlays.nodup fun f _ => ?_
        have hf := Mapping.field_of_coordinates hab f
        rwa [hlays.field_eq, hlays.field_eq, hshift, hwidth] at hf
      apply UInt64.toNat_inj.mp
      rw [← Nat.div_add_mod a.toNat (2 ^ shift), ← Nat.div_add_mod b.toNat (2 ^ shift), hlines, hal, hbl]
    · rintro c ⟨value, hvalue, rfl⟩
      rw [hwidth] at hvalue
      -- The line that packs the coordinates, as a byte address.
      have hpack : Packing.pack width value fields < 2 ^ Packing.span width fields :=
        Lib.Packing.pack_lt fun f _ => hvalue f
      have hbyte : 2 ^ shift * Packing.pack width value fields < 2 ^ (shift + ∑ f, width f) := by
        rw [Nat.pow_add, ← hspan]
        exact Nat.mul_lt_mul_of_pos_left hpack (Nat.two_pow_pos _)
      have hsmall : 2 ^ shift * Packing.pack width value fields < 2 ^ 64 :=
        hbyte.trans_le (Nat.pow_le_pow_right (by decide) hfits)
      have htoNat : (UInt64.ofNat (2 ^ shift * Packing.pack width value fields)).toNat =
          2 ^ shift * Packing.pack width value fields := by
        rw [UInt64.toNat_ofNat', Nat.mod_eq_of_lt hsmall]
      have hfield : ∀ f, m.field (UInt64.ofNat (2 ^ shift * Packing.pack width value fields)) f =
          value f := by
        intro f
        rw [hlays.field_eq, htoNat, hshift, hwidth, Nat.mul_div_cancel_left _ (Nat.two_pow_pos _)]
        exact Lib.Packing.field_pack hlays.nodup (fun f _ => hvalue f) (hlays.all f)
      refine ⟨_, ⟨htoNat.symm ▸ hbyte, ?_⟩, ?_⟩
      · rw [htoNat, Nat.mul_mod_right]
      · simp only [Mapping.addressMapping, hfield]
    · intro a b hab
      have hfield : ∀ f, m.field a f = m.field b f := by
        intro f
        rw [hlays.field_eq, hlays.field_eq, hshift, hab]
      simp only [Mapping.addressMapping, hfield]

theorem setAddressMapping_lpddr5 :
    setAddressMapping "robarabgcoch" 7 lpddr5Ch4.mapping.width = .ok lpddr5Ch4.mapping := by
  have hfields : mappingFields "robarabgcoch" = .ok [.ch, .co, .bg, .ra, .ba, .ro] := rfl
  simp only [setAddressMapping, hfields, ok_bind]
  simp only [placed, placeFields, Function.update]
  rfl

theorem setAddressMapping_spec_lpddr5 : Set.BijOn lpddr5Ch4.mapping.addressMapping
    {a | a.toNat < 2 ^ 35 ∧ a.toNat % 2 ^ 7 = 0} {c | lpddr5Ch4.mapping.InRange c} :=
  ((setAddressMapping_spec "robarabgcoch" 7 lpddr5Ch4.mapping.width).2 lpddr5Ch4.mapping
    setAddressMapping_lpddr5 (by decide)).1

/-! ### The banks that addresses name -/

theorem logBase2_eq_log (n : Nat) : logBase2 n = Nat.log 2 n := by
  induction n using logBase2.induct with
  | case1 n hn ih => rw [logBase2, if_pos hn, Nat.log_of_one_lt_of_le Nat.one_lt_two hn, ih]
  | case2 n hn => rw [logBase2, if_neg hn, Nat.log_of_lt (by omega)]

/-- Rounding the width down keeps a field below its count. -/
theorem Mapping.field_lt_count {m : Mapping} {f : Field} {n : Int} (hn : 0 < n)
    (hwidth : m.width f = logBase2 n.toNat) (a : UInt64) : (m.field a f : Int) < n := by
  have hlt := m.field_lt a f
  rw [hwidth, logBase2_eq_log] at hlt
  have hle := Nat.pow_log_le_self 2 (show n.toNat ≠ 0 by omega)
  omega

theorem Config.places_of_widths {cfg : Config} (hcounts : cfg.Counts)
    (hbg : cfg.mapping.width .bg = logBase2 cfg.bankgroups.toNat)
    (hba : cfg.mapping.width .ba = logBase2 cfg.banksPerGroup.toNat) : cfg.Places := by
  intro a
  -- `mem_banksOf` for coordinates that are not negative.
  have hg := Mapping.field_lt_count hcounts.bankgroups hbg a
  have hb := Mapping.field_lt_count hcounts.banksPerGroup hba a
  simp only [Config.banksOf, List.mem_flatMap, List.mem_map, List.mem_range]
  exact ⟨cfg.mapping.field a .bg, by omega, cfg.mapping.field a .ba, by omega, rfl⟩

theorem lpddr5Ch4_places : lpddr5Ch4.Places :=
  Config.places_of_widths lpddr5Ch4_counts (by simp [lpddr5Ch4, logBase2]) (by simp [lpddr5Ch4, logBase2])

theorem lpddr5Ch4_channels (a : UInt64) : lpddr5Ch4.mapping.getChannel a < lpddr5Ch4.channels.toNat :=
  lpddr5Ch4.mapping.field_lt a .ch

/-- **Every address lies in a bank of a channel that exists**, for any file that is taken and that
asks for at least one of each. -/
theorem initConfig_places {r : Reader} {cfg : Config} (h : initConfig r = .ok cfg)
    (hchannels : 0 < cfg.channels) (hcounts : cfg.Counts) : cfg.Places ∧
      ∀ a, cfg.mapping.getChannel a < cfg.channels.toNat ∧
      (cfg.mapping.addressMapping a).rank < cfg.ranks := by
  obtain ⟨refreshPolicy, -, h⟩ := ok_of_bind h
  obtain ⟨d, -, h⟩ := ok_of_bind h
  obtain ⟨ranks, -, h⟩ := ok_of_bind h
  obtain ⟨mapping, hmapping, h⟩ := ok_of_bind h
  obtain ⟨queueStructure, -, h⟩ := ok_of_bind h
  obtain ⟨cmdQueueSize, -, h⟩ := ok_of_bind h
  obtain ⟨transQueueSize, -, h⟩ := ok_of_bind h
  obtain ⟨-, hwidth, -⟩ := setAddressMapping_eq_ok hmapping
  cases h
  refine ⟨Config.places_of_widths hcounts (congrFun hwidth .bg) (congrFun hwidth .ba), fun a => ⟨?_, ?_⟩⟩
  · have hch := Mapping.field_lt_count hchannels (congrFun hwidth .ch) a
    show mapping.field a .ch < _
    omega
  · exact Mapping.field_lt_count hcounts.ranks (congrFun hwidth .ra) a

theorem initConfig_lpddr5 : initConfig lpddr5File = .ok lpddr5Ch4 := by
  have hshift : logBase2 128 = 7 := by simp [logBase2]
  have hwidth : ∀ d : Structure, d.bankgroups = 4 → d.banksPerGroup = 4 → d.rows = 65536 →
      d.columns = 1024 → d.bl = 16 → fieldWidths d 4 1 = lpddr5Ch4.mapping.width := by
    intro d hbg hba hro hco hbl
    funext f
    cases f <;> simp [fieldWidths, lpddr5Ch4, hbg, hba, hro, hco, hbl, logBase2]
  simp [initConfig, lpddr5File, Reader.ofOptions, List.lookup_cons, readRefreshPolicy,
    initDramParams, Protocol.ofName, Protocol.isGddr, Protocol.isHbm, calculateRanks, burstCycles,
    readQueueStructure, readQueueSize, ok_bind, hshift, hwidth, setAddressMapping_lpddr5,
    Functor.map, Except.map]
  rfl

theorem initConfig_places_lpddr5 : lpddr5Ch4.Places ∧ ∀ a, lpddr5Ch4.mapping.getChannel a < 4 ∧
    (lpddr5Ch4.mapping.addressMapping a).rank < 1 :=
  initConfig_places initConfig_lpddr5 (by decide) lpddr5Ch4_counts

end Hsim.Dramsim3
