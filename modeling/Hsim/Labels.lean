import Hsim.HostTrace

/-! The names of stages.

A stage is named by the position of its sample and the iteration of its record.
The name is what the ledger files a stage's episode under, and two components
read it back from longer labels: the NPU from the launch, the PIM module from a
draft command. -/
namespace Hsim.Host

open TraceGenerator (SpeculativeControl)

/-! ### Numbers in names -/

theorem isDigit_toString (n : Nat) : ∀ c ∈ (toString n).toList, c.isDigit = true := by
  intro c hc
  rw [Nat.toString_eq_repr, Nat.repr, String.toList_ofList] at hc
  exact Nat.isDigit_of_mem_toDigits (by decide) (by decide) hc

theorem toString_toList_inj {m n : Nat} (h : (toString m).toList = (toString n).toList) : m = n := by
  have hvalue := congrArg (fun digits => Nat.ofDigitChars 10 digits 0) h
  simpa [Nat.toString_eq_ofList_toDigits] using hvalue

theorem takeWhile_isDigit_toString (n : Nat) (rest : List Char)
    (h : ∀ c ∈ rest.head?, c.isDigit = false) :
    ((toString n).toList ++ rest).takeWhile Char.isDigit = (toString n).toList := by
  rw [List.takeWhile_append_of_pos (isDigit_toString n)]
  cases rest with
  | nil => simp
  | cons c rest => simp [h c rfl]

/-- A text that does not begin with a digit. -/
def NoDigit (text : List Char) : Prop := ∀ c ∈ text.head?, c.isDigit = false

/-- A number and what follows it can be told apart. -/
theorem number_inj {m n : UInt32} {a b : List Char} (ha : NoDigit a) (hb : NoDigit b)
    (h : (toString m.toNat).toList ++ a = (toString n.toNat).toList ++ b) : m = n ∧ a = b := by
  have hdigits := congrArg (List.takeWhile Char.isDigit) h
  rw [takeWhile_isDigit_toString _ _ ha, takeWhile_isDigit_toString _ _ hb] at hdigits
  rw [hdigits, List.append_cancel_left_eq] at h
  exact ⟨UInt32.toNat_inj.mp (toString_toList_inj hdigits), h⟩

/-- The characters of a stage's name. -/
theorem samplePrefix_toList (control : SpeculativeControl) :
    (samplePrefix control).toList = "sample".toList ++ ((toString control.sampleIndex.toNat).toList ++
      (".iter".toList ++ (toString control.iteration.toNat).toList)) := by
  simp only [samplePrefix, String.toList_append, List.append_assoc]

/-- A name tells its stage's sample and iteration apart from every other's. -/
theorem samplePrefix_inj {a b : SpeculativeControl} :
    samplePrefix a = samplePrefix b ↔ a.sampleIndex = b.sampleIndex ∧ a.iteration = b.iteration := by
  constructor
  · intro h
    have hchars := congrArg String.toList h
    rw [samplePrefix_toList, samplePrefix_toList, List.append_cancel_left_eq] at hchars
    obtain ⟨hsample, hiteration⟩ := number_inj (by simp [NoDigit]) (by simp [NoDigit]) hchars
    rw [List.append_cancel_left_eq] at hiteration
    exact ⟨hsample, UInt32.toNat_inj.mp (toString_toList_inj hiteration)⟩
  · rintro ⟨hs, hi⟩
    rw [samplePrefix, samplePrefix, hs, hi]

/-! ### Reading a name back -/

/-- A pattern is found where it begins, if its first letter does not come before. -/
theorem findFrom_append (front after : List Char) {before pattern : List Char} {c : Char}
    (hc : pattern.head? = some c) (hbefore : c ∉ before) :
    findFrom (front ++ (before ++ (pattern ++ after))) pattern front.length =
      some (before.length + front.length) := by
  obtain ⟨p, rfl⟩ : ∃ p, pattern = c :: p := by
    cases pattern with
    | nil => cases hc
    | cons x p => exact ⟨p, by cases hc; rfl⟩
  suffices hfound : (before ++ (c :: p ++ after)).tails.findIdx? ((c :: p).isPrefixOf ·) =
      some before.length by
    rw [findFrom, List.drop_left, hfound]
    rfl
  induction before with
  | nil =>
    have hhere : (c :: p).isPrefixOf (c :: (p ++ after)) = true := by
      rw [List.isPrefixOf_iff_prefix]
      exact List.prefix_append (c :: p) after
    rw [List.nil_append, List.cons_append, List.tails_cons, List.findIdx?_cons, hhere]
    rfl
  | cons x before ih =>
    rw [List.mem_cons, not_or] at hbefore
    have hne : (c == x) = false := beq_false_of_ne hbefore.1
    rw [List.cons_append, List.tails_cons, List.findIdx?_cons, List.isPrefixOf_cons_cons, hne,
      Bool.false_and, ih hbefore.2]
    rfl

theorem notDigit_notMem {c : Char} (hc : c.isDigit = false) (n : Nat) : c ∉ (toString n).toList := by
  intro hmem
  rw [isDigit_toString n c hmem] at hc
  cases hc

/-- A label made of a head without an `s`, a stage's name, and what is no digit, names that
stage. -/
theorem episodeIdFromLayer_name {head : String} (hhead : 's' ∉ head.toList)
    (control : SpeculativeControl) {rest : String}
    (hrest : ∀ c ∈ rest.toList.head?, c.isDigit = false) :
    episodeIdFromLayer (head ++ samplePrefix control ++ rest) = samplePrefix control := by
  generalize hindex : (toString control.sampleIndex.toNat).toList = index
  generalize hiter : (toString control.iteration.toNat).toList = iter
  have hdot : '.' ∉ index := hindex ▸ notDigit_notMem (by decide) _
  have hname : (samplePrefix control).toList =
      "sample".toList ++ (index ++ (".iter".toList ++ iter)) := by
    rw [samplePrefix_toList, hindex, hiter]
  have htext : (head ++ samplePrefix control ++ rest).toList =
      head.toList ++ ("sample".toList ++ (index ++ (".iter".toList ++ (iter ++ rest.toList)))) := by
    simp only [String.toList_append, hname, List.append_assoc]
  have hsample : findFrom (head ++ samplePrefix control ++ rest).toList "sample".toList 0 =
      some head.toList.length := by
    rw [htext]
    exact findFrom_append [] _ rfl hhead
  have hfound : findFrom (head ++ samplePrefix control ++ rest).toList ".iter".toList
      head.toList.length = some (6 + index.length + head.toList.length) := by
    have hnone : '.' ∉ "sample".toList ++ index := by simp [hdot]
    have hat := findFrom_append head.toList (iter ++ rest.toList)
      (show ".iter".toList.head? = some '.' from rfl) hnone
    rw [List.append_assoc, ← htext, List.length_append] at hat
    exact hat
  have hdigits : ((head ++ samplePrefix control ++ rest).toList.drop
      (6 + index.length + head.toList.length + 5)).takeWhile Char.isDigit = iter := by
    have hfront : 6 + index.length + head.toList.length + 5 =
        (head.toList ++ ("sample".toList ++ (index ++ ".iter".toList))).length := by
      simp only [List.length_append]
      show _ = _ + (6 + (_ + 5))
      omega
    have hsplit : (head ++ samplePrefix control ++ rest).toList =
        (head.toList ++ ("sample".toList ++ (index ++ ".iter".toList))) ++ (iter ++ rest.toList) := by
      rw [htext]
      simp only [List.append_assoc]
    rw [hfront, hsplit, List.drop_left, ← hiter]
    exact takeWhile_isDigit_toString _ _ hrest
  have hlength : 6 + index.length + head.toList.length + 5 + iter.length - head.toList.length =
      (samplePrefix control).toList.length := by
    rw [hname]
    simp only [List.length_append]
    show _ = 6 + (_ + (5 + _))
    omega
  have hcut : (head ++ samplePrefix control ++ rest).toList.drop head.toList.length =
      (samplePrefix control).toList ++ rest.toList := by
    rw [String.toList_append, String.toList_append, List.append_assoc, List.drop_left]
  rw [episodeIdFromLayer, hsample]
  dsimp only
  rw [hfound]
  dsimp only
  rw [hdigits, hlength, hcut, List.take_left, String.ofList_toList]

end Hsim.Host
