import Mathlib.Data.List.Basic
import Mathlib.Tactic.IntervalCases

/-! JSON texts.

The grammar says what a text of JSON is. A text that a program writes piece by
piece is known in parts only: the literals are fixed, and of what is printed
between them only the kind is known. `Segment` is such a piece, and `scan` follows
the brackets, names, colons and commas of the literals through a list of
segments, taking a printed number for a value and printed characters for a part of
the string they stand in.

`scan_object`: segments that scan to the end of an object are the text of one,
whatever is printed, as long as it is of its kind. -/
namespace Hsim.Lib.JsonText

/-! ### The grammar -/

def isBlank (c : Char) : Bool := c == ' ' || c == '\n' || c == '\t' || c == '\r'

/-- What may stand between two tokens. -/
def Blank (t : List Char) : Prop := ∀ c ∈ t, isBlank c = true

def Digits (t : List Char) : Prop := t ≠ [] ∧ ∀ c ∈ t, c.isDigit = true

/-- Digits without a leading zero. -/
def Whole (t : List Char) : Prop := Digits t ∧ (t.head? = some '0' → t = ['0'])

def Fraction (t : List Char) : Prop := t = [] ∨ ∃ d, Digits d ∧ t = '.' :: d

def Exponent (t : List Char) : Prop :=
  t = [] ∨ ∃ mark sign d, (mark = 'e' ∨ mark = 'E') ∧ (sign = [] ∨ sign = ['+'] ∨ sign = ['-']) ∧
    Digits d ∧ t = mark :: (sign ++ d)

def Number (t : List Char) : Prop :=
  ∃ sign whole fraction exponent, (sign = [] ∨ sign = ['-']) ∧ Whole whole ∧ Fraction fraction ∧
    Exponent exponent ∧ t = sign ++ (whole ++ (fraction ++ exponent))

/-- A character that stands for itself in a string. -/
def isPlain (c : Char) : Bool := decide (' ' ≤ c) && c != '"' && c != '\\'

def isHex (c : Char) : Bool := c.isDigit || ('a' ≤ c && c ≤ 'f') || ('A' ≤ c && c ≤ 'F')

/-- What stands between the quotes of a string. -/
inductive Chars : List Char → Prop where
  | nil : Chars []
  | plain {c : Char} {t : List Char} (hc : isPlain c = true) (ht : Chars t) : Chars (c :: t)
  | escape {c : Char} {t : List Char} (hc : c ∈ ['"', '\\', '/', 'b', 'f', 'n', 'r', 't']) (ht : Chars t) :
      Chars ('\\' :: c :: t)
  | unicode {a b c d : Char} {t : List Char} (hhex : [a, b, c, d].all isHex = true) (ht : Chars t) :
      Chars ('\\' :: 'u' :: a :: b :: c :: d :: t)

mutual

inductive Value : List Char → Prop where
  | null : Value "null".toList
  | true_ : Value "true".toList
  | false_ : Value "false".toList
  | number {t : List Char} (h : Number t) : Value t
  | string {t : List Char} (h : Chars t) : Value ('"' :: (t ++ ['"']))
  | emptyArray {t : List Char} (h : Blank t) : Value ('[' :: (t ++ [']']))
  | array {t : List Char} (h : Elements t) : Value ('[' :: (t ++ [']']))
  | emptyObject {t : List Char} (h : Blank t) : Value ('{' :: (t ++ ['}']))
  | object {t : List Char} (h : Members t) : Value ('{' :: (t ++ ['}']))

/-- One value or more, with commas between them. -/
inductive Elements : List Char → Prop where
  | one {a v b : List Char} (ha : Blank a) (hv : Value v) (hb : Blank b) : Elements (a ++ (v ++ b))
  | more {a v b t : List Char} (ha : Blank a) (hv : Value v) (hb : Blank b) (ht : Elements t) :
      Elements (a ++ (v ++ (b ++ ',' :: t)))

/-- One named value or more, with commas between them. -/
inductive Members : List Char → Prop where
  | one {a k b c v d : List Char} (ha : Blank a) (hk : Chars k) (hb : Blank b) (hc : Blank c)
      (hv : Value v) (hd : Blank d) : Members (a ++ '"' :: (k ++ '"' :: (b ++ ':' :: (c ++ (v ++ d)))))
  | more {a k b c v d t : List Char} (ha : Blank a) (hk : Chars k) (hb : Blank b) (hc : Blank c)
      (hv : Value v) (hd : Blank d) (ht : Members t) :
      Members (a ++ '"' :: (k ++ '"' :: (b ++ ':' :: (c ++ (v ++ (d ++ ',' :: t))))))

end

/-- A text that is one object, blanks apart. -/
def Object (t : List Char) : Prop :=
  ∃ a u b, Blank a ∧ (Blank u ∨ Members u) ∧ Blank b ∧ t = a ++ '{' :: (u ++ '}' :: b)

theorem Blank.cons {c : Char} {t : List Char} (hc : isBlank c = true) (h : Blank t) : Blank (c :: t) :=
  List.forall_mem_cons.mpr ⟨hc, h⟩

theorem Blank.append {a b : List Char} (ha : Blank a) (hb : Blank b) : Blank (a ++ b) :=
  List.forall_mem_append.mpr ⟨ha, hb⟩

theorem Chars.append {a b : List Char} (ha : Chars a) (hb : Chars b) : Chars (a ++ b) := by
  induction ha with
  | nil => exact hb
  | plain hc _ ih => exact .plain hc ih
  | escape hc _ ih => exact .escape hc ih
  | unicode hhex _ ih => exact .unicode hhex ih

theorem chars_of_plain {t : List Char} (h : ∀ c ∈ t, isPlain c = true) : Chars t := by
  induction t with
  | nil => exact .nil
  | cons c t ih =>
    obtain ⟨hc, ht⟩ := List.forall_mem_cons.mp h
    exact .plain hc (ih ht)

/-! ### Numbers as they are printed -/

theorem whole_toDigits (n : Nat) : Whole (Nat.toDigits 10 n) := by
  refine ⟨⟨Nat.toDigits_ne_nil, fun c hc => Nat.isDigit_of_mem_toDigits (by decide) (by decide) hc⟩, ?_⟩
  intro hzero
  rcases Nat.lt_or_ge n 10 with hlt | hge
  · rw [Nat.toDigits_of_lt_base hlt] at hzero ⊢
    exact congrArg (· :: []) (Option.some_inj.mp hzero)
  · -- A number of two digits or more begins as its quotient by ten does.
    exfalso
    induction n using Nat.strong_induction_on with
    | _ n ih =>
      rw [Nat.toDigits_of_base_le (by decide) hge,
        List.head?_append_of_ne_nil _ Nat.toDigits_ne_nil] at hzero
      rcases Nat.lt_or_ge (n / 10) 10 with hlt | hge'
      · rw [Nat.toDigits_of_lt_base hlt, List.head?_cons, Option.some_inj] at hzero
        have hpos : 0 < n / 10 := Nat.div_pos hge (by decide)
        generalize n / 10 = q at hlt hpos hzero
        interval_cases q <;> simp [Nat.digitChar] at hzero
      · exact ih (n / 10) (Nat.div_lt_self (by omega) (by decide)) hzero hge'

theorem number_nat (n : Nat) : Number (toString n).toList := by
  refine ⟨[], Nat.toDigits 10 n, [], [], .inl rfl, whole_toDigits n, .inl rfl, .inl rfl, ?_⟩
  rw [Nat.toString_eq_repr, Nat.toList_repr, List.append_nil, List.append_nil, List.nil_append]

theorem number_int (i : Int) : Number (toString i).toList := by
  cases i with
  | ofNat n => exact number_nat n
  | negSucc n =>
    refine ⟨['-'], Nat.toDigits 10 (n + 1), [], [], .inr rfl, whole_toDigits (n + 1), .inl rfl,
      .inl rfl, ?_⟩
    show ("-" ++ (n + 1).repr).toList = _
    rw [String.toList_append, Nat.toList_repr, List.append_nil, List.append_nil]
    rfl

/-! ### What follows a value -/

/-- What may follow a value in an array, up to its bracket. -/
def ElementsRest (t : List Char) : Prop := Blank t ∨ ∃ a u, Blank a ∧ Elements u ∧ t = a ++ ',' :: u

/-- What may follow a value in an object, up to its brace. -/
def MembersRest (t : List Char) : Prop := Blank t ∨ ∃ a u, Blank a ∧ Members u ∧ t = a ++ ',' :: u

theorem elements_of_rest {a v t : List Char} (ha : Blank a) (hv : Value v) (ht : ElementsRest t) :
    Elements (a ++ (v ++ t)) := by
  rcases ht with ht | ⟨b, u, hb, hu, rfl⟩
  · exact .one ha hv ht
  · exact .more ha hv hb hu

theorem members_of_rest {a k b c v t : List Char} (ha : Blank a) (hk : Chars k) (hb : Blank b)
    (hc : Blank c) (hv : Value v) (ht : MembersRest t) :
    Members (a ++ '"' :: (k ++ '"' :: (b ++ ':' :: (c ++ (v ++ t))))) := by
  rcases ht with ht | ⟨d, u, hd, hu, rfl⟩
  · exact .one ha hk hb hc hv ht
  · exact .more ha hk hb hc hv hd hu

theorem Elements.blank {w t : List Char} (hw : Blank w) (h : Elements t) : Elements (w ++ t) := by
  cases h with
  | one ha hv hb =>
    rw [← List.append_assoc]
    exact .one (hw.append ha) hv hb
  | more ha hv hb ht =>
    rw [← List.append_assoc]
    exact .more (hw.append ha) hv hb ht

theorem Members.blank {w t : List Char} (hw : Blank w) (h : Members t) : Members (w ++ t) := by
  cases h with
  | one ha hk hb hc hv hd =>
    rw [← List.append_assoc]
    exact .one (hw.append ha) hk hb hc hv hd
  | more ha hk hb hc hv hd ht =>
    rw [← List.append_assoc]
    exact .more (hw.append ha) hk hb hc hv hd ht

theorem ElementsRest.blank {w t : List Char} (hw : Blank w) (h : ElementsRest t) :
    ElementsRest (w ++ t) := by
  rcases h with h | ⟨a, u, ha, hu, rfl⟩
  · exact .inl (hw.append h)
  · exact .inr ⟨w ++ a, u, hw.append ha, hu, (List.append_assoc ..).symm⟩

theorem MembersRest.blank {w t : List Char} (hw : Blank w) (h : MembersRest t) :
    MembersRest (w ++ t) := by
  rcases h with h | ⟨a, u, ha, hu, rfl⟩
  · exact .inl (hw.append h)
  · exact .inr ⟨w ++ a, u, hw.append ha, hu, (List.append_assoc ..).symm⟩

/-! ### Scanning -/

inductive Frame where
  | array
  | object
  deriving DecidableEq, Repr

/-- Where a scanner is. At `items`, and at the places of a name, the innermost bracket is
known, and the frames of the state are those around it. -/
inductive Place where
  /-- Before the brace of the text's object. -/
  | start
  | value
  /-- Behind `[`. -/
  | items
  /-- Behind a value. -/
  | after
  /-- Behind `{`. -/
  | names
  /-- Behind a comma of an object. -/
  | name
  | inName
  | colon
  | inText
  deriving DecidableEq, Repr

structure State where
  place : Place
  frames : List Frame
  deriving DecidableEq, Repr

/-- A digit is a number by itself: no digit may follow it. -/
def beginValue (frames : List Frame) (c : Char) : Option State :=
  if c = '{' then some ⟨.names, frames⟩
  else if c = '[' then some ⟨.items, frames⟩
  else if c = '"' then some ⟨.inText, frames⟩
  else if c.isDigit then some ⟨.after, frames⟩
  else none

def endValue : List Frame → Char → Option State
  | [], _ => none
  | .array :: frames, c =>
    if c = ',' then some ⟨.value, .array :: frames⟩
    else if c = ']' then some ⟨.after, frames⟩
    else none
  | .object :: frames, c =>
    if c = ',' then some ⟨.name, frames⟩
    else if c = '}' then some ⟨.after, frames⟩
    else none

/-- Between two tokens a blank changes nothing. -/
def Place.skips : Place → Bool
  | .inName | .inText => false
  | _ => true

/-- One character that is not skipped. -/
def scanToken : Place → List Frame → Char → Option State
  | .start, frames, c => if c = '{' then some ⟨.names, frames⟩ else none
  | .value, frames, c => beginValue frames c
  | .items, frames, c =>
    if c = ']' then some ⟨.after, frames⟩ else beginValue (.array :: frames) c
  | .after, frames, c => endValue frames c
  | .names, frames, c =>
    if c = '}' then some ⟨.after, frames⟩
    else if c = '"' then some ⟨.inName, frames⟩
    else none
  | .name, frames, c => if c = '"' then some ⟨.inName, frames⟩ else none
  | .inName, frames, c =>
    if c = '"' then some ⟨.colon, frames⟩
    else if isPlain c then some ⟨.inName, frames⟩
    else none
  | .colon, frames, c => if c = ':' then some ⟨.value, .object :: frames⟩ else none
  | .inText, frames, c =>
    if c = '"' then some ⟨.after, frames⟩
    else if isPlain c then some ⟨.inText, frames⟩
    else none

def scanChar (s : State) (c : Char) : Option State :=
  if s.place.skips && isBlank c then some s else scanToken s.place s.frames c

/-- A piece of a text: fixed, or of a kind. -/
inductive Segment where
  | literal (t : String)
  | blank (t : String)
  | number (t : String)
  | chars (t : String)
  deriving DecidableEq, Repr

def Segment.text : Segment → String
  | .literal t | .blank t | .number t | .chars t => t

/-- The piece is of its kind. -/
def Segment.Honest : Segment → Prop
  | .literal _ => True
  | .blank t => Blank t.toList
  | .number t => Number t.toList
  | .chars t => Chars t.toList

def scanSegment (s : State) : Segment → Option State
  | .literal t => t.toList.foldlM scanChar s
  | .blank _ => if s.place.skips then some s else none
  | .number _ =>
    match s with
    | ⟨.value, frames⟩ => some ⟨.after, frames⟩
    | ⟨.items, frames⟩ => some ⟨.after, .array :: frames⟩
    | _ => none
  | .chars _ => if s.place.skips then none else some s

def scan (s : State) (segments : List Segment) : Option State := segments.foldlM scanSegment s

/-- The text of a list of pieces. -/
def text (segments : List Segment) : String := String.join (segments.map Segment.text)

theorem scan_append {s s' : State} {a b : List Segment} (h : scan s a = some s') :
    scan s (a ++ b) = scan s' b := by
  rw [scan, List.foldlM_append]
  show scan s a >>= _ = _
  rw [h]
  rfl

/-- One piece after the other. -/
theorem scan_piece {s s₁ s' : State} {segment : Segment} {rest : List Segment}
    (h : scanSegment s segment = some s₁) (hrest : scan s₁ rest = some s') :
    scan s (segment :: rest) = some s' := by
  rw [scan, List.foldlM_cons, h]
  exact hrest

/-- A long literal is followed faster as a list of characters. -/
theorem scan_literal {s s₁ s' : State} {t : List Char} {rest : List Segment}
    (ht : t.foldlM scanChar s = some s₁) (hrest : scan s₁ rest = some s') :
    scan s (.literal (String.ofList t) :: rest) = some s' := by
  refine scan_piece ?_ hrest
  rw [scanSegment, String.toList_ofList, ht]

/-! ### What a scanner still demands -/

/-- The text from behind a value to the end, with these brackets open. -/
def Closes : List Frame → List Char → Prop
  | [], t => Blank t
  | .array :: frames, t => ∃ u r, ElementsRest u ∧ Closes frames r ∧ t = u ++ ']' :: r
  | .object :: frames, t => ∃ u r, MembersRest u ∧ Closes frames r ∧ t = u ++ '}' :: r

/-- The text from a place to the end. -/
def Demands : Place → List Frame → List Char → Prop
  | .start, frames, t => ∃ a u r, Blank a ∧ (Blank u ∨ Members u) ∧ Closes frames r ∧
      t = a ++ '{' :: (u ++ '}' :: r)
  | .value, frames, t => ∃ a v r, Blank a ∧ Value v ∧ Closes frames r ∧ t = a ++ (v ++ r)
  | .items, frames, t => ∃ u r, (Blank u ∨ Elements u) ∧ Closes frames r ∧ t = u ++ ']' :: r
  | .after, frames, t => Closes frames t
  | .names, frames, t => ∃ u r, (Blank u ∨ Members u) ∧ Closes frames r ∧ t = u ++ '}' :: r
  | .name, frames, t => ∃ u r, Members u ∧ Closes frames r ∧ t = u ++ '}' :: r
  | .inName, frames, t => ∃ k b c v u r, Chars k ∧ Blank b ∧ Blank c ∧ Value v ∧ MembersRest u ∧
      Closes frames r ∧ t = k ++ '"' :: (b ++ ':' :: (c ++ (v ++ (u ++ '}' :: r))))
  | .colon, frames, t => ∃ b c v u r, Blank b ∧ Blank c ∧ Value v ∧ MembersRest u ∧
      Closes frames r ∧ t = b ++ ':' :: (c ++ (v ++ (u ++ '}' :: r)))
  | .inText, frames, t => ∃ k r, Chars k ∧ Closes frames r ∧ t = k ++ '"' :: r

theorem Closes.blank {frames : List Frame} {w t : List Char} (hw : Blank w) (h : Closes frames t) :
    Closes frames (w ++ t) := by
  cases frames with
  | nil => exact Blank.append hw h
  | cons frame frames =>
    cases frame with
    | array =>
      obtain ⟨u, r, hu, hr, rfl⟩ := h
      exact ⟨w ++ u, r, hu.blank hw, hr, (List.append_assoc ..).symm⟩
    | object =>
      obtain ⟨u, r, hu, hr, rfl⟩ := h
      exact ⟨w ++ u, r, hu.blank hw, hr, (List.append_assoc ..).symm⟩

theorem Demands.blank {place : Place} {frames : List Frame} {w t : List Char} (hskips : place.skips = true)
    (hw : Blank w) (h : Demands place frames t) : Demands place frames (w ++ t) := by
  cases place with
  | start =>
    obtain ⟨a, u, r, ha, hu, hr, rfl⟩ := h
    exact ⟨w ++ a, u, r, hw.append ha, hu, hr, (List.append_assoc ..).symm⟩
  | value =>
    obtain ⟨a, v, r, ha, hv, hr, rfl⟩ := h
    exact ⟨w ++ a, v, r, hw.append ha, hv, hr, (List.append_assoc ..).symm⟩
  | items =>
    obtain ⟨u, r, hu, hr, rfl⟩ := h
    exact ⟨w ++ u, r, hu.imp hw.append (Elements.blank hw), hr, (List.append_assoc ..).symm⟩
  | after => exact Closes.blank hw h
  | names =>
    obtain ⟨u, r, hu, hr, rfl⟩ := h
    exact ⟨w ++ u, r, hu.imp hw.append (Members.blank hw), hr, (List.append_assoc ..).symm⟩
  | name =>
    obtain ⟨u, r, hu, hr, rfl⟩ := h
    exact ⟨w ++ u, r, hu.blank hw, hr, (List.append_assoc ..).symm⟩
  | inName => cases hskips
  | colon =>
    obtain ⟨b, c, v, u, r, hb, hc, hv, hu, hr, rfl⟩ := h
    exact ⟨w ++ b, c, v, u, r, hw.append hb, hc, hv, hu, hr, (List.append_assoc ..).symm⟩
  | inText => cases hskips

theorem blank_nil : Blank [] := List.forall_mem_nil _

theorem number_digit {c : Char} (hc : c.isDigit = true) : Number [c] := by
  refine ⟨[], [c], [], [], .inl rfl, ⟨⟨by simp, by simpa using hc⟩, fun h => ?_⟩, .inl rfl, .inl rfl, rfl⟩
  rw [List.head?_cons, Option.some_inj] at h
  rw [h]

/-- The first character of a value, and what it opens. -/
theorem beginValue_demands {frames : List Frame} {c : Char} {s : State} {t : List Char}
    (h : beginValue frames c = some s) (ht : Demands s.place s.frames t) :
    ∃ v r, Value v ∧ Closes frames r ∧ c :: t = v ++ r := by
  unfold beginValue at h
  split at h
  · next hc =>
    cases h
    obtain ⟨u, r, hu, hr, rfl⟩ := ht
    refine ⟨'{' :: (u ++ ['}']), r, ?_, hr, by simp [hc]⟩
    exact hu.elim .emptyObject .object
  · split at h
    · next hc =>
      cases h
      obtain ⟨u, r, hu, hr, rfl⟩ := ht
      refine ⟨'[' :: (u ++ [']']), r, ?_, hr, by simp [hc]⟩
      exact hu.elim .emptyArray .array
    · split at h
      · next hc =>
        cases h
        obtain ⟨k, r, hk, hr, rfl⟩ := ht
        exact ⟨'"' :: (k ++ ['"']), r, .string hk, hr, by simp [hc]⟩
      · obtain ⟨hdigit, h⟩ := Option.ite_none_right_eq_some.mp h
        cases h
        exact ⟨[c], t, .number (number_digit hdigit), ht, rfl⟩

/-- What follows a value: a comma, or the end of its bracket. -/
theorem endValue_demands {frames : List Frame} {c : Char} {s : State} {t : List Char}
    (h : endValue frames c = some s) (ht : Demands s.place s.frames t) : Closes frames (c :: t) := by
  unfold endValue at h
  split at h
  · cases h
  · split at h
    · next hc =>
      cases h
      obtain ⟨a, v, r, ha, hv, ⟨u, r', hu, hr', rfl⟩, rfl⟩ := ht
      refine ⟨',' :: (a ++ (v ++ u)), r', .inr ⟨[], _, blank_nil, elements_of_rest ha hv hu, rfl⟩, hr', ?_⟩
      simp [hc]
    · obtain ⟨hc, h⟩ := Option.ite_none_right_eq_some.mp h
      cases h
      exact ⟨[], t, .inl blank_nil, ht, by rw [hc, List.nil_append]⟩
  · split at h
    · next hc =>
      cases h
      obtain ⟨u, r, hu, hr, rfl⟩ := ht
      exact ⟨',' :: u, r, .inr ⟨[], u, blank_nil, hu, rfl⟩, hr, by rw [hc, List.cons_append]⟩
    · obtain ⟨hc, h⟩ := Option.ite_none_right_eq_some.mp h
      cases h
      exact ⟨[], t, .inl blank_nil, ht, by rw [hc, List.nil_append]⟩

theorem scanToken_demands {place : Place} {frames : List Frame} {c : Char} {s : State} {t : List Char}
    (h : scanToken place frames c = some s) (ht : Demands s.place s.frames t) :
    Demands place frames (c :: t) := by
  cases place with
  | start =>
    obtain ⟨rfl, h⟩ := Option.ite_none_right_eq_some.mp h
    cases h
    obtain ⟨u, r, hu, hr, rfl⟩ := ht
    exact ⟨[], u, r, blank_nil, hu, hr, rfl⟩
  | value =>
    obtain ⟨v, r, hv, hr, heq⟩ := beginValue_demands h ht
    exact ⟨[], v, r, blank_nil, hv, hr, heq⟩
  | items =>
    rw [scanToken] at h
    split at h
    · next hc =>
      cases h
      exact ⟨[], t, .inl blank_nil, ht, by rw [hc, List.nil_append]⟩
    · obtain ⟨v, r, hv, ⟨u, r', hu, hr', rfl⟩, heq⟩ := beginValue_demands h ht
      refine ⟨v ++ u, r', .inr (elements_of_rest blank_nil hv hu), hr', ?_⟩
      rw [heq, List.append_assoc]
  | after => exact endValue_demands h ht
  | names =>
    rw [scanToken] at h
    split at h
    · next hc =>
      cases h
      exact ⟨[], t, .inl blank_nil, ht, by rw [hc, List.nil_append]⟩
    · obtain ⟨rfl, h⟩ := Option.ite_none_right_eq_some.mp h
      cases h
      obtain ⟨k, b, d, v, u, r, hk, hb, hd, hv, hu, hr, rfl⟩ := ht
      refine ⟨_, r, .inr (members_of_rest blank_nil hk hb hd hv hu), hr, ?_⟩
      simp
  | name =>
    obtain ⟨rfl, h⟩ := Option.ite_none_right_eq_some.mp h
    cases h
    obtain ⟨k, b, d, v, u, r, hk, hb, hd, hv, hu, hr, rfl⟩ := ht
    refine ⟨_, r, members_of_rest blank_nil hk hb hd hv hu, hr, ?_⟩
    simp
  | inName =>
    rw [scanToken] at h
    split at h
    · next hc =>
      cases h
      obtain ⟨b, d, v, u, r, hb, hd, hv, hu, hr, rfl⟩ := ht
      exact ⟨[], b, d, v, u, r, .nil, hb, hd, hv, hu, hr, by rw [hc, List.nil_append]⟩
    · obtain ⟨hplain, h⟩ := Option.ite_none_right_eq_some.mp h
      cases h
      obtain ⟨k, b, d, v, u, r, hk, hb, hd, hv, hu, hr, rfl⟩ := ht
      exact ⟨c :: k, b, d, v, u, r, .plain hplain hk, hb, hd, hv, hu, hr, rfl⟩
  | colon =>
    obtain ⟨rfl, h⟩ := Option.ite_none_right_eq_some.mp h
    cases h
    obtain ⟨a, v, r, ha, hv, ⟨u, r', hu, hr', rfl⟩, rfl⟩ := ht
    exact ⟨[], a, v, u, r', blank_nil, ha, hv, hu, hr', rfl⟩
  | inText =>
    rw [scanToken] at h
    split at h
    · next hc =>
      cases h
      exact ⟨[], t, .nil, ht, by rw [hc, List.nil_append]⟩
    · obtain ⟨hplain, h⟩ := Option.ite_none_right_eq_some.mp h
      cases h
      obtain ⟨k, r, hk, hr, rfl⟩ := ht
      exact ⟨c :: k, r, .plain hplain hk, hr, rfl⟩

theorem scanChar_demands {s s' : State} {c : Char} {t : List Char} (h : scanChar s c = some s')
    (ht : Demands s'.place s'.frames t) : Demands s.place s.frames (c :: t) := by
  unfold scanChar at h
  split at h
  · next hblank =>
    cases h
    obtain ⟨hskips, hc⟩ := Bool.and_eq_true_iff.mp hblank
    exact Demands.blank hskips (w := [c]) (blank_nil.cons hc) ht
  · exact scanToken_demands h ht

theorem scanChars_demands {s s' : State} {cs t : List Char} (h : cs.foldlM scanChar s = some s')
    (ht : Demands s'.place s'.frames t) : Demands s.place s.frames (cs ++ t) := by
  induction cs generalizing s with
  | nil =>
    cases h
    exact ht
  | cons c cs ih =>
    obtain ⟨s₁, hfirst, hrest⟩ := Option.bind_eq_some_iff.mp h
    exact scanChar_demands hfirst (ih hrest)

theorem scanSegment_demands {s s' : State} {segment : Segment} {t : List Char} (hhonest : segment.Honest)
    (h : scanSegment s segment = some s') (ht : Demands s'.place s'.frames t) :
    Demands s.place s.frames (segment.text.toList ++ t) := by
  cases segment with
  | literal text => exact scanChars_demands h ht
  | blank text =>
    obtain ⟨hskips, h⟩ := Option.ite_none_right_eq_some.mp h
    cases h
    exact Demands.blank hskips hhonest ht
  | number text =>
    obtain ⟨place, frames⟩ := s
    cases place with
    | value =>
      cases h
      exact ⟨[], _, t, blank_nil, .number hhonest, ht, rfl⟩
    | items =>
      cases h
      obtain ⟨u, r, hu, hr, rfl⟩ := ht
      refine ⟨_, r, .inr (elements_of_rest blank_nil (.number hhonest) hu), hr, ?_⟩
      simp [Segment.text]
    | start | after | names | name | inName | colon | inText => cases h
  | chars text =>
    obtain ⟨hskips, h⟩ := Option.ite_none_left_eq_some.mp h
    cases h
    obtain ⟨place, frames⟩ := s
    cases place with
    | inName =>
      obtain ⟨k, b, c, v, u, r, hk, hb, hc, hv, hu, hr, rfl⟩ := ht
      exact ⟨_, b, c, v, u, r, Chars.append hhonest hk, hb, hc, hv, hu, hr, (List.append_assoc ..).symm⟩
    | inText =>
      obtain ⟨k, r, hk, hr, rfl⟩ := ht
      exact ⟨_, r, Chars.append hhonest hk, hr, (List.append_assoc ..).symm⟩
    | start | value | items | after | names | name | colon => exact absurd rfl hskips

theorem scan_demands {s s' : State} {segments : List Segment} {t : List Char}
    (hhonest : ∀ segment ∈ segments, segment.Honest) (h : scan s segments = some s')
    (ht : Demands s'.place s'.frames t) : Demands s.place s.frames ((text segments).toList ++ t) := by
  induction segments generalizing s with
  | nil =>
    cases h
    simpa [text] using ht
  | cons segment segments ih =>
    obtain ⟨hfirst, hrest⟩ := List.forall_mem_cons.mp hhonest
    obtain ⟨s₁, hsegment, hsegments⟩ := Option.bind_eq_some_iff.mp h
    have htail := scanSegment_demands hfirst hsegment (ih hrest hsegments)
    rw [text, List.map_cons, String.join_cons, String.toList_append, List.append_assoc]
    exact htail

/-- **Honest segments that scan to the end of an object are the text of one.** -/
theorem scan_object {segments : List Segment} (hhonest : ∀ segment ∈ segments, segment.Honest)
    (h : scan ⟨.start, []⟩ segments = some ⟨.after, []⟩) : Object (text segments).toList := by
  have hdemands := scan_demands hhonest h (t := []) blank_nil
  rw [List.append_nil] at hdemands
  exact hdemands

end Hsim.Lib.JsonText
