import Mathlib.Data.Rat.Floor

/-! Parsed JSON, as the simulator reads it.

The configuration and the control trace come through `Json::Value`. Its accessors
convert where they can and throw where they cannot: a missing member reads as
null, null converts to zero, the empty string or false, and indexing anything
but an object or null is an error. Numbers with a fraction or an exponent keep
their text for `asString`. -/
namespace Hsim

/-- `Json::Value`. Members of an object are in key order. -/
inductive Json where
  | null
  | bool (b : Bool)
  | int (n : Int)
  | real (value : Rat) (text : String)
  | str (s : String)
  | arr (elements : List Json)
  | obj (members : List (String × Json))

namespace Json

def isNull : Json → Bool
  | null => true
  | _ => false

def isArray : Json → Bool
  | arr _ => true
  | _ => false

def isString : Json → Bool
  | str _ => true
  | _ => false

/-- `isUInt`: an integral number in the range of an unsigned int. -/
def isUInt : Json → Bool
  | int n => decide (0 ≤ n ∧ n < 2 ^ 32)
  | real v _ => decide (0 ≤ v ∧ v < 2 ^ 32 ∧ v.isInt)
  | _ => false

/-- `find`, where null has no members. -/
def find (j : Json) (key : String) : Except String (Option Json) :=
  match j with
  | null => .ok none
  | obj members => .ok (members.lookup key)
  | _ => .error "in Json::Value::find(begin, end): requires objectValue or nullValue"

/-- `value[key]`: null for a missing member. -/
def field (j : Json) (key : String) : Except String Json := do
  return (← j.find key).getD .null

/-- `value.get(key, default)`. A member that is present and null is not replaced. -/
def get (j : Json) (key : String) (default : Json) : Except String Json := do
  return (← j.find key).getD default

def isMember (j : Json) (key : String) : Except String Bool := do
  return (← j.find key).isSome

def getMemberNames : Json → Except String (List String)
  | null => .ok []
  | obj members => .ok (members.map (·.1))
  | _ => .error "in Json::Value::getMemberNames(), value must be objectValue"

/-- The values a range-for over a `Json::Value` visits. -/
def elements : Json → List Json
  | arr l => l
  | obj members => members.map (·.2)
  | _ => []

/-- The unsigned conversions, by their bound. A real in range is truncated. -/
def toNatBelow (bound : Nat) (kind : String) : Json → Except String Nat
  | null => .ok 0
  | bool b => .ok b.toNat
  | int n =>
    if 0 ≤ n ∧ n < bound then .ok n.toNat
    else .error ("LargestInt out of " ++ kind ++ " range")
  | real v _ =>
    if 0 ≤ v ∧ v ≤ bound - 1 then .ok v.floor.toNat
    else .error ("double out of " ++ kind ++ " range")
  | _ => .error ("Value is not convertible to " ++ kind ++ ".")

def asUInt (j : Json) : Except String UInt32 := do
  return UInt32.ofNat (← j.toNatBelow (2 ^ 32) "UInt")

def asUInt64 (j : Json) : Except String UInt64 := do
  return UInt64.ofNat (← j.toNatBelow (2 ^ 64) "UInt64")

/-- Truncation towards zero. -/
def truncate (v : Rat) : Int := if 0 ≤ v then v.floor else v.ceil

/-- The signed conversions, by their bound. -/
def toIntBelow (bound : Nat) (kind : String) : Json → Except String Int
  | null => .ok 0
  | bool b => .ok b.toNat
  | int n =>
    if -bound ≤ n ∧ n < bound then .ok n else .error ("LargestInt out of " ++ kind ++ " range")
  | real v _ =>
    if -bound ≤ v ∧ v ≤ bound - 1 then .ok (truncate v)
    else .error ("double out of " ++ kind ++ " range")
  | _ => .error ("Value is not convertible to " ++ kind ++ ".")

def asInt (j : Json) : Except String Int := j.toIntBelow (2 ^ 31) "Int"

def asInt64 (j : Json) : Except String Int := j.toIntBelow (2 ^ 63) "Int64"

def asBool : Json → Except String Bool
  | null => .ok false
  | bool b => .ok b
  | int n => .ok (n != 0)
  | real v _ => .ok (v != 0)
  | _ => .error "Value is not convertible to bool."

/-- `asDouble`, with the exact value. -/
def asDouble : Json → Except String Rat
  | null => .ok 0
  | bool b => .ok b.toNat
  | int n => .ok n
  | real v _ => .ok v
  | _ => .error "Value is not convertible to double."

def asString : Json → Except String String
  | null => .ok ""
  | str s => .ok s
  | bool b => .ok (if b then "true" else "false")
  | int n => .ok (toString n)
  | real _ text => .ok text
  | _ => .error "Type is not convertible to string"

end Json

/-- `if (bad) throw std::runtime_error(message)`. -/
def reject (bad : Prop) [Decidable bad] (message : String) : Except String Unit :=
  if bad then .error message else .ok ()

theorem reject_eq_ok {bad : Prop} [Decidable bad] {message : String} {u : Unit} :
    reject bad message = .ok u ↔ ¬ bad := by
  unfold reject
  split <;> simp_all

/-- What is read, one value after the other. -/
theorem bind_eq_ok {α β : Type} {x : Except String α} {f : α → Except String β} {b : β} :
    x >>= f = .ok b ↔ ∃ a, x = .ok a ∧ f a = .ok b := by
  cases x with
  | error e => simp [bind, Except.bind]
  | ok a => simp [bind, Except.bind]

/-- The choice a text names, of the ones an option has. -/
def oneOf {α : Type} (choices : List (String × α)) (message text : String) : Except String α :=
  match choices.lookup text with
  | some choice => .ok choice
  | none => .error message

/-- A sequence of fallible steps succeeds when each does. -/
theorem ok_of_bind {ε α β : Type} {x : Except ε α} {f : α → Except ε β} {b : β}
    (h : (x >>= f) = .ok b) : ∃ a, x = .ok a ∧ f a = .ok b := by
  cases x with
  | error e => cases h
  | ok a => exact ⟨a, rfl, h⟩

/-- A computation that is seen to end with a value. -/
theorem ok_of_any {α : Type} {x : Except String α} {P : α → Bool} (h : x.toOption.any P = true) :
    ∃ a, x = .ok a ∧ P a = true := by
  cases x with
  | error message => cases h
  | ok a => exact ⟨a, rfl, h⟩

theorem not_of_reject {bad : Prop} [Decidable bad] {message : String} {u : Unit}
    (h : reject bad message = .ok u) : ¬bad := by
  intro hbad
  rw [reject, if_pos hbad] at h
  cases h

/-- Every element of the result of a traversal comes from one of its steps. -/
theorem mem_of_mapM {ε α β : Type} {f : α → Except ε β} {l : List α} {l' : List β}
    (h : l.mapM f = .ok l') : ∀ b ∈ l', ∃ a ∈ l, f a = .ok b := by
  induction l generalizing l' with
  | nil =>
    cases h
    simp
  | cons a l ih =>
    rw [List.mapM_cons] at h
    obtain ⟨b, hb, h⟩ := ok_of_bind h
    obtain ⟨rest, hrest, h⟩ := ok_of_bind h
    cases h
    intro c hc
    rcases List.mem_cons.mp hc with rfl | hc
    · exact ⟨a, List.mem_cons_self, hb⟩
    · obtain ⟨a', ha', hc⟩ := ih hrest c hc
      exact ⟨a', List.mem_cons_of_mem _ ha', hc⟩

/-- A traversal succeeds when each of its steps does. -/
theorem mapM_eq_ok_iff {ε α β : Type} {f : α → Except ε β} {l : List α} {l' : List β} :
    l.mapM f = .ok l' ↔ List.Forall₂ (fun a b => f a = .ok b) l l' := by
  induction l generalizing l' with
  | nil =>
    constructor
    · intro h
      cases h
      exact .nil
    · intro h
      cases h
      rfl
  | cons a l ih =>
    constructor
    · intro h
      rw [List.mapM_cons] at h
      obtain ⟨b, hb, h⟩ := ok_of_bind h
      obtain ⟨rest, hrest, h⟩ := ok_of_bind h
      cases h
      exact .cons hb (ih.mp hrest)
    · intro h
      cases h with
      | cons hb hrest =>
        rw [List.mapM_cons, hb, ih.mpr hrest]
        rfl

/-- What every step of a traversal establishes holds of every element of its result. -/
theorem forall_of_mapM {ε α β : Type} {f : α → Except ε β} {P : β → Prop}
    {l : List α} {l' : List β} (hf : ∀ a ∈ l, ∀ b, f a = .ok b → P b) (h : l.mapM f = .ok l') :
    ∀ b ∈ l', P b := by
  intro b hb
  obtain ⟨a, hmem, ha⟩ := mem_of_mapM h b hb
  exact hf a hmem b ha

end Hsim
