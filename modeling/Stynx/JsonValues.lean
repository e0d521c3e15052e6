import Stynx.JsonTokens

/-!
# JSON values

JSON values, their equality up to the order in which the members of an object
stand, and the values in which no object has a key twice.
-/

namespace Stynx.CanonicalJson

open JsonTokens

inductive Json where
  | null
  /-- A truth value. -/
  | bool (b : Bool)
  | num (n : JsonNumber)
  | str (s : JsString)
  | arr (items : List Json)
  /-- An object, its members in the order in which they were set. -/
  | obj (members : List (JsString × Json))

mutual

/-- Equality as JSON values. -/
def Same : Json → Json → Prop
  | .null, .null => True
  | .bool a, .bool b => a = b
  | .num m, .num n => m = n
  | .str s, .str t => s = t
  | .arr xs, .arr ys => SameItems xs ys
  | .obj ms, .obj ns => SameMembers ms ns ∧ ∀ key ∈ ns.map Prod.fst, key ∈ ms.map Prod.fst
  | _, _ => False

def SameItems : List Json → List Json → Prop
  | [], [] => True
  | x :: xs, y :: ys => Same x y ∧ SameItems xs ys
  | _, _ => False

def SameMembers : List (JsString × Json) → List (JsString × Json) → Prop
  | [], _ => True
  | (key, value) :: ms, ns => (∃ other, (key, other) ∈ ns ∧ Same value other) ∧ SameMembers ms ns

end

mutual

/-- No object has a key twice. -/
def Json.WellFormed : Json → Prop
  | .arr items => WellFormedItems items
  | .obj members => (members.map Prod.fst).Nodup ∧ WellFormedMembers members
  | _ => True

/-- No object of an array has a key twice. -/
def WellFormedItems : List Json → Prop
  | [] => True
  | x :: xs => x.WellFormed ∧ WellFormedItems xs

/-- No object under an object has a key twice. -/
def WellFormedMembers : List (JsString × Json) → Prop
  | [] => True
  | (_, value) :: ms => value.WellFormed ∧ WellFormedMembers ms

end

theorem wellFormedItems_iff {items : List Json} :
    WellFormedItems items ↔ ∀ x ∈ items, x.WellFormed := by
  induction items with
  | nil => simp [WellFormedItems]
  | cons x xs ih => simp [WellFormedItems, ih]

theorem wellFormedMembers_iff {members : List (JsString × Json)} :
    WellFormedMembers members ↔ ∀ m ∈ members, m.2.WellFormed := by
  induction members with
  | nil => simp [WellFormedMembers]
  | cons m ms ih => simp [WellFormedMembers, ih]

theorem sameMembers_iff {ms ns : List (JsString × Json)} :
    SameMembers ms ns ↔ ∀ m ∈ ms, ∃ other, (m.1, other) ∈ ns ∧ Same m.2 other := by
  induction ms with
  | nil => simp [SameMembers]
  | cons m ms ih =>
    obtain ⟨key, value⟩ := m
    simp [SameMembers, ih]

/-- The constructor of a value. -/
inductive Kind where
  | null | bool | num | str | arr | obj
  deriving DecidableEq

def Json.kind : Json → Kind
  | .null => .null
  | .bool _ => .bool
  | .num _ => .num
  | .str _ => .str
  | .arr _ => .arr
  | .obj _ => .obj

/-- The kind that a first character announces. -/
def kindOf (c : Char) : Kind :=
  if isNumberChar c then .num else if c = 'n' then .null else if c = 't' ∨ c = 'f' then .bool
  else if c = '"' then .str else if c = '[' then .arr else .obj

end Stynx.CanonicalJson
