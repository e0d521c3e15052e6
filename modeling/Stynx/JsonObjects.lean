import Stynx.CanonicalJson

/-!
# Objects as programs use them

JSON values whose objects have no key twice, with the operations of ECMAScript
on them: reading a member, the rest of an object without some members, and a
copy with one member set.
-/

namespace Stynx.JsonObjects

open JsonTokens CanonicalJson

/-- A JSON value in which no object has a key twice. -/
abbrev Value := {v : Json // v.WellFormed}

structure JsonObject where
  members : List (JsString × Json)
  wellFormed : (Json.obj members).WellFormed

variable {o p : JsonObject}

theorem JsonObject.ext (h : o.members = p.members) : o = p := by
  cases o
  cases p
  cases h
  rfl

namespace Value

def str (s : JsString) : Value := ⟨.str s, by simp [Json.WellFormed]⟩

/-- A natural number. -/
def nat (n : Nat) : Value := ⟨.num (ofNat n), by simp [Json.WellFormed]⟩

def arr (items : List Value) : Value :=
  ⟨.arr (items.map Subtype.val), by
    simp only [Json.WellFormed, wellFormedItems_iff, List.mem_map]
    rintro _ ⟨v, -, rfl⟩
    exact v.property⟩

def obj (o : JsonObject) : Value := ⟨.obj o.members, o.wellFormed⟩

theorem str_injective : Function.Injective str := fun _ _ h =>
  Json.str.inj (congrArg Subtype.val h)

theorem nat_injective : Function.Injective nat := fun _ _ h =>
  ofNat_injective (Json.num.inj (congrArg Subtype.val h))

def items : Value → Option (List Value)
  | ⟨.arr xs, h⟩ => some (xs.attach.map fun x =>
      ⟨x.val, wellFormedItems_iff.mp (by simpa only [Json.WellFormed] using h) x.val x.property⟩)
  | _ => none

/-- An object's members. -/
def object : Value → Option JsonObject
  | ⟨.obj ms, h⟩ => some ⟨ms, h⟩
  | _ => none

theorem items_arr (xs : List Value) : (arr xs).items = some xs := by
  simp only [arr, items, Option.some.injEq]
  apply List.ext_getElem
  · simp
  · intro i h₁ h₂
    apply Subtype.ext
    simp

theorem object_obj (o : JsonObject) : (obj o).object = some o := rfl

theorem eq_arr_of_items {v : Value} {xs : List Value} (h : v.items = some xs) : v = arr xs := by
  obtain ⟨j, hj⟩ := v
  cases j with
  | arr ys =>
    simp only [items, Option.some.injEq] at h
    apply Subtype.ext
    simp [arr, ← h]
  | _ => cases h

theorem eq_obj_of_object {v : Value} {o : JsonObject} (h : v.object = some o) : v = obj o := by
  obtain ⟨j, hj⟩ := v
  cases j with
  | obj ms =>
    cases h
    rfl
  | _ => cases h

end Value

namespace JsonObject

def empty : JsonObject := ⟨[], by simp [Json.WellFormed, WellFormedMembers]⟩

/-- Read a member; `none` is `undefined`. -/
def get (o : JsonObject) (key : JsString) : Option Value :=
  (o.members.attach.find? fun m => m.val.1 = key).map fun m =>
    ⟨m.val.2, wellFormedMembers_iff.mp (by have h := o.wellFormed; simp only [Json.WellFormed] at h; exact h.2)
      m.val m.property⟩

def without (o : JsonObject) (keys : List JsString) : JsonObject where
  members := o.members.filter fun m => m.1 ∉ keys
  wellFormed := by
    have h := o.wellFormed
    simp only [Json.WellFormed, wellFormedMembers_iff] at h ⊢
    exact ⟨h.1.sublist (List.filter_sublist.map _), fun m hm => h.2 m (List.mem_filter.mp hm).1⟩

def set (o : JsonObject) (key : JsString) (value : Value) : JsonObject where
  members := o.members.filter (fun m => m.1 ≠ key) ++ [(key, value.val)]
  wellFormed := by
    have h := o.wellFormed
    simp only [Json.WellFormed, wellFormedMembers_iff] at h ⊢
    constructor
    · rw [List.map_append, List.map_singleton]
      apply List.Nodup.append (h.1.sublist (List.filter_sublist.map _)) (List.nodup_singleton key)
      intro k hk hkey
      rw [List.mem_singleton.mp hkey] at hk
      obtain ⟨m, hm, heq⟩ := List.mem_map.mp hk
      simpa [heq] using (List.mem_filter.mp hm).2
    · intro m hm
      rcases List.mem_append.mp hm with hm | hm
      · exact h.2 m (List.mem_filter.mp hm).1
      · rw [List.mem_singleton.mp hm]
        exact value.property

variable {o : JsonObject} {key : JsString} {value : Value} {keys : List JsString}

theorem get_eq_some : o.get key = some value ↔ (key, value.val) ∈ o.members := by
  have hnodup := o.wellFormed
  simp only [Json.WellFormed] at hnodup
  rw [get, Option.map_eq_some_iff]
  constructor
  · rintro ⟨m, hm, rfl⟩
    have hkey : m.val.1 = key := by simpa using List.find?_some hm
    rw [← hkey]
    exact m.property
  · intro hmem
    cases hfind : o.members.attach.find? fun m => m.val.1 = key with
    | none =>
      have hnone := List.find?_eq_none.mp hfind ⟨(key, value.val), hmem⟩ (List.mem_attach _ _)
      simp at hnone
    | some m =>
      have hkey : m.val.1 = key := by simpa using List.find?_some hfind
      have hsame : m.val = (key, value.val) :=
        List.inj_on_of_nodup_map hnodup.1 m.property hmem hkey
      exact ⟨m, rfl, Subtype.ext (congrArg Prod.snd hsame)⟩

theorem get_eq_none : o.get key = none ↔ ∀ value, (key, value) ∉ o.members := by
  constructor
  · intro h value hmem
    have hvalue : value.WellFormed := by
      have hwell := o.wellFormed
      simp only [Json.WellFormed, wellFormedMembers_iff] at hwell
      exact hwell.2 _ hmem
    have hsome : o.get key = some ⟨value, hvalue⟩ := get_eq_some.mpr hmem
    rw [h] at hsome
    cases hsome
  · intro h
    cases hget : o.get key with
    | none => rfl
    | some value => exact absurd (get_eq_some.mp hget) (h value.val)

theorem get_congr {p : JsonObject}
    (h : ∀ value, (key, value) ∈ o.members ↔ (key, value) ∈ p.members) : o.get key = p.get key := by
  cases hget : p.get key with
  | none => exact get_eq_none.mpr fun value hmem => get_eq_none.mp hget value ((h value).mp hmem)
  | some value => exact get_eq_some.mpr ((h value.val).mpr (get_eq_some.mp hget))

@[simp] theorem get_empty (key : JsString) : empty.get key = none := rfl

@[simp] theorem get_set_self (o : JsonObject) (key : JsString) (value : Value) :
    (o.set key value).get key = some value :=
  get_eq_some.mpr (List.mem_concat_self)

theorem get_set_ne {other : JsString} (h : other ≠ key) :
    (o.set key value).get other = o.get other :=
  get_congr fun v => by simp [set, h]

theorem get_without (h : key ∉ keys) : (o.without keys).get key = o.get key :=
  get_congr fun v => by simp [without, h]

theorem without_set (h : key ∈ keys) : (o.set key value).without keys = o.without keys := by
  apply JsonObject.ext
  simp only [set, without, List.filter_append, List.filter_filter]
  rw [List.filter_cons_of_neg (by simpa using h), List.filter_nil, List.append_nil]
  apply List.filter_congr
  intro m _
  by_cases hm : m.1 = key
  · simp [hm, h]
  · simp [hm]

theorem without_eq_self (h : ∀ key ∈ keys, o.get key = none) : o.without keys = o := by
  apply JsonObject.ext
  refine List.filter_eq_self.mpr fun m hm => ?_
  have hkey : m.1 ∉ keys := fun hmem => get_eq_none.mp (h m.1 hmem) m.2 hm
  simpa using hkey

end JsonObject

theorem get_of_text_eq (h : text (.obj o.members) = text (.obj p.members)) {key : JsString}
    {v : Value} (hv : o.get key = some v) :
    ∃ w, p.get key = some w ∧ text v.val = text w.val := by
  obtain ⟨w, hw, htext⟩ := exists_member_of_text_eq h (JsonObject.get_eq_some.mp hv)
  have hwell : w.WellFormed := by
    have hp := p.wellFormed
    simp only [Json.WellFormed, wellFormedMembers_iff] at hp
    exact hp.2 _ hw
  exact ⟨⟨w, hwell⟩, JsonObject.get_eq_some.mpr hw, htext⟩

theorem same_of_get (hop : ∀ key v, o.get key = some v → ∃ w, p.get key = some w ∧ Same v.val w.val)
    (hpo : ∀ key w, p.get key = some w → ∃ v, o.get key = some v) :
    Same (.obj o.members) (.obj p.members) := by
  have hvalue : ∀ (q : JsonObject) m, m ∈ q.members → ∃ v : Value, v.val = m.2 ∧
      q.get m.1 = some v := by
    intro q m hm
    have hq := q.wellFormed
    simp only [Json.WellFormed, wellFormedMembers_iff] at hq
    exact ⟨⟨m.2, hq.2 m hm⟩, rfl, JsonObject.get_eq_some.mpr hm⟩
  refine ⟨sameMembers_iff.mpr fun m hm => ?_, fun key hkey => ?_⟩
  · obtain ⟨v, hv, hget⟩ := hvalue o m hm
    obtain ⟨w, hw, hsame⟩ := hop m.1 v hget
    exact ⟨w.val, JsonObject.get_eq_some.mp hw, by rw [← hv]; exact hsame⟩
  · obtain ⟨m, hm, rfl⟩ := List.mem_map.mp hkey
    obtain ⟨w, -, hget⟩ := hvalue p m hm
    obtain ⟨v, hv⟩ := hpo m.1 w hget
    exact List.mem_map.mpr ⟨(m.1, v.val), JsonObject.get_eq_some.mp hv, rfl⟩

theorem same_arr {xs ys : List Value} (h : List.Forall₂ (fun x y => Same x.val y.val) xs ys) :
    Same (Value.arr xs).val (Value.arr ys).val := by
  show SameItems (xs.map Subtype.val) (ys.map Subtype.val)
  induction h with
  | nil => trivial
  | cons hxy _ ih => exact ⟨hxy, ih⟩

/-- Strict equality of two values read from parsed JSON: two places never hold one reference. -/
def strictEq : Option Value → Option Value → Bool
  | none, none => true
  | some ⟨.null, _⟩, some ⟨.null, _⟩ => true
  | some ⟨.bool a, _⟩, some ⟨.bool b, _⟩ => a == b
  | some ⟨.num m, _⟩, some ⟨.num n, _⟩ => m == n
  | some ⟨.str s, _⟩, some ⟨.str t, _⟩ => s == t
  | _, _ => false

theorem strictEq_str {v : Option Value} {s : JsString} :
    strictEq v (some (.str s)) = true ↔ v = some (.str s) := by
  constructor
  · intro h
    rcases v with - | ⟨j, hj⟩
    · cases h
    · cases j with
      | str t =>
        have hst : t = s := by simpa [Value.str, strictEq] using h
        subst hst
        rfl
      | _ => cases h
  · rintro rfl
    simp [Value.str, strictEq]

theorem strictEq_nat {v : Option Value} {n : Nat} :
    strictEq v (some (.nat n)) = true ↔ v = some (.nat n) := by
  constructor
  · intro h
    rcases v with - | ⟨j, hj⟩
    · cases h
    · cases j with
      | num m =>
        have hmn : m = ofNat n := by simpa [Value.nat, strictEq] using h
        subst hmn
        rfl
      | _ => cases h
  · rintro rfl
    simp [Value.nat, strictEq]

/-- A code unit as a string of its own. -/
def unitString (unit : Nat) : JsString :=
  if 0xD800 ≤ unit ∧ unit < 0xE000 then [.surrogate (Fin.ofNat 2048 (unit - 0xD800))]
  else [.scalar (Char.ofNat unit)]

def lengthOf : Option Value → Option (Option Value)
  | none => none
  | some ⟨.null, _⟩ => none
  | some ⟨.arr xs, _⟩ => some (some (.nat xs.length))
  | some ⟨.str s, _⟩ => some (some (.nat (s.flatMap CodePoint.units).length))
  | some ⟨.obj ms, h⟩ => some (JsonObject.get ⟨ms, h⟩ (ofString "length"))
  | some _ => some none

/-- `value[index]` of a value that is neither `null` nor `undefined`. -/
def elementAt (v : Option Value) (index : Nat) : Option Value :=
  match v with
  | some ⟨.str s, _⟩ => ((s.flatMap CodePoint.units)[index]?).map fun unit => .str (unitString unit)
  | some ⟨.obj ms, h⟩ => JsonObject.get ⟨ms, h⟩ (ofString (toString index))
  | some v => v.items.bind fun xs => xs[index]?
  | none => none

/-- The number of different elements by `SameValueZero`. -/
def distinctCount (xs : List Value) : Nat :=
  match xs with
  | [] => 0
  | x :: rest =>
    (if rest.any fun y => strictEq (some x) (some y) then 0 else 1) + distinctCount rest

/-- `new Set(value).size`; `none` is a `TypeError`. -/
def setSize : Option Value → Option Nat
  | none => some 0
  | some ⟨.null, _⟩ => some 0
  | some ⟨.str s, _⟩ => some s.dedup.length
  | some v => v.items.map distinctCount

end Stynx.JsonObjects
