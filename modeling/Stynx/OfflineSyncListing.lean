import Stynx.Base64Url
import Stynx.CalendarDates
import Stynx.ImportJsonReadings
import Stynx.JsonTextUnits
import Stynx.KeysetPages
import Stynx.Utf8

/-!
# Listings by keyset

`encodeCursor`, `decodeCursor` and `pageOf` of the offline sync listings.

Strings are their UTF-16 code units.
-/

namespace Stynx.OfflineSyncListing

open JsonTokens CanonicalJson JsonRendering JsonGrammar JsonTextUnits ImportJson

abbrev SortKey := List Units

def sortInstant : List Char := "dddd-dd-ddTdd:dd:dd.ddddddZ".toList

/-- `validInstant`. No code unit outside ASCII fits the template. -/
def validInstant (value : Units) : Bool :=
  if IsoInstants.fits sortInstant (charsOf value) then
    -- `value.replace(/(\.\d{3})\d{3}Z$/u, '$1Z')`
    let millis := (charsOf value).take 23 ++ ['Z']
    match IsoInstants.parse millis with
    | none => false
    | some parsed => CalendarDates.isoOf parsed == millis
  else false

def keyText (key : SortKey) : List Char :=
  jsonLexicon.render (.arr (key.map fun part => .str (pointsOf part)))

def encodeCursor (key : SortKey) : List Char := Base64Url.encode (Utf8.encode (keyText key))

def stringOf {N : Type} : Value N → Option Units
  | .str part => some part
  | _ => none

section

variable (reader : NumberReader)

/-- `decodeCursor` of a cursor that is given; `none` where it refuses. -/
def decodeKey (cursor : List Char) (arity : Nat) : Option SortKey :=
  match readText reader.read false (utf16 (Utf8.decode (Base64Url.decode cursor))) with
  | .ok (.arr values) =>
    if values.length ≠ arity then none
    else (values.mapM stringOf).bind fun key => if key.head?.any validInstant then some key else none
  | _ => none

/-- `decodeCursor`; the outer option is the refusal. -/
def decodeCursor (cursor : Option (List Char)) (arity : Nat) : Option (Option SortKey) :=
  match cursor with
  | none => some none
  | some text => (decodeKey reader text arity).map some

def unitsLt (a b : Units) : Bool := a.map UInt16.toNat < b.map UInt16.toNat

/-- `compare`. A string is not less than a component that is not there. -/
def compare : SortKey → SortKey → Int
  | [], _ => 0
  | _ :: _, [] => 1
  | x :: a, y :: b => if x ≠ y then if unitsLt x y then -1 else 1 else compare a b

structure Row (α : Type) where
  key : SortKey
  value : α

/-- `OfflineSyncPage` -/
structure Page (α : Type) where
  items : List α
  nextCursor : Option (List Char)

variable {α : Type}

def finishPage (rows : List (Row α)) (limit : Nat) : Page α :=
  let items := rows.take limit
  { items := items.map Row.value
    nextCursor :=
      if limit < rows.length then items.getLast?.map fun row => encodeCursor row.key else none }

def listDefaultLimit : Nat := 50

def SortLe (a b : Row α) : Prop := compare b.key a.key ≤ 0

instance : DecidableRel (SortLe (α := α)) := fun _ _ => inferInstanceAs (Decidable (_ ≤ _))

/-- `pageOf`; `none` where the cursor is refused. -/
def pageOf (rows : List (Row α)) (arity : Nat) (cursor : Option (List Char))
    (limit : Option Nat) : Option (Page α) :=
  (decodeCursor reader cursor arity).map fun after =>
    let ordered := (rows.insertionSort SortLe).filter fun row =>
      after.all fun key => compare row.key key < 0
    let size := limit.getD listDefaultLimit
    finishPage (ordered.take (size + 1)) size

/-- The values of the pages from a cursor on; `none` when a page is refused or there are more than
`fuel`. -/
def follow (rows : List (Row α)) (arity : Nat) (limit : Option Nat) :
    Nat → Option (List Char) → Option (List α)
  | 0, _ => none
  | fuel + 1, cursor =>
    (pageOf reader rows arity cursor limit).bind fun page =>
      match page.nextCursor with
      | none => some page.items
      | some next => (follow rows arity limit fuel (some next)).map (page.items ++ ·)

end

theorem toItems_strings (key : SortKey) :
    toItems (key.map fun part => .str (pointsOf part)) = key.map .str := by
  induction key with
  | nil => rfl
  | cons part key ih =>
    rw [List.map_cons, List.map_cons, toItems, ih, toValue, unitsOf_pointsOf]

theorem mapM_stringOf {N : Type} (key : SortKey) :
    (key.map (Value.str (N := N))).mapM stringOf = some key := by
  induction key with
  | nil => rfl
  | cons part key ih =>
    rw [List.map_cons, List.mapM_cons, ih]
    rfl

theorem decodeKey_encodeCursor (reader : NumberReader) {key : SortKey}
    (hinstant : key.head?.any validInstant = true) :
    decodeKey reader (encodeCursor key) key.length = some key := by
  have hread : readText reader.read false (utf16 (keyText key)) = .ok (.arr (key.map .str)) := by
    rw [readText_eq_ok_iff]
    have htext := isText_render reader (.arr (key.map fun part => .str (pointsOf part)))
    rw [toValue, toItems_strings] at htext
    exact ⟨htext, nofun⟩
  rw [decodeKey, encodeCursor, Base64Url.decode_encode, Utf8.decode_encode, hread]
  dsimp only
  rw [if_neg (by rw [List.length_map]; exact fun h => h rfl), mapM_stringOf, Option.bind_some,
    if_pos hinstant]

def numbersOf (key : SortKey) : List (List Nat) := key.map fun part => part.map UInt16.toNat

theorem numbersOf_injective : Function.Injective numbersOf :=
  List.map_injective_iff.mpr (List.map_injective_iff.mpr fun _ _ h => UInt16.toNat_inj.mp h)

/-- Keys in the order of `compare`. -/
@[ext]
structure Ranked where
  key : SortKey

noncomputable instance : LinearOrder Ranked :=
  LinearOrder.lift' (fun ranked => numbersOf ranked.key) fun _ _ h =>
    Ranked.ext (numbersOf_injective h)

variable {a b : SortKey}

theorem ranked_lt_iff : Ranked.mk a < Ranked.mk b ↔ numbersOf a < numbersOf b :=
  Iff.rfl

theorem compare_neg_iff (h : a.length = b.length) :
    compare a b < 0 ↔ Ranked.mk a < Ranked.mk b := by
  rw [ranked_lt_iff]
  induction a generalizing b with
  | nil =>
    rw [List.length_eq_zero_iff.mp h.symm]
    simp [compare, numbersOf]
  | cons x a ih =>
    cases b with
    | nil => cases h
    | cons y b =>
      rw [List.length_cons, List.length_cons, Nat.add_right_cancel_iff] at h
      simp only [numbersOf, List.map_cons, List.cons_lt_cons_iff] at ih ⊢
      rw [compare]
      by_cases hxy : x = y
      · rw [if_neg (not_not_intro hxy), ih h, hxy]
        simp
      · have hne : x.map UInt16.toNat ≠ y.map UInt16.toNat := fun heq =>
          hxy (List.map_injective_iff.mpr (fun _ _ h => UInt16.toNat_inj.mp h) heq)
        rw [if_pos hxy]
        by_cases hlt : x.map UInt16.toNat < y.map UInt16.toNat
        · simp [unitsLt, hlt]
        · simp [unitsLt, hlt, hne]

theorem compare_self (a : SortKey) : compare a a = 0 := by
  induction a with
  | nil => rfl
  | cons x a ih => rw [compare, if_neg (fun h => h rfl), ih]

theorem compare_le_iff (h : a.length = b.length) : compare a b ≤ 0 ↔ Ranked.mk a ≤ Ranked.mk b := by
  rw [le_iff_lt_or_eq (a := Ranked.mk a), ← compare_neg_iff h]
  constructor
  · intro hle
    rcases lt_or_eq_of_le hle with hlt | heq
    · exact .inl hlt
    · right
      induction a generalizing b with
      | nil => rw [List.length_eq_zero_iff.mp h.symm]
      | cons x a ih =>
        cases b with
        | nil => cases h
        | cons y b =>
          rw [compare] at heq hle
          by_cases hxy : x = y
          · rw [if_neg (not_not_intro hxy)] at heq hle
            have hrest := ih (by simpa using h) hle heq
            rw [hxy]
            exact congrArg (fun ranked => Ranked.mk (y :: ranked.key)) hrest
          · rw [if_pos hxy] at heq
            split_ifs at heq
            cases heq
  · rintro (hlt | heq)
    · exact hlt.le
    · rw [show a = b from congrArg Ranked.key heq, compare_self]

structure Listable {α : Type} (rows : List (Row α)) (arity : Nat) : Prop where
  distinct : (rows.map Row.key).Nodup
  arity : ∀ row ∈ rows, row.key.length = arity
  /-- They start with a sort instant. -/
  instant : ∀ row ∈ rows, row.key.head?.any validInstant = true

variable {α : Type} {rows : List (Row α)} {arity : Nat} {limit : Option Nat}

def rank (row : Row α) : Ranked := ⟨row.key⟩

theorem Listable.sort_eq (h : Listable rows arity) :
    rows.insertionSort SortLe = rows.insertionSort fun a b => rank b ≤ rank a := by
  have hmap := List.map_insertionSort (r := SortLe) (s := fun a b : Row α => rank b ≤ rank a) id rows
    fun a ha b hb => compare_le_iff ((h.arity b hb).trans (h.arity a ha).symm)
  rw [List.map_id, List.map_id] at hmap
  exact hmap

theorem Listable.sorted (h : Listable rows arity) :
    (rows.insertionSort SortLe).Pairwise fun a b => rank b < rank a := by
  have : Std.Total (fun a b : Row α => rank b ≤ rank a) := ⟨fun a b => le_total (rank b) (rank a)⟩
  have : IsTrans (Row α) (fun a b => rank b ≤ rank a) := ⟨fun _ _ _ hab hbc => hbc.trans hab⟩
  have hordered : (rows.insertionSort SortLe).Pairwise fun a b => rank b ≤ rank a := by
    rw [h.sort_eq]
    exact List.pairwise_insertionSort _ _
  have hdistinct : (rows.insertionSort SortLe).Pairwise fun a b => a.key ≠ b.key := by
    rw [← List.pairwise_map]
    exact ((List.perm_insertionSort SortLe rows).map Row.key).nodup_iff.mpr h.distinct
  refine (hordered.and hdistinct).imp ?_
  rintro a b ⟨hle, hne⟩
  exact lt_of_le_of_ne hle fun heq => hne (congrArg Ranked.key heq).symm

variable (reader : NumberReader)

/-- The key is one that `decodeCursor` accepts. -/
def Acceptable (arity : Nat) (after : Option Ranked) : Prop :=
  ∀ ranked, after = some ranked →
    ranked.key.length = arity ∧ ranked.key.head?.any validInstant = true

def cursorOf (after : Option Ranked) : Option (List Char) :=
  after.map fun ranked => encodeCursor ranked.key

variable {after : Option Ranked}

theorem Listable.pageOf_eq (h : Listable rows arity) (hafter : Acceptable arity after) :
    pageOf reader rows arity (cursorOf after) limit =
      some { items := (KeysetPages.page rank (limit.getD listDefaultLimit)
               (rows.insertionSort SortLe) after).items.map Row.value
             nextCursor := cursorOf (KeysetPages.page rank (limit.getD listDefaultLimit)
               (rows.insertionSort SortLe) after).next } := by
  have hdecode : decodeCursor reader (cursorOf after) arity = some (after.map Ranked.key) := by
    cases after with
    | none => rfl
    | some ranked =>
      obtain ⟨hlength, hinstant⟩ := hafter ranked rfl
      rw [cursorOf, Option.map_some, decodeCursor, ← hlength,
        decodeKey_encodeCursor reader hinstant]
      rfl
  have hfilter : ((rows.insertionSort SortLe).filter fun row =>
      (after.map Ranked.key).all fun key => decide (compare row.key key < 0)) =
      (rows.insertionSort SortLe).filter fun row => after.all (rank row < ·) := by
    refine List.filter_congr fun row hrow => ?_
    cases hkey : after with
    | none => rfl
    | some ranked =>
      have hlength := (h.arity row ((List.mem_insertionSort SortLe).mp hrow)).trans
        (hafter ranked hkey).1.symm
      exact decide_eq_decide.mpr (compare_neg_iff hlength)
  rw [pageOf, hdecode, Option.map_some]
  dsimp only
  rw [hfilter, finishPage, KeysetPages.page, KeysetPages.cut]
  dsimp only
  split_ifs
  · rw [cursorOf, Option.map_map]
    rfl
  · rfl

theorem mem_of_next {limit : Nat} {ordered : List (Row α)} {ranked : Ranked}
    (h : (KeysetPages.page rank limit ordered after).next = some ranked) :
    ∃ row ∈ ordered, rank row = ranked := by
  rw [KeysetPages.page, KeysetPages.cut] at h
  dsimp only at h
  split_ifs at h
  obtain ⟨row, hrow, hkey⟩ := Option.map_eq_some_iff.mp h
  have hmem := List.mem_of_mem_take (List.mem_of_getLast? hrow)
  exact ⟨row, (List.mem_filter.mp (List.mem_of_mem_take hmem)).1, hkey⟩

theorem Listable.follow_eq (h : Listable rows arity) (fuel : Nat) (hafter : Acceptable arity after) :
    follow reader rows arity limit fuel (cursorOf after) =
      (KeysetPages.follow rank (limit.getD listDefaultLimit) (rows.insertionSort SortLe) fuel
        after).map (List.map Row.value) := by
  induction fuel generalizing after with
  | zero => rfl
  | succ fuel ih =>
    rw [follow, h.pageOf_eq reader hafter, Option.bind_some, KeysetPages.follow]
    dsimp only
    cases hnext : (KeysetPages.page rank (limit.getD listDefaultLimit)
        (rows.insertionSort SortLe) after).next with
    | none => rfl
    | some ranked =>
      obtain ⟨row, hrow, rfl⟩ := mem_of_next hnext
      have hmem : row ∈ rows := (List.mem_insertionSort SortLe).mp hrow
      have hvalid : Acceptable arity (some (rank row)) := by
        intro other hother
        rw [← Option.some.inj hother]
        exact ⟨h.arity row hmem, h.instant row hmem⟩
      have hrest := ih hvalid
      rw [cursorOf, Option.map_some] at hrest ⊢
      dsimp only at hrest ⊢
      rw [hrest, Option.map_map, Option.map_map]
      congr 1
      funext rest
      exact List.map_append.symm

/-- The pages from the first one on give every row once, from the greatest key to the least, and
there are at most as many as rows, plus one; and a cursor decodes to its key. -/
theorem pages_give_every_row (h : Listable rows arity) (hlimit : ∀ n, limit = some n → 1 ≤ n) :
    (∃ visited : List (Row α), visited.Perm rows ∧
      visited.Pairwise (fun a b => compare b.key a.key < 0) ∧
      follow reader rows arity limit (rows.length + 1) none = some (visited.map Row.value)) ∧
    ∀ key : SortKey, key.head?.any validInstant = true →
      decodeCursor reader (some (encodeCursor key)) key.length = some (some key) := by
  have hpos : 0 < limit.getD listDefaultLimit := by
    cases hcase : limit with
    | none => decide
    | some n => exact hlimit n hcase
  have hperm := List.perm_insertionSort SortLe rows
  refine ⟨⟨rows.insertionSort SortLe, hperm, ?_, ?_⟩, ?_⟩
  · refine h.sorted.imp_of_mem fun {a b} ha hb hlt => ?_
    have hlength : b.key.length = a.key.length :=
      (h.arity b (hperm.mem_iff.mp hb)).trans (h.arity a (hperm.mem_iff.mp ha)).symm
    exact (compare_neg_iff hlength).mpr hlt
  · have hfirst : Acceptable arity none := fun ranked hranked => by cases hranked
    have hfollow : follow reader rows arity limit (rows.length + 1) (cursorOf none) = _ :=
      h.follow_eq reader (rows.length + 1) hfirst
    rw [← hperm.length_eq, KeysetPages.follow_all hpos h.sorted, hperm.length_eq] at hfollow
    exact hfollow
  · intro key hinstant
    rw [decodeCursor, decodeKey_encodeCursor reader hinstant]
    rfl

set_option maxRecDepth 4000 in
/-- Two rows of one instant, a page for each. -/
theorem pages_of_two_rows :
    ∃ visited : List (Row Nat),
      visited.Perm [⟨[utf16 "2024-02-29T00:00:00.000000Z".toList, utf16 ['a']], 1⟩,
        ⟨[utf16 "2024-02-29T00:00:00.000000Z".toList, utf16 ['b']], 2⟩] ∧
      visited.Pairwise (fun a b => compare b.key a.key < 0) ∧
      follow shortestReader [⟨[utf16 "2024-02-29T00:00:00.000000Z".toList, utf16 ['a']], 1⟩,
        ⟨[utf16 "2024-02-29T00:00:00.000000Z".toList, utf16 ['b']], 2⟩] 2 (some 1) 3 none =
          some (visited.map Row.value) :=
  (pages_give_every_row shortestReader ⟨by decide, by decide, by decide⟩
    fun n hn => by rw [← Option.some.inj hn]).1

end Stynx.OfflineSyncListing
