import Stynx.JsonObjects
import Stynx.JsonTextUnits

/-!
# Canonical payloads of offline sync

`canonicalOfflineSyncPayload`, which refuses strings and keys with unpaired
surrogates. What its text stands for is the payload with its keys in order.
-/

namespace Stynx.OfflineSyncPayloads

open JsonTokens CanonicalJson JsonRendering JsonArrangements SortedJson JsonObjects JsonTextUnits
open JsonGrammar

/-- Whether a string survives the encoding to UTF-8 and back. -/
def wellFormedText (s : JsString) : Bool :=
  s.all fun p =>
    match p with
    | .scalar _ => true
    | .surrogate _ => false

def checkedText (s : JsString) : Option (List Char) :=
  if wellFormedText s then some (quote s) else none

mutual

/-- `encode`; `none` where it throws. -/
def encode : Json → Option (List Char)
  | .null => some ['n', 'u', 'l', 'l']
  | .bool true => some ['t', 'r', 'u', 'e']
  | .bool false => some ['f', 'a', 'l', 's', 'e']
  | .num n => some (numberText n)
  | .str s => checkedText s
  | .arr items => (encodeItems items).map fun texts => '[' :: (commaSeparated texts ++ [']'])
  | .obj members => (encodeMembers members).map fun texts =>
      '{' :: (commaSeparated ((sortMembers texts).map memberText) ++ ['}'])

def encodeItems : List Json → Option (List (List Char))
  | [] => some []
  | x :: xs => (encode x).bind fun text => (encodeItems xs).map (text :: ·)

def encodeMembers : List (JsString × Json) → Option (List (JsString × List Char))
  | [] => some []
  | (key, value) :: ms => (checkedText key).bind fun _ =>
      (encode value).bind fun text => (encodeMembers ms).map ((key, text) :: ·)

end

def canonicalOfflineSyncPayload : Json → Option (List Char)
  | .obj members => encode (.obj members)
  | _ => none

def IsScalar (s : JsString) : Prop := ∃ text : List Char, s = text.map .scalar

mutual

/-- Every string and every key is one of scalar values. -/
def ScalarTexts : Json → Prop
  | .str s => IsScalar s
  | .arr items => ScalarItems items
  | .obj members => ScalarMembers members
  | _ => True

def ScalarItems : List Json → Prop
  | [] => True
  | x :: xs => ScalarTexts x ∧ ScalarItems xs

def ScalarMembers : List (JsString × Json) → Prop
  | [] => True
  | (key, value) :: ms => IsScalar key ∧ ScalarTexts value ∧ ScalarMembers ms

end

theorem wellFormedText_iff {s : JsString} : wellFormedText s = true ↔ IsScalar s := by
  constructor
  · intro h
    induction s with
    | nil => exact ⟨[], rfl⟩
    | cons p s ih =>
      simp only [wellFormedText, List.all_cons, Bool.and_eq_true] at h
      obtain ⟨text, rfl⟩ := ih h.2
      cases p with
      | scalar c => exact ⟨c :: text, rfl⟩
      | surrogate offset => cases h.1
  · rintro ⟨text, rfl⟩
    simp [wellFormedText]

theorem checkedText_eq_some {s : JsString} {text : List Char} :
    checkedText s = some text ↔ IsScalar s ∧ text = quote s := by
  rw [← wellFormedText_iff]
  unfold checkedText
  split_ifs with h
  · simp [h, eq_comm]
  · simp [h]

mutual

theorem encode_eq_some : ∀ (v : Json) (result : List Char),
    encode v = some result ↔ ScalarTexts v ∧ result = text v
  | .null, result => by simp [encode, ScalarTexts, text, eq_comm]
  | .bool true, result => by simp [encode, ScalarTexts, text, eq_comm]
  | .bool false, result => by simp [encode, ScalarTexts, text, eq_comm]
  | .num n, result => by simp [encode, ScalarTexts, text, eq_comm]
  | .str s, result => by rw [encode, ScalarTexts, text, checkedText_eq_some]
  | .arr items, result => by
    rw [encode, ScalarTexts, text, Option.map_eq_some_iff]
    constructor
    · rintro ⟨texts, htexts, rfl⟩
      obtain ⟨haccepted, rfl⟩ := (encodeItems_eq_some items texts).mp htexts
      exact ⟨haccepted, rfl⟩
    · rintro ⟨haccepted, rfl⟩
      exact ⟨_, (encodeItems_eq_some items _).mpr ⟨haccepted, rfl⟩, rfl⟩
  | .obj members, result => by
    rw [encode, ScalarTexts, text, Option.map_eq_some_iff]
    constructor
    · rintro ⟨texts, htexts, rfl⟩
      obtain ⟨haccepted, rfl⟩ := (encodeMembers_eq_some members texts).mp htexts
      exact ⟨haccepted, rfl⟩
    · rintro ⟨haccepted, rfl⟩
      exact ⟨_, (encodeMembers_eq_some members _).mpr ⟨haccepted, rfl⟩, rfl⟩

theorem encodeItems_eq_some : ∀ (items : List Json) (texts : List (List Char)),
    encodeItems items = some texts ↔ ScalarItems items ∧ texts = itemTexts items
  | [], texts => by simp [encodeItems, ScalarItems, itemTexts, eq_comm]
  | x :: xs, texts => by
    rw [encodeItems, ScalarItems, itemTexts, Option.bind_eq_some_iff]
    constructor
    · rintro ⟨first, hfirst, hrest⟩
      obtain ⟨rest, htail, rfl⟩ := Option.map_eq_some_iff.mp hrest
      obtain ⟨hx, rfl⟩ := (encode_eq_some x first).mp hfirst
      obtain ⟨hxs, rfl⟩ := (encodeItems_eq_some xs rest).mp htail
      exact ⟨⟨hx, hxs⟩, rfl⟩
    · rintro ⟨⟨hx, hxs⟩, rfl⟩
      exact ⟨_, (encode_eq_some x _).mpr ⟨hx, rfl⟩, Option.map_eq_some_iff.mpr
        ⟨_, (encodeItems_eq_some xs _).mpr ⟨hxs, rfl⟩, rfl⟩⟩

theorem encodeMembers_eq_some : ∀ (members : List (JsString × Json))
    (texts : List (JsString × List Char)),
    encodeMembers members = some texts ↔ ScalarMembers members ∧ texts = memberTexts members
  | [], texts => by simp [encodeMembers, ScalarMembers, memberTexts, eq_comm]
  | (key, value) :: ms, texts => by
    rw [encodeMembers, ScalarMembers, memberTexts, Option.bind_eq_some_iff]
    constructor
    · rintro ⟨_, hkey, hvalue⟩
      obtain ⟨first, hfirst, hrest⟩ := Option.bind_eq_some_iff.mp hvalue
      obtain ⟨rest, htail, rfl⟩ := Option.map_eq_some_iff.mp hrest
      obtain ⟨hx, rfl⟩ := (encode_eq_some value first).mp hfirst
      obtain ⟨hxs, rfl⟩ := (encodeMembers_eq_some ms rest).mp htail
      exact ⟨⟨(checkedText_eq_some.mp hkey).1, hx, hxs⟩, rfl⟩
    · rintro ⟨⟨hkey, hx, hxs⟩, rfl⟩
      exact ⟨_, checkedText_eq_some.mpr ⟨hkey, rfl⟩, Option.bind_eq_some_iff.mpr
        ⟨_, (encode_eq_some value _).mpr ⟨hx, rfl⟩, Option.map_eq_some_iff.mpr
          ⟨_, (encodeMembers_eq_some ms _).mpr ⟨hxs, rfl⟩, rfl⟩⟩⟩

end

theorem scalarMembers_iff {members : List (JsString × Json)} :
    ScalarMembers members ↔ ∀ m ∈ members, IsScalar m.1 ∧ ScalarTexts m.2 := by
  induction members with
  | nil => simp [ScalarMembers]
  | cons m ms ih => simp [ScalarMembers, ih, and_assoc]

theorem canonical_eq_some {v : Json} {result : List Char}
    (h : canonicalOfflineSyncPayload v = some result) :
    ScalarTexts v ∧ result = text v ∧ v.kind = .obj := by
  cases v with
  | obj members =>
    obtain ⟨haccepted, hresult⟩ := (encode_eq_some _ _).mp h
    exact ⟨haccepted, hresult, rfl⟩
  | _ => cases h

theorem canonical_of_scalar {v : Json} (h : ScalarTexts v) (hkind : v.kind = .obj) :
    canonicalOfflineSyncPayload v = some (text v) := by
  cases v with
  | obj members => exact (encode_eq_some _ _).mpr ⟨h, rfl⟩
  | _ => cases hkind

mutual

theorem keysIn_of_scalar : ∀ v : Json, ScalarTexts v → KeysIn IsScalar v
  | .null => fun _ => by simp [KeysIn]
  | .bool _ => fun _ => by simp [KeysIn]
  | .num _ => fun _ => by simp [KeysIn]
  | .str _ => fun _ => by simp [KeysIn]
  | .arr items => fun h => keysInItems_of_scalar items h
  | .obj members => fun h => by
    refine ⟨fun key hkey => ?_, keysInMembers_of_scalar members h⟩
    obtain ⟨m, hm, rfl⟩ := List.mem_map.mp hkey
    exact (scalarMembers_iff.mp h m hm).1

theorem keysInItems_of_scalar : ∀ items : List Json, ScalarItems items → KeysInItems IsScalar items
  | [] => fun _ => trivial
  | x :: xs => fun h => ⟨keysIn_of_scalar x h.1, keysInItems_of_scalar xs h.2⟩

theorem keysInMembers_of_scalar : ∀ members : List (JsString × Json), ScalarMembers members →
    KeysInMembers IsScalar members
  | [] => fun _ => trivial
  | (_, value) :: ms => fun h => ⟨keysIn_of_scalar value h.2.1, keysInMembers_of_scalar ms h.2.2⟩

end

mutual

theorem scalar_arrange : ∀ v : Json, ScalarTexts v → ScalarTexts (arrange keyOrder v)
  | .null => fun h => h
  | .bool _ => fun h => h
  | .num _ => fun h => h
  | .str _ => fun h => h
  | .arr items => fun h => scalarItems_arrange items h
  | .obj members => fun h => by
    refine scalarMembers_iff.mpr fun m hm => ?_
    exact scalarMembers_iff.mp (scalarMembers_arrange members h) m
      ((List.perm_insertionSort _ _).subset hm)

theorem scalarItems_arrange : ∀ items : List Json, ScalarItems items →
    ScalarItems (arrangeItems keyOrder items)
  | [] => fun _ => trivial
  | x :: xs => fun h => ⟨scalar_arrange x h.1, scalarItems_arrange xs h.2⟩

theorem scalarMembers_arrange : ∀ members : List (JsString × Json), ScalarMembers members →
    ScalarMembers (arrangeMembers keyOrder members)
  | [] => fun _ => trivial
  | (_, value) :: ms => fun h =>
    ⟨h.1, scalar_arrange value h.2.1, scalarMembers_arrange ms h.2.2⟩

end

theorem keyOrder_antisymm (k l : JsString) (hk : IsScalar k) (hl : IsScalar l)
    (h : keyOrder k l) (h' : keyOrder l k) : k = l := by
  obtain ⟨s, rfl⟩ := hk
  obtain ⟨t, rfl⟩ := hl
  rw [Std.Antisymm.antisymm (r := TextOrder.TextLe) s t h h']

theorem canonical_read (reader : NumberReader) {v : Json} {result : List Char}
    (h : canonicalOfflineSyncPayload v = some result) :
    IsText reader.read (toValue (arrange keyOrder v)) (utf16 result) ∧
      canonicalOfflineSyncPayload (arrange keyOrder v) = some result := by
  obtain ⟨hscalar, rfl, hkind⟩ := canonical_eq_some h
  have hscalar' := scalar_arrange v hscalar
  constructor
  · rw [text_eq_sortedText, sortedText_eq_render]
    exact isText_render reader _
  · rw [canonical_of_scalar hscalar' (by rw [kind_arrange, hkind]),
      text_eq_iff_arrange.mpr (arrange_arrange v)]

/-- Accepted payloads have one canonical text when they are equal up to the order of keys; the text
is read back, and canonicalising that gives the same text. -/
theorem canonical_payloads (reader : NumberReader) {a b : Value} {textA textB : List Char}
    (ha : canonicalOfflineSyncPayload a.val = some textA)
    (hb : canonicalOfflineSyncPayload b.val = some textB) :
    (textA = textB ↔ Same a.val b.val) ∧
      ∃ parsed : Json, IsText reader.read (toValue parsed) (utf16 textA) ∧ Same a.val parsed ∧
        canonicalOfflineSyncPayload parsed = some textA := by
  obtain ⟨htext, hagain⟩ := canonical_read reader ha
  refine ⟨?_, arrange keyOrder a.val, htext, same_arrange a.val, hagain⟩
  obtain ⟨hscalar, rfl, -⟩ := canonical_eq_some ha
  obtain ⟨hscalar', rfl, -⟩ := canonical_eq_some hb
  rw [text_eq_iff_arrange]
  exact arrange_eq_iff_of_keysIn keyOrder_antisymm a.property b.property
    (keysIn_of_scalar a.val hscalar) (keysIn_of_scalar b.val hscalar')

/-- Two payloads with integer-like keys in different orders. -/
theorem canonical_payloads_reordered :
    Same (Json.obj [([.scalar '1', .scalar '0'], .null), ([.scalar '9'], .bool true)])
      (.obj [([.scalar '9'], .bool true), ([.scalar '1', .scalar '0'], .null)]) :=
  (canonical_payloads shortestReader
    (a := ⟨.obj [([.scalar '1', .scalar '0'], .null), ([.scalar '9'], .bool true)], by
      simp [Json.WellFormed, WellFormedMembers]⟩)
    (b := ⟨.obj [([.scalar '9'], .bool true), ([.scalar '1', .scalar '0'], .null)], by
      simp [Json.WellFormed, WellFormedMembers]⟩) rfl rfl).1.mp rfl

end Stynx.OfflineSyncPayloads
