import Stynx.SortedJson

/-!
# Canonical JSON

The text of a JSON value that writes every object with its keys in order. Two
values with one text are equal as JSON values: arrays item by item, objects key
by key, in whatever order their members stand.
-/

namespace Stynx.CanonicalJson

open JsonTokens JsonRendering JsonArrangements SortedJson

/-- `Array.prototype.join` with a comma. -/
def commaSeparated : List (List Char) → List Char
  | [] => []
  | [text] => text
  | text :: next :: rest => text ++ ',' :: commaSeparated (next :: rest)

def memberText (member : JsString × List Char) : List Char := quote member.1 ++ ':' :: member.2

def sortMembers (members : List (JsString × List Char)) : List (JsString × List Char) :=
  members.insertionSort fun first second => keyOrder first.1 second.1

mutual

/-- The canonical text of a value. -/
def text : Json → List Char
  | .null => ['n', 'u', 'l', 'l']
  | .bool true => ['t', 'r', 'u', 'e']
  | .bool false => ['f', 'a', 'l', 's', 'e']
  | .num n => numberText n
  | .str s => quote s
  | .arr items => '[' :: (commaSeparated (itemTexts items) ++ [']'])
  | .obj members =>
    '{' :: (commaSeparated ((sortMembers (memberTexts members)).map memberText) ++ ['}'])

/-- The texts of an array's items. -/
def itemTexts : List Json → List (List Char)
  | [] => []
  | x :: xs => text x :: itemTexts xs

def memberTexts : List (JsString × Json) → List (JsString × List Char)
  | [] => []
  | (key, value) :: ms => (key, text value) :: memberTexts ms

end

theorem commaSeparated_eq_joined (texts : List (List Char)) :
    commaSeparated texts = joined ',' texts := by
  induction texts with
  | nil => rfl
  | cons text texts ih =>
    cases texts with
    | nil => rfl
    | cons next more => rw [commaSeparated, joined, ih]

mutual

theorem text_eq_sortedText : ∀ v : Json, text v = sortedText jsonLexicon.toSpelling keyOrder v
  | .null => rfl
  | .bool false => rfl
  | .bool true => rfl
  | .num n => (List.map_id _).symm
  | .str _ => rfl
  | .arr items => by
    rw [text, sortedText, itemTexts_eq_sortedTexts items, commaSeparated_eq_joined]
    rfl
  | .obj members => by
    rw [text, sortedText, memberTexts_eq_sortedEntries members, commaSeparated_eq_joined]
    rfl

theorem itemTexts_eq_sortedTexts : ∀ items : List Json,
    itemTexts items = sortedTexts jsonLexicon.toSpelling keyOrder items
  | [] => rfl
  | x :: xs => by
    rw [itemTexts, sortedTexts, text_eq_sortedText x, itemTexts_eq_sortedTexts xs]

theorem memberTexts_eq_sortedEntries : ∀ members : List (JsString × Json),
    memberTexts members = sortedEntries jsonLexicon.toSpelling keyOrder members
  | [] => rfl
  | (key, value) :: ms => by
    rw [memberTexts, sortedEntries, text_eq_sortedText value, memberTexts_eq_sortedEntries ms]

end

theorem text_eq_iff_arrange {v w : Json} :
    text v = text w ↔ arrange keyOrder v = arrange keyOrder w := by
  rw [text_eq_sortedText, text_eq_sortedText, sortedText_eq_iff_arrange]

theorem text_arr_inj {items others : List Json} (h : text (.arr items) = text (.arr others)) :
    items.map text = others.map text := by
  rw [text_eq_iff_arrange, arrange, arrange, arrangeItems_eq_map, arrangeItems_eq_map] at h
  have hrender : ∀ v, text v = jsonLexicon.render (arrange keyOrder v) := fun v => by
    rw [text_eq_sortedText, sortedText_eq_render]
  have hitems := congrArg (List.map jsonLexicon.render) (Json.arr.inj h)
  rw [List.map_map, List.map_map] at hitems
  rw [funext hrender]
  exact hitems

theorem exists_member_of_text_eq {members others : List (JsString × Json)}
    (h : text (.obj members) = text (.obj others)) {m : JsString × Json} (hm : m ∈ members) :
    ∃ other, (m.1, other) ∈ others ∧ text m.2 = text other := by
  obtain ⟨other, hother, heq⟩ := exists_member_of_arrange (text_eq_iff_arrange.mp h) hm
  exact ⟨other, hother, text_eq_iff_arrange.mpr heq⟩

theorem same_of_text_eq (v w : Json) (h : text v = text w) : Same v w :=
  same_of_arrange_eq v w (text_eq_iff_arrange.mp h)

end Stynx.CanonicalJson
