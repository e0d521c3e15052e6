import Stynx.JsonArrangements
import Stynx.JsonRendering

/-!
# Texts with sorted members

The text of a value that writes the members of every object in the order of
their keys. Two values have one text when they are equal up to the order of
members and keys that the order does not tell apart stand alike in both.
-/

namespace Stynx.SortedJson

open JsonTokens CanonicalJson JsonRendering JsonArrangements

variable {α : Type} (L : Spelling α) (le : JsString → JsString → Prop) [DecidableRel le]

mutual

def sortedText : Json → List α
  | .null => L.word ['n', 'u', 'l', 'l']
  | .bool true => L.word ['t', 'r', 'u', 'e']
  | .bool false => L.word ['f', 'a', 'l', 's', 'e']
  | .num n => L.word (numberText n)
  | .str s => L.string s
  | .arr items => L.letter '[' :: (joined (L.letter ',') (sortedTexts items) ++ [L.letter ']'])
  | .obj members =>
    L.letter '{' :: (joined (L.letter ',')
      (((sortedEntries members).insertionSort (ByKey le)).map L.member) ++ [L.letter '}'])

/-- The texts of an array's items. -/
def sortedTexts : List Json → List (List α)
  | [] => []
  | x :: xs => sortedText x :: sortedTexts xs

def sortedEntries : List (JsString × Json) → List (JsString × List α)
  | [] => []
  | (key, value) :: ms => (key, sortedText value) :: sortedEntries ms

end

mutual

theorem sortedText_eq_render : ∀ v : Json, sortedText L le v = L.render (arrange le v)
  | .null => by rw [sortedText, arrange, Spelling.render]
  | .bool b => by cases b <;> rw [sortedText, arrange, Spelling.render]
  | .num n => by rw [sortedText, arrange, Spelling.render]
  | .str s => by rw [sortedText, arrange, Spelling.render]
  | .arr items => by
    rw [sortedText, arrange, Spelling.render, sortedTexts_eq_render items]
  | .obj members => by
    have hsort : ((arrangeMembers le members).insertionSort (ByKey le)).map
        (fun m : JsString × Json => (m.1, L.render m.2)) =
          ((arrangeMembers le members).map fun m => (m.1, L.render m.2)).insertionSort (ByKey le) :=
      List.map_insertionSort _ _ _ _ fun _ _ _ _ => Iff.rfl
    rw [sortedText, arrange, Spelling.render, Spelling.renderMembers_eq_map, hsort,
      ← Spelling.renderMembers_eq_map, sortedEntries_eq_render members]

theorem sortedTexts_eq_render : ∀ items : List Json,
    sortedTexts L le items = L.renderItems (arrangeItems le items)
  | [] => by rw [sortedTexts, arrangeItems, Spelling.renderItems]
  | x :: xs => by
    rw [sortedTexts, arrangeItems, Spelling.renderItems, sortedText_eq_render x,
      sortedTexts_eq_render xs]

theorem sortedEntries_eq_render : ∀ members : List (JsString × Json),
    sortedEntries L le members = L.renderMembers (arrangeMembers le members)
  | [] => by rw [sortedEntries, arrangeMembers, Spelling.renderMembers]
  | (key, value) :: ms => by
    rw [sortedEntries, arrangeMembers, Spelling.renderMembers, sortedText_eq_render value,
      sortedEntries_eq_render ms]

end

variable {L} {le} {v w : Json}

theorem sortedText_eq_iff_of_injective (hL : Function.Injective L.render) :
    sortedText L le v = sortedText L le w ↔ arrange le v = arrange le w := by
  rw [sortedText_eq_render, sortedText_eq_render]
  exact hL.eq_iff

variable {L : Lexicon α}

theorem sortedText_eq_iff_arrange : sortedText L.toSpelling le v = sortedText L.toSpelling le w ↔
    arrange le v = arrange le w := sortedText_eq_iff_of_injective Lexicon.render_injective

theorem sortedText_eq_iff_same [Std.Total le] [IsTrans JsString le] [Std.Antisymm le]
    (hv : v.WellFormed) (hw : w.WellFormed) :
    sortedText L.toSpelling le v = sortedText L.toSpelling le w ↔ Same v w := by
  rw [sortedText_eq_iff_arrange, arrange_eq_iff_same hv hw]

end Stynx.SortedJson
