import Stynx.JsonRendering
import Stynx.OrderedMap
import Stynx.RegExp
import Stynx.SeparatedValues

/-!
# The tables of an export

`csvEscape` of `packages/privacy/src/privacy.service.ts` and the lines that an
export makes of the rows of a table.
-/

namespace Stynx.PrivacyCsv

open JsonTokens JsonRendering CanonicalJson SeparatedValues

/-- The own properties of a row, in the order of `Object.keys`. -/
abbrev Row := OrderedMap JsString Json

/-- `/[\s\p{Cc}]/u` -/
def isBlank : CodePoint → Bool
  | .scalar c => RegExp.isSpace c || c.toNat < 0x20 || (0x7f ≤ c.toNat && c.toNat ≤ 0x9f)
  | .surrogate _ => false

/-- `significant`: the text without leading white space and control characters. -/
def significant (text : JsString) : JsString := text.dropWhile isBlank

/-- The text starts with a character that starts a formula. -/
def startsFormula : JsString → Bool
  | .scalar c :: _ => c ∈ ['=', '+', '-', '@']
  | _ => false

/-- The value as a text: a string itself, else its JSON text. -/
def textOf : Json → JsString
  | .str s => s
  | v => (jsonLexicon.render v).map .scalar

/-- The value is a string that a spreadsheet could take for a formula. -/
def isDangerous : Json → Bool
  | .str s => s.head? = some (.scalar '\t') || s.head? = some (.scalar '\r') ||
      startsFormula (significant s)
  | _ => false

def apostrophe : CodePoint := .scalar (Char.ofNat 39)

/-- The text of a cell before it is quoted. -/
def neutralised (value : Json) : JsString :=
  if isDangerous value then apostrophe :: textOf value else textOf value

/-- `/[",\n\r]/u.test(text)` -/
def needsQuotes (text : JsString) : Bool :=
  text.any fun c => c ∈ [CodePoint.scalar '"', .scalar ',', .scalar '\n', .scalar '\r']

/-- `text.replace(/"/g, '""')` -/
def doubleQuotes (text : JsString) : JsString :=
  text.flatMap fun c => if c = .scalar '"' then [.scalar '"', .scalar '"'] else [c]

def csvEscape : Option Json → JsString
  | none | some .null => []
  | some value =>
    let text := neutralised value
    if needsQuotes text then .scalar '"' :: (doubleQuotes text ++ [.scalar '"']) else text

/-- `[...new Set(snapshot.rows.flatMap((row) => Object.keys(row)))]` -/
def columnsOf (rows : List Row) : List JsString :=
  (rows.flatMap fun row => row.entries.map Prod.fst).eraseDups

def csv (rows : List Row) : JsString :=
  let columns := columnsOf rows
  let header := [.scalar ','].intercalate (columns.map fun column => csvEscape (some (.str column)))
  let lines := rows.map fun row =>
    [.scalar ','].intercalate (columns.map fun column => csvEscape (row.get? column))
  [.scalar '\n'].intercalate (header :: lines)

/-- The symbols of the table. -/
def csvAlphabet : Alphabet CodePoint :=
  ⟨.scalar '"', .scalar ',', .scalar '\n', .scalar '\r', by decide⟩

def fieldOf : Option Json → JsString
  | none | some .null => []
  | some value => neutralised value

theorem bare_of_not_needsQuotes {text : JsString} (h : needsQuotes text = false) :
    Bare csvAlphabet text := by
  intro c hc
  have hnot := List.any_eq_false.mp h c hc
  simpa [csvAlphabet] using hnot

theorem writes_csvEscape (value : Option Json) :
    Writes csvAlphabet (fieldOf value) (csvEscape value) := by
  have hsome : ∀ text : JsString, Writes csvAlphabet text
      (if needsQuotes text then .scalar '"' :: (doubleQuotes text ++ [.scalar '"']) else text) := by
    intro text
    split
    · exact .quoted
    · next hplain => exact .bare (bare_of_not_needsQuotes (Bool.eq_false_of_not_eq_true hplain))
  have hempty : Writes csvAlphabet [] [] := .bare fun c hc => absurd hc List.not_mem_nil
  match value with
  | none => exact hempty
  | some .null => exact hempty
  | some (.bool b) => exact hsome _
  | some (.num n) => exact hsome _
  | some (.str s) => exact hsome _
  | some (.arr items) => exact hsome _
  | some (.obj members) => exact hsome _

theorem not_startsFormula (s : JsString) :
    startsFormula (significant (fieldOf (some (.str s)))) = false := by
  change startsFormula (significant (neutralised (.str s))) = false
  unfold neutralised
  split
  · rfl
  · next hsafe =>
    rw [isDangerous, Bool.or_eq_true, not_or] at hsafe
    exact Bool.eq_false_of_not_eq_true hsafe.2

theorem fieldOf_str (s : JsString) :
    fieldOf (some (.str s)) = s ∨ fieldOf (some (.str s)) = apostrophe :: s := by
  change neutralised (.str s) = s ∨ neutralised (.str s) = apostrophe :: s
  unfold neutralised
  split
  · exact .inr rfl
  · exact .inl rfl

theorem fieldOf_json {value : Json} (hnull : value ≠ .null) (hstr : ∀ s, value ≠ .str s) :
    fieldOf (some value) = (jsonLexicon.render value).map .scalar := by
  cases value with
  | null => exact absurd rfl hnull
  | str s => exact absurd rfl (hstr s)
  | bool b => rfl
  | num n => rfl
  | arr items => rfl
  | obj members => rfl

theorem forall₂_csvEscape (values : List (Option Json)) :
    List.Forall₂ (Writes csvAlphabet) (values.map fieldOf) (values.map csvEscape) := by
  induction values with
  | nil => exact .nil
  | cons value rest ih => exact .cons (writes_csvEscape value) ih

/-- The reader gives back a header and a record for every row, with a field for every column:
nothing for null, a string up to an apostrophe, else the JSON text; and no string or name is taken
for a formula. -/
theorem csv_read_back (rows : List Row) (hcolumns : 2 ≤ (columnsOf rows).length) :
    readTable csvAlphabet (csv rows) =
      some (((columnsOf rows).map fun column => fieldOf (some (.str column))) ::
        rows.map fun row => (columnsOf rows).map fun column => fieldOf (row.get? column)) ∧
    (fieldOf none = [] ∧ fieldOf (some .null) = []) ∧
    (∀ value : Json, value ≠ .null → (∀ s, value ≠ .str s) →
      fieldOf (some value) = (jsonLexicon.render value).map .scalar) ∧
    (∀ s, fieldOf (some (.str s)) = s ∨ fieldOf (some (.str s)) = apostrophe :: s) ∧
    ∀ s, startsFormula (significant (fieldOf (some (.str s)))) = false := by
  refine ⟨?_, ⟨rfl, rfl⟩, fun value hnull hstr => fieldOf_json hnull hstr, fieldOf_str,
    not_startsFormula⟩
  let values : List (List (Option Json)) :=
    ((columnsOf rows).map fun column => some (.str column)) ::
      rows.map fun row => (columnsOf rows).map row.get?
  have hvalues : ∀ record ∈ values, record.length = (columnsOf rows).length := by
    intro record hrecord
    rcases List.mem_cons.mp hrecord with rfl | hrow
    · exact List.length_map _
    · obtain ⟨row, -, rfl⟩ := List.mem_map.mp hrow
      exact List.length_map _
  have hwrites : List.Forall₂ (List.Forall₂ (Writes csvAlphabet))
      (values.map (List.map fieldOf)) (values.map (List.map csvEscape)) := by
    rw [List.forall₂_map_left_iff, List.forall₂_map_right_iff, List.forall₂_same]
    exact fun record _ => forall₂_csvEscape record
  have hlong : ∀ record ∈ values.map (List.map fieldOf), 2 ≤ record.length := by
    intro record hrecord
    obtain ⟨cells, hcells, rfl⟩ := List.mem_map.mp hrecord
    rw [List.length_map, hvalues cells hcells]
    exact hcolumns
  have hread := readTable_of_writes hwrites hlong
  simp only [values, List.map_cons, List.map_map, Function.comp_def] at hread
  exact hread

/-- Two rows, one of them with a formula. -/
def sampleRows : List Row :=
  [⟨[(ofString "id", .str (ofString "a,b")), (ofString "x", .str (ofString "=1"))], by decide⟩,
    ⟨[(ofString "id", .bool true), (ofString "x", .null)], by decide⟩]

/-- The comma stays in its field, and the formula gets an apostrophe. -/
theorem sampleRows_read_back :
    readTable csvAlphabet (csv sampleRows) =
      some [[ofString "id", ofString "x"], [ofString "a,b", apostrophe :: ofString "=1"],
        [ofString "true", []]] :=
  (csv_read_back sampleRows (by decide)).1

end Stynx.PrivacyCsv
