import Mathlib.Data.List.Basic

/-!
# Tables of separated values

The reader of RFC 4180 over any alphabet, as an automaton: fields with a comma
between them, records with a line break between them, a field in quotation marks
where it holds one of these. A line break is a line feed, a carriage return, or
both.
-/

namespace Stynx.SeparatedValues

universe u

variable {α : Type u}

/-- The four symbols that mean something. -/
structure Alphabet (α : Type u) where
  quote : α
  /-- The separator of fields. -/
  comma : α
  feed : α
  carriage : α
  /-- They are different. -/
  nodup : [quote, comma, feed, carriage].Nodup

/-- Where the reader stands. -/
inductive Mode where
  /-- Before a field. -/
  | start
  /-- After a carriage return that ended a record. -/
  | broken
  /-- In a field without quotation marks. -/
  | plain
  /-- Between quotation marks. -/
  | quoted
  /-- After a quotation mark in a quoted field. -/
  | closed
  deriving DecidableEq

structure Progress (α : Type u) where
  field : List α
  record : List (List α)
  records : List (List (List α))

def Progress.endField (p : Progress α) : Progress α :=
  ⟨[], p.record ++ [p.field], p.records⟩

def Progress.endRecord (p : Progress α) : Progress α :=
  ⟨[], [], p.records ++ [p.record ++ [p.field]]⟩

/-- One more symbol of the field. -/
def Progress.push (p : Progress α) (c : α) : Progress α := { p with field := p.field ++ [c] }

theorem Alphabet.ne (A : Alphabet α) :
    A.quote ≠ A.comma ∧ A.quote ≠ A.feed ∧ A.quote ≠ A.carriage ∧ A.comma ≠ A.feed ∧
      A.comma ≠ A.carriage ∧ A.feed ≠ A.carriage := by
  have h := A.nodup
  simp only [List.nodup_cons, List.mem_cons, List.not_mem_nil, or_false, not_or] at h
  exact ⟨h.1.1, h.1.2.1, h.1.2.2, h.2.1.1, h.2.1.2, h.2.2.1⟩

/-- What is read at the end of the text; nothing comes after a last line break. -/
def finish (mode : Mode) (p : Progress α) : Option (List (List (List α))) :=
  if mode = .quoted then none
  else if (mode = .start ∨ mode = .broken) ∧ p.record = [] then some p.records
  else some p.endRecord.records

/-- A field can end here. -/
def Ended (mode : Mode) : Prop := mode = .start ∨ mode = .plain ∨ mode = .closed

variable {mode : Mode} {text : List α} {fields written : List (List α)}

theorem finish_ended (h : Ended mode) {p : Progress α} (hrecord : p.record ≠ []) :
    finish mode p = some p.endRecord.records := by
  rcases h with rfl | rfl | rfl <;>
    simp only [finish, reduceCtorEq, if_false, or_self, true_or, true_and, false_and, hrecord]

variable [DecidableEq α]

/-- One symbol; a symbol in a wrong place is refused. -/
def advance (A : Alphabet α) (mode : Mode) (p : Progress α) (c : α) : Option (Mode × Progress α) :=
  if mode = .quoted then
    if c = A.quote then some (.closed, p) else some (.quoted, p.push c)
  else if mode = .broken ∧ c = A.feed then some (.start, p)
  else if c = A.comma then some (.start, p.endField)
  else if c = A.feed then some (.start, p.endRecord)
  else if c = A.carriage then some (.broken, p.endRecord)
  else if c = A.quote then
    match mode with
    | .start | .broken => some (.quoted, p)
    | .closed => some (.quoted, p.push c)
    | _ => none
  else if mode = .closed then none
  else some (.plain, p.push c)

def readFrom (A : Alphabet α) : Mode → Progress α → List α → Option (List (List (List α)))
  | mode, p, [] => finish mode p
  | mode, p, c :: rest =>
    match advance A mode p c with
    | some (mode, p) => readFrom A mode p rest
    | none => none

def readTable (A : Alphabet α) (text : List α) : Option (List (List (List α))) :=
  readFrom A .start ⟨[], [], []⟩ text

/-- Quotation marks twice. -/
def doubled (A : Alphabet α) (text : List α) : List α :=
  text.flatMap fun c => if c = A.quote then [A.quote, A.quote] else [c]

/-- The text needs no quotation marks. -/
def Bare (A : Alphabet α) (text : List α) : Prop :=
  ∀ c ∈ text, c ≠ A.quote ∧ c ≠ A.comma ∧ c ≠ A.feed ∧ c ≠ A.carriage

/-- A way to write a text as a field. -/
inductive Writes (A : Alphabet α) (text : List α) : List α → Prop where
  | bare (h : Bare A text) : Writes A text text
  /-- Between quotation marks. -/
  | quoted : Writes A text (A.quote :: (doubled A text ++ [A.quote]))

variable {A : Alphabet α}

theorem readFrom_bare (h : Bare A text) (p : Progress α) (rest : List α) :
    readFrom A .plain p (text ++ rest) =
      readFrom A .plain { p with field := p.field ++ text } rest := by
  induction text generalizing p with
  | nil => rw [List.nil_append, List.append_nil]
  | cons c text ih =>
    obtain ⟨hquote, hcomma, hfeed, hcarriage⟩ := h c (.head _)
    have hadvance : advance A .plain p c = some (.plain, p.push c) := by
      simp only [advance, reduceCtorEq, if_false, false_and, if_neg hquote, if_neg hcomma,
        if_neg hfeed, if_neg hcarriage]
    rw [List.cons_append, readFrom, hadvance]
    dsimp only
    rw [ih (fun d hd => h d (List.mem_cons_of_mem c hd)), Progress.push, List.append_assoc]
    rfl

theorem readFrom_doubled (text : List α) (p : Progress α) (rest : List α) :
    readFrom A .quoted p (doubled A text ++ rest) =
      readFrom A .quoted { p with field := p.field ++ text } rest := by
  induction text generalizing p with
  | nil =>
    rw [List.append_nil]
    rfl
  | cons c text ih =>
    obtain ⟨hcomma, hfeed, hcarriage, -⟩ := A.ne
    have hpush : { p.push c with field := (p.push c).field ++ text } =
        { p with field := p.field ++ c :: text } := by
      rw [Progress.push, List.append_assoc]
      rfl
    by_cases hc : c = A.quote
    · have hfirst : advance A .quoted p A.quote = some (.closed, p) := by
        simp only [advance, if_true]
      have hsecond : advance A .closed p A.quote = some (.quoted, p.push A.quote) := by
        simp only [advance, reduceCtorEq, if_false, false_and, if_neg hcomma, if_neg hfeed,
          if_neg hcarriage, if_true]
      rw [doubled, List.flatMap_cons, if_pos hc, List.append_assoc, List.cons_append,
        List.cons_append, List.nil_append, readFrom, hfirst]
      dsimp only
      rw [readFrom, hsecond]
      dsimp only
      rw [← doubled, ← hc, ih, hpush]
    · have hadvance : advance A .quoted p c = some (.quoted, p.push c) := by
        simp only [advance, if_true, if_neg hc]
      rw [doubled, List.flatMap_cons, if_neg hc, List.append_assoc, List.cons_append,
        List.nil_append, readFrom, hadvance]
      dsimp only
      rw [← doubled, ih, hpush]

theorem readFrom_field {written : List α} (h : Writes A text written) (record records)
    (rest : List α) :
    ∃ mode, Ended mode ∧
      readFrom A .start ⟨[], record, records⟩ (written ++ rest) =
        readFrom A mode ⟨text, record, records⟩ rest := by
  obtain ⟨hcomma, hfeed, hcarriage, -⟩ := A.ne
  cases h with
  | bare hbare =>
    cases text with
    | nil => exact ⟨.start, .inl rfl, rfl⟩
    | cons c text =>
      obtain ⟨hquote', hcomma', hfeed', hcarriage'⟩ := hbare c (.head _)
      have hadvance : advance A .start ⟨[], record, records⟩ c =
          some (.plain, ⟨[c], record, records⟩) := by
        simp only [advance, reduceCtorEq, if_false, false_and, if_neg hquote', if_neg hcomma',
          if_neg hfeed', if_neg hcarriage']
        rfl
      refine ⟨.plain, .inr (.inl rfl), ?_⟩
      rw [List.cons_append, readFrom, hadvance]
      exact readFrom_bare (fun d hd => hbare d (.tail c hd)) _ rest
  | quoted =>
    have hopen : advance A .start ⟨[], record, records⟩ A.quote =
        some (.quoted, ⟨[], record, records⟩) := by
      simp only [advance, reduceCtorEq, if_false, false_and, if_neg hcomma, if_neg hfeed,
        if_neg hcarriage, if_true]
    have hclose : advance A .quoted ⟨text, record, records⟩ A.quote =
        some (.closed, ⟨text, record, records⟩) := by
      simp only [advance, if_true]
    refine ⟨.closed, .inr (.inr rfl), ?_⟩
    rw [List.cons_append, readFrom, hopen]
    dsimp only
    rw [List.append_assoc, readFrom_doubled, List.nil_append, List.cons_append, List.nil_append,
      readFrom, hclose]

theorem advance_comma (h : Ended mode) (p : Progress α) :
    advance A mode p A.comma = some (.start, p.endField) := by
  rcases h with rfl | rfl | rfl <;>
    simp only [advance, reduceCtorEq, if_false, false_and, if_true]

theorem advance_feed (h : Ended mode) (p : Progress α) :
    advance A mode p A.feed = some (.start, p.endRecord) := by
  have hcomma : A.feed ≠ A.comma := A.ne.2.2.2.1.symm
  rcases h with rfl | rfl | rfl <;>
    simp only [advance, reduceCtorEq, if_false, false_and, if_neg hcomma, if_true]

theorem readFrom_record (h : List.Forall₂ (Writes A) fields written) (hfields : fields ≠ [])
    (record records) (rest : List α) :
    readFrom A .start ⟨[], record, records⟩ ([A.comma].intercalate written ++ A.feed :: rest) =
      readFrom A .start ⟨[], [], records ++ [record ++ fields]⟩ rest := by
  induction h generalizing record with
  | nil => exact absurd rfl hfields
  | @cons text first fields others hfirst hrest ih =>
    cases hrest with
    | nil =>
      obtain ⟨mode, hended, hread⟩ := readFrom_field hfirst record records (A.feed :: rest)
      rw [List.intercalate_singleton, hread, readFrom, advance_feed hended]
      rfl
    | @cons next second fields others hsecond hrest =>
      rw [List.intercalate_cons_cons, List.append_assoc, List.append_assoc, List.cons_append,
        List.nil_append]
      obtain ⟨mode, hended, hread⟩ := readFrom_field hfirst record records
        (A.comma :: ([A.comma].intercalate (second :: others) ++ A.feed :: rest))
      rw [hread, readFrom, advance_comma hended]
      dsimp only [Progress.endField]
      rw [ih (List.cons_ne_nil _ _), List.append_assoc]
      rfl

theorem readFrom_last (h : List.Forall₂ (Writes A) fields written) (hfields : fields ≠ [])
    {record : List (List α)} (hlong : record ≠ [] ∨ 2 ≤ fields.length) (records) :
    readFrom A .start ⟨[], record, records⟩ ([A.comma].intercalate written) =
      some (records ++ [record ++ fields]) := by
  induction h generalizing record with
  | nil => exact absurd rfl hfields
  | @cons text first fields others hfirst hrest ih =>
    cases hrest with
    | nil =>
      have hrecord : record ≠ [] := by
        rcases hlong with hrecord | hlong
        · exact hrecord
        · exact absurd hlong (by simp)
      obtain ⟨mode, hended, hread⟩ := readFrom_field hfirst record records []
      rw [List.append_nil] at hread
      rw [List.intercalate_singleton, hread, readFrom, finish_ended hended hrecord]
      rfl
    | @cons next second fields others hsecond hrest =>
      rw [List.intercalate_cons_cons, List.append_assoc, List.cons_append, List.nil_append]
      obtain ⟨mode, hended, hread⟩ := readFrom_field hfirst record records
        (A.comma :: [A.comma].intercalate (second :: others))
      rw [hread, readFrom, advance_comma hended]
      dsimp only [Progress.endField]
      rw [ih (List.cons_ne_nil _ _) (.inl (by simp)), List.append_assoc]
      rfl

theorem readTable_of_writes {table written : List (List (List α))}
    (h : List.Forall₂ (List.Forall₂ (Writes A)) table written)
    (hlong : ∀ record ∈ table, 2 ≤ record.length) :
    readTable A ([A.feed].intercalate (written.map [A.comma].intercalate)) = some table := by
  have hfrom : ∀ records : List (List (List α)),
      readFrom A .start ⟨[], [], records⟩
        ([A.feed].intercalate (written.map [A.comma].intercalate)) = some (records ++ table) := by
    induction h with
    | nil =>
      intro records
      rw [List.append_nil]
      rfl
    | @cons record line table lines hfirst hrest ih =>
      intro records
      have hlength := hlong record (.head _)
      have hne : record ≠ [] := by
        intro hnil
        rw [hnil] at hlength
        exact absurd hlength (by simp)
      have hlater := ih fun other hother => hlong other (.tail record hother)
      cases hrest with
      | nil =>
        rw [List.map_cons, List.map_nil, List.intercalate_singleton,
          readFrom_last hfirst hne (.inr hlength), List.nil_append]
      | @cons next second table lines hsecond hrest =>
        rw [List.map_cons, List.map_cons, List.intercalate_cons_cons, List.append_assoc,
          List.cons_append, List.nil_append, readFrom_record hfirst hne, ← List.map_cons, hlater,
          List.append_assoc]
        rfl
  exact hfrom []

end Stynx.SeparatedValues
