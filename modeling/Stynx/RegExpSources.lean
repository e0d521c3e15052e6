import Stynx.RegExp

/-!
# Sources of regular expressions

A regular expression assembled at run time is read from its text. The texts
read here are those of Unicode mode made of `^`, `$`, `.`, escaped syntax
characters and other characters, each possibly repeated by `*`; any other
text is left unread. A pattern without captures reads part of what is to
come, and backtracking finds a way to go on whenever there is one.
-/

namespace Stynx.RegExp

def isSyntaxChar (c : Char) : Bool := c ∈ "^$\\.*+?()[]\x7b\x7d|".toList

/-- What `.` does not match. -/
def isLineTerminator (c : Char) : Bool := c.toNat ∈ [0xa, 0xd, 0x2028, 0x2029]

/-- A piece of a source. -/
inductive Token where
  | assertion (pattern : Pattern)
  /-- A piece that `*` may follow. -/
  | atom (pattern : Pattern)
  | quantifier

def dot : Pattern := .one fun c => !isLineTerminator c

/-- The piece that a character is, unless it needs more than this fragment. -/
def tokenOf (c : Char) : Option Token :=
  if c = '^' then some (.assertion .inputStart)
  else if c = '$' then some (.assertion .inputEnd)
  else if c = '.' then some (.atom dot)
  else if c = '*' then some .quantifier
  else if isSyntaxChar c then none
  else some (.atom (char c))

/-- The pieces of a source, after a backslash or not. -/
def tokens : Bool → List Char → Option (List Token)
  | false, [] => some []
  | true, [] => none
  | true, c :: rest =>
    if isSyntaxChar c || c == '/' then (tokens false rest).map (.atom (char c) :: ·) else none
  | false, c :: rest =>
    if c = '\\' then tokens true rest
    else (tokenOf c).bind fun token => (tokens false rest).map (token :: ·)

/-- The patterns that some pieces make up. -/
def terms : List Token → Option (List Pattern)
  | [] => some []
  | .assertion pattern :: rest => (terms rest).map (pattern :: ·)
  | .atom pattern :: .quantifier :: rest => (terms rest).map (.star true pattern :: ·)
  | .atom pattern :: rest => (terms rest).map (pattern :: ·)
  | .quantifier :: _ => none

/-- `new RegExp(source, 'u')`. -/
def compile (source : List Char) : Option Pattern :=
  ((tokens false source).bind terms).map sequence

theorem tokens_cons (c : Char) (rest : List Char) :
    tokens false (c :: rest) = if c = '\\' then tokens true rest
      else (tokenOf c).bind fun token => (tokens false rest).map (token :: ·) := rfl

variable {c : Char} {pattern : Pattern} {readsFirst : List Char → List Char → Prop}
  {accepts : Char → Bool} {patterns : List Pattern}

theorem tokens_of_tokenOf {token : Token} (hne : c ≠ '\\') (h : tokenOf c = some token)
    (rest : List Char) : tokens false (c :: rest) = (tokens false rest).map (token :: ·) := by
  rw [tokens_cons, if_neg hne, h, Option.bind_some]

theorem tokens_escaped (h : isSyntaxChar c = true) (rest : List Char) :
    tokens false ('\\' :: c :: rest) = (tokens false rest).map (.atom (char c) :: ·) := by
  have hescape : (isSyntaxChar c || c == '/') = true := by rw [h, Bool.true_or]
  exact if_pos hescape

theorem tokens_plain (h : isSyntaxChar c = false) (rest : List Char) :
    tokens false (c :: rest) = (tokens false rest).map (.atom (char c) :: ·) := by
  have hne : ∀ d, isSyntaxChar d = true → c ≠ d := by
    rintro d hd rfl
    rw [h] at hd
    cases hd
  refine tokens_of_tokenOf (hne '\\' rfl) ?_ rest
  rw [tokenOf, if_neg (hne '^' rfl), if_neg (hne '$' rfl), if_neg (hne '.' rfl),
    if_neg (hne '*' rfl), if_neg (ne_true_of_eq_false h)]

theorem terms_atom {rest : List Token} (h : rest.head? ≠ some .quantifier) :
    terms (.atom pattern :: rest) = (terms rest).map (pattern :: ·) := by
  cases rest with
  | nil => rfl
  | cons token rest =>
    cases token with
    | assertion other => rfl
    | atom other => rfl
    | quantifier => exact absurd rfl h

theorem terms_star (pattern : Pattern) (rest : List Token) :
    terms (.atom pattern :: .quantifier :: rest) = (terms rest).map (.star true pattern :: ·) := rfl

/-- A pattern goes on from what is to come exactly where a relation says, whatever follows it. -/
def Reads (pattern : Pattern) (reads : List Char → List Char → Prop) : Prop :=
  ∀ (next : Continuation) (goal : List Char → Prop),
    (∀ cursor : Cursor, (next cursor).isSome = true ↔ goal cursor.rest) →
      ∀ cursor : Cursor, (pattern.run cursor next).isSome = true ↔
        ∃ rest, reads cursor.rest rest ∧ goal rest

theorem run_one (accepts : Char → Bool) (cursor : Cursor) (next : Continuation) :
    (Pattern.one accepts).run cursor next =
      if cursor.rest.head?.any accepts then next (cursor.skip 1) else none := rfl

theorem reads_one (accepts : Char → Bool) :
    Reads (.one accepts) fun text rest => ∃ c, text = c :: rest ∧ accepts c = true := by
  intro next goal hnext cursor
  obtain ⟨before, position, text, captures⟩ := cursor
  rw [run_one]
  cases text with
  | nil => simp
  | cons c text =>
    have hskip := hnext (Cursor.skip ⟨before, position, c :: text, captures⟩ 1)
    cases haccepts : accepts c with
    | false => simp [haccepts]
    | true => simpa [haccepts, Cursor.skip] using hskip

theorem reads_seq {first second : Pattern} {readsSecond : List Char → List Char → Prop}
    (hfirst : Reads first readsFirst) (hsecond : Reads second readsSecond) :
    Reads (.seq first second) fun text rest =>
      ∃ middle, readsFirst text middle ∧ readsSecond middle rest := by
  intro next goal hnext cursor
  change (first.run cursor fun after => second.run after next).isSome = true ↔ _
  have hrest : ∀ after : Cursor, (second.run after next).isSome = true ↔
      ∃ rest, readsSecond after.rest rest ∧ goal rest := hsecond next goal hnext
  rw [hfirst _ (fun text => ∃ rest, readsSecond text rest ∧ goal rest) hrest]
  constructor
  · rintro ⟨middle, hmiddle, rest, hrest, hgoal⟩
    exact ⟨rest, ⟨middle, hmiddle, hrest⟩, hgoal⟩
  · rintro ⟨rest, ⟨middle, hmiddle, hrest⟩, hgoal⟩
    exact ⟨middle, hmiddle, rest, hrest, hgoal⟩

theorem reads_inputEnd : Reads .inputEnd fun text rest => text = [] ∧ rest = [] := by
  intro next goal hnext cursor
  change (if cursor.rest.isEmpty then next cursor else none).isSome = true ↔ _
  have hend := hnext cursor
  cases hrest : cursor.rest with
  | nil =>
    rw [hrest] at hend
    simpa using hend
  | cons c text => simp

theorem exists_taken_nil (goal : List Char → Prop) :
    (∃ rest, (∃ taken, [] = taken ++ rest ∧ ∀ c ∈ taken, accepts c = true) ∧ goal rest) ↔
      goal [] := by
  constructor
  · rintro ⟨rest, ⟨taken, heq, -⟩, hgoal⟩
    rw [(List.append_eq_nil_iff.mp heq.symm).2] at hgoal
    exact hgoal
  · exact fun h => ⟨[], ⟨[], rfl, fun _ hc => absurd hc List.not_mem_nil⟩, h⟩

theorem exists_taken_cons (goal : List Char → Prop) (c : Char) (text : List Char) :
    (∃ rest, (∃ taken, c :: text = taken ++ rest ∧ ∀ d ∈ taken, accepts d = true) ∧ goal rest) ↔
      (accepts c = true ∧
        ∃ rest, (∃ taken, text = taken ++ rest ∧ ∀ d ∈ taken, accepts d = true) ∧ goal rest) ∨
      goal (c :: text) := by
  constructor
  · rintro ⟨rest, ⟨taken, heq, hall⟩, hgoal⟩
    cases taken with
    | nil =>
      rw [List.nil_append] at heq
      exact .inr (heq ▸ hgoal)
    | cons d taken =>
      rw [List.cons_append] at heq
      obtain ⟨rfl, htext⟩ := List.cons.inj heq
      exact .inl ⟨hall _ (.head _), rest, ⟨taken, htext, fun d hd => hall d (.tail _ hd)⟩, hgoal⟩
  · rintro (⟨hc, rest, ⟨taken, rfl, hall⟩, hgoal⟩ | hgoal)
    · refine ⟨rest, ⟨c :: taken, rfl, fun d hd => ?_⟩, hgoal⟩
      rcases List.mem_cons.mp hd with rfl | hd
      · exact hc
      · exact hall d hd
    · exact ⟨c :: text, ⟨[], rfl, fun _ hd => absurd hd List.not_mem_nil⟩, hgoal⟩

theorem repeated_greedy (body : Cursor → Continuation → Option Cursor) (groups : List Nat)
    (fuel : Nat) (cursor : Cursor) (next : Continuation) :
    repeated body groups true (fuel + 1) cursor next =
      (body (cursor.forget groups) fun after =>
        if after.position = cursor.position then none
        else repeated body groups true fuel after next).or (next cursor) := by
  rw [repeated]
  dsimp only
  rw [if_pos rfl]
  split
  case h_1 result hresult => rw [hresult, Option.some_or]
  case h_2 hnone => rw [hnone, Option.none_or]

theorem reads_star_one (accepts : Char → Bool) :
    Reads (.star true (.one accepts)) fun text rest =>
      ∃ taken, text = taken ++ rest ∧ ∀ c ∈ taken, accepts c = true := by
  intro next goal hnext cursor
  have hturns : ∀ (fuel : Nat) (cursor : Cursor), cursor.rest.length ≤ fuel →
      ((repeated (Pattern.one accepts).run [] true fuel cursor next).isSome = true ↔
        ∃ rest, (∃ taken, cursor.rest = taken ++ rest ∧ ∀ c ∈ taken, accepts c = true) ∧
          goal rest) := by
    intro fuel
    induction fuel with
    | zero =>
      intro cursor hfuel
      have hrest : cursor.rest = [] := List.eq_nil_of_length_eq_zero (Nat.le_zero.mp hfuel)
      rw [hrest, exists_taken_nil, ← hrest]
      exact hnext cursor
    | succ fuel ih =>
      intro cursor hfuel
      rw [repeated_greedy, run_one, Option.isSome_or, Bool.or_eq_true, hnext cursor]
      obtain ⟨before, position, text, captures⟩ := cursor
      cases text with
      | nil =>
        rw [exists_taken_nil]
        exact or_iff_right Bool.false_ne_true
      | cons c text =>
        rw [exists_taken_cons]
        refine or_congr_left ?_
        cases haccepts : accepts c with
        | false => simp [Cursor.forget, haccepts]
        | true =>
          have hlater := ih (Cursor.skip (Cursor.forget ⟨before, position, c :: text, captures⟩ []) 1)
            (Nat.le_of_succ_le_succ hfuel)
          simpa [Cursor.forget, Cursor.skip, haccepts] using hlater
  exact hturns _ cursor (Nat.le_refl _)

theorem reads_sequence_cons {readsRest : List Char → List Char → Prop}
    (hfirst : Reads pattern readsFirst) (hrest : Reads (sequence patterns) readsRest) :
    Reads (sequence (pattern :: patterns)) fun text rest =>
      ∃ middle, readsFirst text middle ∧ readsRest middle rest := by
  cases patterns with
  | nil => exact reads_seq hfirst hrest
  | cons second patterns => exact reads_seq hfirst hrest

theorem run_sequence_cons (pattern : Pattern) (patterns : List Pattern) (cursor : Cursor)
    (next : Continuation) :
    (sequence (pattern :: patterns)).run cursor next =
      pattern.run cursor fun after => (sequence patterns).run after next := by
  cases patterns with
  | nil => rfl
  | cons second patterns => rfl

theorem matchesFrom_anchored (patterns : List Pattern) (before : Option Char) (position : Nat)
    (text : List Char) :
    (sequence (.inputStart :: patterns)).matchesFrom before (position + 1) text = [] := by
  have hnone : ∀ before position text captures, (sequence (.inputStart :: patterns)).matchAt
      ⟨before, position + 1, text, captures⟩ = none := by
    intro before position text captures
    rw [Pattern.matchAt, run_sequence_cons, Pattern.run, if_neg (Nat.succ_ne_zero position)]
    rfl
  induction text generalizing before position with
  | nil => rw [Pattern.matchesFrom, hnone, Option.toList_none]
  | cons c text ih => rw [Pattern.matchesFrom, hnone, ih, Option.toList_none, List.nil_append]

theorem test_anchored_iff {reads : List Char → List Char → Prop}
    (hreads : Reads (sequence patterns) reads) (text : List Char) :
    (sequence (.inputStart :: patterns)).test text = true ↔ ∃ rest, reads text rest := by
  have hmatches : (sequence (.inputStart :: patterns)).allMatches text =
      ((sequence (.inputStart :: patterns)).matchAt ⟨none, 0, text, []⟩).toList := by
    rw [Pattern.allMatches]
    cases text with
    | nil => rfl
    | cons c text => rw [Pattern.matchesFrom, matchesFrom_anchored, List.append_nil]
  have hrun := hreads some (fun _ => True) (fun _ => by simp) ⟨none, 0, text, []⟩
  rw [Pattern.test, Pattern.exec, hmatches, Option.head?_toList, Pattern.matchAt, Option.isSome_map,
    run_sequence_cons, Pattern.run, if_pos rfl, hrun]
  simp only [and_true]

end Stynx.RegExp
