import Stynx.ExceptFolds
import Stynx.ImportJson

/-!
# What the strict JSON reader accepts

The reader of imports against the grammar: what the grammar derives it reads,
from any text that goes on with something else, and what it reads the grammar
derives.
-/

namespace Stynx.ImportJson

open JsonGrammar
open ExceptFolds

variable {N : Type} {readNumber : Units → N} {unique : Bool}

theorem afterLiteral_append (name rest : Units) : afterLiteral name (name ++ rest) = some rest := by
  rw [afterLiteral, if_pos (List.isPrefixOf_iff_prefix.mpr (List.prefix_append name rest)),
    List.drop_left]

variable {name text rest core w key : Units} {c : UInt16} {v : Value N} {keys : List Units}
  {fuel : Nat}

theorem afterLiteral_eq_some (h : afterLiteral name text = some rest) : text = name ++ rest := by
  unfold afterLiteral at h
  split_ifs at h with hprefix
  obtain ⟨more, rfl⟩ := List.isPrefixOf_iff_prefix.mp hprefix
  rw [← Option.some.inj h, List.drop_left]

variable {d close : UInt16} {before after body : Units} {closed : Bool}

theorem afterLiteral_eq_none (h : c ≠ d) : afterLiteral (c :: name) (d :: text) = none := by
  rw [afterLiteral, if_neg]
  intro hprefix
  exact h (List.cons_prefix_cons.mp (List.isPrefixOf_iff_prefix.mp hprefix)).1

theorem isNumber_head {t : Units} (h : IsNumber t) :
    ∃ c rest, t = c :: rest ∧ (c = unit '-' ∨ isDigit c = true) := by
  obtain @⟨sign, int, frac, exp, hsign, hint, -, -⟩ := h
  obtain ⟨c, more, rfl, hc⟩ := isInt_head hint
  rcases hsign with rfl | rfl
  · exact ⟨c, _, rfl, .inr hc⟩
  · exact ⟨_, _, rfl, .inl rfl⟩

def startsToken (c : UInt16) : Prop :=
  c = unit 't' ∨ c = unit 'f' ∨ c = unit 'n' ∨ c = unit '-' ∨ isDigit c = true

/-- Whether a value is read as one token. -/
def isScalar : Value N → Bool
  | .str _ => false
  | .arr _ => false
  | .obj _ => false
  | _ => true

theorem scalar_head (h : IsValue readNumber v core) (hv : isScalar v = true) :
    ∃ c rest, core = c :: rest ∧ startsToken c := by
  cases v with
  | null =>
    rw [IsValue] at h
    exact ⟨_, _, h, by unfold startsToken; decide⟩
  | bool b =>
    cases b
    all_goals
      rw [IsValue] at h
      exact ⟨_, _, h, by unfold startsToken; decide⟩
  | num n =>
    rw [IsValue] at h
    obtain ⟨c, rest, hcore, hc⟩ := isNumber_head h.1
    exact ⟨c, rest, hcore, .inr (.inr (.inr hc))⟩
  | str s => cases hv
  | arr items => cases hv
  | obj members => cases hv

theorem startsToken.ne (h : startsToken c) (ht : d ≠ unit 't') (hf : d ≠ unit 'f')
    (hn : d ≠ unit 'n') (hm : d ≠ unit '-') (hd : isDigit d = false) : c ≠ d := by
  rintro rfl
  rcases h with h | h | h | h | h
  · exact ht h
  · exact hf h
  · exact hn h
  · exact hm h
  · rw [hd] at h
    cases h

theorem startsToken.not_space (h : startsToken c) : isSpace c = false := by
  have hblank : c ≠ unit ' ' := h.ne (by decide) (by decide) (by decide) (by decide) (by decide)
  have htab : c ≠ unit '\t' := h.ne (by decide) (by decide) (by decide) (by decide) (by decide)
  have hreturn : c ≠ unit '\r' := h.ne (by decide) (by decide) (by decide) (by decide) (by decide)
  have hline : c ≠ unit '\n' := h.ne (by decide) (by decide) (by decide) (by decide) (by decide)
  simp [isSpace, hblank, htab, hreturn, hline]

theorem value_head (h : IsValue readNumber v core) :
    ∃ c rest, core = c :: rest ∧ isSpace c = false ∧ c ≠ unit ']' := by
  cases hv : isScalar v with
  | true =>
    obtain ⟨c, rest, hcore, hc⟩ := scalar_head h hv
    exact ⟨c, rest, hcore, hc.not_space,
      hc.ne (by decide) (by decide) (by decide) (by decide) (by decide)⟩
  | false =>
    cases v with
    | str s =>
      obtain ⟨chars, hcore, -⟩ := h
      exact ⟨_, _, hcore, by decide⟩
    | arr items =>
      obtain ⟨body, hcore, -⟩ := h
      exact ⟨_, _, hcore, by decide⟩
    | obj members =>
      obtain ⟨body, hcore, -⟩ := h
      exact ⟨_, _, hcore, by decide⟩
    | _ => cases hv

theorem whitespace_value (hbefore : Spaces before) (h : IsValue readNumber v core) (rest : Units) :
    whitespace (before ++ (core ++ rest)) = core ++ rest := by
  obtain ⟨c, more, rfl, hc, -⟩ := value_head h
  refine takeWhile_spaces hbefore fun d tail heq => ?_
  rw [List.cons_append] at heq
  rw [← (List.cons.inj heq).1]
  exact hc

theorem whitespace_cons (hw : Spaces w) (hc : isSpace c = false) (rest : Units) :
    whitespace (w ++ c :: rest) = c :: rest :=
  takeWhile_spaces hw fun d tail heq => by
    rw [← (List.cons.inj heq).1]
    exact hc

theorem stops_spaces (hw : Spaces w) (hc : isDigit c = false) (hpoint : c ≠ unit '.')
    (he : c ≠ unit 'e') (hE : c ≠ unit 'E') (rest : Units) :
    Stops (w ++ c :: rest) := by
  intro d more heq
  cases w with
  | nil =>
    rw [← (List.cons.inj heq).1]
    exact ⟨hc, hpoint, he, hE⟩
  | cons x w =>
    rw [← (List.cons.inj heq).1]
    have hx := hw x (.head _)
    simp only [isSpace, Bool.or_eq_true, beq_iff_eq] at hx
    rcases hx with ((rfl | rfl) | rfl) | rfl <;> decide

theorem separator_close (hafter : Spaces after) (hclose : isSpace c = false) :
    separator c (after ++ c :: rest) = .ok (true, rest) := by
  rw [separator, whitespace_cons hafter hclose, List.head?_cons, if_pos rfl, List.tail_cons]

theorem separator_comma (hafter : Spaces after) (hclose : unit ',' ≠ c) :
    separator c (after ++ unit ',' :: rest) = .ok (false, rest) := by
  rw [separator, whitespace_cons hafter (by decide), List.head?_cons,
    if_neg (by simpa using hclose), if_pos rfl, List.tail_cons]

theorem separator_spec (h : separator close text = .ok (closed, rest)) :
    ∃ after, Spaces after ∧
      text = after ++ (if closed = true then close else unit ',') :: rest := by
  obtain ⟨after, hafter, htext⟩ := whitespace_spec text
  refine ⟨after, hafter, ?_⟩
  unfold separator at h
  split_ifs at h with hclose hcomma
  · obtain ⟨rfl, rfl⟩ := Prod.mk.inj (Except.ok.inj h)
    rw [if_pos rfl, ← List.eq_cons_of_mem_head? hclose]
    exact htext
  · obtain ⟨rfl, rfl⟩ := Prod.mk.inj (Except.ok.inj h)
    rw [if_neg Bool.false_ne_true, ← List.eq_cons_of_mem_head? hcomma]
    exact htext

theorem property_of_isString {first second more : Units} (hfirst : Spaces first)
    (hname : IsString name key) (hsecond : Spaces second) (hkey : unique = true → key ∉ keys) :
    property unique keys (first ++ (name ++ (second ++ unit ':' :: more))) = .ok (key, more) := by
  have hstring := string_of_isString hname (second ++ unit ':' :: more)
  obtain ⟨chars, rfl, -⟩ := hname
  rw [List.cons_append, property, whitespace_cons hfirst (by decide)]
  rw [List.tail_cons] at hstring
  rw [List.head?_cons, if_neg (not_not_intro rfl), List.tail_cons, hstring]
  dsimp only
  rw [if_neg fun h => hkey h.1 h.2, whitespace_cons hsecond (by decide), List.head?_cons,
    if_pos rfl, List.tail_cons]

theorem property_spec (h : property unique keys text = .ok (key, rest)) :
    ∃ first name second, Spaces first ∧ IsString name key ∧ Spaces second ∧
      text = first ++ (name ++ (second ++ unit ':' :: rest)) ∧ (unique = true → key ∉ keys) := by
  obtain ⟨first, hfirst, htext⟩ := whitespace_spec text
  unfold property at h
  split_ifs at h with hquote
  cases hstring : string (whitespace text).tail with
  | error refusal =>
    rw [hstring] at h
    cases h
  | ok p =>
    obtain ⟨key', rest'⟩ := p
    rw [hstring] at h
    dsimp only at h
    split_ifs at h with hkey hcolon
    obtain ⟨rfl, rfl⟩ := Prod.mk.inj (Except.ok.inj h)
    obtain ⟨second, hsecond, hrest⟩ := whitespace_spec rest'
    obtain ⟨name, hname, hisString⟩ := isString_of_string hstring
    refine ⟨first, name, second, hfirst, hisString, hsecond, ?_, fun hu hmem => hkey ⟨hu, hmem⟩⟩
    rw [← List.eq_cons_of_mem_head? hcolon, ← hrest, ← hname,
      ← List.eq_cons_of_mem_head? (not_not.mp hquote)]
    exact htext

theorem property_whitespace (keys : List Units) (text : Units) :
    property unique keys (whitespace text) = property unique keys text := by
  rw [property, property, whitespace_whitespace]

theorem token_of_isValue (h : IsValue readNumber v core) (hv : isScalar v = true)
    (hrest : Stops rest) :
    token readNumber (core ++ rest) = some (v, rest) := by
  cases v with
  | null =>
    rw [IsValue] at h
    have htrue : afterLiteral (literal ['t', 'r', 'u', 'e']) (core ++ rest) = none := by
      rw [h]
      exact afterLiteral_eq_none (by decide)
    have hfalse : afterLiteral (literal ['f', 'a', 'l', 's', 'e']) (core ++ rest) = none := by
      rw [h]
      exact afterLiteral_eq_none (by decide)
    rw [token, htrue, hfalse, h, afterLiteral_append]
  | bool b =>
    cases b with
    | true =>
      rw [IsValue] at h
      rw [token, h, afterLiteral_append]
    | false =>
      rw [IsValue] at h
      have htrue : afterLiteral (literal ['t', 'r', 'u', 'e']) (core ++ rest) = none := by
        rw [h]
        exact afterLiteral_eq_none (by decide)
      rw [token, htrue, h, afterLiteral_append]
  | num n =>
    rw [IsValue] at h
    obtain ⟨hnumber, rfl⟩ := h
    obtain ⟨c, more, hcore, hc⟩ := isNumber_head hnumber
    have hne : ∀ d : UInt16, d ≠ unit '-' → isDigit d = false → d ≠ c := by
      intro d hminus hdigit heq
      rcases hc with hc | hc
      · exact hminus (heq.trans hc)
      · exact isDigit_ne hc hdigit heq.symm
    have hliteral : ∀ (d : UInt16) (name : Units), d ≠ unit '-' → isDigit d = false →
        afterLiteral (d :: name) (core ++ rest) = none := by
      intro d name hminus hdigit
      rw [hcore, List.cons_append]
      exact afterLiteral_eq_none (hne d hminus hdigit)
    have htrue := hliteral (unit 't') (literal ['r', 'u', 'e']) (by decide) (by decide)
    have hfalse := hliteral (unit 'f') (literal ['a', 'l', 's', 'e']) (by decide) (by decide)
    have hnull := hliteral (unit 'n') (literal ['u', 'l', 'l']) (by decide) (by decide)
    rw [show unit 't' :: literal ['r', 'u', 'e'] = literal ['t', 'r', 'u', 'e'] from rfl] at htrue
    rw [show unit 'f' :: literal ['a', 'l', 's', 'e'] = literal ['f', 'a', 'l', 's', 'e'] from rfl]
      at hfalse
    rw [show unit 'n' :: literal ['u', 'l', 'l'] = literal ['n', 'u', 'l', 'l'] from rfl] at hnull
    rw [token, htrue, hfalse, hnull, numberToken_of_isNumber hnumber hrest, Option.map_some]
  | str s => cases hv
  | arr items => cases hv
  | obj members => cases hv

theorem value_scalar (hbefore : Spaces before) (h : IsValue readNumber v core)
    (hv : isScalar v = true) (hrest : Stops rest) :
    value readNumber unique (fuel + 1) (before ++ (core ++ rest)) = .ok (v, rest) := by
  have htoken := token_of_isValue h hv hrest
  have hspaces := whitespace_value hbefore h rest
  obtain ⟨c, more, rfl, hc⟩ := scalar_head h hv
  have hquote : c ≠ unit '"' := hc.ne (by decide) (by decide) (by decide) (by decide) (by decide)
  have hbrace : c ≠ unit '{' := hc.ne (by decide) (by decide) (by decide) (by decide) (by decide)
  have hbracket : c ≠ unit '[' := hc.ne (by decide) (by decide) (by decide) (by decide) (by decide)
  rw [value, hspaces, List.cons_append]
  rw [List.cons_append] at htoken
  simp only [if_neg hquote, if_neg hbrace, if_neg hbracket, htoken]

theorem value_whitespace (fuel : Nat) (text : Units) :
    value readNumber unique fuel (whitespace text) = value readNumber unique fuel text := by
  cases fuel with
  | zero => rw [value, value]
  | succ fuel => rw [value, value, whitespace_whitespace]

theorem elements_whitespace (fuel : Nat) (result : List (Value N)) (text : Units) :
    elements readNumber unique fuel result (whitespace text) =
      elements readNumber unique fuel result text := by
  cases fuel with
  | zero => rw [elements, elements]
  | succ fuel => rw [elements, elements, value_whitespace]

theorem members_whitespace (fuel : Nat) (result : List (Units × Value N)) (text : Units) :
    members readNumber unique fuel result (whitespace text) =
      members readNumber unique fuel result text := by
  cases fuel with
  | zero => rw [members, members]
  | succ fuel => rw [members, members, property_whitespace]

theorem head_elements {items : List (Value N)} (h : IsElements readNumber items body) :
    (whitespace (body ++ rest)).head? ≠ some (unit ']') := by
  cases items with
  | nil => exact absurd h (by simp [IsElements])
  | cons v vs =>
    obtain ⟨before, core, after, tail, hbefore, hcore, -, rfl, -⟩ := h
    simp only [List.append_assoc]
    rw [whitespace_value hbefore hcore]
    obtain ⟨c, more, rfl, -, hc⟩ := value_head hcore
    rw [List.cons_append, List.head?_cons]
    exact fun heq => hc (Option.some.inj heq)

theorem head_members {ms : List (Units × Value N)} (h : IsMembers readNumber ms body) :
    (whitespace (body ++ rest)).head? ≠ some (unit '}') := by
  cases ms with
  | nil => exact absurd h (by simp [IsMembers])
  | cons m ms =>
    obtain ⟨key, v⟩ := m
    obtain ⟨first, name, second, before, core, after, tail, hfirst, ⟨chars, rfl, -⟩, -, -, -, -,
      rfl, -⟩ := h
    simp only [List.append_assoc, List.cons_append]
    rw [whitespace_cons hfirst (by decide), List.head?_cons]
    decide

mutual

/-- A value of the grammar is read from any text that goes on with something else. -/
theorem value_of_isValue : ∀ (v : Value N) (before core rest : Units) (fuel : Nat),
    IsValue readNumber v core → (unique = true → v.Distinct) → Spaces before → Stops rest →
    2 * (before ++ (core ++ rest)).length + 1 ≤ fuel →
      value readNumber unique fuel (before ++ (core ++ rest)) = .ok (v, rest)
  | v, _, _, _, 0 => fun _ _ _ _ hfuel => absurd hfuel (by omega)
  | .null, _, _, _, _ + 1 => fun h _ hbefore hrest _ => value_scalar hbefore h rfl hrest
  | .bool _, _, _, _, _ + 1 => fun h _ hbefore hrest _ => value_scalar hbefore h rfl hrest
  | .num _, _, _, _, _ + 1 => fun h _ hbefore hrest _ => value_scalar hbefore h rfl hrest
  | .str s, before, core, rest, fuel + 1 => fun h _ hbefore hrest _ => by
    rw [IsValue] at h
    have hstring := string_of_isString h rest
    obtain ⟨chars, rfl, -⟩ := h
    rw [List.tail_cons] at hstring
    rw [value, List.cons_append, whitespace_cons hbefore (by decide)]
    simp only [if_pos, hstring]
    rfl
  | .arr items, before, core, rest, fuel + 1 => fun h hdistinct hbefore hrest hfuel => by
    rw [IsValue] at h
    obtain ⟨body, rfl, hbody⟩ := h
    simp only [List.cons_append, List.append_assoc, List.nil_append] at hfuel ⊢
    rw [value, whitespace_cons hbefore (by decide)]
    dsimp only
    rw [if_neg (by decide), if_neg (by decide), if_pos rfl]
    rcases hbody with ⟨rfl, hspaces⟩ | helements
    · rw [whitespace_cons hspaces (by decide), List.head?_cons, if_pos rfl, List.tail_cons]
    · have hread := elements_of_isElements items body rest [] fuel helements
        (fun hu => by simpa [Value.Distinct] using hdistinct hu)
        (by simp only [List.length_append, List.length_cons] at hfuel ⊢; omega)
      rw [if_neg (head_elements helements), elements_whitespace, hread]
      rfl
  | .obj ms, before, core, rest, fuel + 1 => fun h hdistinct hbefore hrest hfuel => by
    rw [IsValue] at h
    obtain ⟨body, rfl, hbody⟩ := h
    simp only [List.cons_append, List.append_assoc, List.nil_append] at hfuel ⊢
    rw [value, whitespace_cons hbefore (by decide)]
    dsimp only
    rw [if_neg (by decide), if_pos rfl]
    rcases hbody with ⟨rfl, hspaces⟩ | hmembers
    · rw [whitespace_cons hspaces (by decide), List.head?_cons, if_pos rfl, List.tail_cons]
    · have hread := members_of_isMembers ms body rest [] fuel hmembers
        (fun hu => by simpa [Value.Distinct] using hdistinct hu)
        (by simp only [List.length_append, List.length_cons] at hfuel ⊢; omega)
      rw [if_neg (head_members hmembers), members_whitespace, hread]
      rfl

theorem elements_of_isElements : ∀ (items : List (Value N)) (body rest : Units)
    (result : List (Value N)) (fuel : Nat), IsElements readNumber items body →
    (unique = true → DistinctItems items) → 2 * (body ++ unit ']' :: rest).length + 2 ≤ fuel →
      elements readNumber unique fuel result (body ++ unit ']' :: rest) = .ok (result ++ items, rest)
  | _, _, _, _, 0 => fun _ _ hfuel => absurd hfuel (by omega)
  | [], _, _, _, _ + 1 => fun h _ _ => absurd h (by simp [IsElements])
  | v :: vs, body, rest, result, fuel + 1 => fun h hdistinct hfuel => by
    rw [IsElements] at h
    obtain ⟨before, core, after, tail, hbefore, hcore, hafter, rfl, htail⟩ := h
    simp only [List.append_assoc] at hfuel ⊢
    rcases htail with ⟨rfl, rfl⟩ | ⟨more, rfl, hmore⟩
    · have hvalue := value_of_isValue v before core (after ++ unit ']' :: rest) fuel hcore
        (fun hu => (hdistinct hu).1) hbefore
        (stops_spaces hafter (by decide) (by decide) (by decide) (by decide) rest)
        (by simp only [List.length_append, List.length_cons] at hfuel ⊢; omega)
      rw [List.nil_append, elements, hvalue]
      simp only [separator_close hafter (c := unit ']') (by decide)]
    · have hvalue := value_of_isValue v before core (after ++ unit ',' :: (more ++ unit ']' :: rest))
        fuel hcore (fun hu => (hdistinct hu).1) hbefore
        (stops_spaces hafter (by decide) (by decide) (by decide) (by decide) _)
        (by simp only [List.length_append, List.length_cons] at hfuel ⊢; omega)
      have hread := elements_of_isElements vs more rest (result ++ [v]) fuel hmore
        (fun hu => (hdistinct hu).2)
        (by simp only [List.length_append, List.length_cons] at hfuel ⊢; omega)
      rw [List.cons_append, elements, hvalue]
      simp only [separator_comma hafter (c := unit ']') (by decide)]
      rw [hread, List.append_assoc, List.singleton_append]

theorem members_of_isMembers : ∀ (ms : List (Units × Value N)) (body rest : Units)
    (result : List (Units × Value N)) (fuel : Nat), IsMembers readNumber ms body →
    (unique = true → ((result ++ ms).map Prod.fst).Nodup ∧ DistinctMembers ms) →
    2 * (body ++ unit '}' :: rest).length + 2 ≤ fuel →
      members readNumber unique fuel result (body ++ unit '}' :: rest) = .ok (result ++ ms, rest)
  | _, _, _, _, 0 => fun _ _ hfuel => absurd hfuel (by omega)
  | [], _, _, _, _ + 1 => fun h _ _ => absurd h (by simp [IsMembers])
  | (key, v) :: ms, body, rest, result, fuel + 1 => fun h hdistinct hfuel => by
    rw [IsMembers] at h
    obtain ⟨first, name, second, before, core, after, tail, hfirst, hname, hsecond, hbefore, hcore,
      hafter, rfl, htail⟩ := h
    have hkey : unique = true → key ∉ result.map Prod.fst := by
      intro hu hmem
      have hnodup := (hdistinct hu).1
      rw [List.map_append] at hnodup
      exact (List.nodup_append.mp hnodup).2.2 key hmem key (by simp) rfl
    simp only [List.append_assoc, List.cons_append] at hfuel ⊢
    rcases htail with ⟨rfl, rfl⟩ | ⟨more, rfl, hmore⟩
    · have hvalue := value_of_isValue v before core (after ++ unit '}' :: rest) fuel hcore
        (fun hu => (hdistinct hu).2.1) hbefore
        (stops_spaces hafter (by decide) (by decide) (by decide) (by decide) rest)
        (by simp only [List.length_append, List.length_cons] at hfuel ⊢; omega)
      rw [List.nil_append, members, property_of_isString hfirst hname hsecond hkey]
      simp only [hvalue, separator_close hafter (c := unit '}') (by decide)]
    · have hvalue := value_of_isValue v before core (after ++ unit ',' :: (more ++ unit '}' :: rest))
        fuel hcore (fun hu => (hdistinct hu).2.1) hbefore
        (stops_spaces hafter (by decide) (by decide) (by decide) (by decide) _)
        (by simp only [List.length_append, List.length_cons] at hfuel ⊢; omega)
      have hread := members_of_isMembers ms more rest (result ++ [(key, v)]) fuel hmore
        (fun hu => by
          rw [List.append_assoc, List.singleton_append]
          exact ⟨(hdistinct hu).1, (hdistinct hu).2.2⟩)
        (by simp only [List.length_append, List.length_cons] at hfuel ⊢; omega)
      rw [List.cons_append, members, property_of_isString hfirst hname hsecond hkey]
      simp only [hvalue, separator_comma hafter (c := unit '}') (by decide)]
      rw [hread, List.append_assoc, List.singleton_append]

end

theorem isValue_of_token (h : token readNumber text = some (v, rest)) :
    ∃ core, text = core ++ rest ∧ IsValue readNumber v core ∧ v.Distinct := by
  unfold token at h
  cases htrue : afterLiteral (literal ['t', 'r', 'u', 'e']) text with
  | some rest' =>
    rw [htrue] at h
    obtain ⟨rfl, rfl⟩ := Prod.mk.inj (Option.some.inj h)
    exact ⟨_, afterLiteral_eq_some htrue, by rw [IsValue], by simp [Value.Distinct]⟩
  | none =>
    simp only [htrue] at h
    cases hfalse : afterLiteral (literal ['f', 'a', 'l', 's', 'e']) text with
    | some rest' =>
      rw [hfalse] at h
      obtain ⟨rfl, rfl⟩ := Prod.mk.inj (Option.some.inj h)
      exact ⟨_, afterLiteral_eq_some hfalse, by rw [IsValue], by simp [Value.Distinct]⟩
    | none =>
      simp only [hfalse] at h
      cases hnull : afterLiteral (literal ['n', 'u', 'l', 'l']) text with
      | some rest' =>
        rw [hnull] at h
        obtain ⟨rfl, rfl⟩ := Prod.mk.inj (Option.some.inj h)
        exact ⟨_, afterLiteral_eq_some hnull, by rw [IsValue], by simp [Value.Distinct]⟩
      | none =>
        simp only [hnull] at h
        obtain ⟨p, hp, heq⟩ := Option.map_eq_some_iff.mp h
        obtain ⟨rfl, rfl⟩ := Prod.mk.inj heq
        obtain ⟨htext, hnumber⟩ := isNumber_of_numberToken hp
        exact ⟨p.1, htext, by rw [IsValue]; exact ⟨hnumber, rfl⟩, by simp [Value.Distinct]⟩

/-- What a call of the reader has read, given the steps it may take. -/
structure Reads (readNumber : Units → N) (unique : Bool) (fuel : Nat) : Prop where
  value : ∀ {text rest : Units} {v : Value N}, value readNumber unique fuel text = .ok (v, rest) →
    ∃ before core, text = before ++ (core ++ rest) ∧ Spaces before ∧ IsValue readNumber v core ∧
      (unique = true → v.Distinct)
  members : ∀ {result all : List (Units × Value N)} {text rest : Units},
    members readNumber unique fuel result text = .ok (all, rest) →
      ∃ ms body, all = result ++ ms ∧ text = body ++ unit '}' :: rest ∧
        IsMembers readNumber ms body ∧ (unique = true →
          ((result.map Prod.fst).Nodup → (all.map Prod.fst).Nodup) ∧ DistinctMembers ms)
  elements : ∀ {result all : List (Value N)} {text rest : Units},
    elements readNumber unique fuel result text = .ok (all, rest) →
      ∃ items body, all = result ++ items ∧ text = body ++ unit ']' :: rest ∧
        IsElements readNumber items body ∧ (unique = true → DistinctItems items)

theorem value_succ_sound (ih : Reads readNumber unique fuel)
    (h : value readNumber unique (fuel + 1) text = .ok (v, rest)) :
    ∃ before core, text = before ++ (core ++ rest) ∧ Spaces before ∧ IsValue readNumber v core ∧
      (unique = true → v.Distinct) := by
  obtain ⟨before, hbefore, htext⟩ := whitespace_spec text
  rw [value] at h
  cases hspaces : whitespace text with
  | nil =>
    rw [hspaces] at h
    cases h
  | cons char more =>
    rw [hspaces] at h htext
    dsimp only at h
    split_ifs at h with hquote hbrace hclose hbracket hclose
    · obtain ⟨p, hp, heq⟩ := map_eq_ok.mp h
      obtain ⟨rfl, rfl⟩ := Prod.mk.inj heq
      obtain ⟨token, htoken, hstring⟩ := isString_of_string hp
      refine ⟨before, token, ?_, hbefore, by rw [IsValue]; exact hstring, fun _ => by
        simp [Value.Distinct]⟩
      rw [htext, hquote, htoken]
    · obtain ⟨rfl, rfl⟩ := Prod.mk.inj (Except.ok.inj h)
      obtain ⟨body, hbody, hmore⟩ := whitespace_spec more
      rw [List.eq_cons_of_mem_head? hclose] at hmore
      refine ⟨before, unit '{' :: (body ++ [unit '}']), ?_, hbefore, ?_, fun _ => by
        simp [Value.Distinct, DistinctMembers]⟩
      · simp only [List.cons_append, List.append_assoc, List.nil_append]
        rw [← hmore, htext, hbrace]
      · rw [IsValue]
        exact ⟨body, rfl, .inl ⟨rfl, hbody⟩⟩
    · obtain ⟨p, hp, heq⟩ := map_eq_ok.mp h
      obtain ⟨rfl, rfl⟩ := Prod.mk.inj heq
      rw [members_whitespace] at hp
      obtain ⟨ms, body, hms, hmore, hisMembers, hdistinct⟩ := ih.members hp
      rw [List.nil_append] at hms
      refine ⟨before, unit '{' :: (body ++ [unit '}']), ?_, hbefore, ?_, fun hu => ?_⟩
      · simp only [List.cons_append, List.append_assoc, List.nil_append]
        rw [← hmore, htext, hbrace]
      · rw [IsValue, hms]
        exact ⟨body, rfl, .inr hisMembers⟩
      · rw [Value.Distinct]
        exact ⟨(hdistinct hu).1 List.nodup_nil, by rw [hms]; exact (hdistinct hu).2⟩
    · obtain ⟨rfl, rfl⟩ := Prod.mk.inj (Except.ok.inj h)
      obtain ⟨body, hbody, hmore⟩ := whitespace_spec more
      rw [List.eq_cons_of_mem_head? hclose] at hmore
      refine ⟨before, unit '[' :: (body ++ [unit ']']), ?_, hbefore, ?_, fun _ => by
        simp [Value.Distinct, DistinctItems]⟩
      · simp only [List.cons_append, List.append_assoc, List.nil_append]
        rw [← hmore, htext, hbracket]
      · rw [IsValue]
        exact ⟨body, rfl, .inl ⟨rfl, hbody⟩⟩
    · obtain ⟨p, hp, heq⟩ := map_eq_ok.mp h
      obtain ⟨rfl, rfl⟩ := Prod.mk.inj heq
      rw [elements_whitespace] at hp
      obtain ⟨items, body, hitems, hmore, hisElements, hdistinct⟩ := ih.elements hp
      rw [List.nil_append] at hitems
      refine ⟨before, unit '[' :: (body ++ [unit ']']), ?_, hbefore, ?_, fun hu => ?_⟩
      · simp only [List.cons_append, List.append_assoc, List.nil_append]
        rw [← hmore, htext, hbracket]
      · rw [IsValue, hitems]
        exact ⟨body, rfl, .inr hisElements⟩
      · rw [Value.Distinct, hitems]
        exact hdistinct hu
    · cases htoken : token readNumber (char :: more) with
      | none =>
        rw [htoken] at h
        cases h
      | some p =>
        rw [htoken] at h
        have hp := Except.ok.inj h
        rw [hp] at htoken
        obtain ⟨core, hcore, hvalue, hdistinct⟩ := isValue_of_token htoken
        exact ⟨before, core, by rw [← hcore]; exact htext, hbefore, hvalue, fun _ => hdistinct⟩

theorem elements_succ_sound (ih : Reads readNumber unique fuel) {result all : List (Value N)}
    (h : elements readNumber unique (fuel + 1) result text = .ok (all, rest)) :
    ∃ items body, all = result ++ items ∧ text = body ++ unit ']' :: rest ∧
      IsElements readNumber items body ∧ (unique = true → DistinctItems items) := by
  rw [elements] at h
  split at h
  · cases h
  · next entry more hvalue =>
    obtain ⟨before, core, htext, hbefore, hcore, hdistinct⟩ := ih.value hvalue
    split at h
    · cases h
    · next more' hseparator =>
      obtain ⟨after, hafter, hmore⟩ := separator_spec hseparator
      rw [if_pos rfl] at hmore
      obtain ⟨rfl, rfl⟩ := Prod.mk.inj (Except.ok.inj h)
      refine ⟨[entry], before ++ (core ++ (after ++ [])), rfl, ?_, ?_, fun hu =>
        ⟨hdistinct hu, trivial⟩⟩
      · rw [htext, hmore]
        simp only [List.append_assoc, List.nil_append]
      · rw [IsElements]
        exact ⟨before, core, after, [], hbefore, hcore, hafter, rfl, .inl ⟨rfl, rfl⟩⟩
    · next more' hseparator =>
      obtain ⟨after, hafter, hmore⟩ := separator_spec hseparator
      rw [if_neg Bool.false_ne_true] at hmore
      obtain ⟨items, body, hall, hmore', hitems, hdistinct'⟩ := ih.elements h
      refine ⟨entry :: items, before ++ (core ++ (after ++ unit ',' :: body)), ?_, ?_, ?_, fun hu =>
        ⟨hdistinct hu, hdistinct' hu⟩⟩
      · rw [hall, List.append_assoc, List.singleton_append]
      · rw [htext, hmore, hmore']
        simp only [List.append_assoc, List.cons_append]
      · rw [IsElements]
        exact ⟨before, core, after, _, hbefore, hcore, hafter, rfl, .inr ⟨body, rfl, hitems⟩⟩

theorem members_succ_sound (ih : Reads readNumber unique fuel) {result all : List (Units × Value N)}
    (h : members readNumber unique (fuel + 1) result text = .ok (all, rest)) :
    ∃ ms body, all = result ++ ms ∧ text = body ++ unit '}' :: rest ∧
      IsMembers readNumber ms body ∧ (unique = true →
        ((result.map Prod.fst).Nodup → (all.map Prod.fst).Nodup) ∧ DistinctMembers ms) := by
  rw [members] at h
  split at h
  · cases h
  · next key more hproperty =>
    obtain ⟨first, name, second, hfirst, hname, hsecond, htext, hkey⟩ := property_spec hproperty
    have hnodup : unique = true → (result.map Prod.fst).Nodup → ∀ v : Value N,
        ((result ++ [(key, v)]).map Prod.fst).Nodup := by
      intro hu hresult v
      rw [List.map_append, List.map_singleton, List.nodup_append]
      refine ⟨hresult, by simp, fun k hk k' hk' heq => hkey hu ?_⟩
      have hlast : k' = key := List.mem_singleton.mp hk'
      rwa [← hlast, ← heq]
    split at h
    · cases h
    · next entry more' hvalue =>
      obtain ⟨before, core, hmore, hbefore, hcore, hdistinct⟩ := ih.value hvalue
      split at h
      · cases h
      · next more'' hseparator =>
        obtain ⟨after, hafter, hmore'⟩ := separator_spec hseparator
        rw [if_pos rfl] at hmore'
        obtain ⟨rfl, rfl⟩ := Prod.mk.inj (Except.ok.inj h)
        refine ⟨[(key, entry)],
          first ++ (name ++ (second ++ unit ':' :: (before ++ (core ++ (after ++ []))))), rfl, ?_, ?_,
          fun hu => ⟨fun hresult => hnodup hu hresult entry, hdistinct hu, trivial⟩⟩
        · rw [htext, hmore, hmore']
          simp only [List.append_assoc, List.cons_append, List.nil_append]
        · rw [IsMembers]
          exact ⟨first, name, second, before, core, after, [], hfirst, hname, hsecond, hbefore,
            hcore, hafter, rfl, .inl ⟨rfl, rfl⟩⟩
      · next more'' hseparator =>
        obtain ⟨after, hafter, hmore'⟩ := separator_spec hseparator
        rw [if_neg Bool.false_ne_true] at hmore'
        obtain ⟨ms, body, hall, hbody, hms, hdistinct'⟩ := ih.members h
        refine ⟨(key, entry) :: ms,
          first ++ (name ++ (second ++ unit ':' :: (before ++ (core ++ (after ++ unit ',' :: body))))),
          ?_, ?_, ?_, fun hu => ⟨fun hresult => (hdistinct' hu).1 (hnodup hu hresult entry),
            hdistinct hu, (hdistinct' hu).2⟩⟩
        · rw [hall, List.append_assoc, List.singleton_append]
        · rw [htext, hmore, hmore', hbody]
          simp only [List.append_assoc, List.cons_append]
        · rw [IsMembers]
          exact ⟨first, name, second, before, core, after, _, hfirst, hname, hsecond, hbefore,
            hcore, hafter, rfl, .inr ⟨body, rfl, hms⟩⟩

theorem reads (fuel : Nat) : Reads readNumber unique fuel := by
  induction fuel with
  | zero =>
    constructor
    · intro text rest v h
      rw [value] at h
      cases h
    · intro result all text rest h
      rw [members] at h
      cases h
    · intro result all text rest h
      rw [elements] at h
      cases h
  | succ fuel ih => exact ⟨value_succ_sound ih, members_succ_sound ih, elements_succ_sound ih⟩

theorem length_whitespace_le (text : Units) : (whitespace text).length ≤ text.length :=
  List.length_dropWhile_le _ text

theorem string_ne_exhausted (text : Units) : string text ≠ .error .exhausted := by
  unfold string
  split
  · exact fun h => by cases h
  · split
    · exact fun h => by cases h
    · exact fun h => by cases h

theorem property_ne_exhausted (keys : List Units) (text : Units) :
    property unique keys text ≠ .error .exhausted := by
  unfold property
  split
  · exact fun h => by cases h
  · split
    · next refusal hstring =>
      intro h
      rw [Except.error.inj h] at hstring
      exact string_ne_exhausted _ hstring
    · split
      · exact fun h => by cases h
      · split
        · exact fun h => by cases h
        · exact fun h => by cases h

theorem separator_ne_exhausted (close : UInt16) (text : Units) :
    separator close text ≠ .error .exhausted := by
  unfold separator
  split
  · exact fun h => by cases h
  · split
    · exact fun h => by cases h
    · exact fun h => by cases h

theorem length_property (h : property unique keys text = .ok (key, rest)) :
    rest.length + 1 ≤ text.length := by
  obtain ⟨first, name, second, -, -, -, rfl, -⟩ := property_spec h
  simp only [List.length_append, List.length_cons]
  omega

theorem length_separator (h : separator close text = .ok (closed, rest)) :
    rest.length + 1 ≤ text.length := by
  obtain ⟨after, -, rfl⟩ := separator_spec h
  simp only [List.length_append, List.length_cons]
  omega

theorem length_value (h : value readNumber unique fuel text = .ok (v, rest)) :
    rest.length + 1 ≤ text.length := by
  obtain ⟨before, core, rfl, -, hcore, -⟩ := (reads fuel).value h
  obtain ⟨c, more, rfl, -⟩ := value_head hcore
  simp only [List.length_append, List.length_cons]
  omega

/-- Calls that are given enough steps for the text that is left do not run out of them. -/
structure Ample (readNumber : Units → N) (unique : Bool) (fuel : Nat) : Prop where
  value : ∀ {text : Units}, 2 * text.length + 1 ≤ fuel →
    value readNumber unique fuel text ≠ .error .exhausted
  members : ∀ {result : List (Units × Value N)} {text : Units}, 2 * text.length + 2 ≤ fuel →
    members readNumber unique fuel result text ≠ .error .exhausted
  elements : ∀ {result : List (Value N)} {text : Units}, 2 * text.length + 2 ≤ fuel →
    elements readNumber unique fuel result text ≠ .error .exhausted

theorem map_ne_exhausted {α β : Type} {x : Except Refusal α} {f : α → β}
    (h : x ≠ .error .exhausted) : x.map f ≠ .error .exhausted := by
  cases x with
  | ok a => exact fun heq => by cases heq
  | error refusal =>
    intro heq
    exact h (congrArg Except.error (Except.error.inj heq))

theorem ample (fuel : Nat) : Ample readNumber unique fuel := by
  induction fuel with
  | zero => exact ⟨fun h => by omega, fun h => by omega, fun h => by omega⟩
  | succ fuel ih =>
    constructor
    · intro text hfuel
      have hlength := length_whitespace_le text
      rw [value]
      split
      · exact fun h => by cases h
      · next char rest htext =>
        rw [htext, List.length_cons] at hlength
        have hrest := length_whitespace_le rest
        split_ifs
        · exact map_ne_exhausted (string_ne_exhausted rest)
        · exact fun h => by cases h
        · exact map_ne_exhausted (ih.members (by omega))
        · exact fun h => by cases h
        · exact map_ne_exhausted (ih.elements (by omega))
        · split
          · exact fun h => by cases h
          · exact fun h => by cases h
    · intro result text hfuel
      rw [members]
      split
      · next refusal hproperty =>
        intro h
        rw [Except.error.inj h] at hproperty
        exact property_ne_exhausted _ _ hproperty
      · next key rest hproperty =>
        have hrest := length_property hproperty
        split
        · next refusal hvalue =>
          intro h
          rw [Except.error.inj h] at hvalue
          exact ih.value (by omega) hvalue
        · next entry rest' hvalue =>
          have hrest' := length_value hvalue
          split
          · next refusal hseparator =>
            intro h
            rw [Except.error.inj h] at hseparator
            exact separator_ne_exhausted _ _ hseparator
          · exact fun h => by cases h
          · next rest'' hseparator =>
            have hrest'' := length_separator hseparator
            exact ih.members (by omega)
    · intro result text hfuel
      rw [elements]
      split
      · next refusal hvalue =>
        intro h
        rw [Except.error.inj h] at hvalue
        exact ih.value (by omega) hvalue
      · next entry rest hvalue =>
        have hrest := length_value hvalue
        split
        · next refusal hseparator =>
          intro h
          rw [Except.error.inj h] at hseparator
          exact separator_ne_exhausted _ _ hseparator
        · exact fun h => by cases h
        · next rest' hseparator =>
          have hrest' := length_separator hseparator
          exact ih.elements (by omega)

theorem stops_of_spaces (hw : Spaces w) : Stops w := by
  cases w with
  | nil => exact fun c rest h => by cases h
  | cons c w =>
    have hstops := stops_spaces (w := []) (fun _ h => absurd h List.not_mem_nil) (c := c)
    have hc := hw c (.head _)
    simp only [isSpace, Bool.or_eq_true, beq_iff_eq] at hc
    rcases hc with ((rfl | rfl) | rfl) | rfl
    all_goals exact hstops (by decide) (by decide) (by decide) (by decide) w

theorem readText_eq_ok_iff :
    readText readNumber unique text = .ok v ↔
      IsText readNumber v text ∧ (unique = true → v.Distinct) := by
  constructor
  · intro h
    unfold readText at h
    split at h
    · cases h
    · next parsed rest hvalue =>
      split_ifs at h with hrest
      rw [← Except.ok.inj h]
      obtain ⟨before, core, htext, hbefore, hcore, hdistinct⟩ := (reads _).value hvalue
      obtain ⟨after, hafter, hspaces⟩ := whitespace_spec rest
      rw [hrest, List.append_nil] at hspaces
      rw [← hspaces] at hafter
      exact ⟨⟨before, core, rest, hbefore, hcore, hafter, htext⟩, hdistinct⟩
  · rintro ⟨⟨before, core, after, hbefore, hcore, hafter, rfl⟩, hdistinct⟩
    have hend : whitespace after = [] := by
      have hspaces : whitespace (after ++ []) = [] :=
        takeWhile_spaces hafter fun c more heq => by cases heq
      rwa [List.append_nil] at hspaces
    rw [readText, value_of_isValue v before core after _ hcore hdistinct hbefore
      (stops_of_spaces hafter) le_rfl]
    simp only [hend, if_pos]

theorem isText_unique {w : Value N} (hv : IsText readNumber v text) (hw : IsText readNumber w text) :
    v = w := by
  have hread : readText readNumber false text = .ok v :=
    readText_eq_ok_iff.mpr ⟨hv, nofun⟩
  have hread' : readText readNumber false text = .ok w :=
    readText_eq_ok_iff.mpr ⟨hw, nofun⟩
  exact Except.ok.inj (hread.symm.trans hread')

/-- `parseImportJson` accepts the JSON texts in which no object has a name twice, each with its one
value. -/
theorem parseImportJson_exact {N : Type} (readNumber : Units → N) (text : Units) :
    (∀ v, parseImportJson readNumber text = .ok v ↔
      IsText readNumber v text ∧ v.Distinct ∧ ∀ w, IsText readNumber w text → w = v) ∧
    ((¬ ∃ v, IsText readNumber v text ∧ v.Distinct) →
      ∃ refusal, parseImportJson readNumber text = .error refusal ∧ refusal ≠ .exhausted) := by
  constructor
  · intro v
    rw [parseImportJson, readText_eq_ok_iff]
    constructor
    · rintro ⟨htext, hdistinct⟩
      exact ⟨htext, hdistinct rfl, fun w hw => isText_unique hw htext⟩
    · rintro ⟨htext, hdistinct, -⟩
      exact ⟨htext, fun _ => hdistinct⟩
  · intro hnone
    cases hread : parseImportJson readNumber text with
    | ok v =>
      obtain ⟨htext, hdistinct⟩ := readText_eq_ok_iff.mp hread
      exact absurd ⟨v, htext, hdistinct rfl⟩ hnone
    | error refusal =>
      refine ⟨refusal, rfl, ?_⟩
      rintro rfl
      have hample : Ample readNumber true (2 * text.length + 1) := ample _
      unfold parseImportJson readText at hread
      split at hread
      · next refusal hvalue =>
        rw [Except.error.inj hread] at hvalue
        exact hample.value le_rfl hvalue
      · split_ifs at hread
        cases hread

end Stynx.ImportJson
