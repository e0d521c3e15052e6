import Stynx.JsonGrammar

/-!
# Redaction of audit metadata

`PatternAuditMetadataRedactionPolicy` of `packages/backend/src/audit/redaction-policy.ts`.
The pattern is known by where it matches. `RegExp.prototype.test` starts at `lastIndex`
when the pattern has the flag `g` or `y` and moves it, so what a test says depends on the
tests before it.
-/

namespace Stynx.AuditRedaction

open JsonGrammar

/-- A value of the metadata; an object has its own keys in their order. -/
inductive Metadata where
  | undefined
  | null
  | boolean (value : Bool)
  | number (value : Units)
  | string (value : Units)
  /-- The result of `toISOString`, which throws on an invalid date. -/
  | date (iso : Option Units)
  | array (items : List Metadata)
  | object (entries : List (Units × Metadata))
  /-- A function, a symbol or a big integer. -/
  | other

/-- A number of the options. -/
inductive Limit where
  | nan
  | infinity (negative : Bool)
  | finite (value : Rat)

def exceeds (n : Nat) : Limit → Bool
  | .nan => false
  | .infinity negative => negative
  | .finite value => decide (value.num < n * value.den)

def sliceEnd (length : Nat) : Limit → Nat
  | .nan => 0
  | .infinity negative => if negative then 0 else length
  | .finite value =>
    let whole := value.num.tdiv value.den
    if whole < 0 then (length + whole).toNat else min whole.toNat length

structure Policy where
  /-- The end of the match of the pattern that starts at a place of a key. -/
  matchAt : Units → Nat → Option Nat
  global : Bool
  sticky : Bool
  /-- `lastIndex` of the pattern when the policy gets it. -/
  lastIndex : Nat
  replacement : Units
  maxStringLength : Limit
  maxArrayLength : Limit
  maxDepth : Limit

def ofString (text : String) : Units := text.toList.map fun c => c.toNat.toUInt16

section

variable (p : Policy)

/-- The first match at a place or, unless the pattern is sticky, after it. -/
def search (key : Units) (place : Nat) : Nat → Option Nat
  | 0 => p.matchAt key place
  | left + 1 =>
    match p.matchAt key place with
    | some stop => some stop
    | none => if p.sticky then none else search key (place + 1) left

/-- `sensitiveKeyPattern.test(key)` at a value of `lastIndex`, and the next one. -/
def test (key : Units) (lastIndex : Nat) : Bool × Nat :=
  let moves := p.global || p.sticky
  let start := if moves then lastIndex else 0
  if start > key.length then (false, 0)
  else match search p key start (key.length - start) with
    | none => (false, if moves then 0 else lastIndex)
    | some stop => (true, if moves then stop else lastIndex)

mutual

/-- `redactAny`, from a value of `lastIndex` to the next one; `none` if it throws. -/
def redactAny (depth : Nat) : Metadata → Nat → Option Metadata × Nat
  | value, li =>
    if exceeds depth p.maxDepth then (some (.string (ofString "[MaxDepth]")), li)
    else match value with
      | .undefined => (some .undefined, li)
      | .null => (some .null, li)
      | .string text =>
        (some (.string (if exceeds text.length p.maxStringLength then
          text.take (sliceEnd text.length p.maxStringLength) ++ ofString "..." else text)), li)
      | .number value => (some (.number value), li)
      | .boolean value => (some (.boolean value), li)
      | .date iso => (iso.map .string, li)
      | .array items =>
        match redactItems (depth + 1) (sliceEnd items.length p.maxArrayLength) items li with
        | (result, li) => (result.map .array, li)
      | .object entries =>
        match redactEntries (depth + 1) entries li with
        | (result, li) => (result.map .object, li)
      | .other => (some (.string (ofString "[Unsupported]")), li)

/-- The callback of `map` on the first items of an array. -/
def redactItems (depth : Nat) : Nat → List Metadata → Nat → Option (List Metadata) × Nat
  | 0, _, li => (some [], li)
  | _, [], li => (some [], li)
  | left + 1, item :: rest, li =>
    match redactAny depth item li with
    | (none, li) => (none, li)
    | (some item, li) =>
      match redactItems depth left rest li with
      | (result, li) => (result.map (item :: ·), li)

/-- The loop over the entries of an object. -/
def redactEntries (depth : Nat) :
    List (Units × Metadata) → Nat → Option (List (Units × Metadata)) × Nat
  | [], li => (some [], li)
  | (key, nested) :: rest, li =>
    match test p key li with
    | (true, li) =>
      match redactEntries depth rest li with
      | (result, li) => (result.map ((key, .string p.replacement) :: ·), li)
    | (false, li) =>
      match redactAny depth nested li with
      | (none, li) => (none, li)
      | (some value, li) =>
        match redactEntries depth rest li with
        | (result, li) => (result.map ((key, value) :: ·), li)

end

def redact (metadata : Option (List (Units × Metadata))) (li : Nat) :
    Option (Option (List (Units × Metadata))) × Nat :=
  match metadata with
  | none => (some none, li)
  | some entries =>
    match redactAny p 0 (.object entries) li with
    | (none, li) => (none, li)
    | (some (.object redacted), li) => (some (some redacted), li)
    | (some _, li) => (some none, li)

/-- The answers of a sequence of calls. -/
def redactAll : List (Option (List (Units × Metadata))) → Nat →
    List (Option (Option (List (Units × Metadata))))
  | [], _ => []
  | metadata :: rest, li => (redact p metadata li).1 :: redactAll rest (redact p metadata li).2

def finds (key : Units) : Bool := (test p key 0).1

mutual

/-- The value without what stands under sensitive keys. -/
def mask : Metadata → Metadata
  | .array items => .array (maskItems items)
  | .object entries => .object (maskEntries entries)
  | value => value

def maskItems : List Metadata → List Metadata
  | [] => []
  | item :: rest => mask item :: maskItems rest

def maskEntries : List (Units × Metadata) → List (Units × Metadata)
  | [] => []
  | (key, nested) :: rest => (key, if finds p key then .null else mask nested) :: maskEntries rest

end

/-- What stands under sensitive keys has no influence on the answers. -/
def NoInfluence : Prop := ∀ calls others : List (Option (List (Units × Metadata))),
  calls.map (Option.map (maskEntries p)) = others.map (Option.map (maskEntries p)) →
    redactAll p calls p.lastIndex = redactAll p others p.lastIndex

def indexAfter (keys : List Units) : Nat :=
  keys.foldl (fun li key => (test p key li).2) p.lastIndex

/-- Whatever was tested before, the test of a sensitive key succeeds. -/
def Stable : Prop := ∀ keys key, finds p key = true → (test p key (indexAfter p keys)).1 = true

end

variable {p : Policy}

/-- A value of `lastIndex` that tests lead to. -/
def Reached (p : Policy) (li : Nat) : Prop := ∃ keys, indexAfter p keys = li

theorem Reached.test {li : Nat} (h : Reached p li) (key : Units) : Reached p (test p key li).2 := by
  obtain ⟨keys, rfl⟩ := h
  exact ⟨keys ++ [key], by rw [indexAfter, List.foldl_append]; rfl⟩

theorem length_maskItems (items : List Metadata) : (maskItems p items).length = items.length := by
  induction items with
  | nil => rw [maskItems]
  | cons item rest ih => rw [maskItems, List.length_cons, List.length_cons, ih]

mutual

theorem redactAny_mask (hstable : Stable p) : ∀ (value : Metadata) (depth li : Nat), Reached p li →
    redactAny p depth (mask p value) li = redactAny p depth value li ∧
      Reached p (redactAny p depth value li).2
  | .array items, depth, li, h => by
    obtain ⟨heq, hreached⟩ :=
      redactItems_mask hstable items (depth + 1) (sliceEnd items.length p.maxArrayLength) li h
    simp only [mask, redactAny, length_maskItems, heq, true_and]
    split
    · exact h
    · exact hreached
  | .object entries, depth, li, h => by
    obtain ⟨heq, hreached⟩ := redactEntries_mask hstable entries (depth + 1) li h
    simp only [mask, redactAny, heq, true_and]
    split
    · exact h
    · exact hreached
  | .undefined, depth, li, h | .null, depth, li, h | .boolean _, depth, li, h
  | .number _, depth, li, h | .string _, depth, li, h | .date _, depth, li, h
  | .other, depth, li, h => by
    refine ⟨by simp only [mask], ?_⟩
    rw [redactAny]
    split <;> exact h

theorem redactItems_mask (hstable : Stable p) :
    ∀ (items : List Metadata) (depth left li : Nat), Reached p li →
    redactItems p depth left (maskItems p items) li = redactItems p depth left items li ∧
      Reached p (redactItems p depth left items li).2
  | [], depth, left, li, h => by
    refine ⟨by rw [maskItems], ?_⟩
    cases left <;> exact h
  | item :: rest, depth, 0, li, h => ⟨rfl, h⟩
  | item :: rest, depth, left + 1, li, h => by
    obtain ⟨heq, hreached⟩ := redactAny_mask hstable item depth li h
    rw [maskItems, redactItems, redactItems, heq]
    generalize redactAny p depth item li = result at hreached ⊢
    obtain ⟨_ | value, li'⟩ := result
    · exact ⟨rfl, hreached⟩
    · obtain ⟨hrest, hreached⟩ := redactItems_mask hstable rest depth left li' hreached
      simp only [hrest, true_and]
      exact hreached

theorem redactEntries_mask (hstable : Stable p) :
    ∀ (entries : List (Units × Metadata)) (depth li : Nat), Reached p li →
    redactEntries p depth (maskEntries p entries) li = redactEntries p depth entries li ∧
      Reached p (redactEntries p depth entries li).2
  | [], depth, li, h => ⟨by rw [maskEntries], h⟩
  | (key, nested) :: rest, depth, li, h => by
    obtain ⟨keys, hkeys⟩ := h
    have hfound := hstable keys key
    have htested := Reached.test ⟨keys, hkeys⟩ key
    rw [hkeys] at hfound
    rw [maskEntries, redactEntries, redactEntries]
    generalize test p key li = tested at hfound htested ⊢
    obtain ⟨found, li'⟩ := tested
    cases found with
    | true =>
      obtain ⟨hrest, hreached⟩ := redactEntries_mask hstable rest depth li' htested
      simp only [hrest, true_and]
      exact hreached
    | false =>
      have hplain : ¬ finds p key = true := fun hsensitive => by cases hfound hsensitive
      obtain ⟨heq, hreached⟩ := redactAny_mask hstable nested depth li' htested
      simp only [if_neg hplain, heq]
      generalize redactAny p depth nested li' = result at hreached ⊢
      obtain ⟨_ | value, li''⟩ := result
      · exact ⟨rfl, hreached⟩
      · obtain ⟨hrest, hreached⟩ := redactEntries_mask hstable rest depth li'' hreached
        simp only [hrest, true_and]
        exact hreached

end

theorem noInfluence_of_redact_mask {I : Nat → Prop} (hstart : I p.lastIndex)
    (hstep : ∀ metadata li, I li →
      redact p (metadata.map (maskEntries p)) li = redact p metadata li ∧
        I (redact p metadata li).2) : NoInfluence p := by
  have hmask : ∀ calls li, I li →
      redactAll p (calls.map (Option.map (maskEntries p))) li = redactAll p calls li := by
    intro calls
    induction calls with
    | nil => exact fun _ _ => rfl
    | cons metadata rest ih =>
      intro li hli
      obtain ⟨heq, hnext⟩ := hstep metadata li hli
      rw [List.map_cons, redactAll, redactAll, heq, ih _ hnext]
  intro calls others h
  rw [← hmask calls _ hstart, ← hmask others _ hstart, h]

theorem noInfluence_of_stable (hstable : Stable p) : NoInfluence p := by
  refine noInfluence_of_redact_mask (I := Reached p) ⟨[], rfl⟩ fun metadata li hli => ?_
  cases metadata with
  | none => exact ⟨rfl, hli⟩
  | some entries =>
    obtain ⟨heq, hreached⟩ := redactAny_mask hstable (.object entries) 0 li hli
    rw [mask] at heq
    rw [Option.map_some, redact, redact, heq]
    refine ⟨rfl, ?_⟩
    split <;> simp_all

theorem noInfluence_of_shallow (hdepth : exceeds 1 p.maxDepth = true) : NoInfluence p := by
  refine noInfluence_of_redact_mask (I := fun _ => True) trivial fun metadata li _ =>
    ⟨?_, trivial⟩
  cases metadata with
  | none => rfl
  | some entries =>
    have hshown : ∀ value li, redactAny p 1 value li =
        (some (.string (ofString "[MaxDepth]")), li) := by
      intro value li
      cases value <;> rw [redactAny, if_pos hdepth]
    have hentries : ∀ li, redactEntries p 1 (maskEntries p entries) li =
        redactEntries p 1 entries li := by
      induction entries with
      | nil => exact fun _ => by rw [maskEntries]
      | cons entry rest ih =>
        obtain ⟨key, nested⟩ := entry
        intro li
        simp only [maskEntries, redactEntries, hshown, ih]
    rw [Option.map_some, redact, redact, redactAny, redactAny, hentries]

theorem exceeds_zero {limit : Limit} (h : exceeds 1 limit = false) : exceeds 0 limit = false := by
  cases limit with
  | nan => rfl
  | infinity negative => exact h
  | finite value =>
    simp only [exceeds, decide_eq_false_iff_not] at h ⊢
    omega

theorem redact_boolean (hdepth : exceeds 1 p.maxDepth = false) (key : Units) (value : Bool)
    (li : Nat) : redact p (some [(key, .boolean value)]) li =
      (some (some [(key, if (test p key li).1 then .string p.replacement else .boolean value)]),
        (test p key li).2) := by
  have hshown : redactAny p 1 (.boolean value) = fun li => (some (.boolean value), li) := by
    funext li
    rw [redactAny, hdepth]
    rfl
  rw [redact, redactAny, exceeds_zero hdepth, redactEntries]
  generalize test p key li = tested
  obtain ⟨_ | _, li'⟩ := tested <;> simp [hshown, redactEntries]

theorem stable_of_noInfluence (hdepth : exceeds 1 p.maxDepth = false) (h : NoInfluence p) :
    Stable p := by
  intro keys key hfinds
  have hcalls : ∀ li, ∃ before, ∀ value, redactAll p
      (keys.map (fun key => some [(key, .boolean true)]) ++ [some [(key, .boolean value)]]) li =
        before ++ [(redact p (some [(key, .boolean value)])
          (keys.foldl (fun li key => (test p key li).2) li)).1] := by
    clear hfinds
    induction keys with
    | nil => exact fun li => ⟨[], fun value => rfl⟩
    | cons first rest ih =>
      intro li
      obtain ⟨before, hbefore⟩ := ih (test p first li).2
      refine ⟨(redact p (some [(first, .boolean true)]) li).1 :: before, fun value => ?_⟩
      rw [List.map_cons, List.cons_append, redactAll, List.cons_append, List.foldl_cons, ← hbefore,
        redact_boolean hdepth]
  obtain ⟨before, hbefore⟩ := hcalls p.lastIndex
  have hsame := h
    (keys.map (fun key => some [(key, .boolean true)]) ++ [some [(key, .boolean true)]])
    (keys.map (fun key => some [(key, .boolean true)]) ++ [some [(key, .boolean false)]])
    (by simp [maskEntries, hfinds])
  rw [hbefore, hbefore, redact_boolean hdepth, redact_boolean hdepth] at hsame
  change (test p key (indexAfter p keys)).1 = true
  by_contra hmissed
  have hlast := List.append_cancel_left hsame
  simp [indexAfter] at hlast hmissed
  simp [hmissed] at hlast

/-- What stands under sensitive keys has no influence exactly when nothing nested is shown at all,
or the test of a sensitive key succeeds whatever was tested before. -/
theorem noInfluence_iff (p : Policy) : NoInfluence p ↔ exceeds 1 p.maxDepth = true ∨ Stable p := by
  constructor
  · intro h
    cases hdepth : exceeds 1 p.maxDepth with
    | true => exact .inl rfl
    | false => exact .inr (stable_of_noInfluence hdepth h)
  · rintro (hdepth | hstable)
    · exact noInfluence_of_shallow hdepth
    · exact noInfluence_of_stable hstable

theorem stable_of_no_flags (hglobal : p.global = false) (hsticky : p.sticky = false) :
    Stable p := by
  intro keys key hfinds
  rw [← hfinds, finds]
  simp only [test, hglobal, hsticky, Bool.or_self, Bool.false_eq_true, if_false]
  split
  · rfl
  · split <;> rfl

/-- The options by default, with the pattern `/a/g`. -/
def lettersGlobal : Policy where
  matchAt key place := if key[place]? = some 97 then some (place + 1) else none
  global := true
  sticky := false
  lastIndex := 0
  replacement := ofString "[REDACTED]"
  maxStringLength := .finite 500
  maxArrayLength := .finite 25
  maxDepth := .finite 6

/-- The second of two calls on a sensitive key shows its value. -/
theorem second_call_leaks : ¬ NoInfluence lettersGlobal := by
  intro h
  have hsame := h [some [([97], .null)], some [([97], .boolean true)]]
    [some [([97], .null)], some [([97], .boolean false)]] rfl
  cases hsame

end Stynx.AuditRedaction
