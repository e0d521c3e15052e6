import Mathlib.Data.List.DropRight
import Stynx.RegExpSources
import Stynx.TextOrder
import Stynx.Wildcards

/-!
# Permissions granted by wildcards

`packages/auth/src/utils.ts`: `expandPermissionWildcards` adds to the grants of
a membership the permissions of the platform that a grant with `*` matches. It
matches by a regular expression that it assembles from the pieces of the grant
between the stars.
-/

namespace Stynx.Permissions

open RegExp TextOrder Wildcards

abbrev Key := List Char

def normalized (values : List Key) : List Key := (values.map trim).filter fun value => value ≠ []

def escapeRegex (value : Key) : List Char :=
  value.flatMap fun c => if c ∈ ".*+?^$\x7b\x7d()|[]\\".toList then ['\\', c] else [c]

def source (grant : Key) : List Char :=
  '^' :: (['.', '*'].intercalate ((grant.splitOn '*').map escapeRegex) ++ ['$'])

/-- `pattern.test(permission)`; a source that is no expression matches nothing. -/
def matchesGrant (grant permission : Key) : Bool :=
  (compile (source grant)).any fun pattern => pattern.test permission

def expandPermissionWildcards (grants univ : List Key) : List Key :=
  sortedSet ((normalized grants).flatMap fun grant =>
    grant :: if '*' ∈ grant then (normalized univ).dedup.filter (matchesGrant grant) else [])

def computePermissionsHash (sha256Hex : List Char → List Char) (permissions : List Key) : List Char :=
  (sha256Hex (['\n'].intercalate (sortedSet (normalized permissions)))).take 16

/-- What a character of a grant becomes in the source. -/
def translate (c : Char) : List Char := if c = '*' then ['.', '*'] else escapeRegex [c]

theorem escapeRegex_cons (c : Char) (value : Key) :
    escapeRegex (c :: value) = escapeRegex [c] ++ escapeRegex value := by
  simp only [escapeRegex, List.flatMap_cons, List.flatMap_nil, List.append_nil]

theorem intercalate_append (separator first second : List Char) (rest : List (List Char)) :
    separator.intercalate ((first ++ second) :: rest) =
      first ++ separator.intercalate (second :: rest) := by
  cases rest with
  | nil => rw [List.intercalate_singleton, List.intercalate_singleton]
  | cons next rest =>
    rw [List.intercalate_cons_cons, List.intercalate_cons_cons]
    simp only [List.append_assoc]

theorem intercalate_escaped (grant : Key) :
    ['.', '*'].intercalate ((grant.splitOn '*').map escapeRegex) = grant.flatMap translate := by
  induction grant with
  | nil => rfl
  | cons c grant ih =>
    rw [List.splitOn_cons_eq_if_modifyHead, List.flatMap_cons, ← ih]
    have hpieces := List.splitOn_ne_nil '*' grant
    generalize grant.splitOn '*' = pieces at hpieces
    cases pieces with
    | nil => exact absurd rfl hpieces
    | cons piece pieces =>
      by_cases hc : c = '*'
      · subst hc
        rfl
      · rw [if_neg (by simpa using hc), translate, if_neg hc, List.modifyHead_cons, List.map_cons,
          escapeRegex_cons, intercalate_append, List.map_cons]

/-- What a character of a grant reads. -/
def patternOf (c : Char) : Pattern := if c = '*' then .star true dot else char c

theorem tokens_translated (grant : Key) :
    ∃ found, tokens false (grant.flatMap translate ++ ['$']) = some found ∧
      found.head? ≠ some .quantifier ∧ terms found = some (grant.map patternOf ++ [.inputEnd]) := by
  induction grant with
  | nil => exact ⟨[.assertion .inputEnd], rfl, nofun, rfl⟩
  | cons c grant ih =>
    obtain ⟨found, hfound, hhead, hterms⟩ := ih
    rw [List.flatMap_cons, List.append_assoc]
    by_cases hc : c = '*'
    · subst hc
      refine ⟨.atom dot :: .quantifier :: found, ?_, nofun, ?_⟩
      · rw [translate, if_pos rfl, List.cons_append, List.cons_append, List.nil_append,
          tokens_of_tokenOf (by decide) rfl, tokens_of_tokenOf (by decide) rfl, hfound]
        rfl
      · rw [terms_star, hterms]
        rfl
    · refine ⟨.atom (char c) :: found, ?_, nofun, ?_⟩
      · rw [translate, if_neg hc, escapeRegex, List.flatMap_singleton]
        have hspecial : c ∈ ".*+?^$\x7b\x7d()|[]\\".toList ↔ isSyntaxChar c = true := by
          have hsame : ∀ d, d ∈ ".*+?^$\x7b\x7d()|[]\\".toList ↔ d ∈ "^$\\.*+?()[]\x7b\x7d|".toList := by
            have hperm : ".*+?^$\x7b\x7d()|[]\\".toList.Perm "^$\\.*+?()[]\x7b\x7d|".toList := by decide
            exact fun d => hperm.mem_iff
          rw [hsame, isSyntaxChar, decide_eq_true_eq]
        split
        case isTrue h => rw [List.cons_append, List.cons_append, List.nil_append,
          tokens_escaped (hspecial.mp h), hfound, Option.map_some]
        case isFalse h =>
          rw [List.cons_append, List.nil_append,
            tokens_plain (Bool.eq_false_iff.mpr fun hs => h (hspecial.mpr hs)), hfound, Option.map_some]
      · rw [terms_atom hhead, hterms, List.map_cons, patternOf, if_neg hc]
        rfl

theorem compile_source (grant : Key) :
    compile (source grant) = some (RegExp.sequence (.inputStart :: (grant.map patternOf ++ [.inputEnd]))) := by
  obtain ⟨found, hfound, -, hterms⟩ := tokens_translated grant
  rw [compile, source, intercalate_escaped, tokens_of_tokenOf (by decide) rfl, hfound,
    Option.map_some, Option.bind_some]
  change ((terms found).map (Pattern.inputStart :: ·)).map RegExp.sequence = _
  rw [hterms]
  rfl

/-- What is left of a text once a grant has been read. -/
def ReadsGrant : Key → List Char → List Char → Prop
  | [], text, rest => text = [] ∧ rest = []
  | c :: grant, text, rest => ∃ middle,
    (if c = '*' then ∃ taken, text = taken ++ middle ∧ ∀ d ∈ taken, (!isLineTerminator d) = true
      else ∃ d, text = d :: middle ∧ (d == c) = true) ∧ ReadsGrant grant middle rest

theorem reads_patterns (grant : Key) :
    Reads (RegExp.sequence (grant.map patternOf ++ [.inputEnd])) (ReadsGrant grant) := by
  induction grant with
  | nil => exact reads_inputEnd
  | cons c grant ih =>
    refine reads_sequence_cons ?_ ih
    by_cases hc : c = '*'
    · simp only [patternOf, if_pos hc]
      exact reads_star_one _
    · simp only [patternOf, if_neg hc]
      exact reads_one _

/-- A text without line breaks. -/
def OneLine (text : List Char) : Prop := ∀ c ∈ text, isLineTerminator c = false

theorem oneLine_of_all {texts : List (List Char)}
    (h : (texts.all fun text => text.all fun c => !isLineTerminator c) = true) :
    ∀ text ∈ texts, OneLine text := by
  intro text htext c hc
  have hline := List.all_eq_true.mp (List.all_eq_true.mp h text htext) c hc
  simpa only [Bool.not_eq_true'] using hline

variable {grant : Key} {values grants' : List Key}

theorem readsGrant_iff {text : List Char} (hline : OneLine text) :
    (∃ rest, ReadsGrant grant text rest) ↔ Fits '*' grant text := by
  induction grant generalizing text with
  | nil =>
    exact ⟨fun ⟨_, h, _⟩ => h, fun h => ⟨[], h, rfl⟩⟩
  | cons c grant ih =>
    by_cases hc : c = '*'
    · subst hc
      rw [fits_star_cons]
      constructor
      · rintro ⟨rest, middle, hread, hrest⟩
        rw [if_pos rfl] at hread
        obtain ⟨taken, rfl, -⟩ := hread
        exact ⟨taken, middle, rfl,
          (ih fun d hd => hline d (List.mem_append_right taken hd)).mp ⟨rest, hrest⟩⟩
      · rintro ⟨taken, middle, rfl, hfits⟩
        obtain ⟨rest, hrest⟩ := (ih fun d hd => hline d (List.mem_append_right taken hd)).mpr hfits
        refine ⟨rest, middle, ?_, hrest⟩
        rw [if_pos rfl]
        refine ⟨taken, rfl, fun d hd => ?_⟩
        rw [hline d (List.mem_append_left middle hd), Bool.not_false]
    · rw [fits_cons hc]
      constructor
      · rintro ⟨rest, middle, hread, hrest⟩
        rw [if_neg hc] at hread
        obtain ⟨d, rfl, hd⟩ := hread
        obtain rfl := beq_iff_eq.mp hd
        exact ⟨middle, rfl, (ih fun d hd => hline d (.tail _ hd)).mp ⟨rest, hrest⟩⟩
      · rintro ⟨middle, rfl, hfits⟩
        obtain ⟨rest, hrest⟩ := (ih fun d hd => hline d (.tail _ hd)).mpr hfits
        refine ⟨rest, middle, ?_, hrest⟩
        rw [if_neg hc]
        exact ⟨c, rfl, beq_self_eq_true c⟩

theorem matchesGrant_iff {permission : Key} (hline : OneLine permission) :
    matchesGrant grant permission = true ↔ Fits '*' grant permission := by
  rw [matchesGrant, compile_source, Option.any_some, test_anchored_iff (reads_patterns grant),
    readsGrant_iff hline]

variable {grants univ : List Key} {key : Key}

theorem mem_normalized :
    key ∈ normalized values ↔ ∃ value ∈ values, trim value = key ∧ key ≠ [] := by
  simp only [normalized, List.mem_filter, List.mem_map, decide_eq_true_eq]
  constructor
  · rintro ⟨⟨value, hvalue, rfl⟩, hne⟩
    exact ⟨value, hvalue, rfl, hne⟩
  · rintro ⟨value, hvalue, rfl, hne⟩
    exact ⟨⟨value, hvalue, rfl⟩, hne⟩

theorem mem_expand_iff (huniv : ∀ permission ∈ normalized univ, OneLine permission) :
    key ∈ expandPermissionWildcards grants univ ↔ key ∈ normalized grants ∨
      key ∈ normalized univ ∧ ∃ grant ∈ normalized grants, Fits '*' grant key := by
  rw [expandPermissionWildcards, mem_sortedSet, List.mem_flatMap]
  constructor
  · rintro ⟨grant, hgrant, hkey⟩
    rcases List.mem_cons.mp hkey with rfl | hkey
    · exact .inl hgrant
    · split at hkey
      · obtain ⟨hmem, hmatch⟩ := List.mem_filter.mp hkey
        rw [List.mem_dedup] at hmem
        exact .inr ⟨hmem, grant, hgrant, (matchesGrant_iff (huniv key hmem)).mp hmatch⟩
      · exact absurd hkey List.not_mem_nil
  · rintro (hgrant | ⟨hmem, grant, hgrant, hfits⟩)
    · exact ⟨key, hgrant, (.head _)⟩
    · by_cases hstar : '*' ∈ grant
      · refine ⟨grant, hgrant, .tail _ ?_⟩
        rw [if_pos hstar]
        exact List.mem_filter.mpr
          ⟨List.mem_dedup.mpr hmem, (matchesGrant_iff (huniv key hmem)).mpr hfits⟩
      · obtain rfl := (fits_iff_eq hstar).mp hfits
        exact ⟨key, hgrant, (.head _)⟩

theorem trim_subset (text : List Char) : trim text ⊆ text := by
  intro c hc
  rw [trim, List.mem_reverse] at hc
  have hleft := List.mem_reverse.mp ((List.dropWhile_suffix _).subset hc)
  exact (List.dropWhile_suffix _).subset hleft

theorem trim_trim (text : List Char) : trim (trim text) = trim text := by
  have hright : ∀ l : List Char, trim l = (l.dropWhile isSpace).rdropWhile isSpace := fun _ => rfl
  have hstart : (trim text).dropWhile isSpace = trim text := by
    have hsame : (text.dropWhile isSpace).dropWhile isSpace = text.dropWhile isSpace :=
      List.dropWhile_idempotent isSpace text
    obtain ⟨after, hafter⟩ := List.rdropWhile_prefix isSpace (text.dropWhile isSpace)
    rw [← hright] at hafter
    cases htrim : trim text with
    | nil => rfl
    | cons c rest =>
      rw [htrim] at hafter
      rw [← hafter, List.cons_append] at hsame
      -- the first character was not dropped
      have hc : isSpace c = false := by
        by_contra hspace
        rw [List.dropWhile_cons_of_pos (Bool.not_eq_false _ ▸ hspace)] at hsame
        have hlength := congrArg List.length hsame
        have hle := (List.dropWhile_suffix (l := rest ++ after) isSpace).length_le
        rw [List.length_cons] at hlength
        omega
      exact List.dropWhile_cons_of_neg (Bool.not_eq_true _ ▸ hc)
  rw [hright (trim text), hstart, hright, List.rdropWhile_idempotent]

theorem oneLine_normalized (h : ∀ permission ∈ univ, OneLine permission) :
    ∀ permission ∈ normalized univ, OneLine permission := by
  intro permission hmem
  obtain ⟨value, hvalue, rfl, -⟩ := mem_normalized.mp hmem
  exact fun c hc => h value hvalue c (trim_subset value hc)

theorem mem_normalized_of_trimmed (h : ∀ value ∈ values, trim value = value ∧ value ≠ []) :
    key ∈ normalized values ↔ key ∈ values := by
  rw [mem_normalized]
  constructor
  · rintro ⟨value, hvalue, rfl, -⟩
    rw [(h value hvalue).1]
    exact hvalue
  · exact fun hkey => ⟨key, hkey, (h key hkey).1, (h key hkey).2⟩

theorem trimmed_of_normalized (h : key ∈ normalized values) : trim key = key ∧ key ≠ [] := by
  obtain ⟨value, -, rfl, hne⟩ := mem_normalized.mp h
  exact ⟨trim_trim value, hne⟩

theorem expand_congr (h : ∀ grant, grant ∈ grants ↔ grant ∈ grants') :
    expandPermissionWildcards grants univ = expandPermissionWildcards grants' univ := by
  have hnormalized : ∀ grant, grant ∈ normalized grants ↔ grant ∈ normalized grants' := fun grant => by
    simp only [mem_normalized, h]
  refine sortedSet_congr fun key => ?_
  simp only [List.mem_flatMap, hnormalized]

theorem expand_mono {univ' : List Key} (hgrants : grants ⊆ grants') (huniv : univ ⊆ univ') :
    expandPermissionWildcards grants univ ⊆ expandPermissionWildcards grants' univ' := by
  have hnormalized : ∀ {values values' : List Key}, values ⊆ values' →
      normalized values ⊆ normalized values' := fun h key hkey => by
    obtain ⟨value, hvalue, htrim⟩ := mem_normalized.mp hkey
    exact mem_normalized.mpr ⟨value, h hvalue, htrim⟩
  intro key hkey
  rw [expandPermissionWildcards, mem_sortedSet, List.mem_flatMap] at hkey ⊢
  obtain ⟨grant, hgrant, hfound⟩ := hkey
  refine ⟨grant, hnormalized hgrants hgrant, ?_⟩
  rcases List.mem_cons.mp hfound with rfl | hfound
  · exact .head _
  · split at hfound
    case isTrue hstar =>
      obtain ⟨hmem, hmatch⟩ := List.mem_filter.mp hfound
      rw [if_pos hstar]
      exact .tail _ (List.mem_filter.mpr
        ⟨List.mem_dedup.mpr (hnormalized huniv (List.mem_dedup.mp hmem)), hmatch⟩)
    case isFalse => exact absurd hfound List.not_mem_nil

theorem expand_expand (huniv : ∀ permission ∈ univ, OneLine permission) :
    expandPermissionWildcards (expandPermissionWildcards grants univ) univ =
      expandPermissionWildcards grants univ := by
  have hline := oneLine_normalized huniv
  have htrimmed : ∀ value ∈ expandPermissionWildcards grants univ, trim value = value ∧ value ≠ [] := by
    intro value hvalue
    rcases (mem_expand_iff hline).mp hvalue with hgrant | ⟨hmem, -⟩
    · exact trimmed_of_normalized hgrant
    · exact trimmed_of_normalized hmem
  have hsame : ∀ key, key ∈ expandPermissionWildcards (expandPermissionWildcards grants univ) univ ↔
      key ∈ expandPermissionWildcards grants univ := by
    intro key
    rw [mem_expand_iff hline, mem_normalized_of_trimmed htrimmed]
    refine or_iff_left_of_imp ?_
    rintro ⟨hmem, grant, hgrant, hfits⟩
    rw [mem_normalized_of_trimmed htrimmed, mem_expand_iff hline] at hgrant
    rw [mem_expand_iff hline]
    rcases hgrant with hgrant | ⟨-, first, hfirst, hfitsFirst⟩
    · exact .inr ⟨hmem, grant, hgrant, hfits⟩
    · exact .inr ⟨hmem, first, hfirst, hfitsFirst.trans hfits⟩
  exact sortedSet_congr fun key => by
    have hkey := hsame key
    simp only [expandPermissionWildcards, mem_sortedSet] at hkey ⊢
    exact hkey

/-- The permissions are exactly the trimmed grants and the trimmed permissions of the universe that
fit one; expanding them again adds nothing, and more grants or a larger universe remove nothing. -/
theorem expand_exact (grants univ : List Key) (huniv : ∀ permission ∈ univ, OneLine permission) :
    (∀ key, key ∈ expandPermissionWildcards grants univ ↔ key ∈ normalized grants ∨
      key ∈ normalized univ ∧ ∃ grant ∈ normalized grants, Fits '*' grant key) ∧
    expandPermissionWildcards (expandPermissionWildcards grants univ) univ =
      expandPermissionWildcards grants univ ∧
    ∀ grants' univ', grants ⊆ grants' → univ ⊆ univ' →
      expandPermissionWildcards grants univ ⊆ expandPermissionWildcards grants' univ' :=
  ⟨fun _ => mem_expand_iff (oneLine_normalized huniv), expand_expand huniv,
    fun _ _ hgrants hmore => expand_mono hgrants hmore⟩

/-- A grant for all actions on `d`, over a permission on `d` and one on `u`. -/
theorem expand_exact_actions :
    ['d', ':', 'r'] ∈ expandPermissionWildcards [['d', ':', '*']] [['d', ':', 'r'], ['u', ':', 'r']] ∧
      ['u', ':', 'r'] ∉ expandPermissionWildcards [['d', ':', '*']]
        [['d', ':', 'r'], ['u', ':', 'r']] := by
  have hline : ∀ permission ∈ [['d', ':', 'r'], ['u', ':', 'r']], OneLine permission :=
    oneLine_of_all rfl
  have hgrants : normalized [['d', ':', '*']] = [['d', ':', '*']] := by decide
  have hexact := (expand_exact [['d', ':', '*']] [['d', ':', 'r'], ['u', ':', 'r']] hline).1
  constructor
  · refine (hexact _).mpr (.inr ⟨by decide, ['d', ':', '*'], by decide, ?_⟩)
    have hrest : Fits '*' ['*'] ['r'] := fits_star_cons.mpr ⟨['r'], [], rfl, rfl⟩
    have hcolon : Fits '*' [':', '*'] [':', 'r'] := (fits_cons (by decide)).mpr ⟨_, rfl, hrest⟩
    exact (fits_cons (by decide)).mpr ⟨_, rfl, hcolon⟩
  · intro hmem
    rcases (hexact _).mp hmem with hgrant | ⟨-, grant, hgrant, hfits⟩
    · rw [hgrants] at hgrant
      exact absurd hgrant (by decide)
    · rw [hgrants, List.mem_singleton] at hgrant
      subst hgrant
      obtain ⟨rest, heq, -⟩ := (fits_cons (by decide)).mp hfits
      cases heq

/-- A permission of blanks fits the grant of everything and is not granted. -/
theorem expand_drops_blank :
    (∀ permission ∈ [[' ']], OneLine permission) ∧ ['*'] ∈ normalized [['*']] ∧ Fits '*' ['*'] [' '] ∧
      [' '] ∉ expandPermissionWildcards [['*']] [[' ']] := by
  have hline : ∀ permission ∈ [[' ']], OneLine permission := oneLine_of_all rfl
  refine ⟨hline, by decide, fits_star_cons.mpr ⟨[' '], [], rfl, rfl⟩, ?_⟩
  rw [mem_expand_iff (oneLine_normalized hline)]
  rintro (hgrant | ⟨hmem, -⟩)
  · exact absurd hgrant (by decide)
  · exact absurd hmem (by decide)

end Stynx.Permissions
