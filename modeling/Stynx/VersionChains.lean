import Mathlib.Data.List.Basic

/-!
# Chains of versions

A key's value is kept as a chain of versions: a write adds one on top and remembers the one below.
Undoing a write flags its version, and the value is that of the first version without a flag.

`Tracks` says that a version stands for a log of the surviving writes, newest first, each with the
holder that may still undo it.
-/

namespace Stynx.VersionChains

universe u v

variable {κ : Type u} {ν : Type v}

/-- One version of the value of a key. -/
structure Version (κ : Type u) (ν : Type v) where
  key : κ
  previous : Option Nat
  /-- The value, or `none` if the key is absent. -/
  content : Option ν
  rolledBack : Bool

/-- A surviving write. -/
structure Entry (κ : Type u) (ν : Type v) where
  key : κ
  value : ν
  holder : Option Nat

/-- The value after a log, newest write first. -/
def read (initial : Option ν) : List (Entry κ ν) → Option ν
  | [] => initial
  | entry :: _ => some entry.value

/-- What becomes of an entry when its holders are settled: a new holder, or nothing. -/
def Entry.settle (fate : Option Nat → Option (Option Nat)) (entry : Entry κ ν) :
    Option (Entry κ ν) :=
  (fate entry.holder).map fun holder => { entry with holder := holder }

/-- The first version without a flag, going down; `none` when the chain ends before. -/
def prior (heap : Nat → Version κ ν) : Nat → Nat → Option Nat
  | 0, version => if (heap version).rolledBack then none else some version
  | fuel + 1, version =>
    if (heap version).rolledBack then
      match (heap version).previous with
      | some below => prior heap fuel below
      | none => none
    else some version

def HeldBy (held : Nat → Nat → Prop) (version : Nat) (holder : Option Nat) : Prop :=
  ∀ g, holder = some g ↔ held g version

/-- The version stands for the log. -/
inductive Tracks (heap : Nat → Version κ ν) (held : Nat → Nat → Prop) (key : κ)
    (initial : Option ν) : Nat → List (Entry κ ν) → Prop where
  | bottom (version : Nat) (log : List (Entry κ ν)) (hkey : (heap version).key = key)
      (hprevious : (heap version).previous = none) (hflag : (heap version).rolledBack = false)
      (hcontent : (heap version).content = read initial log)
      (hholder : HeldBy held version none) (hlog : ∀ entry ∈ log, entry.holder = none) :
      Tracks heap held key initial version log
  | live (version below : Nat) (entry : Entry κ ν) (log : List (Entry κ ν))
      (hkey : (heap version).key = key) (hprevious : (heap version).previous = some below)
      (hflag : (heap version).rolledBack = false)
      (hcontent : (heap version).content = some entry.value)
      (hholder : HeldBy held version entry.holder)
      (hbelow : Tracks heap held key initial below log) :
      Tracks heap held key initial version (entry :: log)
  | dead (version below : Nat) (log : List (Entry κ ν)) (hkey : (heap version).key = key)
      (hprevious : (heap version).previous = some below)
      (hflag : (heap version).rolledBack = true) (hholder : HeldBy held version none)
      (hbelow : Tracks heap held key initial below log) :
      Tracks heap held key initial version log

variable {heap heap' : Nat → Version κ ν} {held held' : Nat → Nat → Prop} {key : κ}
  {initial : Option ν} {version : Nat} {log : List (Entry κ ν)}

section

variable (h : Tracks heap held key initial version log)
include h

theorem Tracks.key_eq : (heap version).key = key := by
  cases h with
  | bottom _ _ hkey => exact hkey
  | live _ _ _ _ hkey => exact hkey
  | dead _ _ _ hkey => exact hkey

theorem Tracks.content_eq (hflag : (heap version).rolledBack = false) :
    (heap version).content = read initial log := by
  cases h with
  | bottom _ _ _ _ _ hcontent => exact hcontent
  | live _ _ _ _ _ _ _ hcontent => exact hcontent
  | dead _ _ _ _ _ hflagged => rw [hflag] at hflagged; cases hflagged

theorem Tracks.below_of_flagged (hflag : (heap version).rolledBack = true) :
    ∃ below, (heap version).previous = some below ∧ Tracks heap held key initial below log := by
  cases h with
  | bottom _ _ _ _ hlive => rw [hflag] at hlive; cases hlive
  | live _ _ _ _ _ _ hlive => rw [hflag] at hlive; cases hlive
  | dead _ below _ _ hprevious _ _ hbelow => exact ⟨below, hprevious, hbelow⟩

end

theorem prior_of_live (hflag : (heap version).rolledBack = false) (fuel : Nat) :
    prior heap fuel version = some version := by
  cases fuel with
  | zero => rw [prior, hflag, if_neg Bool.false_ne_true]
  | succ fuel => rw [prior, hflag, if_neg Bool.false_ne_true]

section

variable (hdown : ∀ u below, (heap u).previous = some below → below < u)
  (h : Tracks heap held key initial version log)
include hdown h

theorem Tracks.prior_eq {fuel : Nat} (hfuel : version ≤ fuel) :
    ∃ found, prior heap fuel version = some found ∧ (heap found).rolledBack = false ∧
      found ≤ version ∧ Tracks heap held key initial found log := by
  induction h generalizing fuel with
  | bottom u log hkey hprevious hflag hcontent hholder hlog =>
    exact ⟨u, prior_of_live hflag fuel, hflag, Nat.le_refl u,
      .bottom u log hkey hprevious hflag hcontent hholder hlog⟩
  | live u below entry log hkey hprevious hflag hcontent hholder hbelow _ =>
    exact ⟨u, prior_of_live hflag fuel, hflag, Nat.le_refl u,
      .live u below entry log hkey hprevious hflag hcontent hholder hbelow⟩
  | dead u below log hkey hprevious hflag hholder hbelow ih =>
    have hlt := hdown u below hprevious
    cases fuel with
    | zero => omega
    | succ fuel =>
      obtain ⟨found, hprior, hlive, hle, htracks⟩ := ih (by omega : below ≤ fuel)
      refine ⟨found, ?_, hlive, by omega, htracks⟩
      rw [prior, hflag, if_pos rfl, hprevious]
      exact hprior

theorem Tracks.congr (hheap : ∀ u, u ≤ version → (heap u).key = key → heap' u = heap u)
    (hheld : ∀ u, u ≤ version → (heap u).key = key → ∀ g, held' g u ↔ held g u) :
    Tracks heap' held' key initial version log := by
  induction h with
  | bottom u log hkey hprevious hflag hcontent hholder hlog =>
    have hsame := hheap u (Nat.le_refl u) hkey
    refine .bottom u log ?_ ?_ ?_ ?_ ?_ hlog
    · rw [hsame, hkey]
    · rw [hsame, hprevious]
    · rw [hsame, hflag]
    · rw [hsame, hcontent]
    · intro g
      rw [hheld u (Nat.le_refl u) hkey g]
      exact hholder g
  | live u below entry log hkey hprevious hflag hcontent hholder hbelow ih =>
    have hsame := hheap u (Nat.le_refl u) hkey
    have hlt := hdown u below hprevious
    refine .live u below entry log ?_ ?_ ?_ ?_ ?_ (ih ?_ ?_)
    · rw [hsame, hkey]
    · rw [hsame, hprevious]
    · rw [hsame, hflag]
    · rw [hsame, hcontent]
    · intro g
      rw [hheld u (Nat.le_refl u) hkey g]
      exact hholder g
    · intro w hw
      exact hheap w (by omega)
    · intro w hw
      exact hheld w (by omega)
  | dead u below log hkey hprevious hflag hholder hbelow ih =>
    have hsame := hheap u (Nat.le_refl u) hkey
    have hlt := hdown u below hprevious
    refine .dead u below log ?_ ?_ ?_ ?_ (ih ?_ ?_)
    · rw [hsame, hkey]
    · rw [hsame, hprevious]
    · rw [hsame, hflag]
    · intro g
      rw [hheld u (Nat.le_refl u) hkey g]
      exact hholder g
    · intro w hw
      exact hheap w (by omega)
    · intro w hw
      exact hheld w (by omega)

end

/-- A version whose entry survives gets the new holder, one whose entry is dropped is flagged and
let go. -/
theorem Tracks.settle {fate : Option Nat → Option (Option Nat)} (hfree : fate none = some none)
    (hkeys : ∀ u, (heap' u).key = (heap u).key)
    (hprevious : ∀ u, (heap' u).previous = (heap u).previous)
    (hcontents : ∀ u, (heap' u).content = (heap u).content)
    (hkept : ∀ u holder holder', HeldBy held u holder → fate holder = some holder' →
      (heap' u).rolledBack = (heap u).rolledBack ∧ HeldBy held' u holder')
    (hdropped : ∀ u holder, HeldBy held u holder → fate holder = none →
      (heap' u).rolledBack = true ∧ HeldBy held' u none)
    (h : Tracks heap held key initial version log) :
    Tracks heap' held' key initial version (log.filterMap (Entry.settle fate)) := by
  induction h with
  | bottom u log hkey hnone hflag hcontent hholder hlog =>
    obtain ⟨hsame, hholder'⟩ := hkept u none none hholder hfree
    have hid : ∀ entry ∈ log, Entry.settle fate entry = some entry := by
      intro entry hentry
      rw [Entry.settle, hlog entry hentry, hfree, Option.map_some, ← hlog entry hentry]
    have hmap : log.filterMap (Entry.settle fate) = log := by
      rw [List.filterMap_congr hid, List.filterMap_some]
    rw [hmap]
    refine .bottom u log ?_ ?_ ?_ ?_ hholder' hlog
    · rw [hkeys, hkey]
    · rw [hprevious, hnone]
    · rw [hsame, hflag]
    · rw [hcontents, hcontent]
  | live u below entry log hkey hsome hflag hcontent hholder hbelow ih =>
    cases hfate : fate entry.holder with
    | none =>
      obtain ⟨hflagged, hholder'⟩ := hdropped u entry.holder hholder hfate
      have hdrop : Entry.settle fate entry = none := by rw [Entry.settle, hfate]; rfl
      rw [List.filterMap_cons_none hdrop]
      refine .dead u below _ ?_ ?_ hflagged hholder' ih
      · rw [hkeys, hkey]
      · rw [hprevious, hsome]
    | some holder' =>
      obtain ⟨hsame, hholder'⟩ := hkept u entry.holder holder' hholder hfate
      have hkeep : Entry.settle fate entry = some { entry with holder := holder' } := by
        rw [Entry.settle, hfate]
        rfl
      rw [List.filterMap_cons_some hkeep]
      refine .live u below _ _ ?_ ?_ ?_ ?_ hholder' ih
      · rw [hkeys, hkey]
      · rw [hprevious, hsome]
      · rw [hsame, hflag]
      · rw [hcontents, hcontent]
  | dead u below log hkey hsome hflag hholder hbelow ih =>
    obtain ⟨hsame, hholder'⟩ := hkept u none none hholder hfree
    refine .dead u below _ ?_ ?_ ?_ hholder' ih
    · rw [hkeys, hkey]
    · rw [hprevious, hsome]
    · rw [hsame, hflag]

theorem Tracks.free_of_not_held (h : Tracks heap held key initial version log)
    (hfree : ∀ u g, (heap u).key = key → ¬ held g u) : ∀ entry ∈ log, entry.holder = none := by
  induction h with
  | bottom u log hkey hprevious hflag hcontent hholder hlog => exact hlog
  | live u below entry log hkey hprevious hflag hcontent hholder hbelow ih =>
    intro e he
    rcases List.mem_cons.mp he with rfl | he
    · cases hg : e.holder with
      | none => rfl
      | some g => exact absurd ((hholder g).mp hg) (hfree u g hkey)
    · exact ih e he
  | dead u below log hkey hprevious hflag hholder hbelow ih => exact ih

end Stynx.VersionChains
