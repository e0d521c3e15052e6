import Stynx.OrderedMap

/-!
# The membership cache

`MembershipAccessCache` of `packages/tenancy/src/membership-cache.ts`: answers by user and tenant,
least recently used first. A key is a text, and a tenant is invalidated by the end of the text.
-/

namespace Stynx.MembershipCache

open OrderedMap

/-- `MembershipCacheEntry`. -/
structure Entry where
  allowed : Bool
  /-- The instant from which it is not given any more. -/
  expiresAt : Int
  deriving DecidableEq

/-- The entries, least recently used first. -/
abbrev Entries := OrderedMap String Entry

/-- The arguments of the constructor. -/
structure Options where
  ttlMs : Int
  maxEntries : Nat
  room : 0 < maxEntries

def key (userId tenantId : String) : String := userId ++ ":" ++ tenantId

/-- `get`, at an instant: the answer, and the entries afterwards. -/
def get (entries : Entries) (now : Int) (userId tenantId : String) : Option Bool × Entries :=
  match entries.get? (key userId tenantId) with
  | none => (none, entries)
  | some entry =>
    if entry.expiresAt ≤ now then (none, entries.delete (key userId tenantId))
    else (some entry.allowed,
      (entries.delete (key userId tenantId)).set (key userId tenantId) entry)

/-- The loop that deletes the oldest entries; each turn makes the map smaller. -/
def evict (maxEntries : Nat) : Nat → Entries → Entries
  | 0, entries => entries
  | turns + 1, entries =>
    match entries.entries with
    | [] => entries
    | (oldest, _) :: _ =>
      if maxEntries < entries.entries.length then evict maxEntries turns (entries.delete oldest)
      else entries

def set (options : Options) (entries : Entries) (now : Int) (userId tenantId : String)
    (allowed : Bool) : Entries :=
  let written := (entries.delete (key userId tenantId)).set (key userId tenantId)
    ⟨allowed, now + options.ttlMs⟩
  evict options.maxEntries written.entries.length written

/-- The test of `invalidateTenant`. -/
def endsWithTenant (tenantId key : String) : Bool :=
  decide ((":" ++ tenantId).toList <:+ key.toList)

def invalidateTenant (entries : Entries) (tenantId : String) : Entries :=
  entries.filter fun p => !endsWithTenant tenantId p.1

variable {entries : Entries} {options : Options} {k : String} {entry : Entry}
  {userId tenantId : String} {now : Int}

theorem get?_evict {maxEntries turns : Nat}
    (h : (evict maxEntries turns entries).get? k = some entry) : entries.get? k = some entry := by
  induction turns generalizing entries with
  | zero => exact h
  | succ turns ih =>
    rw [evict] at h
    split at h
    · exact h
    case h_2 oldest value rest hentries =>
      split at h
      · have hdeleted := ih h
        rw [get?_delete] at hdeleted
        split at hdeleted
        · cases hdeleted
        · exact hdeleted
      · exact h

theorem get?_get (h : (get entries now userId tenantId).2.get? k = some entry) :
    entries.get? k = some entry := by
  unfold get at h
  split at h
  case h_1 => exact h
  case h_2 found hfound =>
    split at h
    · simp only [get?_delete] at h
      split at h
      · cases h
      · exact h
    · rcases get?_set_eq_some.mp h with ⟨hkey, heq⟩ | ⟨hkey, hother⟩
      · rw [← hkey, hfound, heq]
      · rw [get?_delete, if_neg hkey] at hother
        exact hother

theorem get_eq_some {allowed : Bool} (h : (get entries now userId tenantId).1 = some allowed) :
    ∃ entry, entries.get? (key userId tenantId) = some entry ∧ entry.allowed = allowed := by
  unfold get at h
  split at h
  · cases h
  case h_2 entry hentry =>
    split at h
    · cases h
    · exact ⟨entry, hentry, Option.some.inj h⟩

theorem get_of_lt (h : entries.get? (key userId tenantId) = some entry)
    (hnow : now < entry.expiresAt) : (get entries now userId tenantId).1 = some entry.allowed := by
  rw [get, h]
  simp only
  rw [if_neg (by omega)]

theorem get?_set {allowed : Bool}
    (h : (set options entries now userId tenantId allowed).get? k = some entry) :
    k = key userId tenantId ∧ entry.allowed = allowed ∨ entries.get? k = some entry := by
  rcases get?_set_eq_some.mp (get?_evict h) with ⟨hkey, heq⟩ | ⟨hkey, hother⟩
  · exact .inl ⟨hkey.symm, congrArg Entry.allowed heq.symm⟩
  · rw [get?_delete, if_neg hkey] at hother
    exact .inr hother

theorem get?_invalidateTenant : (invalidateTenant entries tenantId).get? k = some entry ↔
    entries.get? k = some entry ∧ endsWithTenant tenantId k = false := by
  rw [invalidateTenant, get?_filter_eq_some, Bool.not_eq_true']

theorem entries_delete_first {oldest : String} {value : Entry} {rest : List (String × Entry)}
    (h : entries.entries = (oldest, value) :: rest) : (entries.delete oldest).entries = rest := by
  have hnodup := entries.nodup
  rw [h, List.map_cons, List.nodup_cons] at hnodup
  have hdelete : (entries.delete oldest).entries =
      entries.entries.filter fun p => decide (p.1 ≠ oldest) := rfl
  rw [hdelete, h, List.filter_cons_of_neg (by simp)]
  refine List.filter_eq_self.mpr fun p hp => decide_eq_true fun heq => hnodup.1 ?_
  exact List.mem_map.mpr ⟨p, hp, heq⟩

theorem evict_keeps_last {maxEntries : Nat} (hroom : 0 < maxEntries) (turns : Nat)
    {before : List (String × Entry)} (h : entries.entries = before ++ [(k, entry)]) :
    (evict maxEntries turns entries).get? k = some entry := by
  induction turns generalizing entries before with
  | zero => exact mem_entries_iff.mp (h ▸ List.mem_concat_self)
  | succ turns ih =>
    have hlast : entries.get? k = some entry :=
      mem_entries_iff.mp (h ▸ List.mem_concat_self)
    rw [evict]
    split
    · exact hlast
    case h_2 oldest value rest hentries =>
      split
      case isFalse => exact hlast
      case isTrue hlong =>
        -- there are two entries at least, and the first one goes
        cases before with
        | nil =>
          rw [h] at hlong
          simp only [List.nil_append, List.length_singleton] at hlong
          omega
        | cons first before =>
          rw [hentries, List.cons_append, List.cons.injEq] at h
          have hrest : (entries.delete oldest).entries = before ++ [(k, entry)] :=
            (entries_delete_first hentries).trans h.2
          exact ih hrest

theorem get?_set_self (allowed : Bool) :
    (set options entries now userId tenantId allowed).get? (key userId tenantId) =
      some ⟨allowed, now + options.ttlMs⟩ := by
  have hfresh : key userId tenantId ∉
      (entries.delete (key userId tenantId)).entries.map Prod.fst := by
    intro hmem
    obtain ⟨p, hp, hkey⟩ := List.mem_map.mp hmem
    have hkept := (List.mem_filter.mp hp).2
    rw [hkey] at hkept
    exact of_decide_eq_true hkept rfl
  exact evict_keeps_last options.room _ (OrderedMap.setEntry_of_not_mem _ hfresh)

end Stynx.MembershipCache
