import Stynx.OrderedMap

/-!
# Caches with a lifetime and a size

`TtlLruCache` of `packages/auth/src/permission-cache.ts`: values that expire some
time after they were set, least recently used first, with a greatest number of
entries. What a cache holds of every entry, it holds after lookups, writes and
deletions.
-/

namespace Stynx.TtlLruCaches

open OrderedMap

structure TtlEntry (α : Type) where
  value : α
  /-- The instant from which it is not found any more. -/
  expiresAt : Int
  deriving Repr

structure TtlLruCache (α : Type) where
  /-- How long a value is found, in milliseconds. -/
  ttlMs : Int
  maxSize : Nat
  /-- The entries, least recently used first. -/
  store : OrderedMap String (TtlEntry α)

namespace TtlLruCache

variable {α : Type}

def empty (ttlMs : Int) (maxSize : Nat) : TtlLruCache α := ⟨ttlMs, maxSize, .empty⟩

def delete (c : TtlLruCache α) (key : String) : TtlLruCache α :=
  { c with store := c.store.delete key }

def clear (c : TtlLruCache α) : TtlLruCache α := { c with store := .empty }

def values (c : TtlLruCache α) : List α := c.store.values.map TtlEntry.value

/-- `get`, at an instant: the value, and the cache afterwards. -/
def get (c : TtlLruCache α) (now : Int) (key : String) : Option α × TtlLruCache α :=
  match c.store.get? key with
  | none => (none, c)
  | some entry =>
    if entry.expiresAt ≤ now then (none, c.delete key)
    else (some entry.value, { c with store := (c.store.delete key).set key entry })

def set (c : TtlLruCache α) (now : Int) (key : String) (value : α) : TtlLruCache α :=
  let store := (c.store.delete key).set key ⟨value, now + c.ttlMs⟩
  if c.maxSize < store.entries.length then
    match store.entries with
    | [] => { c with store := store }
    | (oldest, _) :: _ => { c with store := store.delete oldest }
  else { c with store := store }

def All (p : String → TtlEntry α → Prop) (c : TtlLruCache α) : Prop :=
  ∀ key entry, c.store.get? key = some entry → p key entry

variable {p : String → TtlEntry α → Prop} {c : TtlLruCache α}

theorem get?_delete_eq_some {m : OrderedMap String (TtlEntry α)} {key other : String}
    {entry : TtlEntry α} (h : (m.delete key).get? other = some entry) :
    m.get? other = some entry := by
  rw [get?_delete] at h
  split_ifs at h
  exact h

theorem all_empty (ttlMs : Int) (maxSize : Nat) : All p (empty ttlMs maxSize) := by
  intro key entry h
  cases h

theorem All.delete (h : All p c) (key : String) : All p (c.delete key) := fun other entry hentry =>
  h other entry (get?_delete_eq_some hentry)

theorem All.clear (p : String → TtlEntry α → Prop) (c : TtlLruCache α) : All p c.clear := by
  intro key entry h
  cases h

theorem All.get (h : All p c) (now : Int) (key : String) : All p (c.get now key).2 := by
  unfold TtlLruCache.get
  split
  · exact h
  · next entry hentry =>
    split_ifs
    · exact h.delete key
    · intro other found hfound
      rcases get?_set_eq_some.mp hfound with ⟨rfl, rfl⟩ | ⟨-, hfound⟩
      · exact h _ _ hentry
      · exact h other found (get?_delete_eq_some hfound)

theorem All.found (h : All p c) {now : Int} {key : String} {value : α}
    (hget : (c.get now key).1 = some value) :
    ∃ expiresAt, now < expiresAt ∧ p key ⟨value, expiresAt⟩ := by
  unfold TtlLruCache.get at hget
  split at hget
  · cases hget
  · next entry hentry =>
    split_ifs at hget with hexpired
    have hvalue : entry.value = value := Option.some.inj hget
    refine ⟨entry.expiresAt, not_le.mp hexpired, ?_⟩
    rw [← hvalue]
    exact h key entry hentry

theorem get_get (c : TtlLruCache α) (now : Int) (key : String) :
    ((c.get now key).2.get now key).1 = (c.get now key).1 := by
  unfold TtlLruCache.get
  cases hentry : c.store.get? key with
  | none => simp only [hentry]
  | some entry =>
    dsimp only
    split_ifs with hexpired
    · have hgone : (c.store.delete key).get? key = none := by
        rw [get?_delete, if_pos rfl]
      simp only [TtlLruCache.delete, hgone]
    · simp only [get?_set_self, if_neg hexpired]

theorem All.of_mem_values (h : All p c) {value : α} (hmem : value ∈ c.values) :
    ∃ key expiresAt, p key ⟨value, expiresAt⟩ := by
  obtain ⟨entry, hentry, rfl⟩ := List.mem_map.mp hmem
  obtain ⟨key, hkey⟩ := mem_values_iff.mp hentry
  exact ⟨key, entry.expiresAt, h key entry hkey⟩

theorem All.set (h : All p c) {now : Int} {key : String} {value : α}
    (hnew : p key ⟨value, now + c.ttlMs⟩) : All p (c.set now key value) := by
  have hstore : ∀ other entry, ((c.store.delete key).set key ⟨value, now + c.ttlMs⟩).get? other =
      some entry → p other entry := by
    intro other entry hentry
    rcases get?_set_eq_some.mp hentry with ⟨rfl, rfl⟩ | ⟨-, hentry⟩
    · exact hnew
    · exact h other entry (get?_delete_eq_some hentry)
  unfold TtlLruCache.set
  dsimp only
  split
  · split
    · exact hstore
    · next oldest first rest hentries =>
      intro other entry hentry
      exact hstore other entry (get?_delete_eq_some hentry)
  · exact hstore

theorem ttlMs_get (c : TtlLruCache α) (now : Int) (key : String) :
    (c.get now key).2.ttlMs = c.ttlMs := by
  unfold TtlLruCache.get
  split
  · rfl
  · split_ifs <;> rfl

theorem ttlMs_set (c : TtlLruCache α) (now : Int) (key : String) (value : α) :
    (c.set now key value).ttlMs = c.ttlMs := by
  unfold TtlLruCache.set
  dsimp only
  split
  · split <;> rfl
  · rfl

end TtlLruCache

end Stynx.TtlLruCaches
