import Stynx.CallTables
import Stynx.TenantMutations

/-!
# The order of calls in the tables

Two calls of a tenant conflict when one of them is exclusive. The later one of two waits for the
gate of the earlier one, or for the gate of an exclusive call between them, unless the earlier one
is finished.
-/

namespace Stynx.TenantMutations

open CallTables

variable {s : Admissions} {index : Nat} {call : Call} {phase : Phase}

def Call.Started (call : Call) : Prop := call.phase ≠ .waiting

/-- From the end of its frame on. -/
def Call.Finished (call : Call) : Prop := call.phase = .committed ∨ call.phase = .rolledBack

theorem Call.Finished.started (h : call.Finished) : call.Started := by
  rcases h with hphase | hphase
  all_goals
    rw [Started, hphase]
    decide

def Conflict (one two : Call) : Prop :=
  one.tenantId = two.tenantId ∧ (one.exclusive = true ∨ two.exclusive = true)

/-- What the tables say of the calls. -/
structure Ordered (s : Admissions) : Prop where
  /-- A gate belongs to the last exclusive call of its tenant. -/
  last : ∀ tenantId g, s.tenantGate.get? tenantId = some g → ∃ call, s.calls[g]? = some call ∧
    call.tenantId = tenantId ∧ call.exclusive = true ∧
    ∀ (i : Nat) other, s.calls[i]? = some other → other.tenantId = tenantId →
      other.exclusive = true → i ≤ g
  /-- Where an exclusive call is not finished, there is a gate. -/
  gated : ∀ (i : Nat) call, s.calls[i]? = some call → call.exclusive = true →
    call.Finished ∨ ∃ g, s.tenantGate.get? call.tenantId = some g
  /-- A shared call that is not finished is in the set of its tenant. -/
  shared : ∀ (i : Nat) call, s.calls[i]? = some call → call.exclusive = false →
    call.Finished ∨ s.sharedMutations.get? call.tenantId = some call.readers ∧
      ∃ set, s.sets[call.readers]? = some set ∧ i ∈ set
  sets : ∀ tenantId readers, s.sharedMutations.get? tenantId = some readers →
    ∃ set, s.sets[readers]? = some set
  /-- A call waits for an earlier one in conflict, or for an exclusive one between them. -/
  waits : ∀ (i j : Nat) one two, i < j → s.calls[i]? = some one → s.calls[j]? = some two →
    Conflict one two → one.Finished ∨ .gate i ∈ two.sources ∨
      ∃ k mid, i < k ∧ s.calls[k]? = some mid ∧ mid.tenantId = two.tenantId ∧
        mid.exclusive = true ∧ .gate k ∈ two.sources
  /-- A call that has started finds what it conflicts with finished. -/
  law : ∀ (i j : Nat) one two, i < j → s.calls[i]? = some one → s.calls[j]? = some two →
    Conflict one two → two.Started → one.Finished

theorem ordered_initial : Ordered {} where
  last tenantId g h := by cases h
  gated i call h := by cases h
  shared i call h := by cases h
  sets tenantId readers h := by cases h
  waits i j one two _ h := by cases h
  law i j one two _ h := by cases h

theorem put_cases {i : Nat} {found : Call} (hcall : s.calls[index]? = some call)
    (h : (s.put index call phase).calls[i]? = some found) :
    ∃ old, s.calls[i]? = some old ∧ found = { old with phase := found.phase } ∧
      (i = index ∧ old = call ∧ found.phase = phase ∨ i ≠ index ∧ found = old) := by
  rcases getElem?_set_cases h with ⟨rfl, rfl⟩ | ⟨hne, hold⟩
  · exact ⟨call, hcall, rfl, .inl ⟨rfl, rfl, rfl⟩⟩
  · exact ⟨found, hold, rfl, .inr ⟨hne, rfl⟩⟩

theorem put_of_getElem? (phase : Phase) {i : Nat} {old : Call} (hcall : s.calls[index]? = some call)
    (h : s.calls[i]? = some old) :
    ∃ found, (s.put index call phase).calls[i]? = some found ∧
      found = { old with phase := found.phase } := by
  have hlt := (List.getElem?_eq_some_iff.mp hcall).1
  by_cases hi : i = index
  · subst hi
    rw [hcall] at h
    cases h
    exact ⟨{ call with phase }, List.getElem?_set_self hlt, rfl⟩
  · exact ⟨old, (List.getElem?_set_ne (Ne.symm hi)).trans h, rfl⟩

theorem Ordered.put (h : Ordered s) (phase : Phase) (hcall : s.calls[index]? = some call)
    (hkept : call.Finished → phase = .committed ∨ phase = .rolledBack)
    (hbefore : ∀ (i : Nat) one, i < index → s.calls[i]? = some one → Conflict one call →
      one.Finished) : Ordered (s.put index call phase) := by
  have hfinished : ∀ (i : Nat) old found, s.calls[i]? = some old →
      (s.put index call phase).calls[i]? = some found → old.Finished → found.Finished := by
    intro i old found hold hfound hdone
    obtain ⟨same, hsame, -, ⟨rfl, rfl, hphase⟩ | ⟨-, rfl⟩⟩ := put_cases hcall hfound
    · rw [hold] at hsame
      cases hsame
      rw [Call.Finished, hphase]
      exact hkept hdone
    · rw [hold] at hsame
      cases hsame
      exact hdone
  refine ⟨fun tenantId g hg => ?_, fun i found hfound hexclusive => ?_,
    fun i found hfound hshared => ?_, h.sets, fun i j one two hlt hone htwo hconflict => ?_,
    fun i j one two hlt hone htwo hconflict hstarted => ?_⟩
  · obtain ⟨old, hold, htenant, hexclusive, hlast⟩ := h.last tenantId g hg
    obtain ⟨found, hfound, hsame⟩ := put_of_getElem? phase hcall hold
    refine ⟨found, hfound, by rw [hsame]; exact htenant, by rw [hsame]; exact hexclusive, ?_⟩
    intro i other hother hown hexcl
    obtain ⟨before, hbefore, heq, -⟩ := put_cases hcall hother
    rw [heq] at hown hexcl
    exact hlast i before hbefore hown hexcl
  · obtain ⟨old, hold, heq, -⟩ := put_cases hcall hfound
    rw [heq] at hexclusive
    refine (h.gated i old hold hexclusive).imp (hfinished i old found hold hfound) fun hgate => ?_
    rw [heq]
    exact hgate
  · obtain ⟨old, hold, heq, -⟩ := put_cases hcall hfound
    rw [heq] at hshared
    refine (h.shared i old hold hshared).imp (hfinished i old found hold hfound) fun hset => ?_
    rw [heq]
    exact hset
  · obtain ⟨first, hfirst, heq, -⟩ := put_cases hcall hone
    obtain ⟨second, hsecond, heq', -⟩ := put_cases hcall htwo
    rw [heq, heq'] at hconflict
    rw [heq']
    refine (h.waits i j first second hlt hfirst hsecond hconflict).imp
      (hfinished i first one hfirst hone) (Or.imp id ?_)
    rintro ⟨k, mid, hik, hmid, htenant, hexclusive, hgate⟩
    obtain ⟨found, hfound, hsame⟩ := put_of_getElem? phase hcall hmid
    exact ⟨k, found, hik, hfound, by rw [hsame]; exact htenant, by rw [hsame]; exact hexclusive,
      hgate⟩
  · obtain ⟨first, hfirst, heq, -⟩ := put_cases hcall hone
    obtain ⟨second, hsecond, heq', hcase⟩ := put_cases hcall htwo
    rw [heq, heq'] at hconflict
    refine hfinished i first one hfirst hone ?_
    rcases hcase with ⟨rfl, rfl, -⟩ | ⟨-, rfl⟩
    · exact hbefore i first hlt hfirst hconflict
    · exact h.law i j first two hlt hfirst hsecond hconflict hstarted

theorem Ordered.leave (h : Ordered s) (hcall : s.calls[index]? = some call)
    (hfinished : call.Finished) (hreaders : call.exclusive = false →
      s.sharedMutations.get? call.tenantId = some call.readers) : Ordered (s.leave index call) := by
  unfold Admissions.leave
  split
  case isTrue hexclusive =>
    split
    case isFalse => exact h
    case isTrue hgate =>
      refine ⟨fun tenantId g hg => ?_, fun i other hother hexcl => ?_, h.shared, h.sets, h.waits, h.law⟩
      · dsimp only at hg
        rw [OrderedMap.get?_delete] at hg
        split at hg
        · cases hg
        · exact h.last tenantId g hg
      · dsimp only
        rw [OrderedMap.get?_delete]
        split
        case isFalse => exact h.gated i other hother hexcl
        case isTrue htenant =>
          -- the gate that goes was the one of the last exclusive call
          obtain ⟨found, -, -, -, hlast⟩ := h.last call.tenantId index hgate
          have hle := hlast i other hother htenant.symm hexcl
          rcases Nat.lt_or_eq_of_le hle with hlt | rfl
          · exact .inl (h.law i index other call hlt hother hcall ⟨htenant.symm, .inl hexcl⟩
              hfinished.started)
          · rw [hcall] at hother
            cases hother
            exact .inl hfinished
  case isFalse hshared =>
    rw [Bool.not_eq_true] at hshared
    -- the set of another call that is not finished keeps it
    have hkept : ∀ (i : Nat) other, s.calls[i]? = some other → other.exclusive = false →
        other.Finished ∨ s.sharedMutations.get? other.tenantId = some other.readers ∧
          ∃ set, (s.sets.modify call.readers fun readers =>
            readers.filter (· ≠ index))[other.readers]? = some set ∧ i ∈ set := by
      intro i other hother hexcl
      by_cases hi : i = index
      · subst hi
        rw [hcall] at hother
        cases hother
        exact .inl hfinished
      · refine (h.shared i other hother hexcl).imp_right ?_
        rintro ⟨hmap, set, hset, hmem⟩
        refine ⟨hmap, ?_⟩
        rw [List.getElem?_modify, hset]
        refine ⟨_, rfl, ?_⟩
        dsimp only
        by_cases hown : call.readers = other.readers
        · rw [if_pos hown]
          exact List.mem_filter.mpr ⟨hmem, decide_eq_true hi⟩
        · rw [if_neg hown]
          exact hmem
    have hsets : ∀ tenantId readers, s.sharedMutations.get? tenantId = some readers →
        ∃ set, (s.sets.modify call.readers fun readers =>
          readers.filter (· ≠ index))[readers]? = some set := by
      intro tenantId readers hmap
      obtain ⟨set, hset⟩ := h.sets tenantId readers hmap
      rw [List.getElem?_modify, hset]
      exact ⟨_, rfl⟩
    dsimp only
    split
    case isFalse => exact ⟨h.last, h.gated, hkept, hsets, h.waits, h.law⟩
    case isTrue hempty =>
      refine ⟨h.last, h.gated, fun i other hother hexcl => ?_, fun tenantId readers hmap => ?_, h.waits,
        h.law⟩
      · refine (hkept i other hother hexcl).imp_right ?_
        rintro ⟨hmap, set, hset, hmem⟩
        dsimp only
        rw [OrderedMap.get?_delete]
        split
        case isFalse => exact ⟨hmap, set, hset, hmem⟩
        case isTrue htenant =>
          -- the set that is empty is the one of the tenant
          have hsame := hreaders hshared
          rw [htenant, hmap] at hsame
          rw [Option.some.inj hsame, hempty] at hset
          cases hset
          cases hmem
      · dsimp only at hmap
        rw [OrderedMap.get?_delete] at hmap
        split at hmap
        · cases hmap
        · exact hsets tenantId readers hmap

theorem Ordered.sources_of_enter (h : Ordered s) {i : Nat} {one : Call} {tenantId : String}
    {exclusive : Bool} (hone : s.calls[i]? = some one) (htenant : one.tenantId = tenantId)
    (hexclusive : one.exclusive = true ∨ exclusive = true) {sources : List PromiseId}
    (hprevious : s.previous tenantId ∈ sources)
    (hshared : exclusive = true → ∀ p ∈ s.sharedGates tenantId, p ∈ sources) :
    one.Finished ∨ .gate i ∈ sources ∨ ∃ k mid, i < k ∧ s.calls[k]? = some mid ∧
      mid.tenantId = tenantId ∧ mid.exclusive = true ∧ .gate k ∈ sources := by
  cases hown : one.exclusive with
  | true =>
    refine (h.gated i one hone hown).imp_right fun ⟨g, hg⟩ => ?_
    rw [htenant] at hg
    obtain ⟨mid, hmid, hmidTenant, hmidExclusive, hlast⟩ := h.last tenantId g hg
    have hgate : .gate g ∈ sources := by
      rw [Admissions.previous, hg] at hprevious
      exact hprevious
    rcases Nat.lt_or_eq_of_le (hlast i one hone htenant hown) with hlt | heq
    · exact .inr ⟨g, mid, hlt, hmid, hmidTenant, hmidExclusive, hgate⟩
    · exact .inl (heq ▸ hgate)
  | false =>
    have hnew : exclusive = true := hexclusive.resolve_left fun htrue => by
      rw [hown] at htrue
      cases htrue
    refine (h.shared i one hone hown).imp_right fun ⟨hmap, set, hset, hmem⟩ => .inl ?_
    refine hshared hnew _ ?_
    rw [Admissions.sharedGates, ← htenant, hmap, Option.bind_some, hset]
    exact List.mem_map_of_mem hmem

theorem sets_of_enter (h : Ordered s) (tenantId : String) :
    (∃ set, (s.enter tenantId false).sets[(s.sharedMutations.get? tenantId).getD
      s.sets.length]? = some set ∧ s.calls.length ∈ set) ∧
    ∀ (r : Nat) set, s.sets[r]? = some set →
      ∃ set', (s.enter tenantId false).sets[r]? = some set' ∧ ∀ i ∈ set, i ∈ set' := by
  rw [Admissions.enter, if_neg Bool.false_ne_true]
  cases hmap : s.sharedMutations.get? tenantId with
  | some readers =>
    have hhas : s.sharedMutations.has tenantId = true := by
      rw [OrderedMap.has, hmap]
      rfl
    rw [if_pos hhas, Option.getD_some]
    obtain ⟨set, hset⟩ := h.sets tenantId readers hmap
    refine ⟨⟨set.insert s.calls.length, ?_, List.mem_insert_self⟩, fun r old hold => ?_⟩
    · rw [List.getElem?_modify_eq, hset]
      rfl
    · rw [List.getElem?_modify, hold]
      refine ⟨_, rfl, fun i hi => ?_⟩
      dsimp only
      split
      · exact List.mem_insert_of_mem hi
      · exact hi
  | none =>
    have hhas : s.sharedMutations.has tenantId = false := by
      rw [OrderedMap.has, hmap]
      rfl
    rw [if_neg (Bool.eq_false_iff.mp hhas), Option.getD_none]
    refine ⟨⟨_, List.getElem?_concat_length, List.mem_singleton_self _⟩, fun r old hold => ?_⟩
    have hlt := (List.getElem?_eq_some_iff.mp hold).1
    exact ⟨old, (List.getElem?_append_left hlt).trans hold, fun i hi => hi⟩

theorem Ordered.enter (h : Ordered s) (tenantId : String) (exclusive : Bool) :
    Ordered (s.enter tenantId exclusive) := by
  have hlt : ∀ (i : Nat) other, s.calls[i]? = some other → i < s.calls.length :=
    fun i other hother => (List.getElem?_eq_some_iff.mp hother).1
  have hold : ∀ (entry : Call) (i : Nat) other, s.calls[i]? = some other →
      (s.calls ++ [entry])[i]? = some other := fun entry i other hother => by
    rw [List.getElem?_append_left (hlt i other hother), hother]
  -- what the tables say of the order, for an entry that waits for the right gates
  have horder : ∀ entry : Call, entry.phase = .waiting → entry.tenantId = tenantId →
      s.previous tenantId ∈ entry.sources →
      (entry.exclusive = true → ∀ p ∈ s.sharedGates tenantId, p ∈ entry.sources) →
      (∀ (i j : Nat) one two, i < j → (s.calls ++ [entry])[i]? = some one →
        (s.calls ++ [entry])[j]? = some two → Conflict one two →
        (one.Finished ∨ .gate i ∈ two.sources ∨ ∃ k mid, i < k ∧
          (s.calls ++ [entry])[k]? = some mid ∧ mid.tenantId = two.tenantId ∧
          mid.exclusive = true ∧ .gate k ∈ two.sources) ∧
        (two.Started → one.Finished)) := by
    intro entry hwaiting htenant hprevious hshared i j one two hij hone htwo hconflict
    rcases getElem?_concat_cases htwo with ⟨rfl, rfl⟩ | ⟨hj, hsecond⟩
    · rcases getElem?_concat_cases hone with ⟨rfl, -⟩ | ⟨-, hfirst⟩
      · exact absurd hij (Nat.lt_irrefl _)
      · refine ⟨?_, fun hstarted => absurd hwaiting hstarted⟩
        refine (h.sources_of_enter hfirst (hconflict.1.trans htenant) hconflict.2 hprevious
          hshared).imp_right (Or.imp id ?_)
        rintro ⟨k, mid, hik, hmid, hrest⟩
        exact ⟨k, mid, hik, hold two k mid hmid, htenant ▸ hrest⟩
    · have hfirst : s.calls[i]? = some one := by
        rcases getElem?_concat_cases hone with ⟨rfl, -⟩ | ⟨-, hfirst⟩
        · exact absurd (hlt j two hsecond) (Nat.lt_asymm hij)
        · exact hfirst
      refine ⟨?_, h.law i j one two hij hfirst hsecond hconflict⟩
      refine (h.waits i j one two hij hfirst hsecond hconflict).imp_right (Or.imp id ?_)
      rintro ⟨k, mid, hik, hmid, hrest⟩
      exact ⟨k, mid, hik, hold entry k mid hmid, hrest⟩
  cases exclusive with
  | true =>
    have hall := horder ⟨tenantId, true, s.previous tenantId :: s.sharedGates tenantId,
      (s.sharedMutations.get? tenantId).getD s.sets.length, .waiting⟩ rfl rfl (.head _)
      fun _ p hp => .tail _ hp
    refine ⟨fun tenant g hg => ?_, fun i other hother hexcl => ?_, fun i other hother hexcl => ?_,
      h.sets, fun i j one two hij hone htwo hconflict => (hall i j one two hij hone htwo hconflict).1,
      fun i j one two hij hone htwo hconflict => (hall i j one two hij hone htwo hconflict).2⟩
    · rcases OrderedMap.get?_set_eq_some.mp hg with ⟨rfl, rfl⟩ | ⟨hne, hgate⟩
      · refine ⟨_, List.getElem?_concat_length, rfl, rfl, fun i other hother _ _ => ?_⟩
        have hi := (List.getElem?_eq_some_iff.mp hother).1
        rw [Admissions.enter] at hi
        simp only [List.length_append, List.length_singleton, if_true] at hi
        omega
      · obtain ⟨call, hcall, htenant, hexclusive, hlast⟩ := h.last tenant g hgate
        refine ⟨call, hold _ g call hcall, htenant, hexclusive, fun i other hother hown hexcl => ?_⟩
        rcases getElem?_concat_cases hother with ⟨rfl, rfl⟩ | ⟨-, hbefore⟩
        · exact absurd hown hne
        · exact hlast i other hbefore hown hexcl
    · rcases getElem?_concat_cases hother with ⟨rfl, rfl⟩ | ⟨-, hbefore⟩
      · exact .inr ⟨s.calls.length, OrderedMap.get?_set_self _ _ _⟩
      · refine (h.gated i other hbefore hexcl).imp_right ?_
        rintro ⟨g, hg⟩
        by_cases htenant : tenantId = other.tenantId
        · exact ⟨s.calls.length, htenant ▸ OrderedMap.get?_set_self _ _ _⟩
        · exact ⟨g, (OrderedMap.get?_set_of_ne _ _ htenant).trans hg⟩
    · rcases getElem?_concat_cases hother with ⟨rfl, rfl⟩ | ⟨-, hbefore⟩
      · cases hexcl
      · exact h.shared i other hbefore hexcl
  | false =>
    have hall := horder ⟨tenantId, false, [s.previous tenantId],
      (s.sharedMutations.get? tenantId).getD s.sets.length, .waiting⟩ rfl rfl (.head _)
      fun hfalse => by cases hfalse
    obtain ⟨hjoined, hstays⟩ := sets_of_enter h tenantId
    refine ⟨fun tenant g hg => ?_, fun i other hother hexcl => ?_, fun i other hother hexcl => ?_,
      fun tenant readers hmap => ?_,
      fun i j one two hij hone htwo hconflict => (hall i j one two hij hone htwo hconflict).1,
      fun i j one two hij hone htwo hconflict => (hall i j one two hij hone htwo hconflict).2⟩
    · obtain ⟨call, hcall, htenant, hexclusive, hlast⟩ := h.last tenant g hg
      refine ⟨call, hold _ g call hcall, htenant, hexclusive, fun i other hother hown hexcl => ?_⟩
      rcases getElem?_concat_cases hother with ⟨rfl, rfl⟩ | ⟨-, hbefore⟩
      · cases hexcl
      · exact hlast i other hbefore hown hexcl
    · rcases getElem?_concat_cases hother with ⟨rfl, rfl⟩ | ⟨-, hbefore⟩
      · cases hexcl
      · exact h.gated i other hbefore hexcl
    · rcases getElem?_concat_cases hother with ⟨rfl, rfl⟩ | ⟨-, hbefore⟩
      · exact .inr ⟨OrderedMap.get?_set_self _ _ _, hjoined⟩
      · refine (h.shared i other hbefore hexcl).imp_right ?_
        rintro ⟨hmap, set, hset, hmem⟩
        obtain ⟨set', hset', hsub⟩ := hstays other.readers set hset
        refine ⟨?_, set', hset', hsub i hmem⟩
        by_cases htenant : tenantId = other.tenantId
        · have hget : (s.sharedMutations.get? tenantId).getD s.sets.length = other.readers := by
            rw [htenant, hmap, Option.getD_some]
          rw [← hget, ← htenant]
          exact OrderedMap.get?_set_self _ _ _
        · exact (OrderedMap.get?_set_of_ne _ _ htenant).trans hmap
    · rcases OrderedMap.get?_set_eq_some.mp hmap with ⟨rfl, rfl⟩ | ⟨-, hbefore⟩
      · exact hjoined.imp fun set hset => hset.1
      · obtain ⟨set, hset⟩ := h.sets tenant readers hbefore
        exact (hstays readers set hset).imp fun set' hset' => hset'.1

end Stynx.TenantMutations
