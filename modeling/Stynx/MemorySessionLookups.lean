import Stynx.MemorySessions

/-!
# Lookups and indices of sessions in memory

In every state a lookup is active exactly while a stored session has its token, and
the indices have exactly the stored sessions.
-/

namespace Stynx.MemorySessions

open TransitionRuns CallTables SessionRecords OrderedMap

section

variable {index : OrderedMap String (List String)} {key key' sid other : String}

theorem mem_bucket_addIndex :
    other ∈ bucket (addIndex index key sid) key' ↔
      (key' = key ∧ other = sid) ∨ other ∈ bucket index key' := by
  unfold addIndex
  rw [bucket, get?_set]
  by_cases hkey : key = key'
  · subst hkey
    rw [if_pos rfl, Option.getD_some]
    split
    · rename_i hmem
      constructor
      · exact .inr
      · rintro (⟨-, rfl⟩ | hold)
        · exact hmem
        · exact hold
    · rw [List.mem_append, List.mem_singleton, or_comm]
      simp
  · rw [if_neg hkey]
    exact (or_iff_right fun hnew => hkey hnew.1.symm).symm

theorem mem_bucket_removeIndex :
    other ∈ bucket (removeIndex index key sid) key' ↔
      other ∈ bucket index key' ∧ ¬ (key' = key ∧ other = sid) := by
  unfold removeIndex
  split
  · rename_i hnone
    constructor
    · intro hmem
      refine ⟨hmem, ?_⟩
      rintro ⟨rfl, -⟩
      rw [bucket, hnone] at hmem
      exact absurd hmem List.not_mem_nil
    · exact And.left
  · rename_i values hvalues
    rw [bucket, get?_set]
    by_cases hkey : key = key'
    · subst hkey
      have hbucket : bucket index key = values := by rw [bucket, hvalues, Option.getD_some]
      rw [if_pos rfl, Option.getD_some, List.mem_filter, hbucket]
      simp
    · rw [if_neg hkey]
      exact (and_iff_left fun hold => hkey hold.1.symm).symm

theorem nodup_bucket_addIndex (h : (bucket index key').Nodup) :
    (bucket (addIndex index key sid) key').Nodup := by
  unfold addIndex
  rw [bucket, get?_set]
  split
  · rename_i hkey
    subst hkey
    rw [Option.getD_some]
    split
    · exact h
    · rename_i hnot
      rw [← List.concat_eq_append]
      exact h.concat hnot
  · exact h

theorem nodup_bucket_removeIndex (h : (bucket index key').Nodup) :
    (bucket (removeIndex index key sid) key').Nodup := by
  unfold removeIndex
  split
  · exact h
  · rename_i values hvalues
    rw [bucket, get?_set]
    split
    · rename_i hkey
      subst hkey
      rw [bucket, hvalues, Option.getD_some] at h
      rw [Option.getD_some]
      exact h.filter _
    · exact h

/-- An index has a session under its key exactly while the session is stored. -/
structure Indexed (sessions : OrderedMap String SessionRecord)
    (index : OrderedMap String (List String)) (field : SessionRecord → String) : Prop where
  mem : ∀ key sid, sid ∈ bucket index key ↔
    ∃ record, sessions.get? sid = some record ∧ field record = key
  /-- They are sets. -/
  nodup : ∀ key, (bucket index key).Nodup

variable {sessions : OrderedMap String SessionRecord} {field : SessionRecord → String}
  {session record : SessionRecord}

theorem Indexed.remove (h : Indexed sessions index field)
    (hstored : sessions.get? sid = some session) :
    Indexed (sessions.delete sid) (removeIndex index (field session) sid) field := by
  refine ⟨fun key other => ?_, fun key => nodup_bucket_removeIndex (h.nodup key)⟩
  rw [mem_bucket_removeIndex, h.mem, get?_delete]
  constructor
  · rintro ⟨⟨record, hrecord, rfl⟩, hnot⟩
    have hne : sid ≠ other := by
      rintro rfl
      rw [hstored] at hrecord
      cases hrecord
      exact hnot ⟨rfl, rfl⟩
    exact ⟨record, (if_neg hne).trans hrecord, rfl⟩
  · rintro ⟨record, hrecord, rfl⟩
    split at hrecord
    · cases hrecord
    · rename_i hne
      exact ⟨⟨record, hrecord, rfl⟩, fun hboth => hne hboth.2.symm⟩

theorem Indexed.overwrite (h : Indexed sessions index field)
    (hstored : sessions.get? sid = some session) (hsame : field record = field session) :
    Indexed (sessions.set sid record) index field := by
  refine ⟨fun key other => ?_, h.nodup⟩
  rw [h.mem, get?_set]
  split
  · rename_i heq
    subst heq
    rw [hstored]
    simp [hsame]
  · rfl

theorem Indexed.add (h : Indexed sessions index field) (hnone : sessions.get? sid = none) :
    Indexed (sessions.set sid record) (addIndex index (field record) sid) field := by
  refine ⟨fun key other => ?_, fun key => nodup_bucket_addIndex (h.nodup key)⟩
  rw [mem_bucket_addIndex, h.mem, get?_set]
  split
  · rename_i heq
    subst heq
    rw [hnone]
    simp [eq_comm]
  · rename_i hne
    exact or_iff_right fun hnew => hne hnew.2.symm

end

/-- The store after a history of issued tokens. -/
structure Sound (store : Store) (issued : List Issue) : Prop where
  /-- A stored session is active, and its token has been issued for it. -/
  stored : ∀ sid record, store.sessions.get? sid = some record → record.sid = sid ∧
    record.status = .active ∧ ∃ issue ∈ issued, issue.hash = record.refreshTokenHash ∧
      issue.sid = sid ∧ issue.familyId = record.refreshFamilyId
  looked : ∀ issue ∈ issued, ∃ lookup, store.refreshLookups.get? issue.hash = some lookup ∧
    lookup.sid = issue.sid
  /-- A lookup is of an issued token. -/
  known : ∀ hash lookup, store.refreshLookups.get? hash = some lookup →
    ∃ issue ∈ issued, issue.hash = hash
  /-- A lookup is active if its session is stored with the token, and only then. -/
  active : ∀ hash lookup, store.refreshLookups.get? hash = some lookup →
    (lookup.state = .active ↔ ∃ record, store.sessions.get? lookup.sid = some record ∧
      record.refreshTokenHash = hash)
  byUser : Indexed store.sessions store.sessionsByUser SessionRecord.userId
  byTenant : Indexed store.sessions store.sessionsByTenant SessionRecord.tenantId
  /-- No token is issued twice. -/
  once : (issued.map Issue.hash).Nodup
  /-- A session has one family, and a family one session. -/
  family : ∀ one ∈ issued, ∀ two ∈ issued, one.sid = two.sid ↔ one.familyId = two.familyId

theorem sound_init : Sound {} [] where
  stored sid record h := by cases h
  looked issue h := absurd h List.not_mem_nil
  known hash lookup h := by cases h
  active hash lookup h := by cases h
  byUser := ⟨fun userId sid => by simp [bucket], fun userId => List.nodup_nil⟩
  byTenant := ⟨fun tenantId sid => by simp [bucket], fun tenantId => List.nodup_nil⟩
  once := List.nodup_nil
  family one h := absurd h List.not_mem_nil

variable {store : Store} {issued : List Issue} {sid : String} {session : SessionRecord}

section

variable (h : Sound store issued)
include h

theorem Sound.issue_unique {one two : Issue} (hone : one ∈ issued) (htwo : two ∈ issued)
    (hsame : one.hash = two.hash) : one = two :=
  List.inj_on_of_nodup_map h.once hone htwo hsame

theorem Sound.sid_of_lookup {issue : Issue} (hissue : issue ∈ issued) {lookup : RefreshTokenLookup}
    (hlookup : store.refreshLookups.get? issue.hash = some lookup) : lookup.sid = issue.sid := by
  obtain ⟨found, hfound, hsid⟩ := h.looked issue hissue
  rw [hlookup] at hfound
  cases hfound
  exact hsid

theorem Sound.lookup_of_stored (hstored : store.sessions.get? sid = some session) : ∃ lookup,
    store.refreshLookups.get? session.refreshTokenHash = some lookup ∧ lookup.sid = sid ∧
      lookup.state = .active := by
  obtain ⟨-, -, issue, hissue, hhash, hsid, -⟩ := h.stored sid session hstored
  obtain ⟨lookup, hlookup, hsame⟩ := h.looked issue hissue
  rw [hhash] at hlookup
  refine ⟨lookup, hlookup, hsame.trans hsid, (h.active _ lookup hlookup).mpr ⟨session, ?_, rfl⟩⟩
  rw [hsame, hsid]
  exact hstored

theorem Sound.removeSession (hstored : store.sessions.get? sid = some session) :
    Sound (removeSession store sid session) issued := by
  have hget : ∀ key, (MemorySessions.removeSession store sid session).sessions.get? key =
      if sid = key then none else store.sessions.get? key := fun key =>
    get?_delete store.sessions sid key
  have hkept : ∀ key record,
      (MemorySessions.removeSession store sid session).sessions.get? key = some record ↔
        sid ≠ key ∧ store.sessions.get? key = some record := by
    intro key record
    rw [hget]
    split <;> simp_all
  obtain ⟨lookup, hlookup, hsid, -⟩ := h.lookup_of_stored hstored
  refine ⟨?_, ?_, ?_, ?_, ?_, ?_, h.once, h.family⟩
  · intro key record hrecord
    exact h.stored key record ((hkept key record).mp hrecord).2
  · intro issue hissue
    have hold := h.looked issue hissue
    by_cases hhash : session.refreshTokenHash = issue.hash
    · refine ⟨⟨sid, session.refreshFamilyId, .used⟩, ?_, ?_⟩
      · exact hhash ▸ get?_set_self _ _ _
      · exact hsid.symm.trans (h.sid_of_lookup hissue (hhash ▸ hlookup))
    · obtain ⟨found, hfound, hsame⟩ := hold
      exact ⟨found, (get?_set_of_ne _ _ hhash).trans hfound, hsame⟩
  · intro hash found hfound
    rcases get?_set_eq_some.mp hfound with ⟨rfl, -⟩ | ⟨-, hold⟩
    · exact h.known _ lookup hlookup
    · exact h.known hash found hold
  · intro hash found hfound
    rcases get?_set_eq_some.mp hfound with ⟨rfl, rfl⟩ | ⟨hne, hold⟩
    · -- the token of the removed session
      refine iff_of_false (by simp) ?_
      rintro ⟨record, hrecord, -⟩
      exact ((hkept sid record).mp hrecord).1 rfl
    · rw [h.active hash found hold]
      refine exists_congr fun record => and_congr_left fun hhash => ?_
      rw [hkept]
      refine (and_iff_right_of_imp fun hrecord => ?_).symm
      rintro rfl
      rw [hstored] at hrecord
      cases hrecord
      exact hne hhash
  · exact h.byUser.remove hstored
  · exact h.byTenant.remove hstored

theorem Sound.revokeSession (sid : String) : Sound (revokeSession store sid) issued := by
  unfold MemorySessions.revokeSession
  split
  · exact h
  · rename_i session hstored
    exact h.removeSession hstored

theorem Sound.revokeSessions (sids : List String) :
    Sound (sids.foldl MemorySessions.revokeSession store) issued := by
  induction sids generalizing store with
  | nil => exact h
  | cons sid rest ih => exact ih (h.revokeSession sid)

theorem Sound.touchSession (sid : String) (idleExpiresAt touchedAt : Nat) :
    Sound (touchSession store sid idleExpiresAt touchedAt) issued := by
  unfold MemorySessions.touchSession
  split
  · exact h
  · rename_i session hstored
    refine ⟨?_, h.looked, h.known, ?_, h.byUser.overwrite hstored rfl,
      h.byTenant.overwrite hstored rfl, h.once, h.family⟩
    · intro key record hrecord
      rcases get?_set_eq_some.mp hrecord with ⟨rfl, rfl⟩ | ⟨-, hold⟩
      · exact h.stored sid session hstored
      · exact h.stored key record hold
    · intro hash lookup hlookup
      rw [h.active hash lookup hlookup]
      simp only [get?_set]
      split
      · rename_i heq
        rw [← heq, hstored]
        simp [touchedRecord]
      · rfl

end

variable {after : Store} {record : SessionRecord} {prior : Option String} {now : Nat}

theorem Sound.rotateRefreshToken (h : Sound store issued) (call : Nat) {hash next : String}
    {idleExpiresAt touchedAt : Nat} {updated : SessionRecord}
    (hrotated : rotateRefreshToken store sid hash next idleExpiresAt touchedAt =
      some (after, updated))
    (hfresh : ∀ issue ∈ issued, issue.hash ≠ next) :
    Sound after (issued ++ [⟨next, updated.sid, updated.refreshFamilyId, call⟩]) := by
  unfold MemorySessions.rotateRefreshToken at hrotated
  split at hrotated
  case h_2 => cases hrotated
  case h_1 session lookup hstored hlookup =>
    split at hrotated
    case isFalse => cases hrotated
    case isTrue hok =>
      obtain ⟨-, rfl⟩ := hok
      cases hrotated
      obtain ⟨hname, hactive, issue, hissue, hhash, hsid, hfamily⟩ := h.stored sid session hstored
      have hnew : (⟨next, session.sid, session.refreshFamilyId, call⟩ : Issue) ∈
          issued ++ [⟨next, session.sid, session.refreshFamilyId, call⟩] :=
        List.mem_concat_self
      have hnext : session.refreshTokenHash ≠ next := hhash ▸ hfresh issue hissue
      have hlookup' : lookup.sid = sid :=
        (h.sid_of_lookup hissue (hhash ▸ hlookup)).trans hsid
      have hother : ∀ key found, key ≠ next → key ≠ session.refreshTokenHash →
          (((store.refreshLookups.set session.refreshTokenHash
            ⟨sid, session.refreshFamilyId, .used⟩).set next
            ⟨sid, session.refreshFamilyId, .active⟩).get? key = some found ↔
            store.refreshLookups.get? key = some found) := by
        intro key found hone htwo
        rw [get?_set_of_ne _ _ (Ne.symm hone), get?_set_of_ne _ _ (Ne.symm htwo)]
      refine ⟨?_, ?_, ?_, ?_, h.byUser.overwrite hstored rfl, h.byTenant.overwrite hstored rfl,
        ?_, ?_⟩
      · intro key record hrecord
        rcases get?_set_eq_some.mp hrecord with ⟨rfl, rfl⟩ | ⟨-, hold⟩
        · exact ⟨hname, hactive, _, hnew, rfl, hname, rfl⟩
        · obtain ⟨hsame, hrest, found, hfound, hrest'⟩ := h.stored key record hold
          exact ⟨hsame, hrest, found, List.mem_append_left _ hfound, hrest'⟩
      · intro found hfound
        rcases mem_concat_iff.mp hfound with hold | rfl
        · by_cases hsame : found.hash = session.refreshTokenHash
          · have hone := h.issue_unique hold hissue (hsame.trans hhash.symm)
            refine ⟨⟨sid, session.refreshFamilyId, .used⟩, ?_, ?_⟩
            · rw [hsame]
              exact (get?_set_of_ne _ _ (Ne.symm hnext)).trans (get?_set_self _ _ _)
            · rw [hone, hsid]
          · obtain ⟨other, hget, hother'⟩ := h.looked found hold
            exact ⟨other, (hother found.hash other (hfresh found hold) hsame).mpr hget, hother'⟩
        · exact ⟨_, get?_set_self _ _ _, hname.symm⟩
      · intro key found hfound
        by_cases hkey : key = next
        · exact ⟨_, hnew, hkey.symm⟩
        · by_cases hold : key = session.refreshTokenHash
          · exact ⟨issue, List.mem_append_left _ hissue, hhash.trans hold.symm⟩
          · obtain ⟨old, hmem, hsame⟩ := h.known key found ((hother key found hkey hold).mp hfound)
            exact ⟨old, List.mem_append_left _ hmem, hsame⟩
      · intro key found hfound
        simp only [get?_set]
        by_cases hkey : key = next
        · -- the new token
          subst hkey
          rw [get?_set_self] at hfound
          cases hfound
          refine iff_of_true rfl ⟨_, if_pos rfl, rfl⟩
        · by_cases hold : key = session.refreshTokenHash
          · -- the exchanged token
            subst hold
            rw [get?_set_of_ne _ _ (Ne.symm hnext), get?_set_self] at hfound
            cases hfound
            refine iff_of_false (by simp) ?_
            rintro ⟨record, hrecord, hsame⟩
            rw [if_pos rfl] at hrecord
            cases hrecord
            exact hnext hsame.symm
          · have hget := (hother key found hkey hold).mp hfound
            rw [h.active key found hget]
            refine exists_congr fun record => and_congr_left fun hsame => ?_
            split
            · rename_i heq
              rw [← heq, hstored]
              constructor
              · intro hrecord
                cases hrecord
                exact absurd hsame.symm hold
              · intro hrecord
                cases hrecord
                exact absurd hsame.symm hkey
            · rfl
      · rw [List.map_append, List.map_singleton, ← List.concat_eq_append]
        refine h.once.concat fun hmem => ?_
        obtain ⟨old, hold, hsame⟩ := List.mem_map.mp hmem
        exact hfresh old hold hsame
      · have hlike : ∀ found ∈ issued ++ [⟨next, session.sid, session.refreshFamilyId, call⟩],
            ∃ old ∈ issued, old.sid = found.sid ∧ old.familyId = found.familyId := by
          intro found hfound
          rcases mem_concat_iff.mp hfound with hold | rfl
          · exact ⟨found, hold, rfl, rfl⟩
          · exact ⟨issue, hissue, hsid.trans hname.symm, hfamily⟩
        intro one hone two htwo
        obtain ⟨first, hfirst, hsid1, hfamily1⟩ := hlike one hone
        obtain ⟨second, hsecond, hsid2, hfamily2⟩ := hlike two htwo
        rw [← hsid1, ← hsid2, ← hfamily1, ← hfamily2]
        exact h.family first hfirst second hsecond

/-- Tokens, sessions and families that are new to a history. -/
def NewTo (issued : List Issue) (hash sid familyId : String) : Prop :=
  ∀ issue ∈ issued, issue.hash ≠ hash ∧ issue.sid ≠ sid ∧ issue.familyId ≠ familyId

theorem Sound.createSession (h : Sound store issued) {call : Nat}
    (hactive : record.status = .active)
    (hnew : NewTo issued record.refreshTokenHash record.sid record.refreshFamilyId) :
    Sound (createSession store record)
      (issued ++ [⟨record.refreshTokenHash, record.sid, record.refreshFamilyId, call⟩]) := by
  have hnone : store.sessions.get? record.sid = none := by
    refine Option.eq_none_iff_forall_not_mem.mpr fun session hsession => ?_
    obtain ⟨-, -, issue, hissue, -, hsid, -⟩ := h.stored record.sid session hsession
    exact (hnew issue hissue).2.1 hsid
  have hlast : (⟨record.refreshTokenHash, record.sid, record.refreshFamilyId, call⟩ : Issue) ∈
      issued ++ [⟨record.refreshTokenHash, record.sid, record.refreshFamilyId, call⟩] :=
    List.mem_concat_self
  refine ⟨?_, ?_, ?_, ?_, h.byUser.add hnone, h.byTenant.add hnone, ?_, ?_⟩
  · intro key found hfound
    rcases get?_set_eq_some.mp hfound with ⟨rfl, rfl⟩ | ⟨-, hold⟩
    · exact ⟨rfl, hactive, _, hlast, rfl, rfl, rfl⟩
    · obtain ⟨hname, hstatus, issue, hissue, hrest⟩ := h.stored key found hold
      exact ⟨hname, hstatus, issue, List.mem_append_left _ hissue, hrest⟩
  · intro issue hissue
    rcases mem_concat_iff.mp hissue with hold | rfl
    · obtain ⟨lookup, hlookup, hsid⟩ := h.looked issue hold
      exact ⟨lookup, (get?_set_of_ne _ _ (Ne.symm (hnew issue hold).1)).trans hlookup, hsid⟩
    · exact ⟨_, get?_set_self _ _ _, rfl⟩
  · intro hash lookup hlookup
    rcases get?_set_eq_some.mp hlookup with ⟨rfl, -⟩ | ⟨-, hold⟩
    · exact ⟨_, hlast, rfl⟩
    · obtain ⟨issue, hissue, hsame⟩ := h.known hash lookup hold
      exact ⟨issue, List.mem_append_left _ hissue, hsame⟩
  · intro hash lookup hlookup
    rcases get?_set_eq_some.mp hlookup with ⟨rfl, rfl⟩ | ⟨hne, hold⟩
    · exact iff_of_true rfl ⟨record, get?_set_self _ _ _, rfl⟩
    · obtain ⟨issue, hissue, rfl⟩ := h.known hash lookup hold
      have hsid : record.sid ≠ lookup.sid := by
        rw [h.sid_of_lookup hissue hold]
        exact Ne.symm (hnew issue hissue).2.1
      rw [h.active _ lookup hold]
      refine exists_congr fun found => and_congr_left fun _ => ?_
      exact (get?_set_of_ne store.sessions record hsid ▸ Iff.rfl)
  · rw [List.map_append, List.map_singleton, ← List.concat_eq_append]
    refine h.once.concat fun hmem => ?_
    obtain ⟨old, hold, hsame⟩ := List.mem_map.mp hmem
    exact (hnew old hold).1 hsame
  · intro one hone two htwo
    rcases mem_concat_iff.mp hone with hold | hfirst
    · rcases mem_concat_iff.mp htwo with hold' | rfl
      · exact h.family one hold two hold'
      · exact iff_of_false (hnew one hold).2.1 (hnew one hold).2.2
    · rcases mem_concat_iff.mp htwo with hold' | hsecond
      · rw [hfirst]
        exact iff_of_false (Ne.symm (hnew two hold').2.1) (Ne.symm (hnew two hold').2.2)
      · rw [hfirst, hsecond]
        exact iff_of_true rfl rfl

theorem Sound.conflicts (h : Sound store issued) (record : SessionRecord) (prior : Option String)
    (now : Nat) : ((conflicts store record prior now).map SessionRecord.sid).Nodup ∧
      ∀ session ∈ conflicts store record prior now,
        store.sessions.get? session.sid = some session ∧ prior ≠ some session.sid := by
  have hfound : ∀ sid session, (if prior = some sid then none
      else (store.sessions.get? sid).filter fun session =>
        session.tenantId == record.tenantId && isActive session now) = some session →
      store.sessions.get? sid = some session ∧ session.sid = sid ∧ prior ≠ some sid := by
    intro sid session hsession
    split at hsession
    · cases hsession
    · rename_i hprior
      have hstored := (Option.filter_eq_some_iff.mp hsession).1
      exact ⟨hstored, (h.stored sid session hstored).1, hprior⟩
  constructor
  · refine List.Nodup.map_on ?_ ((h.byUser.nodup record.userId).filterMap ?_)
    · intro one hone two htwo hsame
      obtain ⟨sid, -, hsid⟩ := List.mem_filterMap.mp hone
      obtain ⟨sid', -, hsid'⟩ := List.mem_filterMap.mp htwo
      obtain ⟨hstored, hname, -⟩ := hfound sid one hsid
      obtain ⟨hstored', hname', -⟩ := hfound sid' two hsid'
      rw [← hname, hsame, hname', hstored'] at hstored
      exact (Option.some.inj hstored).symm
    · intro sid sid' session hsession hsession'
      exact (hfound sid session hsession).2.1.symm.trans (hfound sid' session hsession').2.1
  · intro session hsession
    obtain ⟨sid, -, hsid⟩ := List.mem_filterMap.mp hsession
    obtain ⟨hstored, rfl, hprior⟩ := hfound sid session hsid
    exact ⟨hstored, hprior⟩

theorem Sound.priorSession (h : Sound store issued)
    (hprior : priorSession store record prior now = some session) :
    prior = some session.sid ∧ store.sessions.get? session.sid = some session := by
  obtain ⟨sid, rfl, hsid⟩ := Option.bind_eq_some_iff.mp hprior
  have hget := (Option.filter_eq_some_iff.mp hsid).1
  obtain rfl := (h.stored sid session hget).1
  exact ⟨rfl, hget⟩

theorem get?_removeSessions (sessions : List SessionRecord) (key : String) :
    (removeSessions store sessions).sessions.get? key =
      if key ∈ sessions.map SessionRecord.sid then none else store.sessions.get? key := by
  induction sessions generalizing store with
  | nil => rfl
  | cons first rest ih =>
    have hrest := @ih (removeSession store first.sid first)
    have hfirst : (removeSession store first.sid first).sessions.get? key =
        if first.sid = key then none else store.sessions.get? key :=
      get?_delete store.sessions first.sid key
    rw [hfirst] at hrest
    rw [removeSessions, List.foldl_cons]
    refine hrest.trans ?_
    rw [List.map_cons]
    by_cases hkey : first.sid = key
    · rw [if_pos hkey, ite_self, if_pos (hkey ▸ List.mem_cons_self)]
    · have hiff : key ∈ first.sid :: rest.map SessionRecord.sid ↔
          key ∈ rest.map SessionRecord.sid :=
        List.mem_cons.trans (or_iff_right (Ne.symm hkey))
      rw [if_neg hkey]
      simp only [hiff]

theorem Sound.removeSessions (h : Sound store issued) {sessions : List SessionRecord}
    (hnodup : (sessions.map SessionRecord.sid).Nodup)
    (hstored : ∀ session ∈ sessions, store.sessions.get? session.sid = some session) :
    Sound (removeSessions store sessions) issued := by
  induction sessions generalizing store with
  | nil => exact h
  | cons first rest ih =>
    rw [List.map_cons, List.nodup_cons] at hnodup
    refine ih (h.removeSession (hstored first (.head _))) hnodup.2 fun session hsession => ?_
    have hne : first.sid ≠ session.sid := fun hsame =>
      hnodup.1 (List.mem_map.mpr ⟨session, hsession, hsame.symm⟩)
    refine (get?_delete store.sessions first.sid session.sid).trans ?_
    rw [if_neg hne]
    exact hstored session (.tail _ hsession)

variable {options : SessionsOptions} {revoked : List SessionRecord}

theorem Sound.createStored_ok (h : Sound store issued)
    (hcreated : createStored options store record prior now = .ok (after, revoked)) :
    (revoked.map SessionRecord.sid).Nodup ∧
      (∀ session ∈ revoked, store.sessions.get? session.sid = some session) ∧
      (options.mode ≠ .off → ∀ session ∈ MemorySessions.conflicts store record prior now,
        session ∈ revoked) ∧
      (∀ sid, prior = some sid → sid ∈ revoked.map SessionRecord.sid) ∧
      after = MemorySessions.createSession (MemorySessions.removeSessions store revoked) record := by
  unfold createStored at hcreated
  split at hcreated
  case isTrue hoff =>
    cases hcreated
    refine ⟨List.nodup_nil, fun session hsession => absurd hsession List.not_mem_nil,
      fun hmode => absurd hoff.1 hmode, fun sid hsid => ?_, rfl⟩
    rw [hoff.2] at hsid
    cases hsid
  case isFalse =>
    simp only [createWithPolicy] at hcreated
    split at hcreated
    case isTrue => cases hcreated
    case isFalse hprior =>
      split at hcreated
      case isTrue => cases hcreated
      case isFalse hconflict =>
        cases hcreated
        obtain ⟨hnodup, hstored⟩ := h.conflicts record prior now
        have hothers : ∀ session ∈ (if options.mode = .revokeExisting then
            MemorySessions.conflicts store record prior now else []),
            session ∈ MemorySessions.conflicts store record prior now := by
          intro session hsession
          split at hsession
          · exact hsession
          · exact absurd hsession List.not_mem_nil
        refine ⟨?_, ?_, ?_, ?_, rfl⟩
        · rw [List.map_append]
          refine List.Nodup.append ?_ ?_ ?_
          · split
            · exact hnodup
            · exact List.nodup_nil
          · cases MemorySessions.priorSession store record prior now with
            | none => exact List.nodup_nil
            | some session => exact List.nodup_singleton _
          · -- the prior session is no conflict
            intro sid hleft hright
            obtain ⟨one, hone, rfl⟩ := List.mem_map.mp hleft
            obtain ⟨two, htwo, hsame⟩ := List.mem_map.mp hright
            have hpriors := h.priorSession (Option.mem_toList.mp htwo)
            exact (hstored one (hothers one hone)).2 (hsame ▸ hpriors.1)
        · intro session hsession
          rcases List.mem_append.mp hsession with hleft | hright
          · exact (hstored session (hothers session hleft)).1
          · exact (h.priorSession (Option.mem_toList.mp hright)).2
        · intro hmode session hsession
          refine List.mem_append_left _ ?_
          cases hkind : options.mode with
          | off => exact absurd hkind hmode
          | revokeExisting => simpa using hsession
          | rejectNew => exact absurd ⟨hkind, List.ne_nil_of_mem hsession⟩ hconflict
        · rintro sid rfl
          cases hfound : MemorySessions.priorSession store record (some sid) now with
          | none =>
            rw [hfound] at hprior
            exact absurd rfl hprior
          | some session =>
            rw [Option.some.inj (h.priorSession hfound).1, List.map_append]
            exact List.mem_concat_self

theorem Sound.created (h : Sound store issued) (call : Nat) (hactive : record.status = .active)
    (hnew : NewTo issued record.refreshTokenHash record.sid record.refreshFamilyId)
    (hcreated : createStored options store record prior now = .ok (after, revoked)) :
    Sound after
      (issued ++ [⟨record.refreshTokenHash, record.sid, record.refreshFamilyId, call⟩]) := by
  obtain ⟨hnodup, hstored, -, -, rfl⟩ := h.createStored_ok hcreated
  exact (h.removeSessions hnodup hstored).createSession hactive hnew

/-- When a creation that waits has started. -/
def Phase.started : Phase → Option Nat
  | .createRead _ _ _ _ now _ => some now
  | .creating _ _ _ _ now => some now
  | _ => none

/-- Creations that wait have started before, or in this step. -/
def Starts (s : Memory) (draw : Draw) (calls : List Phase) : Prop :=
  ∀ phase ∈ calls, ∀ now, phase.started = some now →
    (now = draw.now ∨ now = draw.later) ∨ ∃ old ∈ s.calls, old.started = some now

/-- What a step can do. -/
inductive Effect (options : SessionsOptions) (s : Memory) (act : Act) (draw : Draw) :
    Memory → Prop where
  /-- Sessions are revoked, or nothing changes in the store. -/
  | revoked (t : Memory) (sids : List String) (starts : Starts s draw t.calls)
      (store : t.store = sids.foldl revokeSession s.store) (issued : t.issued = s.issued) :
      Effect options s act draw t
  | touched (index : Nat) (sid : String) (session : SessionRecord) (acts : act = .goOn index)
      (called : s.calls[index]? = some (.touching sid session)) :
      Effect options s act draw (withStore (callTo s index .ended) (touchSession s.store sid
        (idleLimit options draw.now session.expiresAt) draw.now))
  | rotated (index : Nat) (hash : String) (now : Nat) (current : SessionRecord) (store : Store)
      (updated : SessionRecord) (acts : act = .goOn index)
      (called : s.calls[index]? = some (.resolving hash now current))
      (fresh : ∀ issue ∈ s.issued, issue.hash ≠ draw.hash)
      (written : rotateRefreshToken s.store current.sid hash draw.hash
        (idleLimit options now current.expiresAt) now = some (store, updated)) :
      Effect options s act draw { withStore (callTo s index .ended) store with
        issued := s.issued ++ [⟨draw.hash, updated.sid, updated.refreshFamilyId, index⟩] }
  | created (index : Nat) (userId tenantId cognitoSub : String) (prior : Option String) (now : Nat)
      (store : Store) (revoked : List SessionRecord) (acts : act = .goOn index)
      (called : s.calls[index]? = some (.creating userId tenantId cognitoSub prior now))
      (fresh : NewTo s.issued draw.hash draw.sid draw.familyId)
      (written : createStored options s.store
        (newRecord options userId tenantId cognitoSub now draw) prior now = .ok (store, revoked)) :
      Effect options s act draw { withStore (callTo s index .ended) store with
        issued := s.issued ++ [⟨draw.hash, draw.sid, draw.familyId, index⟩] }

variable {options : SessionsOptions} {s t : Memory} {act : Act} {draw : Draw} {index : Nat}
  {phase next : Phase}

section

variable
  (hnext : ∀ now, next.started = some now → (now = draw.now ∨ now = draw.later) ∨ ∃ old ∈ s.calls, old.started = some now)
include hnext

theorem starts_set : Starts s draw (s.calls.set index next) := by
  intro found hfound now hnow
  rcases List.mem_or_eq_of_mem_set hfound with hold | rfl
  · exact .inr ⟨found, hold, hnow⟩
  · exact hnext now hnow

theorem starts_concat : Starts s draw (s.calls ++ [next]) := by
  intro found hfound now hnow
  rcases mem_concat_iff.mp hfound with hold | rfl
  · exact .inr ⟨found, hold, hnow⟩
  · exact hnext now hnow

end

theorem Effect.moved (index : Nat) (next : Phase) (hnext : next.started = none) :
    Effect options s act draw (callTo s index next) := by
  refine .revoked _ [] (starts_set fun now hnow => ?_) rfl rfl
  rw [hnext] at hnow
  cases hnow

theorem Effect.called (next : Phase) (hnext : next.started = none) :
    Effect options s act draw (newCall s next) := by
  refine .revoked _ [] (starts_concat fun now hnow => ?_) rfl rfl
  rw [hnext] at hnow
  cases hnow

theorem Effect.dropped (index : Nat) (sids : List String) :
    Effect options s act draw
      (withStore (callTo s index .ended) (sids.foldl revokeSession s.store)) :=
  .revoked _ sids (starts_set fun now hnow => by cases hnow) rfl rfl

theorem effect_of_callStep (hcall : s.calls[index]? = some phase)
    (h : callStep options s index draw phase = some t) :
    Effect options s (.goOn index) draw t := by
  have hmem := List.mem_of_getElem? hcall
  cases phase with
  | found hash now lookup =>
    cases lookup with
    | none =>
      cases h
      exact .moved index _ rfl
    | some lookup =>
      simp only [callStep] at h
      split at h
      · cases h
        exact .dropped index [lookup.sid]
      · cases h
        exact .moved index _ rfl
  | read hash now current =>
    cases current with
    | none =>
      cases h
      exact .moved index _ rfl
    | some current =>
      simp only [callStep] at h
      split at h <;> cases h
      · exact .moved index _ rfl
      · exact .moved index _ rfl
  | resolving hash now current =>
    simp only [callStep] at h
    split at h
    case isFalse => cases h
    case isTrue hfresh =>
      split at h
      · cases h
        exact .moved index _ rfl
      · rename_i store updated hwritten
        cases h
        refine .rotated index hash now current store updated rfl hcall (fun issue hissue => ?_) hwritten
        exact of_decide_eq_true (List.all_eq_true.mp hfresh issue hissue)
  | getRead sid session touches =>
    cases session with
    | none =>
      cases h
      exact .moved index _ rfl
    | some session =>
      simp only [callStep] at h
      split at h
      · cases h
        cases touches with
        | true => exact .moved index _ rfl
        | false => exact .moved index _ rfl
      · split at h <;> cases h
        · exact .dropped index [sid]
        · exact .moved index _ rfl
  | touching sid session =>
    cases h
    exact .touched index sid session rfl hcall
  | getActiveRead sid session =>
    cases session with
    | none =>
      cases h
      exact .moved index _ rfl
    | some session =>
      simp only [callStep] at h
      split at h <;> cases h
      · exact .dropped index [sid]
      · exact .moved index _ rfl
  | listed sids =>
    cases h
    exact .dropped index sids
  | exchangeRead sid actorUserId newTenantId current =>
    cases current with
    | none =>
      cases h
      exact .moved index _ rfl
    | some current =>
      simp only [callStep] at h
      split at h <;> cases h
      · refine .revoked _ [] (starts_set fun started hstarted => ?_) rfl rfl
        cases hstarted
        exact .inl (.inr rfl)
      · exact .moved index _ rfl
  | createRead userId tenantId cognitoSub prior now found =>
    cases found with
    | none =>
      cases h
      exact .moved index _ rfl
    | some found =>
      simp only [callStep] at h
      split at h <;> cases h
      · refine .revoked _ [] (starts_set fun started hstarted => ?_) rfl rfl
        cases hstarted
        exact .inr ⟨_, hmem, rfl⟩
      · exact .moved index _ rfl
  | creating userId tenantId cognitoSub prior now =>
    simp only [callStep] at h
    split at h
    case isFalse => cases h
    case isTrue hfresh =>
      split at h
      · cases h
        exact .moved index _ rfl
      · rename_i store revoked hwritten
        cases h
        refine .created index userId tenantId cognitoSub prior now store revoked rfl hcall ?_ hwritten
        intro issue hissue
        have hall := List.all_eq_true.mp hfresh issue hissue
        simp only [Bool.and_eq_true, decide_eq_true_eq, ne_eq] at hall
        exact ⟨hall.1.1, hall.1.2, hall.2⟩
  | ended => cases h

theorem effect_of_actStep (h : actStep options s draw act = some t) :
    Effect options s act draw t := by
  cases act with
  | refresh hash =>
    cases h
    exact .called _ rfl
  | touch sid =>
    cases h
    exact .called _ rfl
  | get sid =>
    cases h
    exact .called _ rfl
  | getActive sid =>
    cases h
    exact .called _ rfl
  | revoke sid =>
    cases h
    exact .revoked _ [sid] (starts_concat fun now hnow => by cases hnow) rfl rfl
  | revokeAllForUser userId =>
    cases h
    exact .called _ rfl
  | revokeAllForTenant tenantId =>
    cases h
    exact .called _ rfl
  | create userId tenantId cognitoSub prior =>
    cases prior with
    | none =>
      cases h
      refine .revoked _ [] (starts_concat fun now hnow => ?_) rfl rfl
      cases hnow
      exact .inl (.inl rfl)
    | some sid =>
      cases h
      refine .revoked _ [] (starts_concat fun now hnow => ?_) rfl rfl
      cases hnow
      exact .inl (.inl rfl)
  | exchange sid actorUserId newTenantId =>
    cases h
    exact .called _ rfl
  | goOn index =>
    obtain ⟨phase, hcall, h⟩ := Option.bind_eq_some_iff.mp h
    exact effect_of_callStep hcall h
  | fail index =>
    obtain ⟨phase, -, h⟩ := Option.bind_eq_some_iff.mp h
    cases phase with
    | resolving hash now current =>
      cases h
      exact .moved index _ rfl
    | creating userId tenantId cognitoSub prior now =>
      cases h
      exact .moved index _ rfl
    | _ => cases h

variable {label : Label}

theorem effect_of_step (h : step options s label = some t) :
    ∃ u, Effect options s label.act label.draw u ∧ t = { u with clock := label.draw.later } := by
  obtain ⟨u, hu, rfl⟩ := Option.map_eq_some_iff.mp h
  exact ⟨u, effect_of_actStep hu, rfl⟩

theorem Sound.step (h : Sound s.store s.issued)
    (hstep : MemorySessions.step options s label = some t) : Sound t.store t.issued := by
  obtain ⟨u, heffect, rfl⟩ := effect_of_step hstep
  cases heffect with
  | revoked _ sids _ hstore hissued =>
    simp only [hstore, hissued]
    exact h.revokeSessions sids
  | touched index sid session _ _ => exact h.touchSession sid _ _
  | rotated index hash now current store updated _ _ hfresh hwritten =>
    exact h.rotateRefreshToken _ hwritten hfresh
  | created index userId tenantId cognitoSub prior now store revoked _ _ hfresh hwritten =>
    exact h.created _ rfl hfresh hwritten

theorem sound_of_run {labels : List Label} (h : run (step options) {} labels = some s) :
    Sound s.store s.issued :=
  run_invariant (I := fun s => Sound s.store s.issued) (fun _ _ _ hs hstep => hs.step hstep)
    sound_init h

end Stynx.MemorySessions
