import Stynx.MemorySessionLookups

/-!
# Reuse of refresh tokens in memory

A refresh looks its token up when it is called. If the token is no longer the one of
its session, the lookup is used, and the next step of the call revokes the session,
whatever other calls have done to it in between.
-/

namespace Stynx.MemorySessions

open TransitionRuns CallTables SessionRecords OrderedMap

variable {options : SessionsOptions} {s t : Memory} {draw : Draw} {act : Act} {index i : Nat}
  {phase : Phase} {sid : String}

theorem calls_of_callStep (h : callStep options s index draw phase = some t) :
    ∃ next, t.calls = s.calls.set index next := by
  cases phase with
  | found hash now lookup =>
    cases lookup with
    | none =>
      cases h
      exact ⟨_, rfl⟩
    | some lookup =>
      simp only [callStep] at h
      split at h <;> cases h <;> exact ⟨_, rfl⟩
  | read hash now current =>
    cases current with
    | none =>
      cases h
      exact ⟨_, rfl⟩
    | some current =>
      simp only [callStep] at h
      split at h <;> cases h <;> exact ⟨_, rfl⟩
  | resolving hash now current =>
    simp only [callStep] at h
    split at h
    · split at h <;> cases h <;> exact ⟨_, rfl⟩
    · cases h
  | getRead sid session touches =>
    cases session with
    | none =>
      cases h
      exact ⟨_, rfl⟩
    | some session =>
      simp only [callStep] at h
      split at h
      · cases h
        exact ⟨_, rfl⟩
      · split at h <;> cases h <;> exact ⟨_, rfl⟩
  | touching sid session =>
    cases h
    exact ⟨_, rfl⟩
  | getActiveRead sid session =>
    cases session with
    | none =>
      cases h
      exact ⟨_, rfl⟩
    | some session =>
      simp only [callStep] at h
      split at h <;> cases h <;> exact ⟨_, rfl⟩
  | listed sids =>
    cases h
    exact ⟨_, rfl⟩
  | exchangeRead sid actorUserId newTenantId current =>
    cases current with
    | none =>
      cases h
      exact ⟨_, rfl⟩
    | some current =>
      simp only [callStep] at h
      split at h <;> cases h <;> exact ⟨_, rfl⟩
  | createRead userId tenantId cognitoSub prior now found =>
    cases found with
    | none =>
      cases h
      exact ⟨_, rfl⟩
    | some found =>
      simp only [callStep] at h
      split at h <;> cases h <;> exact ⟨_, rfl⟩
  | creating userId tenantId cognitoSub prior now =>
    simp only [callStep] at h
    split at h
    · split at h <;> cases h <;> exact ⟨_, rfl⟩
    · cases h
  | ended => cases h

theorem calls_of_actStep (h : actStep options s draw act = some t) :
    (∃ next, t.calls = s.calls ++ [next]) ∨
      ∃ index next, (act = .goOn index ∨ act = .fail index) ∧ t.calls = s.calls.set index next := by
  cases act with
  | goOn index =>
    obtain ⟨phase, -, h⟩ := Option.bind_eq_some_iff.mp h
    obtain ⟨next, hnext⟩ := calls_of_callStep h
    exact .inr ⟨index, next, .inl rfl, hnext⟩
  | fail index =>
    obtain ⟨phase, -, h⟩ := Option.bind_eq_some_iff.mp h
    cases phase with
    | resolving hash now current =>
      cases h
      exact .inr ⟨index, _, .inr rfl, rfl⟩
    | creating userId tenantId cognitoSub prior now =>
      cases h
      exact .inr ⟨index, _, .inr rfl, rfl⟩
    | _ => cases h
  | create userId tenantId cognitoSub prior =>
    cases prior with
    | none =>
      cases h
      exact .inl ⟨_, rfl⟩
    | some prior =>
      cases h
      exact .inl ⟨_, rfl⟩
  | _ =>
    cases h
    exact .inl ⟨_, rfl⟩

theorem length_calls_of_actStep (h : actStep options s draw act = some t) :
    s.calls.length ≤ t.calls.length := by
  rcases calls_of_actStep h with ⟨next, hcalls⟩ | ⟨index, next, -, hcalls⟩
  · rw [hcalls, List.length_append]
    exact Nat.le_add_right _ _
  · rw [hcalls, List.length_set]

theorem getElem?_calls_of_actStep (h : actStep options s draw act = some t)
    (hi : i < s.calls.length) (hgoes : act ≠ .goOn i) (hfails : act ≠ .fail i) :
    t.calls[i]? = s.calls[i]? := by
  rcases calls_of_actStep h with ⟨next, hcalls⟩ | ⟨index, next, hact, hcalls⟩
  · rw [hcalls, List.getElem?_append_left hi]
  · have hne : index ≠ i := by
      rintro rfl
      rcases hact with rfl | rfl
      · exact hgoes rfl
      · exact hfails rfl
    rw [hcalls, List.getElem?_set_ne hne]

theorem get?_revokeSession {store : Store} (sid key : String) :
    (revokeSession store sid).sessions.get? key =
      if sid = key then none else store.sessions.get? key := by
  unfold revokeSession
  split
  · rename_i hnone
    split
    · rename_i heq
      exact heq ▸ hnone
    · rfl
  · exact get?_delete store.sessions sid key

theorem get?_revokeSessions {store : Store} (sids : List String) {key : String}
    (h : store.sessions.get? key = none) :
    (sids.foldl revokeSession store).sessions.get? key = none := by
  induction sids generalizing store with
  | nil => exact h
  | cons first rest ih =>
    refine ih ?_
    rw [get?_revokeSession, h, ite_self]

theorem gone_of_effect (h : Sound s.store s.issued) (heffect : Effect options s act draw t)
    {issue : Issue} (hissue : issue ∈ s.issued)
    (hgone : s.store.sessions.get? issue.sid = none) :
    t.store.sessions.get? issue.sid = none := by
  cases heffect with
  | revoked _ sids _ hstore _ =>
    rw [hstore]
    exact get?_revokeSessions sids hgone
  | touched index key session _ _ =>
    simp only [withStore, touchSession]
    split
    · exact hgone
    · rename_i found hfound
      refine (get?_set_of_ne _ _ ?_).trans hgone
      rintro rfl
      rw [hgone] at hfound
      cases hfound
  | rotated index hash now current store updated _ _ _ hwritten =>
    unfold rotateRefreshToken at hwritten
    split at hwritten
    case h_2 => cases hwritten
    case h_1 session lookup hstored _ =>
      split at hwritten
      case isFalse => cases hwritten
      case isTrue =>
        cases hwritten
        refine (get?_set_of_ne _ _ ?_).trans hgone
        intro heq
        rw [heq, hgone] at hstored
        cases hstored
  | created index userId tenantId cognitoSub prior now store revoked _ _ hfresh hwritten =>
    obtain ⟨-, -, -, -, rfl⟩ := h.createStored_ok hwritten
    refine (get?_set_of_ne _ _ (Ne.symm (hfresh issue hissue).2.1)).trans ?_
    rw [get?_removeSessions, hgone, ite_self]

/-- A call has found its token used: it has yet to revoke the session, or the session is gone. -/
structure Doomed (i : Nat) (issue : Issue) (s : Memory) : Prop where
  issued : issue ∈ s.issued
  mintless : ∀ other ∈ s.issued, other.call ≠ i
  call : (∃ now lookup, s.calls[i]? = some (.found issue.hash now (some lookup)) ∧
      lookup.sid = issue.sid ∧ lookup.state = .used) ∨
    s.calls[i]? = some .ended ∧ s.store.sessions.get? issue.sid = none

theorem callStep_used {hash : String} {now : Nat} {lookup : RefreshTokenLookup}
    (hused : lookup.state = .used) :
    callStep options s index draw (.found hash now (some lookup)) =
      some (withStore (callTo s index .ended) (revokeSession s.store lookup.sid)) := by
  simp only [callStep, hused]

theorem Doomed.step {issue : Issue} (h : Doomed i issue s) (hsound : Sound s.store s.issued)
    {label : Label} (hstep : MemorySessions.step options s label = some t) :
    Doomed i issue t := by
  obtain ⟨u, hu, rfl⟩ := Option.map_eq_some_iff.mp hstep
  have heffect := effect_of_actStep hu
  -- the call is not at a step that mints
  have hnot : ∀ {index phase}, s.calls[index]? = some phase →
      (∃ hash now current, phase = .resolving hash now current) ∨
        (∃ userId tenantId cognitoSub prior now,
          phase = .creating userId tenantId cognitoSub prior now) → index ≠ i := by
    rintro index phase hcall hmints rfl
    rcases h.call with ⟨now, lookup, hfound, -, -⟩ | ⟨hended, -⟩
    · rw [hcall] at hfound
      cases hfound
      rcases hmints with ⟨_, _, _, hphase⟩ | ⟨_, _, _, _, _, hphase⟩ <;> cases hphase
    · rw [hcall] at hended
      cases hended
      rcases hmints with ⟨_, _, _, hphase⟩ | ⟨_, _, _, _, _, hphase⟩ <;> cases hphase
  have hissued : issue ∈ u.issued ∧ ∀ other ∈ u.issued, other.call ≠ i := by
    cases heffect with
    | revoked _ sids _ _ hissued =>
      rw [hissued]
      exact ⟨h.issued, h.mintless⟩
    | touched index key session _ _ => exact ⟨h.issued, h.mintless⟩
    | rotated index hash now current store updated _ hcall _ _ =>
      refine ⟨List.mem_append_left _ h.issued, fun other hother => ?_⟩
      rcases mem_concat_iff.mp hother with hold | rfl
      · exact h.mintless other hold
      · exact hnot hcall (.inl ⟨_, _, _, rfl⟩)
    | created index userId tenantId cognitoSub prior now store _ _ hcall _ _ =>
      refine ⟨List.mem_append_left _ h.issued, fun other hother => ?_⟩
      rcases mem_concat_iff.mp hother with hold | rfl
      · exact h.mintless other hold
      · exact hnot hcall (.inr ⟨_, _, _, _, _, rfl⟩)
  refine ⟨hissued.1, hissued.2, ?_⟩
  rcases h.call with ⟨now, lookup, hfound, hsid, hused⟩ | ⟨hended, hgone⟩
  · have hi := (List.getElem?_eq_some_iff.mp hfound).1
    by_cases hgoes : label.act = .goOn i
    · -- the call goes on: the session is revoked
      rw [hgoes] at hu
      obtain ⟨phase, hcall, hu⟩ := Option.bind_eq_some_iff.mp hu
      rw [hfound] at hcall
      cases hcall
      rw [callStep_used hused] at hu
      cases hu
      refine .inr ⟨List.getElem?_set_self hi, ?_⟩
      simp only [withStore]
      rw [get?_revokeSession, if_pos hsid]
    · have hfails : label.act ≠ .fail i := by
        intro hact
        rw [hact] at hu
        obtain ⟨phase, hcall, hu⟩ := Option.bind_eq_some_iff.mp hu
        rw [hfound] at hcall
        cases hcall
        cases hu
      exact .inl ⟨now, lookup, (getElem?_calls_of_actStep hu hi hgoes hfails).trans hfound, hsid,
        hused⟩
  · have hi := (List.getElem?_eq_some_iff.mp hended).1
    have hstays : label.act ≠ .goOn i ∧ label.act ≠ .fail i := by
      constructor <;> intro hact <;> rw [hact] at hu <;>
        obtain ⟨phase, hcall, hu⟩ := Option.bind_eq_some_iff.mp hu <;>
        rw [hended] at hcall <;> cases hcall <;> cases hu
    exact .inr ⟨(getElem?_calls_of_actStep hu hi hstays.1 hstays.2).trans hended,
      gone_of_effect hsound heffect h.issued hgone⟩

theorem call_lt_of_run {labels : List Label} (h : run (step options) {} labels = some s) :
    ∀ issue ∈ s.issued, issue.call < s.calls.length := by
  refine run_invariant (I := fun s => ∀ issue ∈ s.issued, issue.call < s.calls.length) ?_
    (fun issue hissue => absurd hissue List.not_mem_nil) h
  intro s label t hs hstep issue hissue
  obtain ⟨u, hu, rfl⟩ := Option.map_eq_some_iff.mp hstep
  have hle := length_calls_of_actStep hu
  have hold : ∀ issue ∈ s.issued, issue.call < u.calls.length := fun issue hissue =>
    Nat.lt_of_lt_of_le (hs issue hissue) hle
  cases effect_of_actStep hu with
  | revoked _ sids _ _ hissued => exact hold issue (hissued ▸ hissue)
  | touched index key session _ _ => exact hold issue hissue
  | rotated index hash now current store updated _ hcall _ _ =>
    rcases mem_concat_iff.mp hissue with hbefore | rfl
    · exact hold issue hbefore
    · exact Nat.lt_of_lt_of_le (List.getElem?_eq_some_iff.mp hcall).1 hle
  | created index userId tenantId cognitoSub prior now store _ _ hcall _ _ =>
    rcases mem_concat_iff.mp hissue with hbefore | rfl
    · exact hold issue hbefore
    · exact Nat.lt_of_lt_of_le (List.getElem?_eq_some_iff.mp hcall).1 hle

theorem doomed_of_refresh (hsound : Sound s.store s.issued)
    (hcalls : ∀ issue ∈ s.issued, issue.call < s.calls.length) {issue : Issue}
    (hissue : issue ∈ s.issued) (hstale : ∀ record, s.store.sessions.get? issue.sid = some record →
      record.refreshTokenHash ≠ issue.hash)
    (hstep : step options s ⟨.refresh issue.hash, draw⟩ = some t) :
    Doomed s.calls.length issue t := by
  obtain ⟨lookup, hlookup, hsid⟩ := hsound.looked issue hissue
  have hused : lookup.state = .used := by
    cases hstate : lookup.state with
    | used => rfl
    | active =>
      obtain ⟨record, hrecord, hsame⟩ := (hsound.active _ lookup hlookup).mp hstate
      exact absurd hsame (hstale record (hsid ▸ hrecord))
  cases hstep
  refine ⟨hissue, fun other hother => Nat.ne_of_lt (hcalls other hother), .inl ?_⟩
  refine ⟨draw.now, lookup, ?_, hsid, hused⟩
  rw [← hlookup]
  exact List.getElem?_concat_length

/-- In every state of every run: a lookup is active exactly while a stored session has its token;
the indices have exactly the stored sessions; and when a token that was issued and is not that of
its session is presented, the call mints nothing, and it has ended with no session of the family
stored, or its next step ends it. -/
theorem lookups_follow_sessions (options : SessionsOptions) (labels : List Label) (s : Memory)
    (hrun : run (step options) {} labels = some s) :
    (∀ hash, (∃ lookup, s.store.refreshLookups.get? hash = some lookup ∧ lookup.state = .active) ↔
      ∃ sid record, s.store.sessions.get? sid = some record ∧ record.refreshTokenHash = hash) ∧
    (∀ userId sid, sid ∈ bucket s.store.sessionsByUser userId ↔
      ∃ record, s.store.sessions.get? sid = some record ∧ record.userId = userId) ∧
    (∀ tenantId sid, sid ∈ bucket s.store.sessionsByTenant tenantId ↔
      ∃ record, s.store.sessions.get? sid = some record ∧ record.tenantId = tenantId) ∧
    ∀ issue ∈ s.issued, (∀ record, s.store.sessions.get? issue.sid = some record →
      record.refreshTokenHash ≠ issue.hash) →
      ∀ draw after t, run (step options) s (⟨.refresh issue.hash, draw⟩ :: after) = some t →
        (∀ other ∈ t.issued, other.call ≠ s.calls.length) ∧
        (t.calls[s.calls.length]? = some .ended ∧ (∀ sid record,
            t.store.sessions.get? sid = some record →
            record.refreshFamilyId ≠ issue.familyId) ∨
          ∀ draw, ∃ u, step options t ⟨.goOn s.calls.length, draw⟩ = some u ∧
            u.calls[s.calls.length]? = some .ended) := by
  have hsound := sound_of_run hrun
  refine ⟨fun hash => ⟨?_, ?_⟩, hsound.byUser.mem, hsound.byTenant.mem, ?_⟩
  · rintro ⟨lookup, hlookup, hactive⟩
    exact ⟨lookup.sid, (hsound.active hash lookup hlookup).mp hactive⟩
  · rintro ⟨sid, record, hrecord, rfl⟩
    obtain ⟨lookup, hlookup, -, hactive⟩ := hsound.lookup_of_stored hrecord
    exact ⟨lookup, hlookup, hactive⟩
  · intro issue hissue hstale draw after t hafter
    obtain ⟨m, hm, hrest⟩ := run_cons_eq_some.mp hafter
    have hfirst := doomed_of_refresh hsound (call_lt_of_run hrun) hissue hstale hm
    obtain ⟨hlast, hdoomed⟩ : Sound t.store t.issued ∧ Doomed s.calls.length issue t := by
      refine run_invariant
        (I := fun u => Sound u.store u.issued ∧ Doomed s.calls.length issue u) ?_
        ⟨hsound.step hm, hfirst⟩ hrest
      rintro u label v ⟨hu, hdoomed⟩ hstep
      exact ⟨hu.step hstep, hdoomed.step hu hstep⟩
    refine ⟨hdoomed.mintless, ?_⟩
    rcases hdoomed.call with ⟨now, lookup, hfound, -, hused⟩ | ⟨hended, hgone⟩
    · refine .inr fun draw => ?_
      have hi := (List.getElem?_eq_some_iff.mp hfound).1
      refine ⟨{ withStore (callTo t s.calls.length .ended) (revokeSession t.store lookup.sid) with
        clock := draw.later }, ?_, List.getElem?_set_self hi⟩
      simp only [step, actStep, hfound, Option.bind_some, callStep_used hused, Option.map_some]
    · refine .inl ⟨hended, fun sid record hrecord hfamily => ?_⟩
      obtain ⟨-, -, other, hother, -, hsid, hsame⟩ := hlast.stored sid record hrecord
      have hone := (hlast.family other hother issue hdoomed.issued).mpr (hsame.trans hfamily)
      rw [← hsid, hone, hgone] at hrecord
      cases hrecord

/-- Options without a single-session policy. -/
def plain : SessionsOptions := ⟨100, 10, .off⟩

/-- What happens at a time. -/
def at1 (act : Act) (hash : String) : Label := ⟨act, { now := 1, hash := hash }⟩

/-- A session is created, and its token is exchanged. -/
def exchangesOne : List Label :=
  [⟨.create "user" "tenant" "sub" none, { now := 0 }⟩,
    ⟨.goOn 0, { now := 0, sid := "s1", hash := "h1", familyId := "f1" }⟩,
    at1 (.refresh "h1") "", at1 (.goOn 1) "", at1 (.goOn 1) "", at1 (.goOn 1) "h2"]

/-- The exchanged token is presented while a refresh with the new one is under way. -/
def presentsUsed : List Label :=
  [at1 (.goOn 2) "", at1 (.goOn 2) "", at1 (.goOn 2) "h3", at1 (.goOn 3) ""]

/-- The token that is presented, and how the run goes on. -/
theorem lookups_follow_sessions_run :
    ∃ s t, run (step plain) {} (exchangesOne ++ [at1 (.refresh "h2") ""]) = some s ∧
      run (step plain) s (at1 (.refresh "h1") "" :: presentsUsed) = some t ∧
      t.issued.map Issue.hash = ["h1", "h2", "h3"] ∧ ∀ other ∈ t.issued, other.call ≠ 3 := by
  refine ⟨_, _, rfl, rfl, rfl, ?_⟩
  refine ((lookups_follow_sessions plain (exchangesOne ++ [at1 (.refresh "h2") ""]) _ rfl).2.2.2
    ⟨"h1", "s1", "f1", 0⟩ (.head _) ?_ { now := 1, hash := "" } presentsUsed _ rfl).1
  intro record hrecord
  cases hrecord
  decide

end Stynx.MemorySessions
