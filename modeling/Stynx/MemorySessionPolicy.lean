import Stynx.MemorySessionLookups

/-!
# The single-session policy in memory

A creation counts the sessions that have expired as gone. A touch or a refresh checks
the deadlines first and extends them after an `await`.
-/

namespace Stynx.MemorySessions

open TransitionRuns SessionRecords OrderedMap

variable {options : SessionsOptions} {s t : Memory} {label : Label}

/-- The clock does not go back. -/
def Steady (s : Memory) (label : Label) : Prop :=
  s.clock ≤ label.draw.now ∧ label.draw.now ≤ label.draw.later

instance decidableSteady (s : Memory) (label : Label) : Decidable (Steady s label) :=
  inferInstanceAs (Decidable (_ ∧ _))

/-- The session whose deadline a call extends with its next step. -/
def Phase.extends : Phase → Option String
  | .touching sid _ => some sid
  | .resolving _ _ current => some current.sid
  | _ => none

/-- A session whose deadline is extended has not expired. -/
def ExtendsActive (s : Memory) (label : Label) : Prop :=
  match label.act with
  | .goOn index => ∀ phase ∈ s.calls[index]?, ∀ sid ∈ phase.extends,
      ∀ session ∈ s.store.sessions.get? sid, isActive session label.draw.now = true
  | _ => True

instance decidableExtendsActive (s : Memory) : ∀ label, Decidable (ExtendsActive s label)
  | ⟨.goOn index, draw⟩ => inferInstanceAs (Decidable (∀ phase ∈ s.calls[index]?,
      ∀ sid ∈ phase.extends, ∀ session ∈ s.store.sessions.get? sid,
        isActive session draw.now = true))
  | ⟨.refresh _, _⟩ => isTrue trivial
  | ⟨.touch _, _⟩ => isTrue trivial
  | ⟨.get _, _⟩ => isTrue trivial
  | ⟨.getActive _, _⟩ => isTrue trivial
  | ⟨.revoke _, _⟩ => isTrue trivial
  | ⟨.revokeAllForUser _, _⟩ => isTrue trivial
  | ⟨.revokeAllForTenant _, _⟩ => isTrue trivial
  | ⟨.create _ _ _ _, _⟩ => isTrue trivial
  | ⟨.exchange _ _ _, _⟩ => isTrue trivial
  | ⟨.fail _, _⟩ => isTrue trivial

def OneActive (store : Store) (now : Nat) : Prop :=
  ∀ sid sid' session session', store.sessions.get? sid = some session →
    store.sessions.get? sid' = some session' → session.userId = session'.userId →
    session.tenantId = session'.tenantId → isActive session now = true →
    isActive session' now = true → sid = sid'

variable {session record : SessionRecord} {now : Nat} {store after : Store} {sid : String}
  {issued : List Issue} {prior : Option String}

theorem isActive_mono {later : Nat} (hle : now ≤ later) (h : isActive session later = true) :
    isActive session now = true := by
  simp only [isActive, Bool.and_eq_true, decide_eq_true_eq] at h ⊢
  exact ⟨⟨h.1.1, Nat.lt_of_le_of_lt hle h.1.2⟩, Nat.lt_of_le_of_lt hle h.2⟩

theorem OneActive.later {later : Nat} (h : OneActive store now) (hle : now ≤ later) :
    OneActive store later :=
  fun sid sid' session session' hsid hsid' huser htenant hactive hactive' =>
    h sid sid' session session' hsid hsid' huser htenant (isActive_mono hle hactive)
      (isActive_mono hle hactive')

theorem OneActive.shrink (h : OneActive store now)
    (hsub : ∀ sid session, after.sessions.get? sid = some session →
      store.sessions.get? sid = some session) : OneActive after now :=
  fun sid sid' session session' hsid hsid' =>
    h sid sid' session session' (hsub sid session hsid) (hsub sid' session' hsid')

theorem OneActive.overwrite {key : String} {old new : SessionRecord} (h : OneActive store now)
    (hafter : after.sessions = store.sessions.set key new)
    (hold : store.sessions.get? key = some old) (hactive : isActive old now = true)
    (huser : new.userId = old.userId) (htenant : new.tenantId = old.tenantId) :
    OneActive after now := by
  -- each session that is stored afterwards stands for one that was stored before
  have hbefore : ∀ sid session, after.sessions.get? sid = some session →
      isActive session now = true → ∃ found, store.sessions.get? sid = some found ∧
        found.userId = session.userId ∧ found.tenantId = session.tenantId ∧
        isActive found now = true := by
    intro sid session hsession hnow
    rw [hafter] at hsession
    rcases get?_set_eq_some.mp hsession with ⟨rfl, rfl⟩ | ⟨-, hget⟩
    · exact ⟨old, hold, huser.symm, htenant.symm, hactive⟩
    · exact ⟨session, hget, rfl, rfl, hnow⟩
  intro sid sid' session session' hsid hsid' hsame hsame' hnow hnow'
  obtain ⟨found, hfound, hu, ht, ha⟩ := hbefore sid session hsid hnow
  obtain ⟨found', hfound', hu', ht', ha'⟩ := hbefore sid' session' hsid' hnow'
  exact h sid sid' found found' hfound hfound' (hu.trans (hsame.trans hu'.symm))
    (ht.trans (hsame'.trans ht'.symm)) ha ha'

theorem get?_of_revokeSessions {sids : List String}
    (h : (sids.foldl revokeSession store).sessions.get? sid = some session) :
    store.sessions.get? sid = some session := by
  induction sids generalizing store with
  | nil => exact h
  | cons first rest ih =>
    have hrest := ih h
    unfold revokeSession at hrest
    split at hrest
    · exact hrest
    · have hdelete := get?_delete store.sessions first sid
      rw [removeSession, hdelete] at hrest
      split at hrest
      · cases hrest
      · exact hrest

theorem Sound.mem_conflicts (h : Sound store issued) (now : Nat)
    (hstored : store.sessions.get? sid = some session) (huser : session.userId = record.userId)
    (htenant : session.tenantId = record.tenantId) (hactive : isActive session now = true)
    (hprior : prior ≠ some sid) : session ∈ MemorySessions.conflicts store record prior now := by
  refine List.mem_filterMap.mpr ⟨sid, (h.byUser.mem _ _).mpr ⟨session, hstored, huser⟩, ?_⟩
  rw [if_neg hprior, hstored, Option.filter_some, htenant, hactive, beq_self_eq_true,
    Bool.and_true, if_pos rfl]

theorem OneActive.created {later : Nat} {revoked : List SessionRecord} (h : OneActive store later)
    (hsound : Sound store issued) (hmode : options.mode ≠ .off) (hnow : now ≤ later)
    (hcreated : createStored options store record prior now = .ok (after, revoked)) :
    OneActive after later := by
  obtain ⟨-, -, hconflicts, hprior, rfl⟩ := hsound.createStored_ok hcreated
  have hothers : ∀ sid session, (removeSessions store revoked).sessions.get? sid = some session →
      store.sessions.get? sid = some session ∧ sid ∉ revoked.map SessionRecord.sid := by
    intro sid session hsession
    rw [get?_removeSessions] at hsession
    split at hsession
    · cases hsession
    · rename_i hnot
      exact ⟨hsession, hnot⟩
  -- an active session of the user in the tenant has been revoked
  have hnone : ∀ sid session, (removeSessions store revoked).sessions.get? sid = some session →
      session.userId = record.userId → session.tenantId = record.tenantId →
      isActive session later ≠ true := by
    intro sid session hsession huser htenant hactive
    obtain ⟨hstored, hnot⟩ := hothers sid session hsession
    have hmem := hsound.mem_conflicts now hstored huser htenant
      (isActive_mono hnow hactive) fun hsame => hnot (hprior sid hsame)
    have hname := (hsound.stored sid session hstored).1
    exact hnot (List.mem_map.mpr ⟨session, hconflicts hmode session hmem, hname⟩)
  intro sid sid' session session' hsid hsid' huser htenant hactive hactive'
  rcases get?_set_eq_some.mp hsid with ⟨rfl, rfl⟩ | ⟨-, hold⟩
  · rcases get?_set_eq_some.mp hsid' with ⟨rfl, rfl⟩ | ⟨-, hold'⟩
    · rfl
    · exact absurd hactive' (hnone sid' session' hold' huser.symm htenant.symm)
  · rcases get?_set_eq_some.mp hsid' with ⟨rfl, rfl⟩ | ⟨-, hold'⟩
    · exact absurd hactive (hnone sid session hold huser htenant)
    · exact h sid sid' session session' (hothers sid session hold).1
        (hothers sid' session' hold').1 huser htenant hactive hactive'

/-- The policy between two steps. -/
structure Guarded (s : Memory) : Prop where
  sound : Sound s.store s.issued
  /-- At most one session of a user in a tenant is active. -/
  one : OneActive s.store s.clock
  /-- Creations that wait have started before. -/
  starts : ∀ phase ∈ s.calls, ∀ now, phase.started = some now → now ≤ s.clock

theorem Guarded.step (h : Guarded s) (hmode : options.mode ≠ .off) (hsteady : Steady s label)
    (hextends : ExtendsActive s label)
    (hstep : MemorySessions.step options s label = some t) : Guarded t := by
  have hsound := h.sound.step hstep
  obtain ⟨u, hu, rfl⟩ := Option.map_eq_some_iff.mp hstep
  obtain ⟨hnow, hlater⟩ := hsteady
  have hclock : s.clock ≤ label.draw.later := Nat.le_trans hnow hlater
  have hone : OneActive s.store label.draw.now := h.one.later hnow
  have hended : ∀ index, ∀ phase ∈ s.calls.set index .ended, ∀ now, phase.started = some now →
      now ≤ label.draw.later := by
    intro index phase hphase now hstarted
    rcases List.mem_or_eq_of_mem_set hphase with hold | rfl
    · exact Nat.le_trans (h.starts phase hold now hstarted) hclock
    · cases hstarted
  -- the call that writes is the one that goes on
  have hactive : ∀ index phase, s.calls[index]? = some phase → label.act = .goOn index →
      ∀ sid, phase.extends = some sid → ∀ session, s.store.sessions.get? sid = some session →
      isActive session label.draw.now = true := by
    intro index phase hcall hact sid hsid session hsession
    rw [ExtendsActive, hact] at hextends
    exact hextends phase hcall sid hsid session hsession
  cases effect_of_actStep hu with
  | revoked _ sids hstarts hstore hissued =>
    refine ⟨hsound, ?_, ?_⟩
    · have hshrink : OneActive u.store label.draw.now := by
        refine hone.shrink fun sid session hsession => ?_
        rw [hstore] at hsession
        exact get?_of_revokeSessions hsession
      exact hshrink.later hlater
    · intro phase hphase now hstarted
      rcases hstarts phase hphase now hstarted with (rfl | rfl) | ⟨old, hold, hbefore⟩
      · exact hlater
      · exact le_rfl
      · exact Nat.le_trans (h.starts old hold now hbefore) hclock
  | touched index sid session hact hcall =>
    refine ⟨hsound, ?_, hended index⟩
    have hwritten : OneActive (touchSession s.store sid
        (idleLimit options label.draw.now session.expiresAt) label.draw.now) label.draw.now := by
      unfold touchSession
      split
      · exact hone
      · rename_i found hfound
        exact hone.overwrite rfl hfound (hactive index _ hcall hact sid rfl found hfound) rfl rfl
    exact hwritten.later hlater
  | rotated index hash now current store updated hact hcall _ hwritten =>
    refine ⟨hsound, ?_, hended index⟩
    have hrotated : OneActive store label.draw.now := by
      unfold rotateRefreshToken at hwritten
      split at hwritten
      case h_2 => cases hwritten
      case h_1 session lookup hstored _ =>
        split at hwritten
        case isFalse => cases hwritten
        case isTrue =>
          cases hwritten
          exact hone.overwrite rfl hstored
            (hactive index _ hcall hact current.sid rfl session hstored) rfl rfl
    exact hrotated.later hlater
  | created index userId tenantId cognitoSub prior now store _ _ hcall _ hwritten =>
    refine ⟨hsound, ?_, hended index⟩
    have hstart := h.starts _ (List.mem_of_getElem? hcall) now rfl
    exact (hone.later hlater).created h.sound hmode (Nat.le_trans hstart hclock) hwritten

/-- With a single-session policy and a clock that does not go back, while no deadline of an expired
session is extended: at any time a user has at most one active session in a tenant. -/
theorem one_active_session (options : SessionsOptions) (hmode : options.mode ≠ .off)
    (labels : List Label) (last : Memory)
    (hsteady : RunMeets (step options) Steady {} labels)
    (hextends : RunMeets (step options) ExtendsActive {} labels)
    (hrun : run (step options) {} labels = some last) :
    ∀ now, last.clock ≤ now → ∀ sid sid' session session',
      last.store.sessions.get? sid = some session →
      last.store.sessions.get? sid' = some session' → session.userId = session'.userId →
      session.tenantId = session'.tenantId → isActive session now = true →
      isActive session' now = true → sid = sid' := by
  have hlast : Guarded last := by
    refine run_invariant_of_meets ?_ ⟨sound_init, ?_, ?_⟩ (runMeets_and hsteady hextends) hrun
    · rintro s label t h ⟨hs, he⟩ hstep
      exact h.step hmode hs he hstep
    · intro sid sid' session session' hsid
      cases hsid
    · exact fun phase hphase => absurd hphase List.not_mem_nil
  exact fun now hnow => hlast.one.later hnow

/-- Options with a policy: a session lives 10 s untouched. -/
def policy (mode : SingleSessionMode) : SessionsOptions := ⟨100, 10, mode⟩

/-- What happens at a time, with new identifiers. -/
def atTime (now : Nat) (act : Act) (name : String) : Label :=
  ⟨act, { now := now, sid := name, hash := name, familyId := name }⟩

/-- A session is created, and its deadline is checked by a touch and by a refresh, call 1. -/
def checksDeadline (act : Act) : List Label :=
  [atTime 0 (.create "user" "tenant" "sub" none) "", atTime 0 (.goOn 0) "s1",
    atTime 9999 act "", atTime 9999 (.goOn 1) "", atTime 9999 (.goOn 1) ""]

/-- Another session is created when the first has expired. -/
def createsAnother : List Label :=
  [atTime 10001 (.create "user" "tenant" "sub" none) "", atTime 10001 (.goOn 2) "s2"]

def activeAfter (mode : SingleSessionMode) (labels : List Label) : Option (List String) :=
  (run (step (policy mode)) {} labels).map fun s =>
    (s.store.sessions.values.filter fun session => isActive session s.clock).map SessionRecord.sid

/-- The touch and the refresh write after the session has expired: both are active. -/
theorem expired_session_comes_back :
    activeAfter .rejectNew (checksDeadline (.refresh "s1") ++ createsAnother ++
      [atTime 10002 (.goOn 1) "h2"]) = some ["s1", "s2"] ∧
    activeAfter .revokeExisting (checksDeadline (.refresh "s1") ++ createsAnother ++
      [atTime 10002 (.goOn 1) "h2"]) = some ["s1", "s2"] ∧
    activeAfter .rejectNew ((checksDeadline (.touch "s1")).dropLast ++ createsAnother ++
      [atTime 10002 (.goOn 1) ""]) = some ["s1", "s2"] ∧
    RunMeets (step (policy .rejectNew)) Steady {} (checksDeadline (.refresh "s1") ++
      createsAnother ++ [atTime 10002 (.goOn 1) "h2"]) := by
  decide

/-- The touch writes before the session expires. -/
def writesInTime : List Label :=
  (checksDeadline (.touch "s1")) ++ createsAnother

theorem one_active_session_run :
    ∃ last, run (step (policy .revokeExisting)) {} writesInTime = some last ∧
      ∀ sid session, last.store.sessions.get? sid = some session → session.userId = "user" →
        session.tenantId = "tenant" → isActive session 10001 = true → sid = "s2" := by
  refine ⟨_, rfl, fun sid session hsession huser htenant hactive => ?_⟩
  exact one_active_session (policy .revokeExisting) (by decide) writesInTime _ (by decide)
    (by decide) rfl 10001 (by decide) sid "s2" session _ hsession rfl huser htenant hactive
    (by decide)

end Stynx.MemorySessions
