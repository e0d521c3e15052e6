import Stynx.RedisSessionSteps

/-!
# Refresh tokens in Redis

A rotation writes what its reads allowed, and a touch writes back the whole record
that it has read.
-/

namespace Stynx.RedisSessions

open TransitionRuns CallTables SessionRecords OrderedMap

variable {options : SessionsOptions} {s t : Sessions} {label : Label} {sid : String}

/-- A rotation rests on an active token, a touch on the token that it has read. -/
def Phase.holds (store : Store) : Phase → Bool
  | .rotateExec hash _ _ _ _ =>
    (store.refresh.get? hash).any fun lookup => lookup.state = .active
  | .touchExec sid _ _ current =>
    (store.sessions.get? sid).all fun record =>
      record.refreshTokenHash = current.refreshTokenHash
  | _ => true

/-- What the next write rests on still holds. -/
def ReadsHold (s : Sessions) : Label → Prop
  | .command index _ => ∀ phase ∈ s.calls[index]?, phase.holds s.store = true
  | _ => True

instance decidableReadsHold (s : Sessions) : ∀ label, Decidable (ReadsHold s label)
  | .command index _ =>
    inferInstanceAs (Decidable (∀ phase ∈ s.calls[index]?, phase.holds s.store = true))
  | .refresh _ _ => isTrue trivial
  | .touch _ => isTrue trivial
  | .revoke _ => isTrue trivial
  | .create _ _ _ _ _ => isTrue trivial
  | .exchange _ _ _ => isTrue trivial
  | .fail _ => isTrue trivial
  | .lapse _ => isTrue trivial

def latest (s : Sessions) (sid : String) : Option String :=
  (s.issued.filter (·.2 = sid)).getLast?.map Prod.fst

def PresentsLatest (sid : String) (s : Sessions) : Label → Prop
  | .refresh hash _ => (hash, sid) ∈ s.issued →
      latest s sid = some hash ∧ ∀ phase ∈ s.calls, ∀ other ∈ phase.presents,
        (other, sid) ∉ s.issued
  | _ => True

instance decidablePresentsLatest (sid : String) (s : Sessions) :
    ∀ label, Decidable (PresentsLatest sid s label)
  | .refresh hash _ =>
    inferInstanceAs (Decidable ((hash, sid) ∈ s.issued →
      latest s sid = some hash ∧ ∀ phase ∈ s.calls, ∀ other ∈ phase.presents,
        (other, sid) ∉ s.issued))
  | .touch _ => isTrue trivial
  | .revoke _ => isTrue trivial
  | .create _ _ _ _ _ => isTrue trivial
  | .exchange _ _ _ => isTrue trivial
  | .command _ _ => isTrue trivial
  | .fail _ => isTrue trivial
  | .lapse _ => isTrue trivial

def Alive (store : Store) : Prop :=
  ∀ hash lookup, store.refresh.get? hash = some lookup → lookup.sid ∉ store.lapsed

section

variable {store : Store} {record : SessionRecord}

section

variable (h : Alive store)
include h

theorem Alive.setLookup (hash : String) (lookup : RefreshTokenLookup) :
    Alive (setLookup store hash lookup) := by
  unfold RedisSessions.setLookup
  split
  · exact h
  · rename_i hlookup
    intro key found hfound
    rcases get?_set_eq_some.mp hfound with ⟨-, rfl⟩ | ⟨-, hold⟩
    · exact hlookup
    · exact h key found hold

theorem Alive.setSession (key : String) (record : SessionRecord) :
    Alive (setSession store key record) := by
  intro hash lookup hfound
  rw [refresh_setSession] at hfound
  rw [lapsed_setSession]
  exact h hash lookup hfound

theorem Alive.dropSession (key : String) (record : SessionRecord) :
    Alive (dropSession store key record) := by
  unfold RedisSessions.dropSession
  refine Alive.setLookup ?_ _ _
  exact h

theorem Alive.dropSessions (records : List SessionRecord) : Alive (dropSessions store records) := by
  induction records generalizing store with
  | nil => exact h
  | cons first rest ih => exact ih (h.dropSession first.sid first)

theorem Alive.addSession (record : SessionRecord) : Alive (addSession store record) := by
  unfold RedisSessions.addSession
  refine Alive.setLookup (Alive.setSession ?_ _ _) _ _
  exact h

theorem Alive.lapse (key : String) : Alive (lapse store key) := by
  intro hash lookup hfound hlapsed
  obtain ⟨hold, hne⟩ := get?_filter_eq_some.mp hfound
  rcases mem_concat_iff.mp hlapsed with hbefore | hnew
  · exact h hash lookup hold hbefore
  · exact of_decide_eq_true hne hnew

end

end

theorem Alive.step (h : Alive s.store) (hstep : RedisSessions.step options s label = some t) :
    Alive t.store := by
  cases effect_of_step hstep with
  | rotated _ _ _ _ _ _ _ _ _ => exact ((h.setSession _ _).setLookup _ _).setLookup _ _
  | touched _ _ _ _ _ _ _ => exact h.setSession _ _
  | dropped _ _ _ _ _ _ => exact h.dropSession _ _
  | created _ _ record revoked _ _ _ _ => exact (h.dropSessions revoked).addSession record
  | lapsed key => exact h.lapse key
  | refreshed _ _ | started _ _ _ _ _ | moved _ _ _ _ _ _ | looked _ _ _ _ _ _ _
  | reused _ _ _ _ _ _ _ _ | checked _ _ _ _ _ _ _ _ _ | fetched _ _ _ _ _ _ _
  | verified _ _ _ _ _ _ _ _ _ | doomed _ _ _ _ _ _ _ | refused _ _ _ _ _ _ _ _ =>
    exact h

variable {hash : String} {current : SessionRecord} {index : Nat}

theorem refresh_rotate_self {store : Store} {next : String} {idleExpiresAt touchedAt : Nat}
    (hsid : sid ∉ store.lapsed) (hne : next ≠ hash) :
    (rotate store sid hash next idleExpiresAt touchedAt current).refresh.get? hash =
      some ⟨sid, current.refreshFamilyId, .used⟩ := by
  rw [rotate, get?_setLookup_of_ne hne]
  refine get?_setLookup_self ?_
  rw [lapsed_setSession]
  exact hsid

/-- Tokens are exchanged once, and what has been exchanged is used. -/
structure Spent (s : Sessions) : Prop where
  /-- Exchanged tokens are different. -/
  once : (s.exchanges.map Prod.fst).Nodup
  used : ∀ pair ∈ s.exchanges, ∀ lookup, s.store.refresh.get? pair.1 = some lookup →
    lookup.state = .used

theorem Spent.step (h : Spent s) (hkept : Kept s) (halive : Alive s.store)
    (hholds : ReadsHold s label) (hstep : RedisSessions.step options s label = some t) :
    Spent t := by
  have hseen : ∀ pair ∈ s.exchanges, pair.1 ∈ s.seen := fun pair hpair =>
    hkept.seenIssued pair (hkept.exchanged pair hpair)
  cases effect_of_step hstep with
  | rotated index draw hash key now idleExpiresAt current hcall hfresh =>
    have htoken := hkept.token index _ (hash, key) hcall rfl
    obtain ⟨lookup, hlookup, hactive⟩ := (Option.any_eq_true _ _).mp (hholds _ hcall)
    have hsame : lookup.sid = key := hkept.sid_unique (hkept.looked hash lookup hlookup) htoken
    have hkey : key ∉ s.store.lapsed := hsame ▸ halive hash lookup hlookup
    constructor
    · -- the token is active, so it has not been exchanged
      rw [List.map_append, List.map_singleton, ← List.concat_eq_append]
      refine h.once.concat fun hmem => ?_
      obtain ⟨pair, hpair, rfl⟩ := List.mem_map.mp hmem
      have hused := h.used pair hpair lookup hlookup
      rw [of_decide_eq_true hactive] at hused
      cases hused
    · intro pair hpair found hfound
      rcases mem_concat_iff.mp hpair with hold | rfl
      · rcases refresh_rotate hfound with ⟨heq, -⟩ | ⟨-, -, hused⟩ | hbefore
        · exact absurd (heq ▸ hseen pair hold) hfresh
        · exact hused
        · exact h.used pair hold found hbefore
      · have hne : draw.hash ≠ hash := by
          rintro heq
          exact hfresh (heq ▸ hkept.seenIssued _ htoken)
        rw [refresh_rotate_self hkey hne] at hfound
        cases hfound
        rfl
  | dropped index draw key reuse current _ =>
    have hexchanges : (endRevoke s index reuse).exchanges = s.exchanges := by cases reuse <;> rfl
    refine ⟨hexchanges ▸ h.once, fun pair hpair lookup hfound => ?_⟩
    rcases refresh_dropSession hfound with ⟨-, -, hused⟩ | hold
    · exact hused
    · exact h.used pair (hexchanges ▸ hpair) lookup hold
  | created index draw record revoked hown _ hfresh _ =>
    refine ⟨h.once, fun pair hpair lookup hfound => ?_⟩
    rcases refresh_addSession hfound with ⟨heq, -⟩ | hold
    · rw [hown.2.1] at heq
      exact absurd (heq ▸ hseen pair hpair) hfresh
    · rcases refresh_dropSessions hold with ⟨other, -, -, -, hused⟩ | hbefore
      · exact hused
      · exact h.used pair hpair lookup hbefore
  | touched index draw key idleExpiresAt touchedAt current _ =>
    refine ⟨h.once, fun pair hpair lookup hfound => ?_⟩
    rw [touch, refresh_setSession] at hfound
    exact h.used pair hpair lookup hfound
  | lapsed key =>
    refine ⟨h.once, fun pair hpair lookup hfound => ?_⟩
    exact h.used pair hpair lookup (get?_filter_eq_some.mp hfound).1
  | refreshed _ _ | started _ _ _ _ _ | moved _ _ _ _ _ _ | looked _ _ _ _ _ _ _
  | reused _ _ _ _ _ _ _ _ | checked _ _ _ _ _ _ _ _ _ | fetched _ _ _ _ _ _ _
  | verified _ _ _ _ _ _ _ _ _ | doomed _ _ _ _ _ _ _ | refused _ _ _ _ _ _ _ _ =>
    exact ⟨h.once, h.used⟩

/-- A refresh with the latest token of a session has found nothing that stops it. -/
def Phase.unhindered : Phase → Bool
  | .rotateLookup hash _ _ _ current => current.any fun record => record.refreshTokenHash = hash
  | .revokeRead _ _ => false
  | .revokeExec _ _ _ => false
  | _ => true

/-- A session serves its latest token. -/
structure Serves (sid : String) (s : Sessions) : Prop where
  /-- The session is stored with its latest token. -/
  stored : ∀ hash, latest s sid = some hash → ∃ record,
    s.store.sessions.get? sid = some record ∧ record.refreshTokenHash = hash
  active : ∀ hash, latest s sid = some hash → ∃ lookup,
    s.store.refresh.get? hash = some lookup ∧ lookup.state = .active
  /-- A call that presents a token of the session presents the latest, and nothing stops it. -/
  presented : ∀ (i : Nat) phase hash, s.calls[i]? = some phase → phase.presents = some hash →
    (hash, sid) ∈ s.issued → latest s sid = some hash ∧ phase.unhindered = true
  /-- No other call presents it. -/
  alone : ∀ (i j : Nat) one two hash, s.calls[i]? = some one → s.calls[j]? = some two →
    one.presents = some hash → two.presents = some hash → (hash, sid) ∈ s.issued → i = j
  /-- Tokens of the session are refused only since it has expired. -/
  refused : ∀ hash reason, (hash, reason) ∈ s.refusals → (hash, sid) ∈ s.issued → reason = .expired

theorem serves_init : Serves sid {} where
  stored hash h := by cases h
  active hash h := by cases h
  presented i phase hash h := by cases h
  alone i j one two hash h := by cases h
  refused hash reason h := by cases h

theorem latest_mem (h : latest s sid = some hash) : (hash, sid) ∈ s.issued := by
  obtain ⟨pair, hpair, rfl⟩ := Option.map_eq_some_iff.mp h
  obtain ⟨hmem, hsid⟩ := List.mem_filter.mp (List.mem_of_getLast? hpair)
  rw [← of_decide_eq_true hsid]
  exact hmem

theorem latest_concat (h : t.issued = s.issued ++ [(hash, sid)]) : latest t sid = some hash := by
  rw [latest, h, List.filter_append, List.filter_singleton]
  simp

section

variable (h : Serves sid s)
include h

theorem Serves.callTo {next : Phase}
    (hnext : ∀ hash, next.presents = some hash → (hash, sid) ∈ s.issued → next.unhindered = true ∧ ∃ phase, s.calls[index]? = some phase ∧ phase.presents = some hash) :
    Serves sid (callTo s index next) := by
  -- who presents a token of the session afterwards presented it before
  have hbefore : ∀ (i : Nat) phase hash, (s.calls.set index next)[i]? = some phase →
      phase.presents = some hash → (hash, sid) ∈ s.issued → ∃ found, s.calls[i]? = some found ∧
        found.presents = some hash ∧ (found.unhindered = true → phase.unhindered = true) := by
    intro i phase hash hcall hpresents hissued
    rcases getElem?_set_cases hcall with ⟨rfl, rfl⟩ | ⟨-, hold⟩
    · obtain ⟨hunhindered, found, hfound, hsame⟩ := hnext hash hpresents hissued
      exact ⟨found, hfound, hsame, fun _ => hunhindered⟩
    · exact ⟨phase, hold, hpresents, id⟩
  refine ⟨h.stored, h.active, ?_, ?_, h.refused⟩
  · intro i phase hash hcall hpresents hissued
    obtain ⟨found, hfound, hsame, hkeeps⟩ := hbefore i phase hash hcall hpresents hissued
    obtain ⟨hlatest, hunhindered⟩ := h.presented i found hash hfound hsame hissued
    exact ⟨hlatest, hkeeps hunhindered⟩
  · intro i j one two hash hi hj hone htwo hissued
    obtain ⟨first, hfirst, hsame, -⟩ := hbefore i one hash hi hone hissued
    obtain ⟨second, hsecond, hsame', -⟩ := hbefore j two hash hj htwo hissued
    exact h.alone i j first second hash hfirst hsecond hsame hsame' hissued

theorem Serves.ended (index : Nat) : Serves sid (RedisSessions.callTo s index .ended) :=
  h.callTo fun hash hpresents => by cases hpresents

theorem Serves.frame
    (hsessions : ∀ record, s.store.sessions.get? sid = some record → ∃ found, t.store.sessions.get? sid = some found ∧ found.refreshTokenHash = record.refreshTokenHash)
    (hrefresh : ∀ hash, (hash, sid) ∈ s.issued → t.store.refresh.get? hash = s.store.refresh.get? hash)
    (hissued : t.issued.filter (·.2 = sid) = s.issued.filter (·.2 = sid))
    (hcalls : t.calls = s.calls) (hrefusals : t.refusals = s.refusals) : Serves sid t := by
  have hlatest : latest t sid = latest s sid := by rw [latest, latest, hissued]
  have hmem : ∀ hash, (hash, sid) ∈ t.issued → (hash, sid) ∈ s.issued := by
    intro hash hhash
    have hfilter : (hash, sid) ∈ t.issued.filter (·.2 = sid) :=
      List.mem_filter.mpr ⟨hhash, decide_eq_true rfl⟩
    rw [hissued] at hfilter
    exact (List.mem_filter.mp hfilter).1
  refine ⟨fun hash hhash => ?_, fun hash hhash => ?_, ?_, ?_, ?_⟩
  · obtain ⟨record, hrecord, rfl⟩ := h.stored hash (hlatest ▸ hhash)
    exact hsessions record hrecord
  · rw [hlatest] at hhash
    rw [hrefresh hash (latest_mem hhash)]
    exact h.active hash hhash
  · intro i phase hash hcall hpresents hhash
    rw [hlatest]
    exact h.presented i phase hash (hcalls ▸ hcall) hpresents (hmem hash hhash)
  · intro i j one two hash hi hj hone htwo hhash
    exact h.alone i j one two hash (hcalls ▸ hi) (hcalls ▸ hj) hone htwo (hmem hash hhash)
  · intro hash reason hrefused hhash
    exact h.refused hash reason (hrefusals ▸ hrefused) (hmem hash hhash)

theorem Serves.issued (hkept : Kept s) (hfresh : hash ∉ s.seen)
    (hissued : t.issued = s.issued ++ [(hash, sid)]) (hrefusals : t.refusals = s.refusals)
    (hsubset : ∀ (i : Nat) phase, t.calls[i]? = some phase → phase ≠ .ended → s.calls[i]? = some phase)
    (hnone : ∀ (i : Nat) phase other, t.calls[i]? = some phase → phase.presents = some other → (other, sid) ∉ s.issued)
    (hstored : ∃ record, t.store.sessions.get? sid = some record ∧ record.refreshTokenHash = hash)
    (hactive : ∃ lookup, t.store.refresh.get? hash = some lookup ∧ lookup.state = .active) :
    Serves sid t := by
  have hlatest := latest_concat hissued
  have hsplit : ∀ other, (other, sid) ∈ t.issued → (other, sid) ∈ s.issued ∨ other = hash := by
    intro other hother
    rw [hissued] at hother
    rcases mem_concat_iff.mp hother with hold | hnew
    · exact .inl hold
    · exact .inr (congrArg Prod.fst hnew)
  have hnobody : ∀ (i : Nat) phase other, t.calls[i]? = some phase →
      phase.presents = some other → (other, sid) ∉ t.issued := by
    intro i phase other hcall hpresents hother
    rcases hsplit other hother with hold | rfl
    · exact hnone i phase other hcall hpresents hold
    · have hne : phase ≠ .ended := by
        rintro rfl
        cases hpresents
      exact hfresh (hkept.seenPresented i phase other (hsubset i phase hcall hne) hpresents)
  refine ⟨fun other hother => ?_, fun other hother => ?_, ?_, ?_, ?_⟩
  · rw [hlatest] at hother
    cases hother
    exact hstored
  · rw [hlatest] at hother
    cases hother
    exact hactive
  · intro i phase other hcall hpresents hother
    exact absurd hother (hnobody i phase other hcall hpresents)
  · intro i j one two other hi hj hone htwo hother
    exact absurd hother (hnobody i one other hi hone)
  · intro other reason hrefused hother
    rw [hrefusals] at hrefused
    rcases hsplit other hother with hold | rfl
    · exact h.refused other reason hrefused hold
    · exact absurd (hkept.seenRefused _ hrefused) hfresh

theorem Serves.not_blocked (hkept : Kept s) {phase : Phase} (hcall : s.calls[index]? = some phase)
    (hpresents : phase.presents = some hash) (hissued : (hash, sid) ∈ s.issued) :
    ¬ Blocked s phase := by
  obtain ⟨hlatest, hunhindered⟩ := h.presented index phase hash hcall hpresents hissued
  obtain ⟨record, hrecord, hsame⟩ := h.stored hash hlatest
  obtain ⟨lookup, hlookup, hactive⟩ := h.active hash hlatest
  cases phase with
  | lookup presented now =>
    cases hpresents
    intro hblocked
    rw [Blocked, hlookup] at hblocked
    cases hblocked
  | readCurrent presented key now =>
    cases hpresents
    have htoken := hkept.token index _ (hash, key) hcall rfl
    obtain rfl := hkept.sid_unique htoken hissued
    exact fun hblocked => hblocked record hrecord (hkept.stored key record hrecord).active
  | rotateLookup presented key now idleExpiresAt current =>
    cases hpresents
    obtain ⟨found, rfl, hfound⟩ := (Option.any_eq_true _ _).mp hunhindered
    exact fun hblocked =>
      hblocked found lookup rfl hlookup hactive (of_decide_eq_true hfound)
  | revokeRead key reuse => cases hunhindered
  | revokeExec key reuse current => cases hunhindered
  | _ => exact fun hblocked => hblocked

theorem Serves.refuse {reason : Refusal} (hreason : (hash, sid) ∈ s.issued → reason = .expired) :
    Serves sid (refuse s index hash reason) := by
  have hended := h.ended index
  refine ⟨hended.stored, hended.active, hended.presented, hended.alone, ?_⟩
  intro other why hrefused hissued
  rcases mem_concat_iff.mp hrefused with hold | hnew
  · exact h.refused other why hold hissued
  · cases hnew
    exact hreason hissued

theorem Serves.rotated (hkept : Kept s) (hlapsed : sid ∉ s.store.lapsed) {draw : Draw}
    {key : String} {now idleExpiresAt : Nat}
    (hcall : s.calls[index]? = some (.rotateExec hash key now idleExpiresAt current))
    (hfresh : draw.hash ∉ s.seen) :
    Serves sid { RedisSessions.callTo s index .ended with
      store := rotate s.store key hash draw.hash idleExpiresAt now current
      seen := s.seen ++ [draw.hash]
      issued := s.issued ++ [(draw.hash, key)]
      exchanges := s.exchanges ++ [(hash, key)] } := by
  have htoken := hkept.token index _ (hash, key) hcall rfl
  have hnew : ∀ other, (other, sid) ∈ s.issued → draw.hash ≠ other := by
    rintro other hother rfl
    exact hfresh (hkept.seenIssued _ hother)
  by_cases hkey : key = sid
  · subst hkey
    refine h.issued hkept hfresh rfl rfl ?_ ?_ ?_ ?_
    · intro i phase hphase hne
      rcases getElem?_set_cases hphase with ⟨-, rfl⟩ | ⟨-, hold⟩
      · exact absurd rfl hne
      · exact hold
    · -- the token is the latest, and only this call presents it
      intro i phase other hphase hpresents hother
      rcases getElem?_set_cases hphase with ⟨-, rfl⟩ | ⟨hne, hold⟩
      · cases hpresents
      · have hone := (h.presented index _ hash hcall rfl htoken).1
        have htwo := (h.presented i phase other hold hpresents hother).1
        obtain rfl := Option.some.inj (hone.symm.trans htwo)
        exact hne (h.alone i index phase _ hash hold hcall hpresents rfl htoken)
    · have hstored : (rotate s.store key hash draw.hash idleExpiresAt now current).sessions.get?
          key = some { current with
            refreshTokenHash := draw.hash
            idleExpiresAt := idleExpiresAt
            lastTouchedAt := now
            updatedAt := now } := by
        rw [rotate, sessions_setLookup, sessions_setLookup]
        exact get?_setSession_self hlapsed
      exact ⟨_, hstored, rfl⟩
    · refine ⟨_, get?_setLookup_self ?_, rfl⟩
      rw [lapsed_setLookup, lapsed_setSession]
      exact hlapsed
  · refine (h.ended index).frame ?_ ?_ ?_ rfl rfl
    · intro record hrecord
      refine ⟨record, ?_, rfl⟩
      simp only [rotate, sessions_setLookup]
      exact (get?_setSession_of_ne hkey).trans hrecord
    · intro other hother
      have hne : hash ≠ other := by
        rintro rfl
        exact hkey (hkept.sid_unique htoken hother)
      simp only [rotate]
      rw [get?_setLookup_of_ne (hnew other hother), get?_setLookup_of_ne hne, refresh_setSession]
      rfl
    · rw [List.filter_append]
      simp [hkey, RedisSessions.callTo]

theorem Serves.created (hkept : Kept s) (hlapsed : sid ∉ s.store.lapsed) {draw : Draw}
    {record : SessionRecord} {revoked : List SessionRecord}
    (hown : record.sid = draw.sid ∧ record.refreshTokenHash = draw.hash ∧ record.status = .active)
    (hstored : ∀ other ∈ revoked, ∃ key, s.store.sessions.get? key = some other)
    (hfresh : draw.hash ∉ s.seen) (hsid : draw.sid ∉ s.issued.map Prod.snd)
    (hrevoked : sid ∉ revoked.map SessionRecord.sid) :
    Serves sid { RedisSessions.callTo s index .ended with
      store := addSession (dropSessions s.store revoked) record
      seen := s.seen ++ [draw.hash]
      issued := s.issued ++ [(draw.hash, draw.sid)]
      revoked := s.revoked ++ revoked.map SessionRecord.sid } := by
  obtain ⟨hname, hhash, -⟩ := hown
  have hnot : sid ∉ (dropSessions s.store revoked).lapsed := by
    rw [lapsed_dropSessions]
    exact hlapsed
  by_cases hkey : draw.sid = sid
  · subst hkey
    rw [← hname] at hnot
    refine h.issued hkept hfresh rfl rfl ?_ ?_ ?_ ?_
    · intro i phase hphase hne
      rcases getElem?_set_cases hphase with ⟨-, rfl⟩ | ⟨-, hold⟩
      · exact absurd rfl hne
      · exact hold
    · intro i phase other _ _ hother
      exact hsid (List.mem_map.mpr ⟨_, hother, rfl⟩)
    · exact ⟨record, hname ▸ sessions_addSession_self hnot, hhash⟩
    · exact ⟨_, hhash ▸ refresh_addSession_self hnot, rfl⟩
  · refine (h.ended index).frame ?_ ?_ ?_ rfl rfl
    · intro found hfound
      refine ⟨found, ?_, rfl⟩
      have hne : record.sid ≠ sid := hname ▸ hkey
      refine (sessions_addSession_of_ne hne).trans ((sessions_dropSessions revoked sid).trans ?_)
      rw [if_neg hrevoked]
      exact hfound
    · intro other hother
      have hne : record.refreshTokenHash ≠ other := by
        rintro rfl
        exact hfresh (hhash ▸ hkept.seenIssued _ hother)
      have hothers : ∀ dropped ∈ revoked, dropped.refreshTokenHash ≠ other := by
        rintro dropped hdropped rfl
        obtain ⟨key, hfound⟩ := hstored dropped hdropped
        have hdrop := hkept.stored key dropped hfound
        have hsame := hkept.sid_unique hdrop.issued hother
        exact hrevoked (List.mem_map.mpr ⟨dropped, hdropped, hdrop.names.trans hsame⟩)
      exact (refresh_addSession_of_ne hne).trans (refresh_dropSessions_of_ne hothers)
    · rw [List.filter_append]
      simp [hkey, RedisSessions.callTo]

theorem Serves.dropped (hkept : Kept s) {key : String} {reuse : Option String}
    (hcall : s.calls[index]? = some (.revokeExec key reuse current)) (hkey : key ≠ sid) :
    Serves sid { endRevoke s index reuse with
      store := dropSession s.store key current
      revoked := s.revoked ++ [key] } := by
  have hown := hkept.read index _ key current hcall rfl
  have hended : Serves sid (endRevoke s index reuse) := by
    cases reuse with
    | none => exact h.ended index
    | some hash =>
      refine h.refuse fun hissued => ?_
      -- no call that revokes presents a token of the session
      cases (h.presented index _ hash hcall rfl hissued).2
  have hstore : (endRevoke s index reuse).store = s.store := by cases reuse <;> rfl
  have hsame : (endRevoke s index reuse).issued = s.issued := by cases reuse <;> rfl
  refine hended.frame ?_ ?_ rfl rfl rfl
  · intro record hrecord
    refine ⟨record, ?_, rfl⟩
    refine (sessions_dropSession sid).trans ?_
    rw [if_neg hkey]
    exact hstore ▸ hrecord
  · intro other hother
    have hne : current.refreshTokenHash ≠ other := by
      rintro rfl
      exact hkey (hkept.sid_unique hown.issued (hsame ▸ hother))
    exact (refresh_dropSession_of_ne hne).trans (hstore ▸ rfl)

end

theorem over_step (hstep : step options s label = some t)
    (h : sid ∈ s.revoked ∨ sid ∈ s.store.lapsed) : sid ∈ t.revoked ∨ sid ∈ t.store.lapsed := by
  cases effect_of_step hstep with
  | rotated index draw hash key now idleExpiresAt current _ _ =>
    refine h.imp_right fun hlapsed => ?_
    simp only [rotate, lapsed_setLookup, lapsed_setSession]
    exact hlapsed
  | touched _ _ _ _ _ _ _ =>
    refine h.imp_right fun hlapsed => ?_
    simp only [touch, lapsed_setSession]
    exact hlapsed
  | dropped _ _ key reuse current _ =>
    refine h.imp (List.mem_append_left _) fun hlapsed => ?_
    simp only [lapsed_dropSession]
    exact hlapsed
  | created _ _ record revoked _ _ _ _ =>
    refine h.imp (List.mem_append_left _) fun hlapsed => ?_
    simp only [lapsed_addSession, lapsed_dropSessions]
    exact hlapsed
  | lapsed key => exact h.imp_right (List.mem_append_left _)
  | refreshed _ _ | started _ _ _ _ _ | moved _ _ _ _ _ _ | looked _ _ _ _ _ _ _
  | reused _ _ _ _ _ _ _ _ | checked _ _ _ _ _ _ _ _ _ | fetched _ _ _ _ _ _ _
  | verified _ _ _ _ _ _ _ _ _ | doomed _ _ _ _ _ _ _ | refused _ _ _ _ _ _ _ _ => exact h

theorem Serves.step (h : Serves sid s) (hkept : Kept s) (hholds : ReadsHold s label)
    (hclient : PresentsLatest sid s label)
    (hstep : RedisSessions.step options s label = some t) (hrevoked : sid ∉ t.revoked)
    (hlapsed : sid ∉ t.store.lapsed) : Serves sid t := by
  have hold : sid ∉ s.store.lapsed := fun hbefore =>
    (over_step hstep (.inr hbefore)).elim hrevoked hlapsed
  cases effect_of_step hstep with
  | refreshed hash now =>
    refine ⟨h.stored, h.active, ?_, ?_, h.refused⟩
    · intro i phase other hcall hpresents hissued
      rcases getElem?_concat_cases hcall with ⟨-, rfl⟩ | ⟨-, hbefore⟩
      · cases hpresents
        exact ⟨(hclient hissued).1, rfl⟩
      · exact h.presented i phase other hbefore hpresents hissued
    · intro i j one two other hi hj hone htwo hissued
      rcases getElem?_concat_cases hi with ⟨hi', rfl⟩ | ⟨-, hbeforei⟩
      · rcases getElem?_concat_cases hj with ⟨hj', rfl⟩ | ⟨-, hbeforej⟩
        · exact hi'.trans hj'.symm
        · cases hone
          have hnobody := (hclient hissued).2 two (List.mem_of_getElem? hbeforej) hash htwo
          exact absurd hissued hnobody
      · rcases getElem?_concat_cases hj with ⟨-, rfl⟩ | ⟨-, hbeforej⟩
        · cases htwo
          have hnobody := (hclient hissued).2 one (List.mem_of_getElem? hbeforei) hash hone
          exact absurd hissued hnobody
        · exact h.alone i j one two other hbeforei hbeforej hone htwo hissued
  | started _ phase hpresents _ _ =>
    have hnot : ∀ (i : Nat) found hash, (s.calls ++ [phase])[i]? = some found →
        found.presents = some hash → s.calls[i]? = some found := by
      intro i found hash hcall hfound
      rcases getElem?_concat_cases hcall with ⟨-, rfl⟩ | ⟨-, hbefore⟩
      · rw [hpresents] at hfound
        cases hfound
      · exact hbefore
    refine ⟨h.stored, h.active, ?_, ?_, h.refused⟩
    · intro i found hash hcall hfound hissued
      exact h.presented i found hash (hnot i found hash hcall hfound) hfound hissued
    · intro i j one two hash hi hj hone htwo hissued
      exact h.alone i j one two hash (hnot i one hash hi hone) (hnot j two hash hj htwo) hone htwo
        hissued
  | moved _ index next hpresents _ _ =>
    refine h.callTo fun hash hhash _ => ?_
    rw [hpresents] at hhash
    cases hhash
  | looked index draw hash now lookup hcall _ =>
    refine h.callTo fun other hpresents _ => ?_
    cases hpresents
    exact ⟨rfl, _, hcall, rfl⟩
  | reused index draw hash now lookup hcall hfound hused =>
    refine h.callTo fun other hpresents hissued => ?_
    cases hpresents
    -- the latest token is active
    obtain ⟨found, hother, hactive⟩ :=
      h.active hash (h.presented index _ hash hcall rfl hissued).1
    rw [hfound] at hother
    cases hother
    rw [hused] at hactive
    cases hactive
  | checked index draw hash key now idleExpiresAt current hcall _ =>
    refine h.callTo fun other hpresents _ => ?_
    cases hpresents
    exact ⟨rfl, _, hcall, rfl⟩
  | fetched index draw hash key now idleExpiresAt hcall =>
    refine h.callTo fun other hpresents hissued => ?_
    cases hpresents
    refine ⟨?_, _, hcall, rfl⟩
    have htoken := hkept.token index _ (hash, key) hcall rfl
    obtain rfl := hkept.sid_unique htoken hissued
    obtain ⟨record, hrecord, hsame⟩ :=
      h.stored hash (h.presented index _ hash hcall rfl hissued).1
    rw [hrecord]
    exact decide_eq_true hsame
  | verified index draw hash key now idleExpiresAt current hcall _ =>
    refine h.callTo fun other hpresents _ => ?_
    cases hpresents
    exact ⟨rfl, _, hcall, rfl⟩
  | doomed index draw hash key current hcall _ =>
    refine h.callTo fun other hpresents hissued => ?_
    cases hpresents
    cases (h.presented index _ hash hcall rfl hissued).2
  | refused index draw phase hash reason hcall hpresents hwhy =>
    refine h.refuse fun hissued => ?_
    exact hwhy.resolve_right (h.not_blocked hkept hcall hpresents hissued)
  | rotated index draw hash key now idleExpiresAt current hcall hfresh =>
    exact h.rotated hkept hold hcall hfresh
  | touched index draw key idleExpiresAt touchedAt current hcall =>
    refine (h.ended index).frame ?_ ?_ rfl rfl rfl
    · intro record hrecord
      by_cases hkey : key = sid
      · subst hkey
        -- the record that the touch writes back has the session's token
        have hsame := of_decide_eq_true ((Option.all_eq_true _ _).mp (hholds _ hcall) record hrecord)
        exact ⟨_, get?_setSession_self hold, hsame.symm⟩
      · exact ⟨record, (get?_setSession_of_ne hkey).trans hrecord, rfl⟩
    · intro hash _
      rw [touch, refresh_setSession]
      rfl
  | dropped index draw key reuse current hcall =>
    refine h.dropped hkept hcall ?_
    rintro rfl
    exact hrevoked (List.mem_concat_self)
  | created index draw record revoked hown hstored hfresh hsid =>
    refine h.created hkept hold hown hstored hfresh hsid fun hmem => ?_
    exact hrevoked (List.mem_append_right _ hmem)
  | lapsed key =>
    have hkey : key ≠ sid := by
      rintro rfl
      exact hlapsed (List.mem_concat_self)
    refine h.frame ?_ ?_ rfl rfl rfl
    · intro record hrecord
      refine ⟨record, ?_, rfl⟩
      refine (get?_delete s.store.sessions key sid).trans ?_
      rw [if_neg hkey]
      exact hrecord
    · intro hash hissued
      refine Option.ext fun lookup => ⟨fun hfound => ?_, fun hfound => ?_⟩
      · exact (get?_filter_eq_some.mp hfound).1
      · refine get?_filter_eq_some.mpr ⟨hfound, decide_eq_true ?_⟩
        rw [hkept.sid_unique (hkept.looked hash lookup hfound) hissued]
        exact hkey.symm

/-- While what rotations and touches have read still holds when they write: every token is exchanged
at most once; and of a stored session whose client presents its latest token and waits for the
answer, no token is refused except as expired. -/
theorem exchanged_once_and_served (options : SessionsOptions) (labels : List Label)
    (last : Sessions) (hmeets : RunMeets (step options) ReadsHold {} labels)
    (hrun : run (step options) {} labels = some last) :
    (last.exchanges.map Prod.fst).Nodup ∧
      ∀ sid, RunMeets (step options) (PresentsLatest sid) {} labels → sid ∉ last.revoked →
        sid ∉ last.store.lapsed → ∀ hash reason, (hash, reason) ∈ last.refusals →
        (hash, sid) ∈ last.issued → reason = .expired := by
  constructor
  · have hlast : Kept last ∧ Alive last.store ∧ Spent last := by
      refine run_invariant_of_meets (I := fun s => Kept s ∧ Alive s.store ∧ Spent s) ?_
        ⟨kept_init, ?_, ?_⟩ hmeets hrun
      · rintro s label t ⟨hkept, halive, hspent⟩ hholds hstep
        exact ⟨hkept.step hstep, halive.step hstep, hspent.step hkept halive hholds hstep⟩
      · exact fun hash lookup hfound => by cases hfound
      · exact ⟨List.nodup_nil, fun pair hpair => absurd hpair List.not_mem_nil⟩
    exact hlast.2.2.once
  · intro sid hclient hrevoked hlapsed
    have hlast : Kept last ∧
        ((sid ∈ last.revoked ∨ sid ∈ last.store.lapsed) ∨ Serves sid last) := by
      refine run_invariant_of_meets (C := fun s label => ReadsHold s label ∧
        PresentsLatest sid s label) (I := fun s => Kept s ∧
        ((sid ∈ s.revoked ∨ sid ∈ s.store.lapsed) ∨ Serves sid s)) ?_
        ⟨kept_init, .inr serves_init⟩ (runMeets_and hmeets hclient) hrun
      rintro s label t ⟨hkept, hs⟩ ⟨hholds, hpresents⟩ hstep
      refine ⟨hkept.step hstep, ?_⟩
      by_cases hover : sid ∈ t.revoked ∨ sid ∈ t.store.lapsed
      · exact .inl hover
      · obtain ⟨hnot, hnever⟩ := not_or.mp hover
        rcases hs with hbefore | hserves
        · exact .inl (over_step hstep hbefore)
        · exact .inr (hserves.step hkept hholds hpresents hstep hnot hnever)
    rcases hlast.2 with hover | hserves
    · exact absurd hover (not_or.mpr ⟨hrevoked, hlapsed⟩)
    · exact hserves.refused

/-- Options without a single-session policy. -/
def offOptions : SessionsOptions := ⟨100, 10, .off⟩

def createsSession : List Label :=
  [.create "user" "tenant" "sub" none 0, .command 0 { now := 0, sid := "s1", hash := "h1" }]

/-- The next command of a call; a rotation draws the given token. -/
def sends (index : Nat) (hash : String) : Label := .command index { now := 1, hash := hash }

/-- The four commands of a refresh before it writes. -/
def refreshReads (index : Nat) : List Label :=
  [sends index "", sends index "", sends index "", sends index ""]

/-- Two refreshes with one token read before either writes. -/
def twoRefreshes : List Label :=
  createsSession ++ [.refresh "h1" 1, .refresh "h1" 1] ++ refreshReads 1 ++ refreshReads 2 ++
    [sends 1 "h2", sends 2 "h3"]

/-- A rotation between the reads and the write of a touch. -/
def lostRotation : List Label :=
  createsSession ++ [.touch "s1", sends 1 "", sends 1 "", .refresh "h1" 1] ++ refreshReads 2 ++
    [sends 2 "h2", sends 1 "", .refresh "h2" 1] ++ refreshReads 3

/-- Exchanged tokens, refused tokens with their reasons, and revoked sessions after a run. -/
def outcome (labels : List Label) : Option (List String × List (String × Refusal) × List String) :=
  (run (step offOptions) {} labels).map fun s =>
    (s.exchanges.map Prod.fst, s.refusals, s.revoked)

/-- A token is exchanged twice, and the client with the latest token is refused. -/
theorem token_exchanged_twice_and_client_refused :
    outcome twoRefreshes = some (["h1", "h1"], [], []) ∧
    outcome lostRotation = some (["h1"], [("h2", .invalid)], []) ∧
    RunMeets (step offOptions) (PresentsLatest "s1") {} lostRotation := by
  decide

/-- A touch and a refresh one after the other, and a refresh with the new token. -/
def oneByOne : List Label :=
  createsSession ++ [.touch "s1", sends 1 "", sends 1 "", sends 1 "", .refresh "h1" 1] ++
    refreshReads 2 ++ [sends 2 "h2", .refresh "h2" 1] ++ refreshReads 3 ++ [sends 3 "h3"]

theorem exchanged_once_and_served_run :
    ∃ last, run (step offOptions) {} oneByOne = some last ∧
      (last.exchanges.map Prod.fst).Nodup ∧
      ∀ hash reason, (hash, reason) ∈ last.refusals → (hash, "s1") ∈ last.issued →
        reason = .expired :=
  ⟨_, rfl, (exchanged_once_and_served offOptions oneByOne _ (by decide) rfl).1,
    (exchanged_once_and_served offOptions oneByOne _ (by decide) rfl).2 "s1"
      (by decide) (by decide) (by decide)⟩

end Stynx.RedisSessions
