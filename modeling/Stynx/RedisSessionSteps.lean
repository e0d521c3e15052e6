import Stynx.RedisSessions

/-!
# Steps of session calls

What one command can do, case by case, and what every state then keeps: records
and tokens belong to the session they are stored for, and so does what a call
has read.
-/

namespace Stynx.RedisSessions

open TransitionRuns CallTables SessionRecords

/-- The token that a refresh presents. -/
def Phase.presents : Phase → Option String
  | .lookup hash _ => some hash
  | .readCurrent hash _ _ => some hash
  | .rotateSession hash _ _ _ => some hash
  | .rotateLookup hash _ _ _ _ => some hash
  | .rotateExec hash _ _ _ _ => some hash
  | .revokeRead _ reuse => reuse
  | .revokeExec _ reuse _ => reuse
  | _ => none

/-- The token that a refresh has looked up, with the session it is for. -/
def Phase.token : Phase → Option (String × String)
  | .readCurrent hash sid _ => some (hash, sid)
  | .rotateSession hash sid _ _ => some (hash, sid)
  | .rotateLookup hash sid _ _ _ => some (hash, sid)
  | .rotateExec hash sid _ _ _ => some (hash, sid)
  | _ => none

/-- The record that a call has read and may write back, with its session. -/
def Phase.read : Phase → Option (String × SessionRecord)
  | .rotateLookup _ sid _ _ (some current) => some (sid, current)
  | .rotateExec _ sid _ _ current => some (sid, current)
  | .touchExec sid _ _ current => some (sid, current)
  | .revokeExec sid _ current => some (sid, current)
  | _ => none

/-- Why a refresh with a token cannot go on: what it looks for is not there, or not active. -/
def Blocked (s : Sessions) : Phase → Prop
  | .lookup hash _ => s.store.refresh.get? hash = none
  | .readCurrent _ sid _ => ∀ found, s.store.sessions.get? sid = some found →
      found.status ≠ .active
  | .rotateLookup hash _ _ _ current => ∀ found lookup, current = some found →
      s.store.refresh.get? hash = some lookup → lookup.state = .active →
      found.refreshTokenHash ≠ hash
  | .revokeRead _ _ => True
  | _ => False

/-- What a step can do. -/
inductive Effect (s : Sessions) : Label → Sessions → Prop where
  | refreshed (hash : String) (now : Nat) :
      Effect s (.refresh hash now) { newCall s (.lookup hash now) with seen := s.seen ++ [hash] }
  /-- Another call starts. -/
  | started (label : Label) (phase : Phase) (presents : phase.presents = none)
      (token : phase.token = none) (read : phase.read = none) : Effect s label (newCall s phase)
  /-- A call that presents no token goes on, or a call ends. -/
  | moved (label : Label) (index : Nat) (next : Phase) (presents : next.presents = none)
      (token : next.token = none)
      (read : ∀ sid found, next.read = some (sid, found) →
        s.store.sessions.get? sid = some found) : Effect s label (callTo s index next)
  /-- A refresh finds its token active. -/
  | looked (index : Nat) (draw : Draw) (hash : String) (now : Nat) (lookup : RefreshTokenLookup)
      (called : s.calls[index]? = some (.lookup hash now))
      (found : s.store.refresh.get? hash = some lookup) :
      Effect s (.command index draw) (callTo s index (.readCurrent hash lookup.sid now))
  /-- A refresh finds its token used. -/
  | reused (index : Nat) (draw : Draw) (hash : String) (now : Nat) (lookup : RefreshTokenLookup)
      (called : s.calls[index]? = some (.lookup hash now))
      (found : s.store.refresh.get? hash = some lookup) (used : lookup.state = .used) :
      Effect s (.command index draw) (callTo s index (.revokeRead lookup.sid (some hash)))
  /-- A refresh finds its session active. -/
  | checked (index : Nat) (draw : Draw) (hash sid : String) (now idleExpiresAt : Nat)
      (current : SessionRecord) (called : s.calls[index]? = some (.readCurrent hash sid now))
      (found : s.store.sessions.get? sid = some current) :
      Effect s (.command index draw)
        (callTo s index (.rotateSession hash current.sid now idleExpiresAt))
  /-- A rotation gets the session. -/
  | fetched (index : Nat) (draw : Draw) (hash sid : String) (now idleExpiresAt : Nat)
      (called : s.calls[index]? = some (.rotateSession hash sid now idleExpiresAt)) :
      Effect s (.command index draw) (callTo s index
        (.rotateLookup hash sid now idleExpiresAt (s.store.sessions.get? sid)))
  /-- A rotation finds the token active and the session's. -/
  | verified (index : Nat) (draw : Draw) (hash sid : String) (now idleExpiresAt : Nat)
      (current : SessionRecord)
      (called : s.calls[index]? = some (.rotateLookup hash sid now idleExpiresAt (some current)))
      (same : current.refreshTokenHash = hash) :
      Effect s (.command index draw)
        (callTo s index (.rotateExec hash sid now idleExpiresAt current))
  /-- A refresh with a used token gets the session to be revoked. -/
  | doomed (index : Nat) (draw : Draw) (hash sid : String) (current : SessionRecord)
      (called : s.calls[index]? = some (.revokeRead sid (some hash)))
      (found : s.store.sessions.get? sid = some current) :
      Effect s (.command index draw) (callTo s index (.revokeExec sid (some hash) current))
  | refused (index : Nat) (draw : Draw) (phase : Phase) (hash : String) (reason : Refusal)
      (called : s.calls[index]? = some phase) (presents : phase.presents = some hash)
      (why : reason = .expired ∨ Blocked s phase) :
      Effect s (.command index draw) (refuse s index hash reason)
  | rotated (index : Nat) (draw : Draw) (hash sid : String) (now idleExpiresAt : Nat)
      (current : SessionRecord)
      (called : s.calls[index]? = some (.rotateExec hash sid now idleExpiresAt current))
      (fresh : draw.hash ∉ s.seen) :
      Effect s (.command index draw) { callTo s index .ended with
        store := rotate s.store sid hash draw.hash idleExpiresAt now current
        seen := s.seen ++ [draw.hash]
        issued := s.issued ++ [(draw.hash, sid)]
        exchanges := s.exchanges ++ [(hash, sid)] }
  | touched (index : Nat) (draw : Draw) (sid : String) (idleExpiresAt touchedAt : Nat)
      (current : SessionRecord)
      (called : s.calls[index]? = some (.touchExec sid idleExpiresAt touchedAt current)) :
      Effect s (.command index draw) { callTo s index .ended with
        store := touch s.store sid idleExpiresAt touchedAt current }
  /-- A revocation writes. -/
  | dropped (index : Nat) (draw : Draw) (sid : String) (reuse : Option String)
      (current : SessionRecord)
      (called : s.calls[index]? = some (.revokeExec sid reuse current)) :
      Effect s (.command index draw) { endRevoke s index reuse with
        store := dropSession s.store sid current
        revoked := s.revoked ++ [sid] }
  | created (index : Nat) (draw : Draw) (record : SessionRecord) (revoked : List SessionRecord)
      (own : record.sid = draw.sid ∧ record.refreshTokenHash = draw.hash ∧ record.status = .active)
      (stored : ∀ other ∈ revoked, ∃ key, s.store.sessions.get? key = some other)
      (freshHash : draw.hash ∉ s.seen) (freshSid : draw.sid ∉ s.issued.map Prod.snd) :
      Effect s (.command index draw) { callTo s index .ended with
        store := addSession (dropSessions s.store revoked) record
        seen := s.seen ++ [draw.hash]
        issued := s.issued ++ [(draw.hash, draw.sid)]
        revoked := s.revoked ++ revoked.map SessionRecord.sid }
  /-- The time of a session is over. -/
  | lapsed (sid : String) : Effect s (.lapse sid) { s with store := lapse s.store sid }

variable {options : SessionsOptions} {s t : Sessions} {label : Label}

theorem Effect.ended (label : Label) (index : Nat) : Effect s label (callTo s index .ended) :=
  .moved label index .ended rfl rfl fun _ _ h => by cases h

variable {index : Nat} {sid hash : String} {store : Store} {current : SessionRecord}

variable {draw : Draw} {phase next : Phase} {record : SessionRecord} {key : String}
  {idleExpiresAt touchedAt : Nat}

theorem effect_of_callStep (hcall : s.calls[index]? = some phase)
    (h : callStep options s index draw phase = some t) :
    Effect s (.command index draw) t := by
  cases phase with
  | lookup hash now =>
    simp only [callStep] at h
    split at h
    case h_1 hnone =>
      cases h
      exact .refused index draw _ hash _ hcall rfl (.inr hnone)
    case h_2 lookup hfound =>
      split at h
      case h_1 hused =>
        cases h
        exact .reused index draw hash now lookup hcall hfound hused
      case h_2 =>
        cases h
        exact .looked index draw hash now lookup hcall hfound
  | readCurrent hash sid now =>
    simp only [callStep] at h
    split at h
    case h_1 hnone =>
      cases h
      refine .refused index draw _ hash _ hcall rfl (.inr fun found hfound => ?_)
      rw [hnone] at hfound
      cases hfound
    case h_2 current hfound =>
      split at h
      · cases h
        exact .checked index draw hash sid now _ current hcall hfound
      · split at h
        · cases h
          exact .refused index draw _ hash _ hcall rfl (.inl rfl)
        · rename_i hstatus
          cases h
          refine .refused index draw _ hash _ hcall rfl (.inr fun found hagain => ?_)
          rw [hfound] at hagain
          cases hagain
          exact hstatus
  | rotateSession hash sid now idleExpiresAt =>
    cases h
    exact .fetched index draw hash sid now idleExpiresAt hcall
  | rotateLookup hash sid now idleExpiresAt current =>
    simp only [callStep] at h
    split at h
    case h_1 record lookup hlookup =>
      split at h
      · rename_i hok
        cases h
        exact .verified index draw hash sid now idleExpiresAt record hcall hok.2
      · rename_i hnot
        cases h
        refine .refused index draw _ hash _ hcall rfl (.inr ?_)
        intro found other hfound hother hactive hsame
        cases hfound
        rw [hlookup] at hother
        cases hother
        exact hnot ⟨hactive, hsame⟩
    case h_2 hnone =>
      cases h
      refine .refused index draw _ hash _ hcall rfl (.inr ?_)
      intro found other hfound hother _ _
      exact hnone found other hfound hother
  | rotateExec hash sid now idleExpiresAt current =>
    simp only [callStep] at h
    split at h
    · cases h
    · rename_i hfresh
      cases h
      exact .rotated index draw hash sid now idleExpiresAt current hcall hfresh
  | touchGet sid =>
    simp only [callStep] at h
    split at h
    · cases h
      exact .ended _ index
    · split at h
      · cases h
        exact .moved _ index _ rfl rfl fun _ _ hread => by cases hread
      · split at h
        · cases h
          exact .moved _ index _ rfl rfl fun _ _ hread => by cases hread
        · cases h
          exact .ended _ index
  | touchRead sid idleExpiresAt touchedAt =>
    simp only [callStep] at h
    split at h
    · cases h
      exact .ended _ index
    · rename_i current hfound
      cases h
      refine .moved _ index _ rfl rfl fun _ _ hread => ?_
      cases hread
      exact hfound
  | touchExec sid idleExpiresAt touchedAt current =>
    cases h
    exact .touched index draw sid idleExpiresAt touchedAt current hcall
  | revokeRead sid reuse =>
    simp only [callStep] at h
    split at h
    · cases h
      cases reuse with
      | none => exact .ended _ index
      | some hash => exact .refused index draw _ hash _ hcall rfl (.inr trivial)
    · rename_i current hfound
      cases h
      cases reuse with
      | none =>
        refine .moved _ index _ rfl rfl fun _ _ hread => ?_
        cases hread
        exact hfound
      | some hash => exact .doomed index draw hash sid current hcall hfound
  | revokeExec sid reuse current =>
    cases h
    exact .dropped index draw sid reuse current hcall
  | exchangeRead sid actorUserId newTenantId =>
    simp only [callStep] at h
    split at h
    · cases h
      exact .ended _ index
    · split at h
      · cases h
        exact .moved _ index _ rfl rfl fun _ _ hread => by cases hread
      · cases h
        exact .ended _ index
  | createRead userId tenantId cognitoSub prior now =>
    simp only [callStep] at h
    split at h
    · cases h
      exact .ended _ index
    · split at h
      · cases h
        exact .moved _ index _ rfl rfl fun _ _ hread => by cases hread
      · cases h
        exact .ended _ index
  | createExec userId tenantId cognitoSub prior now =>
    simp only [callStep] at h
    split at h
    · cases h
    · rename_i hfresh
      obtain ⟨hhash, hsid⟩ := not_or.mp hfresh
      split at h
      · cases h
        exact .ended _ index
      · rename_i after revoked hkeys
        cases h
        obtain ⟨rfl, hstored⟩ := createKeys_ok hkeys
        exact .created index draw (newRecord options userId tenantId cognitoSub now draw) revoked
          ⟨rfl, rfl, rfl⟩ hstored hhash hsid
  | ended => cases h

theorem effect_of_step (h : step options s label = some t) : Effect s label t := by
  cases label with
  | refresh hash now =>
    cases h
    exact .refreshed hash now
  | touch sid =>
    cases h
    exact .started _ _ rfl rfl rfl
  | revoke sid =>
    cases h
    exact .started _ _ rfl rfl rfl
  | create userId tenantId cognitoSub prior now =>
    cases prior with
    | none =>
      cases h
      exact .started _ _ rfl rfl rfl
    | some sid =>
      cases h
      exact .started _ _ rfl rfl rfl
  | exchange sid actorUserId newTenantId =>
    cases h
    exact .started _ _ rfl rfl rfl
  | command index draw =>
    obtain ⟨phase, hcall, h⟩ := Option.bind_eq_some_iff.mp h
    exact effect_of_callStep hcall h
  | fail index =>
    obtain ⟨phase, -, h⟩ := Option.bind_eq_some_iff.mp h
    split at h
    · cases h
    · cases h
      exact .ended _ index
  | lapse sid =>
    cases h
    exact .lapsed sid

/-- A record belongs to a session: it names the session, and its token has been issued for it. -/
structure Own (s : Sessions) (sid : String) (record : SessionRecord) : Prop where
  names : record.sid = sid
  issued : (record.refreshTokenHash, sid) ∈ s.issued
  /-- It is active: revoked records are not stored. -/
  active : record.status = .active

/-- Records, tokens and calls. -/
structure Kept (s : Sessions) : Prop where
  stored : ∀ sid record, s.store.sessions.get? sid = some record → Own s sid record
  /-- So do those that calls have read. -/
  read : ∀ (i : Nat) phase sid record, s.calls[i]? = some phase →
    phase.read = some (sid, record) → Own s sid record
  /-- Lookups name the session that the token has been issued for. -/
  looked : ∀ hash lookup, s.store.refresh.get? hash = some lookup → (hash, lookup.sid) ∈ s.issued
  /-- So do the calls that have looked a token up. -/
  token : ∀ (i : Nat) phase pair, s.calls[i]? = some phase → phase.token = some pair →
    pair ∈ s.issued
  /-- No token is issued twice. -/
  once : (s.issued.map Prod.fst).Nodup
  seenIssued : ∀ pair ∈ s.issued, pair.1 ∈ s.seen
  seenPresented : ∀ (i : Nat) phase hash, s.calls[i]? = some phase →
    phase.presents = some hash → hash ∈ s.seen
  seenRefused : ∀ refusal ∈ s.refusals, refusal.1 ∈ s.seen
  exchanged : ∀ pair ∈ s.exchanges, pair ∈ s.issued
  known : ∀ sid ∈ s.revoked, sid ∈ s.issued.map Prod.snd

theorem kept_init : Kept {} where
  stored sid record h := by cases h
  read i phase sid record h := by cases h
  looked hash lookup h := by cases h
  token i phase pair h := by cases h
  once := List.nodup_nil
  seenIssued pair h := by cases h
  seenPresented i phase hash h := by cases h
  seenRefused refusal h := by cases h
  exchanged pair h := by cases h
  known sid h := by cases h

theorem Own.mono (h : Own s sid record) (hissued : ∀ pair ∈ s.issued, pair ∈ t.issued) :
    Own t sid record :=
  ⟨h.names, hissued _ h.issued, h.active⟩

theorem Kept.mem_sids (h : Kept s) (hfound : s.store.sessions.get? sid = some record) :
    sid ∈ s.issued.map Prod.snd :=
  List.mem_map.mpr ⟨_, (h.stored sid record hfound).issued, rfl⟩

theorem Kept.sid_unique (h : Kept s) {sid' : String} (hone : (hash, sid) ∈ s.issued)
    (htwo : (hash, sid') ∈ s.issued) : sid = sid' :=
  congrArg Prod.snd (List.inj_on_of_nodup_map h.once hone htwo rfl)

/-- The calls of a state: what they have read, looked up and presented. -/
structure CallsKept (s : Sessions) (calls : List Phase) : Prop where
  read : ∀ (i : Nat) phase sid record, calls[i]? = some phase →
    phase.read = some (sid, record) → Own s sid record
  /-- Tokens that calls have looked up are the session's. -/
  token : ∀ (i : Nat) phase pair, calls[i]? = some phase → phase.token = some pair → pair ∈ s.issued
  seen : ∀ (i : Nat) phase hash, calls[i]? = some phase → phase.presents = some hash → hash ∈ s.seen

theorem Kept.calls (h : Kept s) : CallsKept s s.calls := ⟨h.read, h.token, h.seenPresented⟩

theorem CallsKept.set {calls : List Phase} (h : CallsKept s calls)
    (hissued : ∀ pair ∈ s.issued, pair ∈ t.issued) (hseen : ∀ hash ∈ s.seen, hash ∈ t.seen)
    (hread : ∀ sid record, next.read = some (sid, record) → Own t sid record)
    (htoken : ∀ pair, next.token = some pair → pair ∈ t.issued)
    (hpresents : ∀ hash, next.presents = some hash → hash ∈ t.seen) :
    CallsKept t (calls.set index next) where
  read i phase sid record hcall hphase := by
    rcases getElem?_set_cases hcall with ⟨-, rfl⟩ | ⟨-, hold⟩
    · exact hread sid record hphase
    · exact (h.read i phase sid record hold hphase).mono hissued
  token i phase pair hcall hphase := by
    rcases getElem?_set_cases hcall with ⟨-, rfl⟩ | ⟨-, hold⟩
    · exact htoken pair hphase
    · exact hissued pair (h.token i phase pair hold hphase)
  seen i phase hash hcall hphase := by
    rcases getElem?_set_cases hcall with ⟨-, rfl⟩ | ⟨-, hold⟩
    · exact hpresents hash hphase
    · exact hseen hash (h.seen i phase hash hold hphase)

theorem CallsKept.ended {calls : List Phase} (h : CallsKept s calls)
    (hissued : ∀ pair ∈ s.issued, pair ∈ t.issued) (hseen : ∀ hash ∈ s.seen, hash ∈ t.seen) :
    CallsKept t (calls.set index .ended) :=
  h.set hissued hseen (fun _ _ hread => by cases hread) (fun _ htoken => by cases htoken)
    fun _ hpresents => by cases hpresents

theorem CallsKept.concat {calls : List Phase} (h : CallsKept s calls)
    (hissued : ∀ pair ∈ s.issued, pair ∈ t.issued) (hseen : ∀ hash ∈ s.seen, hash ∈ t.seen)
    (hread : phase.read = none) (htoken : phase.token = none)
    (hpresents : ∀ hash, phase.presents = some hash → hash ∈ t.seen) :
    CallsKept t (calls ++ [phase]) where
  read i found sid record hcall hphase := by
    rcases getElem?_concat_cases hcall with ⟨-, rfl⟩ | ⟨-, hold⟩
    · rw [hread] at hphase
      cases hphase
    · exact (h.read i found sid record hold hphase).mono hissued
  token i found pair hcall hphase := by
    rcases getElem?_concat_cases hcall with ⟨-, rfl⟩ | ⟨-, hold⟩
    · rw [htoken] at hphase
      cases hphase
    · exact hissued pair (h.token i found pair hold hphase)
  seen i found hash hcall hphase := by
    rcases getElem?_concat_cases hcall with ⟨-, rfl⟩ | ⟨-, hold⟩
    · exact hpresents hash hphase
    · exact hseen hash (h.seen i found hash hold hphase)

theorem Kept.withCalls (h : Kept s) (hcalls : CallsKept t t.calls) (hstore : t.store = s.store)
    (hissued : t.issued = s.issued) (hexchanges : t.exchanges = s.exchanges)
    (hrevoked : t.revoked = s.revoked) (hseen : ∀ hash ∈ s.seen, hash ∈ t.seen)
    (hrefused : ∀ refusal ∈ t.refusals, refusal.1 ∈ t.seen) : Kept t where
  stored sid record hfound :=
    (h.stored sid record (hstore ▸ hfound)).mono fun _ hpair => hissued ▸ hpair
  read := hcalls.read
  looked hash lookup hfound := hissued ▸ h.looked hash lookup (hstore ▸ hfound)
  token := hcalls.token
  once := hissued ▸ h.once
  seenIssued pair hpair := hseen pair.1 (h.seenIssued pair (hissued ▸ hpair))
  seenPresented := hcalls.seen
  seenRefused := hrefused
  exchanged pair hpair := hissued ▸ h.exchanged pair (hexchanges ▸ hpair)
  known sid hsid := hissued ▸ h.known sid (hrevoked ▸ hsid)

theorem Kept.callTo (h : Kept s) {index : Nat}
    (hread : ∀ sid record, next.read = some (sid, record) → Own s sid record)
    (htoken : ∀ pair, next.token = some pair → pair ∈ s.issued)
    (hpresents : ∀ hash, next.presents = some hash → hash ∈ s.seen) :
    Kept (callTo s index next) := by
  refine h.withCalls ?_ rfl rfl rfl rfl (fun _ hash => hash) h.seenRefused
  have hcalls : CallsKept (RedisSessions.callTo s index next) (s.calls.set index next) :=
    h.calls.set (fun _ hpair => hpair) (fun _ hhash => hhash)
      (fun sid record hnext => (hread sid record hnext).mono fun _ hp => hp) htoken hpresents
  exact hcalls

theorem Kept.refuse (h : Kept s) {index : Nat} {hash : String} {reason : Refusal}
    (hseen : hash ∈ s.seen) : Kept (refuse s index hash reason) := by
  refine h.withCalls ?_ rfl rfl rfl rfl (fun _ hash => hash) ?_
  · have hcalls : CallsKept (RedisSessions.refuse s index hash reason)
        (s.calls.set index .ended) :=
      h.calls.ended (fun _ hpair => hpair) fun _ hhash => hhash
    exact hcalls
  · intro refusal hrefusal
    rcases mem_concat_iff.mp hrefusal with hold | rfl
    · exact h.seenRefused refusal hold
    · exact hseen

theorem sessions_rotate {next : String} {found : SessionRecord}
    (h : (rotate store sid hash next idleExpiresAt touchedAt current).sessions.get? key =
      some found) :
    key = sid ∧ found = { current with
        refreshTokenHash := next
        idleExpiresAt := idleExpiresAt
        lastTouchedAt := touchedAt
        updatedAt := touchedAt } ∨
      store.sessions.get? key = some found := by
  rw [rotate, sessions_setLookup, sessions_setLookup] at h
  exact get?_setSession h

theorem refresh_rotate {next : String} {found : RefreshTokenLookup}
    (h : (rotate store sid hash next idleExpiresAt touchedAt current).refresh.get? key =
      some found) :
    key = next ∧ found.sid = sid ∨ key = hash ∧ found.sid = sid ∧ found.state = .used ∨
      store.refresh.get? key = some found := by
  rcases get?_setLookup h with ⟨rfl, rfl⟩ | hold
  · exact .inl ⟨rfl, rfl⟩
  · rcases get?_setLookup hold with ⟨rfl, rfl⟩ | hold
    · exact .inr (.inl ⟨rfl, rfl, rfl⟩)
    · rw [refresh_setSession] at hold
      exact .inr (.inr hold)

theorem Kept.once_concat (h : Kept s) (hfresh : hash ∉ s.seen) :
    ((s.issued ++ [(hash, sid)]).map Prod.fst).Nodup := by
  rw [List.map_append, List.map_singleton, ← List.concat_eq_append]
  refine h.once.concat fun hmem => ?_
  obtain ⟨pair, hpair, rfl⟩ := List.mem_map.mp hmem
  exact hfresh (h.seenIssued pair hpair)

theorem Kept.rotated (h : Kept s) {index : Nat} {hash sid : String} {now : Nat}
    {current : SessionRecord}
    (hcall : s.calls[index]? = some (.rotateExec hash sid now idleExpiresAt current))
    (hfresh : draw.hash ∉ s.seen) :
    Kept { RedisSessions.callTo s index .ended with
      store := rotate s.store sid hash draw.hash idleExpiresAt now current
      seen := s.seen ++ [draw.hash]
      issued := s.issued ++ [(draw.hash, sid)]
      exchanges := s.exchanges ++ [(hash, sid)] } := by
  have hown := h.read index _ sid current hcall rfl
  have htoken := h.token index _ (hash, sid) hcall rfl
  have hissued : ∀ pair ∈ s.issued, pair ∈ s.issued ++ [(draw.hash, sid)] :=
    fun pair => List.mem_append_left _
  have hseen : ∀ hash ∈ s.seen, hash ∈ s.seen ++ [draw.hash] := fun hash => List.mem_append_left _
  have hnew : (draw.hash, sid) ∈ s.issued ++ [(draw.hash, sid)] :=
    List.mem_concat_self
  have hcalls : CallsKept { RedisSessions.callTo s index .ended with
      store := rotate s.store sid hash draw.hash idleExpiresAt now current
      seen := s.seen ++ [draw.hash]
      issued := s.issued ++ [(draw.hash, sid)]
      exchanges := s.exchanges ++ [(hash, sid)] } (s.calls.set index .ended) :=
    h.calls.ended hissued hseen
  refine ⟨?_, hcalls.read, ?_, hcalls.token, h.once_concat hfresh, ?_, hcalls.seen, ?_, ?_, ?_⟩
  · intro key record hfound
    rcases sessions_rotate hfound with ⟨rfl, rfl⟩ | hold
    · exact ⟨hown.names, hnew, hown.active⟩
    · exact (h.stored key record hold).mono hissued
  · intro key lookup hfound
    rcases refresh_rotate hfound with ⟨rfl, hsid⟩ | ⟨rfl, hsid, -⟩ | hold
    · exact hsid ▸ hnew
    · exact hsid ▸ hissued _ htoken
    · exact hissued _ (h.looked key lookup hold)
  · intro pair hpair
    rcases mem_concat_iff.mp hpair with hold | rfl
    · exact hseen _ (h.seenIssued pair hold)
    · exact List.mem_concat_self
  · exact fun refusal hrefusal => hseen _ (h.seenRefused refusal hrefusal)
  · intro pair hpair
    rcases mem_concat_iff.mp hpair with hold | rfl
    · exact hissued _ (h.exchanged pair hold)
    · exact hissued _ htoken
  · intro key hkey
    obtain ⟨pair, hpair, rfl⟩ := List.mem_map.mp (h.known key hkey)
    exact List.mem_map.mpr ⟨pair, hissued _ hpair, rfl⟩

theorem Kept.created (h : Kept s) {index : Nat} {revoked : List SessionRecord}
    (hown : record.sid = draw.sid ∧ record.refreshTokenHash = draw.hash ∧ record.status = .active)
    (hstored : ∀ other ∈ revoked, ∃ key, s.store.sessions.get? key = some other)
    (hfresh : draw.hash ∉ s.seen) :
    Kept { RedisSessions.callTo s index .ended with
      store := addSession (dropSessions s.store revoked) record
      seen := s.seen ++ [draw.hash]
      issued := s.issued ++ [(draw.hash, draw.sid)]
      revoked := s.revoked ++ revoked.map SessionRecord.sid } := by
  obtain ⟨hsid, hhash, hactive⟩ := hown
  have hissued : ∀ pair ∈ s.issued, pair ∈ s.issued ++ [(draw.hash, draw.sid)] :=
    fun pair => List.mem_append_left _
  have hseen : ∀ hash ∈ s.seen, hash ∈ s.seen ++ [draw.hash] := fun hash => List.mem_append_left _
  have hnew : (record.refreshTokenHash, record.sid) ∈ s.issued ++ [(draw.hash, draw.sid)] := by
    rw [hsid, hhash]
    exact List.mem_concat_self
  have hothers : ∀ other ∈ revoked, Own s other.sid other := by
    intro other hother
    obtain ⟨key, hkey⟩ := hstored other hother
    have hkept := h.stored key other hkey
    exact hkept.names ▸ hkept
  have hcalls : CallsKept { RedisSessions.callTo s index .ended with
      store := addSession (dropSessions s.store revoked) record
      seen := s.seen ++ [draw.hash]
      issued := s.issued ++ [(draw.hash, draw.sid)]
      revoked := s.revoked ++ revoked.map SessionRecord.sid } (s.calls.set index .ended) :=
    h.calls.ended hissued hseen
  refine ⟨?_, hcalls.read, ?_, hcalls.token, h.once_concat hfresh, ?_, hcalls.seen, ?_, ?_, ?_⟩
  · intro key found hfound
    rcases sessions_addSession hfound with ⟨rfl, rfl⟩ | hold
    · exact ⟨rfl, hnew, hactive⟩
    · rw [sessions_dropSessions] at hold
      split at hold
      · cases hold
      · exact (h.stored key found hold).mono hissued
  · intro key lookup hfound
    rcases refresh_addSession hfound with ⟨rfl, rfl⟩ | hold
    · exact hnew
    · rcases refresh_dropSessions hold with ⟨other, hother, rfl, hsid, -⟩ | hold
      · exact hsid ▸ hissued _ (hothers other hother).issued
      · exact hissued _ (h.looked key lookup hold)
  · intro pair hpair
    rcases mem_concat_iff.mp hpair with hold | rfl
    · exact hseen _ (h.seenIssued pair hold)
    · exact List.mem_concat_self
  · exact fun refusal hrefusal => hseen _ (h.seenRefused refusal hrefusal)
  · exact fun pair hpair => hissued _ (h.exchanged pair hpair)
  · intro key hkey
    rcases List.mem_append.mp hkey with hold | hdropped
    · obtain ⟨pair, hpair, rfl⟩ := List.mem_map.mp (h.known key hold)
      exact List.mem_map.mpr ⟨pair, hissued _ hpair, rfl⟩
    · obtain ⟨other, hother, rfl⟩ := List.mem_map.mp hdropped
      exact List.mem_map.mpr ⟨_, hissued _ (hothers other hother).issued, rfl⟩

theorem Kept.withStore (h : Kept s)
    (hsessions : ∀ sid record, store.sessions.get? sid = some record → Own s sid record)
    (hrefresh : ∀ hash lookup, store.refresh.get? hash = some lookup →
      (hash, lookup.sid) ∈ s.issued) : Kept { s with store := store } where
  stored sid record hfound := (hsessions sid record hfound).mono fun _ hpair => hpair
  read i phase sid record hcall hphase :=
    (h.read i phase sid record hcall hphase).mono fun _ hpair => hpair
  looked := hrefresh
  token := h.token
  once := h.once
  seenIssued := h.seenIssued
  seenPresented := h.seenPresented
  seenRefused := h.seenRefused
  exchanged := h.exchanged
  known := h.known

theorem Kept.dropped (h : Kept s) {reuse : Option String}
    (hcall : s.calls[index]? = some (.revokeExec sid reuse current)) :
    Kept { endRevoke s index reuse with
      store := dropSession s.store sid current
      revoked := s.revoked ++ [sid] } := by
  have hown := h.read index _ sid current hcall rfl
  have hended : Kept (endRevoke s index reuse) := by
    cases reuse with
    | none =>
      exact h.callTo (fun _ _ hread => by cases hread) (fun _ htoken => by cases htoken)
        fun _ hpresents => by cases hpresents
    | some hash => exact h.refuse (h.seenPresented index _ hash hcall rfl)
  have hissued : (endRevoke s index reuse).issued = s.issued := by cases reuse <;> rfl
  have hsame : (endRevoke s index reuse).store = s.store := by cases reuse <;> rfl
  have hrevoked : (endRevoke s index reuse).revoked = s.revoked := by cases reuse <;> rfl
  have hstore : Kept { endRevoke s index reuse with store := dropSession s.store sid current } := by
    refine hended.withStore ?_ ?_
    · intro key record hfound
      rw [sessions_dropSession] at hfound
      split at hfound
      · cases hfound
      · exact hended.stored key record (hsame ▸ hfound)
    · intro key lookup hfound
      rcases refresh_dropSession hfound with ⟨rfl, hsid, -⟩ | hold
      · exact hissued ▸ hsid ▸ hown.issued
      · exact hended.looked key lookup (hsame ▸ hold)
  refine ⟨fun key record hfound => ?_, fun i phase key record hphase hread => ?_, hstore.looked,
    hstore.token, hstore.once, hstore.seenIssued, hstore.seenPresented, hstore.seenRefused,
    hstore.exchanged, fun key hkey => ?_⟩
  · exact (hstore.stored key record hfound).mono fun _ hpair => hpair
  · exact (hstore.read i phase key record hphase hread).mono fun _ hpair => hpair
  rcases mem_concat_iff.mp hkey with hold | rfl
  · exact hstore.known key (hrevoked ▸ hold)
  · exact List.mem_map.mpr ⟨_, hissued ▸ hown.issued, rfl⟩

theorem Kept.step (h : Kept s) (hstep : RedisSessions.step options s label = some t) : Kept t := by
  cases effect_of_step hstep with
  | refreshed hash now =>
    refine h.withCalls ?_ rfl rfl rfl rfl (fun _ => List.mem_append_left _) ?_
    · refine h.calls.concat (fun _ hpair => hpair) (fun _ => List.mem_append_left _) rfl rfl ?_
      intro found hfound
      cases hfound
      exact List.mem_concat_self
    · exact fun refusal hrefusal => List.mem_append_left _ (h.seenRefused refusal hrefusal)
  | started _ phase hpresents htoken hread =>
    refine h.withCalls ?_ rfl rfl rfl rfl (fun _ hhash => hhash) h.seenRefused
    refine h.calls.concat (fun _ hpair => hpair) (fun _ hhash => hhash) hread htoken ?_
    intro hash hhash
    rw [hpresents] at hhash
    cases hhash
  | moved _ index next hpresents htoken hread =>
    refine h.callTo (fun sid record hfound => h.stored sid record (hread sid record hfound)) ?_ ?_
    · intro pair hpair
      rw [htoken] at hpair
      cases hpair
    · intro hash hhash
      rw [hpresents] at hhash
      cases hhash
  | looked index draw hash now lookup hcall hfound =>
    refine h.callTo (fun _ _ hread => by cases hread) ?_ ?_
    · intro pair hpair
      cases hpair
      exact h.looked hash lookup hfound
    · intro found hpresents
      cases hpresents
      exact h.seenPresented index _ hash hcall rfl
  | reused index draw hash now lookup hcall hfound hused =>
    refine h.callTo (fun _ _ hread => by cases hread) (fun _ htoken => by cases htoken) ?_
    intro found hpresents
    cases hpresents
    exact h.seenPresented index _ hash hcall rfl
  | checked index draw hash sid now idleExpiresAt current hcall hfound =>
    refine h.callTo (fun _ _ hread => by cases hread) ?_ ?_
    · intro pair hpair
      cases hpair
      rw [(h.stored sid current hfound).names]
      exact h.token index _ (hash, sid) hcall rfl
    · intro found hpresents
      cases hpresents
      exact h.seenPresented index _ hash hcall rfl
  | fetched index draw hash sid now idleExpiresAt hcall =>
    refine h.callTo ?_ ?_ ?_
    · intro key record hread
      cases hfound : s.store.sessions.get? sid with
      | none =>
        rw [hfound] at hread
        cases hread
      | some current =>
        rw [hfound] at hread
        cases hread
        exact h.stored _ _ hfound
    · intro pair hpair
      cases hpair
      exact h.token index _ (hash, sid) hcall rfl
    · intro found hpresents
      cases hpresents
      exact h.seenPresented index _ hash hcall rfl
  | verified index draw hash sid now idleExpiresAt current hcall hsame =>
    refine h.callTo ?_ ?_ ?_
    · intro key record hread
      cases hread
      exact h.read index _ _ _ hcall rfl
    · intro pair hpair
      cases hpair
      exact h.token index _ (hash, sid) hcall rfl
    · intro found hpresents
      cases hpresents
      exact h.seenPresented index _ hash hcall rfl
  | doomed index draw hash sid current hcall hfound =>
    refine h.callTo ?_ (fun _ htoken => by cases htoken) ?_
    · intro key record hread
      cases hread
      exact h.stored _ _ hfound
    · intro found hpresents
      cases hpresents
      exact h.seenPresented index _ hash hcall rfl
  | refused index draw phase hash reason hcall hpresents hwhy =>
    exact h.refuse (h.seenPresented index phase hash hcall hpresents)
  | rotated index draw hash sid now idleExpiresAt current hcall hfresh =>
    exact h.rotated hcall hfresh
  | touched index draw sid idleExpiresAt touchedAt current hcall =>
    have hended : Kept (RedisSessions.callTo s index .ended) :=
      h.callTo (fun _ _ hread => by cases hread) (fun _ htoken => by cases htoken)
        fun _ hpresents => by cases hpresents
    have hown := h.read index _ sid current hcall rfl
    refine hended.withStore ?_ ?_
    · intro key record hfound
      rcases get?_setSession hfound with ⟨rfl, rfl⟩ | hold
      · exact ⟨hown.names, hown.issued, hown.active⟩
      · exact hended.stored key record hold
    · intro key lookup hfound
      rw [RedisSessions.touch, refresh_setSession] at hfound
      exact h.looked key lookup hfound
  | dropped index draw sid reuse current hcall => exact h.dropped hcall
  | created index draw record revoked hown hstored hfresh _ => exact h.created hown hstored hfresh
  | lapsed sid =>
    refine h.withStore ?_ ?_
    · intro key record hfound
      have hdelete := OrderedMap.get?_delete s.store.sessions sid key
      rw [lapse, hdelete] at hfound
      split at hfound
      · cases hfound
      · exact h.stored key record hfound
    · intro key lookup hfound
      exact h.looked key lookup (OrderedMap.get?_filter_eq_some.mp hfound).1

end Stynx.RedisSessions
