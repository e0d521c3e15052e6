import Stynx.RedisSessionSteps

/-!
# Revoked sessions in Redis

A revocation deletes the record of a session, and a touch or a rotation that has
read the record before writes it back.
-/

namespace Stynx.RedisSessions

open TransitionRuns SessionRecords

variable {options : SessionsOptions} {s t : Sessions} {label : Label}

/-- The session that a rotation or a touch writes with its next command. -/
def Phase.writes : Phase → Option String
  | .rotateExec _ sid _ _ _ => some sid
  | .touchExec sid _ _ _ => some sid
  | _ => none

/-- A rotation or a touch that writes finds the record of its session in the store. -/
def FindsRecord (s : Sessions) : Label → Prop
  | .command index _ => ∀ phase ∈ s.calls[index]?, ∀ sid ∈ phase.writes,
      s.store.sessions.get? sid ≠ none
  | _ => True

instance decidableFindsRecord (s : Sessions) : ∀ label, Decidable (FindsRecord s label)
  | .command index _ =>
    inferInstanceAs (Decidable (∀ phase ∈ s.calls[index]?, ∀ sid ∈ phase.writes,
      s.store.sessions.get? sid ≠ none))
  | .refresh _ _ => isTrue trivial
  | .touch _ => isTrue trivial
  | .revoke _ => isTrue trivial
  | .create _ _ _ _ _ => isTrue trivial
  | .exchange _ _ _ => isTrue trivial
  | .fail _ => isTrue trivial
  | .lapse _ => isTrue trivial

def Gone (s : Sessions) : Prop := ∀ sid ∈ s.revoked, s.store.sessions.get? sid = none

theorem Gone.step (h : Gone s) (hkept : Kept s) (hfinds : FindsRecord s label)
    (hstep : RedisSessions.step options s label = some t) : Gone t := by
  intro sid hsid
  cases effect_of_step hstep with
  | rotated index draw hash key now idleExpiresAt current hcall _ =>
    have hstored := hfinds _ hcall key rfl
    have hne : key ≠ sid := by
      rintro rfl
      exact hstored (h key hsid)
    refine Eq.trans ?_ (h sid hsid)
    simp only [rotate, sessions_setLookup]
    exact get?_setSession_of_ne hne
  | touched index draw key idleExpiresAt touchedAt current hcall =>
    have hstored := hfinds _ hcall key rfl
    have hne : key ≠ sid := by
      rintro rfl
      exact hstored (h key hsid)
    exact (get?_setSession_of_ne hne).trans (h sid hsid)
  | dropped index draw key reuse current _ =>
    refine (sessions_dropSession sid).trans ?_
    split
    · rfl
    · rename_i hne
      rcases mem_concat_iff.mp hsid with hold | hnew
      · exact h sid hold
      · exact absurd hnew.symm hne
  | created index draw record revoked hown hstored _ hfresh =>
    -- the new session is another one than those that are or were revoked
    have hissued : sid ∈ s.issued.map Prod.snd ∧
        (sid ∈ revoked.map SessionRecord.sid ∨ s.store.sessions.get? sid = none) := by
      rcases List.mem_append.mp hsid with hold | hnew
      · exact ⟨hkept.known sid hold, .inr (h sid hold)⟩
      · obtain ⟨other, hother, rfl⟩ := List.mem_map.mp hnew
        obtain ⟨key, hkey⟩ := hstored other hother
        have hnames := (hkept.stored key other hkey).names
        exact ⟨hnames ▸ hkept.mem_sids hkey, .inl hnew⟩
    have hne : record.sid ≠ sid := by
      rw [hown.1]
      rintro rfl
      exact hfresh hissued.1
    refine (sessions_addSession_of_ne hne).trans ((sessions_dropSessions revoked sid).trans ?_)
    split
    · rfl
    · rename_i hnot
      exact hissued.2.resolve_left hnot
  | lapsed key =>
    refine (OrderedMap.get?_delete s.store.sessions key sid).trans ?_
    rw [h sid hsid, ite_self]
  | refreshed _ _ | started _ _ _ _ _ | moved _ _ _ _ _ _ | looked _ _ _ _ _ _ _
  | reused _ _ _ _ _ _ _ _ | checked _ _ _ _ _ _ _ _ _ | fetched _ _ _ _ _ _ _
  | verified _ _ _ _ _ _ _ _ _ | doomed _ _ _ _ _ _ _ | refused _ _ _ _ _ _ _ _ =>
    exact h sid hsid

def StaysRevoked (sid : String) (s t : Sessions) : Prop :=
  sid ∈ t.revoked ∧ t.exchanges.filter (·.2 = sid) = s.exchanges.filter (·.2 = sid)

theorem staysRevoked_step {sid : String} (hgone : Gone s) (hsid : sid ∈ s.revoked)
    (hfinds : FindsRecord s label) (hstep : step options s label = some t) :
    StaysRevoked sid s t := by
  cases effect_of_step hstep with
  | rotated index draw hash key now idleExpiresAt current hcall _ =>
    have hne : key ≠ sid := by
      rintro rfl
      exact hfinds _ hcall key rfl (hgone key hsid)
    refine ⟨hsid, ?_⟩
    rw [List.filter_append]
    simp [hne]
  | dropped _ _ key reuse _ _ =>
    refine ⟨List.mem_append_left _ hsid, ?_⟩
    cases reuse <;> rfl
  | created _ _ _ _ _ _ _ _ => exact ⟨List.mem_append_left _ hsid, rfl⟩
  | touched _ _ _ _ _ _ _ | lapsed _
  | refreshed _ _ | started _ _ _ _ _ | moved _ _ _ _ _ _ | looked _ _ _ _ _ _ _
  | reused _ _ _ _ _ _ _ _ | checked _ _ _ _ _ _ _ _ _ | fetched _ _ _ _ _ _ _
  | verified _ _ _ _ _ _ _ _ _ | doomed _ _ _ _ _ _ _ | refused _ _ _ _ _ _ _ _ =>
    exact ⟨hsid, rfl⟩

/-- While rotations and touches find the record when they write: once a session is revoked, no
record of it is stored and none of its tokens is exchanged. -/
theorem revoked_stays_revoked (options : SessionsOptions) (before after : List Label)
    (s t : Sessions) (sid : String) (hbefore : run (step options) {} before = some s)
    (hrevoked : sid ∈ s.revoked) (hafter : run (step options) s after = some t)
    (hmeets : RunMeets (step options) FindsRecord {} (before ++ after)) :
    t.store.sessions.get? sid = none ∧
      t.exchanges.filter (·.2 = sid) = s.exchanges.filter (·.2 = sid) := by
  obtain ⟨hfirst, hrest⟩ := (runMeets_append hbefore).mp hmeets
  have hstart : Kept s ∧ Gone s := by
    refine run_invariant_of_meets (I := fun s => Kept s ∧ Gone s) ?_
      ⟨kept_init, fun key hkey => absurd hkey List.not_mem_nil⟩ hfirst hbefore
    rintro s label t ⟨hkept, hgone⟩ hfinds hstep
    exact ⟨hkept.step hstep, hgone.step hkept hfinds hstep⟩
  have hend : (Kept t ∧ Gone t) ∧ StaysRevoked sid s t := by
    refine run_invariant_of_meets (I := fun u => (Kept u ∧ Gone u) ∧ StaysRevoked sid s u) ?_
      ⟨hstart, hrevoked, rfl⟩ hrest hafter
    rintro u label v ⟨⟨hkept, hgone⟩, hstays, hexchanges⟩ hfinds hstep
    obtain ⟨hv, hsame⟩ := staysRevoked_step hgone hstays hfinds hstep
    exact ⟨⟨hkept.step hstep, hgone.step hkept hfinds hstep⟩, hv, hsame.trans hexchanges⟩
  exact ⟨hend.1.2 sid hend.2.1, hend.2.2⟩

/-- Options without a single-session policy. -/
def plain : SessionsOptions := ⟨100, 10, .off⟩

/-- A session is created, with its first token. -/
def createsOne : List Label :=
  [.create "user" "tenant" "sub" none 0, .command 0 { now := 0, sid := "s1", hash := "h1" }]

def afterRun (labels : List Label) : Option (Bool × Bool × List String) :=
  (run (step plain) {} labels).map fun s =>
    (s.revoked.contains "s1", s.store.sessions.has "s1", s.exchanges.map Prod.fst)

def revokesOne : List Label := [.revoke "s1", .command 2 { now := 1 }, .command 2 { now := 1 }]

def goesOn (hash : String) : Label := .command 1 { now := 1, hash := hash }

/-- A revocation between the read and the write of a touch: the session is back. -/
theorem revoked_session_comes_back :
    afterRun (createsOne ++ [.touch "s1", goesOn "", goesOn ""] ++ revokesOne) =
      some (true, false, []) ∧
    afterRun (createsOne ++ [.touch "s1", goesOn "", goesOn ""] ++ revokesOne ++ [goesOn ""]) =
      some (true, true, []) ∧
    afterRun (createsOne ++ [.refresh "h1" 1, goesOn "", goesOn "", goesOn "", goesOn ""] ++
      revokesOne ++ [goesOn "h2"]) = some (true, true, ["h1"]) ∧
    afterRun (createsOne ++ [.refresh "h1" 1, goesOn "", goesOn "", goesOn "", goesOn ""] ++
      revokesOne ++ [goesOn "h2", .refresh "h2" 2] ++
      [.command 3 { now := 2 }, .command 3 { now := 2 }, .command 3 { now := 2 },
        .command 3 { now := 2 }, .command 3 { now := 2, hash := "h3" }]) =
      some (true, true, ["h1", "h2"]) := by
  decide

def createdAndRevoked : List Label := createsOne ++ [.touch "s1", goesOn ""] ++ revokesOne

def presentsAgain : List Label := [goesOn "", .refresh "h1" 2, .command 3 { now := 2 }]

theorem revoked_stays_revoked_run :
    ∃ s t, run (step plain) {} createdAndRevoked = some s ∧
      run (step plain) s presentsAgain = some t ∧ t.store.sessions.get? "s1" = none :=
  ⟨_, _, rfl, rfl, (revoked_stays_revoked plain createdAndRevoked presentsAgain _ _ "s1" rfl
    (by decide) rfl (by decide)).1⟩

end Stynx.RedisSessions
