import Stynx.TransitionRuns
import Stynx.IdempotencyInterceptor

/-!
# Single execution under the idempotency interceptor

In strict mode a handler runs only after an inserted row, so the durable row
alone decides, whatever the backend answers: its owner is the one request past
the insert, and only the owner completes or deletes it.

In the default mode the lock decides, and the entry is not looked at again once
the lock is granted.
-/

namespace Stynx.IdempotencyInterceptorRuns

open IdempotencyInterceptor TransitionRuns OrderedMap

/-- What a request holds of the durable row in strict mode. -/
inductive Custody where
  | outside
  | running
  | succeeded
  deriving DecidableEq

/-- A request past its insert runs the handler or cleans up after it, or it has a response to
store. -/
def custody : Phase → Custody
  | .handle _ | .clear _ _ => .running
  | .set _ _ _ | .persist _ _ _ => .succeeded
  | _ => .outside

/-- The row is there and open. -/
def RowPending (row : Option DurableRow) : Prop := ∃ r, row = some r ∧ r.status = .pending

/-- The row is there and closed. -/
def RowCompleted (row : Option DurableRow) : Prop := ∃ r, row = some r ∧ r.status = .completed

/-- What one reply can do in strict mode, as far as the row and the handler runs go. -/
inductive StrictMove (shared : Shared) (id : Nat) (phase : Phase) (shared' : Shared)
    (phase' : Phase) : Prop where
  | quiet (hcustody : custody phase' = custody phase) (hrow : shared'.row = shared.row)
      (hsuccesses : shared'.successes = shared.successes)
  | reserved (hfrom : custody phase = .outside) (hto : custody phase' = .running)
      (hfree : shared.row = none) (hrow : RowPending shared'.row)
      (hsuccesses : shared'.successes = shared.successes)
  | handled (hfrom : custody phase = .running) (hto : custody phase' = .succeeded)
      (hrow : shared'.row = shared.row) (response : Response)
      (hsuccesses : shared'.successes = shared.successes ++ [(id, response)])
  | persisted (hfrom : custody phase = .succeeded) (hto : custody phase' = .outside)
      (hrow : RowPending shared.row → RowCompleted shared'.row)
      (hsuccesses : shared'.successes = shared.successes)
  | cleared (hfrom : custody phase = .running) (hto : custody phase' = .outside)
      (hrow : RowCompleted shared.row → RowCompleted shared'.row)
      (hsuccesses : shared'.successes = shared.successes)

variable {replay : StoredEntry → Phase} {next phase : Phase} {options : Options}
  {row : Option DurableRow} {shared : Shared} {id : Nat} {request : Request} {reply : Reply}
  {s : System} {fingerprint : String} {successes successes' : List (Nat × Response)}

theorem custody_inspect (request : Request) (entry : Option StoredEntry)
    (hreplay : ∀ e, custody (replay e) = .outside) (hnext : custody next = .outside) :
    custody (inspect request entry replay next) = .outside := by
  unfold inspect
  split
  · exact hnext
  · split
    · rfl
    · split
      · exact hreplay _
      · exact hnext

theorem custody_waitedInVain (hstrict : options.durableStrict = true) :
    custody (waitedInVain options) = .outside := by
  rw [waitedInVain, if_pos hstrict]
  rfl

theorem custody_waitFrom (hstrict : options.durableStrict = true) (attempt : Nat) :
    custody (waitFrom options attempt) = .outside := by
  unfold waitFrom
  split
  · rfl
  · exact custody_waitedInVain hstrict

theorem custody_finish (locked : Bool) (result : Result) :
    custody (finish locked result) = .outside := by
  unfold finish
  split <;> rfl

theorem rowCompleted_persistResponse (h : RowPending row) (response : Response) (ttlMs : Nat)
    (now : Int) :
    RowCompleted (persistResponse row response ttlMs now) := by
  obtain ⟨r, rfl, -⟩ := h
  exact ⟨_, rfl, rfl⟩

theorem rowCompleted_clearReservation (h : RowCompleted row) :
    RowCompleted (clearReservation row) := by
  obtain ⟨r, rfl, hstatus⟩ := h
  refine ⟨r, ?_, hstatus⟩
  simp [clearReservation, hstatus]

theorem resume_strictMove (hstrict : options.durableStrict = true) {shared' : Shared}
    {phase' : Phase} (h : resume options shared id request reply = some (shared', phase')) :
    StrictMove shared id request.phase shared' phase' := by
  cases reply with
  | entry entry =>
    simp only [resume] at h
    split at h
    · rename_i hphase
      cases h
      refine .quiet ?_ rfl rfl
      rw [hphase]
      exact custody_inspect request entry (fun _ => rfl) rfl
    · rename_i attempt hphase
      cases h
      refine .quiet ?_ rfl rfl
      rw [hphase]
      exact custody_inspect request entry (fun _ => rfl) rfl
    · cases h
  | granted granted =>
    simp only [resume] at h
    split at h
    · rename_i hphase
      split at h
      · cases h
        exact .quiet (by rw [hphase]; rfl) rfl rfl
      · cases h
        exact .quiet (by rw [hphase, custody_waitFrom hstrict]; rfl) rfl rfl
    · rename_i attempt hphase
      split at h
      · cases h
        exact .quiet (by rw [hphase]; rfl) rfl rfl
      · cases h
        exact .quiet (by rw [hphase, custody_waitedInVain hstrict]; rfl) rfl rfl
    · cases h
  | settled =>
    simp only [resume] at h
    split at h
    · rename_i entry hphase
      cases h
      exact .quiet (by rw [hphase]; rfl) rfl rfl
    · rename_i attempt hphase
      cases h
      exact .quiet (by rw [hphase, custody_waitFrom hstrict]; rfl) rfl rfl
    · rename_i locked outcome entry hphase
      cases h
      exact .quiet (by rw [hphase]; rfl) rfl rfl
    · rename_i result hphase
      cases h
      exact .quiet (by rw [hphase]; rfl) rfl rfl
    · cases h
  | store now =>
    simp only [resume] at h
    split at h
    · rename_i hphase
      cases h
      refine .quiet ?_ rfl rfl
      rw [hphase]
      exact custody_inspect request _ (fun _ => rfl) rfl
    · rename_i attempt hphase
      cases h
      refine .quiet ?_ rfl rfl
      rw [hphase]
      exact custody_inspect request _ (fun _ => rfl) rfl
    · rename_i hphase
      cases hrow : shared.row with
      | some row =>
        simp only [hrow, IdempotencyInterceptor.reserve, hstrict, Bool.not_false, Bool.and_true,
          if_true] at h
        cases h
        exact .quiet (by rw [hphase]; rfl) rfl rfl
      | none =>
        simp only [hrow, IdempotencyInterceptor.reserve, Bool.not_true, Bool.false_and,
          Bool.false_eq_true, if_false] at h
        cases h
        exact .reserved (by rw [hphase]; rfl) rfl hrow ⟨_, rfl, rfl⟩ rfl
    · rename_i locked outcome entry hphase
      cases h
      refine .persisted (by rw [hphase]; rfl) (custody_finish _ _) ?_ rfl
      intro hpending
      exact rowCompleted_persistResponse hpending _ _ _
    · rename_i locked outcome hphase
      cases h
      exact .cleared (by rw [hphase]; rfl) (custody_finish _ _) rowCompleted_clearReservation rfl
    · cases h
  | handler outcome now =>
    simp only [resume] at h
    split at h
    · rename_i locked hphase
      split at h
      · rename_i response hstorable
        cases h
        exact .handled (by rw [hphase]; rfl) rfl rfl response rfl
      · cases h
        exact .quiet (by rw [hphase]; rfl) rfl rfl
    · cases h
  | rejected =>
    simp only [resume] at h
    split at h
    · rename_i hreject
      cases h
      refine .quiet ?_ rfl rfl
      cases hphase : request.phase <;> rw [hphase] at hreject <;> first | rfl | cases hreject
    · cases h

/-- The row and the handler runs in strict mode. -/
structure StrictInvariant (s : System) : Prop where
  /-- At most one request is past its insert. -/
  single : ∀ i j r q, s.requests.get? i = some r → s.requests.get? j = some q →
    custody r.phase ≠ .outside → custody q.phase ≠ .outside → i = j
  /-- While a request is past its insert the row is open. -/
  open_row : ∀ i r, s.requests.get? i = some r → custody r.phase ≠ .outside →
    RowPending s.shared.row
  /-- While a request is running nothing has succeeded. -/
  first : ∀ i r, s.requests.get? i = some r → custody r.phase = .running → s.shared.successes = []
  /-- A success is in the row, or still to be written there. -/
  written : s.shared.successes ≠ [] → RowCompleted s.shared.row ∨
    ∃ i r, s.requests.get? i = some r ∧ custody r.phase = .succeeded
  /-- At most one handler run has succeeded. -/
  once : s.shared.successes.length ≤ 1

theorem strictInvariant_start (row : Option DurableRow) : StrictInvariant (System.start row) where
  single := by simp [System.start]
  open_row := by simp [System.start]
  first := by simp [System.start]
  written := by simp [System.start]
  once := by simp [System.start]

variable {i : Nat} {r : Request} {result : Result} {response : Response}

theorem get?_after (h : (s.after id request shared phase).requests.get? i = some r) :
    (i = id ∧ r = { request with phase := phase }) ∨ (i ≠ id ∧ s.requests.get? i = some r) := by
  rcases get?_set_eq_some.mp h with ⟨rfl, rfl⟩ | ⟨hne, hr⟩
  · exact .inl ⟨rfl, rfl⟩
  · exact .inr ⟨fun hi => hne hi.symm, hr⟩

theorem get?_after_self (s : System) (id : Nat) (request : Request) (shared : Shared)
    (phase : Phase) :
    (s.after id request shared phase).requests.get? id = some { request with phase := phase } :=
  get?_set_self _ _ _

theorem step_cases {s' : System} {a : Label} (h : step options s a = some s') :
    (∃ id fingerprint ttlMs, a = .arrive id fingerprint ttlMs ∧ s.requests.get? id = none ∧
      s' = s.after id ⟨fingerprint, ttlMs, .get⟩ s.shared .get) ∨
    ∃ id reply request shared phase, a = .reply id reply ∧ s.requests.get? id = some request ∧
      resume options s.shared id request reply = some (shared, phase) ∧
      s' = s.after id request shared phase := by
  cases a with
  | arrive id fingerprint ttlMs =>
    simp only [step] at h
    split at h
    · cases h
    · rename_i hhas
      cases h
      exact .inl ⟨id, fingerprint, ttlMs, rfl,
        get?_eq_none_of_not_has (Bool.eq_false_iff.mpr hhas), rfl⟩
  | reply id reply =>
    simp only [step] at h
    split at h
    · cases h
    · rename_i request hrequest
      split at h
      · cases h
      · rename_i shared phase hresume
        cases h
        exact .inr ⟨id, reply, request, shared, phase, rfl, hrequest, hresume, rfl⟩

theorem StrictInvariant.quiet (hs : StrictInvariant s)
    (hbefore : ∀ r, s.requests.get? id = some r → custody phase = custody r.phase)
    (hnew : s.requests.get? id = none → custody phase = .outside) (hrow : shared.row = s.shared.row)
    (hsuccesses : shared.successes = s.shared.successes) :
    StrictInvariant (s.after id request shared phase) := by
  have hold : ∀ i r, (s.after id request shared phase).requests.get? i = some r →
      custody r.phase ≠ .outside → ∃ q, s.requests.get? i = some q ∧
        custody q.phase = custody r.phase := by
    intro i r hr hinside
    rcases get?_after hr with ⟨rfl, rfl⟩ | ⟨-, hr'⟩
    · cases hq : s.requests.get? i with
      | none => exact absurd (hnew hq) hinside
      | some q => exact ⟨q, rfl, (hbefore q hq).symm⟩
    · exact ⟨r, hr', rfl⟩
  refine ⟨?_, ?_, ?_, ?_, ?_⟩
  · intro i j r q hr hq hri hqj
    obtain ⟨r', hr', hcr⟩ := hold i r hr hri
    obtain ⟨q', hq', hcq⟩ := hold j q hq hqj
    exact hs.single i j r' q' hr' hq' (by rw [hcr]; exact hri) (by rw [hcq]; exact hqj)
  · intro i r hr hri
    obtain ⟨r', hr', hcr⟩ := hold i r hr hri
    have hpending := hs.open_row i r' hr' (by rw [hcr]; exact hri)
    rw [← hrow] at hpending
    exact hpending
  · intro i r hr hrunning
    obtain ⟨r', hr', hcr⟩ := hold i r hr (by rw [hrunning]; decide)
    exact hsuccesses.trans (hs.first i r' hr' (hcr.trans hrunning))
  · intro hne
    have hne' : s.shared.successes ≠ [] := by
      rw [← hsuccesses]
      exact hne
    rcases hs.written hne' with hcompleted | ⟨i, r, hr, hsucceeded⟩
    · rw [← hrow] at hcompleted
      exact .inl hcompleted
    · refine .inr ?_
      by_cases hi : i = id
      · subst hi
        refine ⟨i, _, get?_after_self s i request shared phase, ?_⟩
        exact (hbefore r hr).trans hsucceeded
      · refine ⟨i, r, ?_, hsucceeded⟩
        exact (get?_set_of_ne _ _ fun h => hi h.symm).trans hr
  · change shared.successes.length ≤ 1
    rw [hsuccesses]
    exact hs.once

section

variable (hs : StrictInvariant s) (hrequest : s.requests.get? id = some request)
include hs hrequest

theorem StrictInvariant.alone (hinside : custody request.phase ≠ .outside) (hi : i ≠ id)
    (hr : s.requests.get? i = some r) :
    custody r.phase = .outside := by
  by_contra hcon
  exact hi (hs.single i id r request hr hrequest hcon hinside)

theorem StrictInvariant.leave (hinside : custody request.phase ≠ .outside)
    (hto : custody phase = .outside) (hsuccesses : shared.successes = s.shared.successes)
    (hrow : s.shared.successes ≠ [] → RowCompleted shared.row) :
    StrictInvariant (s.after id request shared phase) := by
  have hout : ∀ i r, (s.after id request shared phase).requests.get? i = some r →
      custody r.phase = .outside := by
    intro i r hr
    rcases get?_after hr with ⟨rfl, rfl⟩ | ⟨hi, hr'⟩
    · exact hto
    · exact hs.alone hrequest hinside hi hr'
  refine ⟨?_, ?_, ?_, ?_, ?_⟩
  · intro i j r q hr _ hri _
    exact absurd (hout i r hr) hri
  · intro i r hr hri
    exact absurd (hout i r hr) hri
  · intro i r hr hrunning
    rw [hout i r hr] at hrunning
    cases hrunning
  · intro hne
    refine .inl (hrow ?_)
    rw [← hsuccesses]
    exact hne
  · change shared.successes.length ≤ 1
    rw [hsuccesses]
    exact hs.once

theorem StrictInvariant.move (h : StrictMove s.shared id request.phase shared phase) :
    StrictInvariant (s.after id request shared phase) := by
  cases h with
  | quiet hcustody hrow hsuccesses =>
    refine hs.quiet ?_ ?_ hrow hsuccesses
    · intro r hr
      cases hrequest.symm.trans hr
      exact hcustody
    · intro hnone
      rw [hrequest] at hnone
      cases hnone
  | reserved hfrom hto hfree hrow hsuccesses =>
    have hnopending : ¬ RowPending s.shared.row := by
      rintro ⟨r, hr, -⟩
      rw [hfree] at hr
      cases hr
    have hout : ∀ i r, s.requests.get? i = some r → custody r.phase = .outside := by
      intro i r hr
      by_contra hcon
      exact hnopending (hs.open_row i r hr hcon)
    have hempty : s.shared.successes = [] := by
      by_contra hne
      rcases hs.written hne with ⟨r, hr, -⟩ | ⟨i, r, hr, hsucceeded⟩
      · rw [hfree] at hr
        cases hr
      · rw [hout i r hr] at hsucceeded
        cases hsucceeded
    have hself : ∀ i r, (s.after id request shared phase).requests.get? i = some r →
        custody r.phase ≠ .outside → i = id := by
      intro i r hr hri
      rcases get?_after hr with ⟨rfl, -⟩ | ⟨-, hr'⟩
      · rfl
      · exact absurd (hout i r hr') hri
    refine ⟨?_, ?_, ?_, ?_, ?_⟩
    · intro i j r q hr hq hri hqj
      rw [hself i r hr hri, hself j q hq hqj]
    · intro i r _ _
      exact hrow
    · intro i r _ _
      exact hsuccesses.trans hempty
    · intro hne
      exact absurd (hsuccesses.trans hempty) hne
    · change shared.successes.length ≤ 1
      rw [hsuccesses]
      exact hs.once
  | handled hfrom hto hrow response hsuccesses =>
    have hinside : custody request.phase ≠ .outside := by rw [hfrom]; decide
    have hempty := hs.first id request hrequest hfrom
    have hself : ∀ i r, (s.after id request shared phase).requests.get? i = some r →
        custody r.phase ≠ .outside → i = id ∧ custody r.phase = .succeeded := by
      intro i r hr hri
      rcases get?_after hr with ⟨rfl, rfl⟩ | ⟨hi, hr'⟩
      · exact ⟨rfl, hto⟩
      · exact absurd (hs.alone hrequest hinside hi hr') hri
    refine ⟨?_, ?_, ?_, ?_, ?_⟩
    · intro i j r q hr hq hri hqj
      rw [(hself i r hr hri).1, (hself j q hq hqj).1]
    · intro i r _ _
      have hpending := hs.open_row id request hrequest hinside
      rw [← hrow] at hpending
      exact hpending
    · intro i r hr hrunning
      have hsucceeded := (hself i r hr (by rw [hrunning]; decide)).2
      rw [hrunning] at hsucceeded
      cases hsucceeded
    · intro _
      exact .inr ⟨id, _, get?_after_self s id request shared phase, hto⟩
    · change shared.successes.length ≤ 1
      rw [hsuccesses, hempty]
      exact Nat.le_refl 1
  | persisted hfrom hto hrow hsuccesses =>
    have hinside : custody request.phase ≠ .outside := by rw [hfrom]; decide
    refine hs.leave hrequest hinside hto hsuccesses ?_
    intro _
    exact hrow (hs.open_row id request hrequest hinside)
  | cleared hfrom hto hrow hsuccesses =>
    have hinside : custody request.phase ≠ .outside := by rw [hfrom]; decide
    refine hs.leave hrequest hinside hto hsuccesses ?_
    intro hne
    exact absurd (hs.first id request hrequest hfrom) hne

end

theorem step_strictInvariant (hstrict : options.durableStrict = true) (s : System) (a : Label)
    (s' : System) (hs : StrictInvariant s) (h : step options s a = some s') :
    StrictInvariant s' := by
  rcases step_cases h with ⟨id, fingerprint, ttlMs, -, hfree, rfl⟩ |
    ⟨id, reply, request, shared, phase, -, hrequest, hresume, rfl⟩
  · refine hs.quiet ?_ (fun _ => rfl) rfl rfl
    intro r hr
    rw [hfree] at hr
    cases hr
  · exact hs.move hrequest (resume_strictMove hstrict hresume)

def sampleResponse : Response := ⟨201, "{}", []⟩

/-- A request up to the lock. -/
def lookAhead (id : Nat) : List Label :=
  [.arrive id "f" 60000, .reply id (.entry none), .reply id (.store 0)]

def handleLocked (id : Nat) : List Label :=
  [.reply id (.granted true), .reply id (.store 1), .reply id (.handler (.returned sampleResponse) 2),
    .reply id .settled, .reply id (.store 3), .reply id .settled]

/-- Both requests are granted the lock; the second finds the row of the first. -/
def lostLockRun : List Label :=
  lookAhead 1 ++ lookAhead 2 ++ handleLocked 1 ++
    [.reply 2 (.granted true), .reply 2 (.store 4), .reply 2 .settled]

/-- How far a request is on its way through the handler in the default mode. -/
inductive Stage where
  | outside
  | fresh
  | holding
  | stored
  | leaving
  deriving DecidableEq

/-- A request enters when the lock is granted or found free, and leaves with its release. -/
def stage : Phase → Stage
  | .reserve | .handle _ | .clear _ _ => .fresh
  | .set _ _ _ => .holding
  | .persist _ _ _ => .stored
  | .releaseLock _ => .leaving
  | _ => .outside

/-- One fingerprint, a backend that keeps its entry and grants its lock to one holder at a time, no
failing call, no expiry, and no wait that ends while the lock is held. -/
def honest (options : Options) (fingerprint : String) (s : System) : Label → Bool
  | .arrive _ arriving _ => arriving = fingerprint
  | .reply id reply =>
    match s.requests.get? id with
    | none => false
    | some request =>
      match reply with
      | .entry entry => entry = s.shared.cache
      | .granted granted =>
        if request.phase = .acquireLock then
          granted = s.shared.lock.isNone && (granted || 0 < options.waitAttempts)
        else granted = s.shared.lock.isSome
      | .settled =>
        match request.phase with
        | .waitTimer attempt => attempt + 1 < options.waitAttempts || s.shared.lock.isNone
        | _ => true
      | .store now => s.shared.row.all fun row => row.expiresAt.all (now < ·)
      | .handler _ _ => true
      | .rejected => false

/-- The interleaving of requests in that environment. -/
def honestStep (options : Options) (fingerprint : String) (s : System) (a : Label) :
    Option System :=
  if honest options fingerprint s a then step options s a else none

/-- A request that received what some handler run stored, or the outcome of its own run. -/
def ResultOk (successes : List (Nat × Response)) (id : Nat) : Result → Prop
  | .replayed response => ∃ j, (j, response) ∈ successes
  | .handled outcome => ∀ response, outcome.storable = some response → (id, response) ∈ successes
  | _ => False

/-- At most one handler run succeeds, and the other requests get its response, unless their own
handler run failed. -/
def HandledOnce (s : System) : Prop :=
  s.shared.successes.length ≤ 1 ∧ ∀ id request result, s.requests.get? id = some request →
    request.phase = .done result → ResultOk s.shared.successes id result

/-- The reply lets the request into the handler path. -/
def enters (options : Options) : Phase → Reply → Bool
  | .acquireLock, .granted granted => granted
  | .waitIsLocked _, .granted granted => !granted
  | .waitTimer attempt, .settled => !(attempt + 1 < options.waitAttempts)
  | _, _ => false

/-- A request that enters finds no response and no other request between entry and release. -/
def entersAlone (options : Options) (s : System) : Label → Bool
  | .arrive _ _ _ => true
  | .reply id reply =>
    match s.requests.get? id with
    | none => true
    | some request =>
      !enters options request.phase reply ||
        (s.shared.cache.all (fun entry => entry.status ≠ .completed) &&
          s.shared.row.all (fun row => row.status ≠ .completed) &&
          s.requests.entries.all fun p => p.1 = id || stage p.2.phase = .outside)

/-- An entry that replays a handler run. -/
def Known (fingerprint : String) (successes : List (Nat × Response)) (entry : StoredEntry) : Prop :=
  entry.requestFingerprint = fingerprint ∧ entry.status = .completed ∧
    ∃ j, (j, entry.response) ∈ successes

/-- What a replay of the row sends. -/
def rowResponse (row : DurableRow) : Response :=
  ⟨(row.response.map Prod.fst).getD 200, (row.response.map Prod.snd).getD "null",
    row.responseHeaders.getD []⟩

/-- A row that, once completed, replays a handler run. -/
def RowKnown (fingerprint : String) (successes : List (Nat × Response))
    (row : Option DurableRow) : Prop :=
  ∀ r, row = some r → r.requestFingerprint = some fingerprint ∧
    (r.status = .completed → ∃ j, (j, rowResponse r) ∈ successes)

def PhaseOk (fingerprint : String) (successes : List (Nat × Response)) (id : Nat) : Phase → Prop
  | .setReplay entry => Known fingerprint successes entry
  | .set _ outcome entry | .persist _ outcome entry =>
    entry.requestFingerprint = fingerprint ∧ entry.status = .completed ∧
      (id, entry.response) ∈ successes ∧ outcome.storable = some entry.response
  | .clear _ outcome => outcome.storable = none
  | .releaseLock result | .done result => ResultOk successes id result
  | _ => True

/-- What holds in the default mode as long as every request enters alone. -/
structure DefaultInvariant (fingerprint : String) (s : System) : Prop where
  same : ∀ i r, s.requests.get? i = some r → r.fingerprint = fingerprint
  /-- What the phases carry is true. -/
  phase : ∀ i r, s.requests.get? i = some r → PhaseOk fingerprint s.shared.successes i r.phase
  /-- The cached entry replays a handler run. -/
  cache : ∀ entry, s.shared.cache = some entry → Known fingerprint s.shared.successes entry
  row : RowKnown fingerprint s.shared.successes s.shared.row
  /-- At most one request is inside. -/
  single : ∀ i j r q, s.requests.get? i = some r → s.requests.get? j = some q →
    stage r.phase ≠ .outside → stage q.phase ≠ .outside → i = j
  /-- A request that has no response yet is the first. -/
  first : ∀ i r, s.requests.get? i = some r → stage r.phase = .fresh → s.shared.successes = []
  stored : s.shared.successes ≠ [] → s.shared.cache ≠ none ∨
    ∃ i r, s.requests.get? i = some r ∧ stage r.phase = .holding
  /-- At most one handler run has succeeded. -/
  once : s.shared.successes.length ≤ 1

theorem defaultInvariant_start (fingerprint : String) :
    DefaultInvariant fingerprint (System.start none) where
  same := by simp [System.start]
  phase := by simp [System.start]
  cache := by simp [System.start]
  row := by simp [System.start, RowKnown]
  single := by simp [System.start]
  first := by simp [System.start]
  stored := by simp [System.start]
  once := by simp [System.start]

theorem Known.mono {entry : StoredEntry} (h : Known fingerprint successes entry)
    (hle : successes ⊆ successes') :
    Known fingerprint successes' entry := by
  obtain ⟨hfingerprint, hstatus, j, hj⟩ := h
  exact ⟨hfingerprint, hstatus, j, hle hj⟩

theorem ResultOk.mono (h : ResultOk successes id result) (hle : successes ⊆ successes') :
    ResultOk successes' id result := by
  cases result with
  | replayed response =>
    obtain ⟨j, hj⟩ := h
    exact ⟨j, hle hj⟩
  | handled outcome =>
    intro response hstorable
    exact hle (h response hstorable)
  | _ => exact h

theorem PhaseOk.mono (h : PhaseOk fingerprint successes id phase) (hle : successes ⊆ successes') :
    PhaseOk fingerprint successes' id phase := by
  cases phase with
  | setReplay entry => exact Known.mono h hle
  | set locked outcome entry => exact ⟨h.1, h.2.1, hle h.2.2.1, h.2.2.2⟩
  | persist locked outcome entry => exact ⟨h.1, h.2.1, hle h.2.2.1, h.2.2.2⟩
  | clear locked outcome => exact h
  | releaseLock result => exact ResultOk.mono h hle
  | done result => exact ResultOk.mono h hle
  | _ => trivial

theorem RowKnown.mono (h : RowKnown fingerprint successes row) (hle : successes ⊆ successes') :
    RowKnown fingerprint successes' row := by
  intro r hr
  obtain ⟨hfingerprint, hcompleted⟩ := h r hr
  refine ⟨hfingerprint, ?_⟩
  intro hstatus
  obtain ⟨j, hj⟩ := hcompleted hstatus
  exact ⟨j, hle hj⟩

section

variable (hs : DefaultInvariant fingerprint s)
include hs

/-- A move of one request; `fresh` says who may be inside, `once` how the handler runs grow. -/
theorem DefaultInvariant.moved (hsame : request.fingerprint = fingerprint)
    (hgrow : s.shared.successes ⊆ shared.successes)
    (hphase : PhaseOk fingerprint shared.successes id phase)
    (hcache : ∀ entry, shared.cache = some entry → Known fingerprint shared.successes entry)
    (hrow : RowKnown fingerprint shared.successes shared.row)
    (hinside : stage phase ≠ .outside → ∀ i r, i ≠ id → s.requests.get? i = some r → stage r.phase = .outside)
    (hfirst : stage phase = .fresh → shared.successes = [])
    (hothers : ∀ i r, i ≠ id → s.requests.get? i = some r → stage r.phase = .fresh → shared.successes = [])
    (hstored : shared.successes ≠ [] → shared.cache ≠ none ∨ stage phase = .holding ∨ ∃ i r, i ≠ id ∧ s.requests.get? i = some r ∧ stage r.phase = .holding)
    (honce : shared.successes.length ≤ 1) :
    DefaultInvariant fingerprint (s.after id request shared phase) where
  same i r hr := by
    rcases get?_after hr with ⟨-, rfl⟩ | ⟨-, hr'⟩
    · exact hsame
    · exact hs.same i r hr'
  phase i r hr := by
    rcases get?_after hr with ⟨rfl, rfl⟩ | ⟨-, hr'⟩
    · exact hphase
    · exact (hs.phase i r hr').mono hgrow
  cache := hcache
  row := hrow
  single i j r q hr hq hri hqj := by
    rcases get?_after hr with ⟨rfl, rfl⟩ | ⟨hi, hr'⟩
    · rcases get?_after hq with ⟨rfl, -⟩ | ⟨hj, hq'⟩
      · rfl
      · exact absurd (hinside hri j q hj hq') hqj
    · rcases get?_after hq with ⟨rfl, rfl⟩ | ⟨hj, hq'⟩
      · exact absurd (hinside hqj i r hi hr') hri
      · exact hs.single i j r q hr' hq' hri hqj
  first i r hr hfresh := by
    rcases get?_after hr with ⟨rfl, rfl⟩ | ⟨hi, hr'⟩
    · exact hfirst hfresh
    · exact hothers i r hi hr' hfresh
  stored hne := by
    rcases hstored hne with hsome | hholding | ⟨i, r, hi, hr, hholding⟩
    · exact .inl hsome
    · exact .inr ⟨id, _, get?_after_self s id request shared phase, hholding⟩
    · refine .inr ⟨i, r, ?_, hholding⟩
      exact (get?_set_of_ne _ _ fun h => hi h.symm).trans hr
  once := honce

theorem DefaultInvariant.alone (hrequest : s.requests.get? id = some request)
    (hinside : stage request.phase ≠ .outside) (i : Nat) (r : Request) (hi : i ≠ id)
    (hr : s.requests.get? i = some r) :
    stage r.phase = .outside := by
  by_contra hcon
  exact hi (hs.single i id r request hr hrequest hcon hinside)

theorem DefaultInvariant.quiet (hrequest : s.requests.get? id = some request)
    (hrow : shared.row = s.shared.row) (hcache : shared.cache = s.shared.cache)
    (hsuccesses : shared.successes = s.shared.successes)
    (hstage : stage phase = stage request.phase)
    (hphase : PhaseOk fingerprint s.shared.successes id phase) :
    DefaultInvariant fingerprint (s.after id request shared phase) := by
  refine hs.moved (hs.same id request hrequest) ?_ ?_ ?_ ?_ ?_ ?_ ?_ ?_ ?_
  · rw [hsuccesses]
    exact List.Subset.refl _
  · rw [hsuccesses]
    exact hphase
  · rw [hsuccesses, hcache]
    exact hs.cache
  · rw [hsuccesses, hrow]
    exact hs.row
  · intro hinside
    rw [hstage] at hinside
    exact hs.alone hrequest hinside
  · intro hfresh
    rw [hstage] at hfresh
    exact hsuccesses.trans (hs.first id request hrequest hfresh)
  · intro i r _ hr hfresh
    exact hsuccesses.trans (hs.first i r hr hfresh)
  · rw [hsuccesses, hcache]
    intro hne
    rcases hs.stored hne with hsome | ⟨i, r, hr, hholding⟩
    · exact .inl hsome
    · by_cases hi : i = id
      · subst hi
        cases hrequest.symm.trans hr
        exact .inr (.inl (hstage.trans hholding))
      · exact .inr (.inr ⟨i, r, hi, hr, hholding⟩)
  · rw [hsuccesses]
    exact hs.once

theorem DefaultInvariant.leave (hrequest : s.requests.get? id = some request)
    (hinside : stage request.phase ≠ .outside) (hcache : shared.cache = s.shared.cache)
    (hsuccesses : shared.successes = s.shared.successes)
    (hrow : RowKnown fingerprint s.shared.successes shared.row)
    (hphase : PhaseOk fingerprint s.shared.successes id phase)
    (hfrom : stage request.phase ≠ .holding) (hto : stage phase ≠ .fresh) :
    DefaultInvariant fingerprint (s.after id request shared phase) := by
  have hothers := hs.alone hrequest hinside
  refine hs.moved (hs.same id request hrequest) ?_ ?_ ?_ ?_ (fun _ => hothers) ?_ ?_ ?_ ?_
  · rw [hsuccesses]
    exact List.Subset.refl _
  · rw [hsuccesses]
    exact hphase
  · rw [hsuccesses, hcache]
    exact hs.cache
  · rw [hsuccesses]
    exact hrow
  · intro hfresh
    exact absurd hfresh hto
  · intro i r hi hr hfresh
    rw [hothers i r hi hr] at hfresh
    cases hfresh
  · rw [hsuccesses, hcache]
    intro hne
    rcases hs.stored hne with hsome | ⟨i, r, hr, hholding⟩
    · exact .inl hsome
    · by_cases hi : i = id
      · subst hi
        cases hrequest.symm.trans hr
        exact absurd hholding hfrom
      · exact .inr (.inr ⟨i, r, hi, hr, hholding⟩)
  · rw [hsuccesses]
    exact hs.once

theorem DefaultInvariant.enter (hrequest : s.requests.get? id = some request)
    (halone : entersAlone options s (.reply id reply) = true)
    (henters : enters options request.phase reply = true) (hrow : shared.row = s.shared.row)
    (hcache : shared.cache = s.shared.cache) (hsuccesses : shared.successes = s.shared.successes)
    (hphase : PhaseOk fingerprint s.shared.successes id phase) :
    DefaultInvariant fingerprint (s.after id request shared phase) := by
  simp only [entersAlone, hrequest, henters, Bool.not_true, Bool.false_or, Bool.and_eq_true] at halone
  obtain ⟨⟨hnocache, -⟩, hnobody⟩ := halone
  have hothers : ∀ i r, i ≠ id → s.requests.get? i = some r → stage r.phase = .outside := by
    intro i r hi hr
    have hentry := List.all_eq_true.mp hnobody (i, r) (mem_entries_iff.mpr hr)
    simpa [hi] using hentry
  have hempty : s.shared.cache = none := by
    cases hc : s.shared.cache with
    | none => rfl
    | some entry =>
      have hcompleted := (hs.cache entry hc).2.1
      simp [hc, hcompleted] at hnocache
  have hfirst : stage request.phase ≠ .holding := by
    cases hp : request.phase <;> rw [hp] at henters <;> simp [enters, stage] at henters ⊢
  have hnone : s.shared.successes = [] := by
    by_contra hne
    rcases hs.stored hne with hsome | ⟨i, r, hr, hholding⟩
    · exact hsome hempty
    · by_cases hi : i = id
      · subst hi
        cases hrequest.symm.trans hr
        exact hfirst hholding
      · rw [hothers i r hi hr] at hholding
        cases hholding
  refine hs.moved (hs.same id request hrequest) ?_ ?_ ?_ ?_ (fun _ => hothers) ?_ ?_ ?_ ?_
  · rw [hsuccesses]
    exact List.Subset.refl _
  · rw [hsuccesses]
    exact hphase
  · rw [hsuccesses, hcache]
    exact hs.cache
  · rw [hsuccesses, hrow]
    exact hs.row
  · intro _
    exact hsuccesses.trans hnone
  · intro _ _ _ _ _
    exact hsuccesses.trans hnone
  · intro hne
    exact absurd (hsuccesses.trans hnone) hne
  · rw [hsuccesses]
    exact hs.once

end

theorem stage_inspect (request : Request) (entry : Option StoredEntry)
    (hreplay : ∀ e, stage (replay e) = .outside) (hnext : stage next = .outside) :
    stage (inspect request entry replay next) = .outside := by
  unfold inspect
  split
  · exact hnext
  · split
    · rfl
    · split
      · exact hreplay _
      · exact hnext

theorem phaseOk_inspect {entry : Option StoredEntry}
    (hentry : ∀ e, entry = some e → e.requestFingerprint = request.fingerprint ∧
      (e.status = .completed → PhaseOk fingerprint successes id (replay e)))
    (hnext : PhaseOk fingerprint successes id next) :
    PhaseOk fingerprint successes id (inspect request entry replay next) := by
  unfold inspect
  split
  · exact hnext
  · rename_i e
    obtain ⟨hfingerprint, hreplay⟩ := hentry e rfl
    rw [if_neg (not_not.mpr hfingerprint)]
    split
    · rename_i hcompleted
      exact hreplay hcompleted
    · exact hnext

section

variable (h : RowKnown fingerprint successes row)
include h

theorem RowKnown.lookup {ttlMs : Nat} {now : Int} {entry : StoredEntry}
    (hentry : lookup row ttlMs now = some entry) :
    entry.requestFingerprint = fingerprint ∧
      (entry.status = .completed → Known fingerprint successes entry) := by
  cases row with
  | none => cases hentry
  | some r =>
    obtain ⟨hfingerprint, hcompleted⟩ := h r rfl
    simp only [IdempotencyInterceptor.lookup] at hentry
    split at hentry
    · cases hentry
      simp only [hfingerprint, Option.getD_some]
      exact ⟨trivial, fun hstatus => ⟨by simp, hstatus, hcompleted hstatus⟩⟩
    · cases hentry

theorem rowKnown_reserve (ttlMs : Nat) (now : Int) :
    RowKnown fingerprint successes (reserve row fingerprint ttlMs now).1 := by
  cases row with
  | some row => exact h
  | none =>
    intro r hr
    cases hr
    refine ⟨rfl, ?_⟩
    intro hstatus
    cases hstatus

theorem rowKnown_persistResponse (hmem : (id, response) ∈ successes) (ttlMs : Nat) (now : Int) :
    RowKnown fingerprint successes (persistResponse row response ttlMs now) := by
  intro r hr
  obtain ⟨r₀, hr₀, rfl⟩ := Option.map_eq_some_iff.mp hr
  exact ⟨(h r₀ hr₀).1, fun _ => ⟨id, hmem⟩⟩

theorem rowKnown_clearReservation : RowKnown fingerprint successes (clearReservation row) := by
  intro r hr
  exact h r (Option.filter_eq_some_iff.mp hr).1

end

theorem waitedInVain_default (hdefault : options.durableStrict = false) :
    waitedInVain options = .handle false := by
  rw [waitedInVain, if_neg (by rw [hdefault]; decide)]

theorem DefaultInvariant.entry (hs : DefaultInvariant fingerprint s)
    (hrequest : s.requests.get? id = some request) {entry : Option StoredEntry}
    (hentry : entry = s.shared.cache) (hfrom : stage request.phase = .outside)
    (hnext : stage next = .outside) (hok : PhaseOk fingerprint s.shared.successes id next) :
    DefaultInvariant fingerprint
      (s.after id request s.shared (inspect request entry replayed next)) := by
  refine hs.quiet hrequest rfl rfl rfl ?_ (phaseOk_inspect ?_ hok)
  · rw [hfrom]
    exact stage_inspect request entry (fun _ => rfl) hnext
  · intro e he
    obtain ⟨hfingerprint, -, hknown⟩ := hs.cache e (hentry.symm.trans he)
    exact ⟨hfingerprint.trans (hs.same id request hrequest).symm, fun _ => hknown⟩

theorem DefaultInvariant.read (hs : DefaultInvariant fingerprint s)
    (hrequest : s.requests.get? id = some request) (replay : StoredEntry → Phase) (next : Phase)
    (hfrom : stage request.phase = .outside) (hreplay : ∀ e, stage (replay e) = .outside)
    (hreplayOk : ∀ e, Known fingerprint s.shared.successes e →
      PhaseOk fingerprint s.shared.successes id (replay e))
    (hnext : stage next = .outside) (hok : PhaseOk fingerprint s.shared.successes id next)
    (now : Int) :
    DefaultInvariant fingerprint (s.after id request s.shared
      (inspect request (lookup s.shared.row request.ttlMs now) replay next)) := by
  refine hs.quiet hrequest rfl rfl rfl ?_ (phaseOk_inspect ?_ hok)
  · rw [hfrom]
    exact stage_inspect request _ hreplay hnext
  · intro e he
    obtain ⟨hfingerprint, hknown⟩ := hs.row.lookup he
    exact ⟨hfingerprint.trans (hs.same id request hrequest).symm,
      fun hstatus => hreplayOk e (hknown hstatus)⟩

theorem phaseOk_finish (h : ResultOk successes id result) (locked : Bool) :
    PhaseOk fingerprint successes id (finish locked result) := by
  cases locked with
  | false => exact h
  | true => exact h

theorem stage_finish_ne_fresh (locked : Bool) (result : Result) :
    stage (finish locked result) ≠ .fresh := by
  cases locked <;> simp [finish, stage]

theorem DefaultInvariant.succeed (hs : DefaultInvariant fingerprint s)
    (hrequest : s.requests.get? id = some request) (hfresh : stage request.phase = .fresh)
    {outcome : HandlerOutcome} (hstorable : outcome.storable = some response) (locked : Bool)
    (now : Int) :
    DefaultInvariant fingerprint (s.after id request
      { s.shared with successes := s.shared.successes ++ [(id, response)] }
      (.set locked outcome (completedEntry request response now))) := by
  have hsame := hs.same id request hrequest
  have hempty := hs.first id request hrequest hfresh
  have hothers := hs.alone hrequest (by rw [hfresh]; decide)
  have hgrow : s.shared.successes ⊆ s.shared.successes ++ [(id, response)] :=
    List.subset_append_left _ _
  refine hs.moved hsame hgrow ?_ ?_ (hs.row.mono hgrow) (fun _ => hothers) ?_ ?_ ?_ ?_
  · exact ⟨hsame, rfl, List.mem_concat_self, hstorable⟩
  · intro entry hentry
    exact (hs.cache entry hentry).mono hgrow
  · intro h
    cases h
  · intro i r hi hr h
    rw [hothers i r hi hr] at h
    cases h
  · intro _
    exact .inr (.inl rfl)
  · change (s.shared.successes ++ [(id, response)]).length ≤ 1
    rw [hempty]
    exact Nat.le_refl 1

theorem DefaultInvariant.cached (hs : DefaultInvariant fingerprint s)
    (hrequest : s.requests.get? id = some request) {entry : StoredEntry}
    (hknown : Known fingerprint s.shared.successes entry)
    (hphase : PhaseOk fingerprint s.shared.successes id phase)
    (hfrom : stage phase ≠ .outside → stage request.phase ≠ .outside) (hto : stage phase ≠ .fresh) :
    DefaultInvariant fingerprint
      (s.after id request { s.shared with cache := some entry } phase) := by
  refine hs.moved (hs.same id request hrequest) (List.Subset.refl _) hphase ?_ hs.row ?_ ?_ ?_ ?_
    hs.once
  · intro e he
    cases he
    exact hknown
  · intro hinside
    exact hs.alone hrequest (hfrom hinside)
  · intro hfresh
    exact absurd hfresh hto
  · intro i r _ hr hfresh
    exact hs.first i r hr hfresh
  · intro _
    exact .inl (by simp)

theorem resume_defaultInvariant (hdefault : options.durableStrict = false)
    (hs : DefaultInvariant fingerprint s) (hrequest : s.requests.get? id = some request)
    (hhonest : honest options fingerprint s (.reply id reply) = true)
    (halone : entersAlone options s (.reply id reply) = true)
    (h : resume options s.shared id request reply = some (shared, phase)) :
    DefaultInvariant fingerprint (s.after id request shared phase) := by
  have hphase := hs.phase id request hrequest
  simp only [honest, hrequest] at hhonest
  cases reply with
  | entry entry =>
    have hentry : entry = s.shared.cache := of_decide_eq_true hhonest
    simp only [resume] at h
    split at h
    · rename_i hp
      cases h
      exact hs.entry hrequest hentry (by rw [hp]; rfl) rfl trivial
    · rename_i attempt hp
      cases h
      exact hs.entry hrequest hentry (by rw [hp]; rfl) rfl trivial
    · cases h
  | granted granted =>
    simp only [resume] at h
    split at h
    · rename_i hp
      simp only [hp, if_true, Bool.and_eq_true, Bool.or_eq_true, decide_eq_true_eq] at hhonest
      split at h
      · rename_i hgranted
        cases h
        have henters : enters options request.phase (.granted granted) = true := by
          rw [hp]
          exact hgranted
        exact hs.enter hrequest halone henters rfl rfl rfl trivial
      · rename_i hrefused
        cases h
        have hwait : waitFrom options 0 = .waitGet 0 := by
          rw [waitFrom, if_pos (hhonest.2.resolve_left hrefused)]
        rw [hwait]
        exact hs.quiet hrequest rfl rfl rfl (by rw [hp]; rfl) trivial
    · rename_i attempt hp
      split at h
      · cases h
        exact hs.quiet hrequest rfl rfl rfl (by rw [hp]; rfl) trivial
      · rename_i hfree
        cases h
        have henters : enters options request.phase (.granted granted) = true := by
          rw [hp]
          simpa [enters] using hfree
        rw [waitedInVain_default hdefault]
        exact hs.enter hrequest halone henters rfl rfl rfl trivial
    · cases h
  | settled =>
    simp only [resume] at h
    split at h
    · rename_i entry hp
      cases h
      rw [hp] at hphase
      exact hs.cached hrequest hphase hphase.2.2 (fun h => absurd rfl h) (by simp [replayed, stage])
    · rename_i attempt hp
      cases h
      by_cases hnext : attempt + 1 < options.waitAttempts
      · rw [waitFrom, if_pos hnext]
        exact hs.quiet hrequest rfl rfl rfl (by rw [hp]; rfl) trivial
      · have henters : enters options request.phase .settled = true := by
          rw [hp]
          simpa [enters] using hnext
        rw [waitFrom, if_neg hnext, waitedInVain_default hdefault]
        exact hs.enter hrequest halone henters rfl rfl rfl trivial
    · rename_i locked outcome entry hp
      cases h
      rw [hp] at hphase
      refine hs.cached hrequest ⟨hphase.1, hphase.2.1, id, hphase.2.2.1⟩ hphase ?_ (by simp [stage])
      intro _
      rw [hp]
      simp [stage]
    · rename_i result hp
      cases h
      rw [hp] at hphase
      refine hs.leave hrequest ?_ rfl rfl hs.row hphase ?_ (by simp [stage])
      · rw [hp]
        simp [stage]
      · rw [hp]
        simp [stage]
    · cases h
  | store now =>
    simp only [resume] at h
    split at h
    · rename_i hp
      cases h
      exact hs.read hrequest .setReplay .acquireLock (by rw [hp]; rfl) (fun _ => rfl)
        (fun _ hknown => hknown) rfl trivial now
    · rename_i attempt hp
      cases h
      exact hs.read hrequest replayed (.waitIsLocked attempt) (by rw [hp]; rfl) (fun _ => rfl)
        (fun _ hknown => hknown.2.2) rfl trivial now
    · rename_i hp
      simp only [hdefault, Bool.and_false, Bool.false_eq_true, if_false] at h
      cases h
      have hfresh : stage request.phase = .fresh := by rw [hp]; rfl
      have hothers := hs.alone hrequest (by rw [hfresh]; decide)
      have hsame := hs.same id request hrequest
      refine hs.moved hsame (List.Subset.refl _) trivial hs.cache ?_ (fun _ => hothers) ?_ ?_ ?_
        hs.once
      · rw [hsame]
        exact rowKnown_reserve hs.row request.ttlMs now
      · intro _
        exact hs.first id request hrequest hfresh
      · intro i r _ hr h
        exact hs.first i r hr h
      · intro hne
        exact absurd (hs.first id request hrequest hfresh) hne
    · rename_i locked outcome entry hp
      cases h
      rw [hp] at hphase
      refine hs.leave hrequest ?_ rfl rfl
        (rowKnown_persistResponse hs.row hphase.2.2.1 request.ttlMs now) (phaseOk_finish ?_ locked)
        ?_ (stage_finish_ne_fresh _ _)
      · rw [hp]
        simp [stage]
      · intro response hstorable
        cases hphase.2.2.2.symm.trans hstorable
        exact hphase.2.2.1
      · rw [hp]
        simp [stage]
    · rename_i locked outcome hp
      cases h
      rw [hp] at hphase
      refine hs.leave hrequest ?_ rfl rfl (rowKnown_clearReservation hs.row)
        (phaseOk_finish ?_ locked) ?_ (stage_finish_ne_fresh _ _)
      · rw [hp]
        simp [stage]
      · intro response hstorable
        cases (show outcome.storable = none from hphase).symm.trans hstorable
      · rw [hp]
        simp [stage]
    · cases h
  | handler outcome now =>
    simp only [resume] at h
    split at h
    · rename_i locked hp
      have hfresh : stage request.phase = .fresh := by rw [hp]; rfl
      split at h
      · rename_i response hstorable
        cases h
        exact hs.succeed hrequest hfresh hstorable locked now
      · rename_i hstorable
        cases h
        exact hs.quiet hrequest rfl rfl rfl hfresh.symm hstorable
    · cases h
  | rejected => cases hhonest

theorem honestStep_defaultInvariant (hdefault : options.durableStrict = false) (s : System)
    (a : Label) (s' : System) (hs : DefaultInvariant fingerprint s)
    (halone : entersAlone options s a = true) (h : honestStep options fingerprint s a = some s') :
    DefaultInvariant fingerprint s' := by
  unfold honestStep at h
  split at h
  · rename_i hhonest
    rcases step_cases h with ⟨id, arriving, ttlMs, rfl, hfree, rfl⟩ |
      ⟨id, reply, request, shared, phase, rfl, hrequest, hresume, rfl⟩
    · have hsame : arriving = fingerprint := of_decide_eq_true hhonest
      refine hs.moved hsame (List.Subset.refl _) trivial hs.cache hs.row ?_ ?_ ?_ ?_ hs.once
      · intro hinside
        exact absurd rfl hinside
      · intro hfresh
        cases hfresh
      · intro i r _ hr hfresh
        exact hs.first i r hr hfresh
      · intro hne
        rcases hs.stored hne with hsome | ⟨i, r, hr, hholding⟩
        · exact .inl hsome
        · refine .inr (.inr ⟨i, r, ?_, hr, hholding⟩)
          rintro rfl
          rw [hfree] at hr
          cases hr
    · exact resume_defaultInvariant hdefault hs hrequest hhonest halone hresume
  · cases h

/-- In the default mode, while each request enters alone, at most one handler run succeeds, and the
other requests get its response, unless their own handler run failed. -/
theorem handled_once_of_entersAlone (options : Options) (hdefault : options.durableStrict = false)
    (fingerprint : String) (labels : List Label) (s : System)
    (halone : RunMeets (honestStep options fingerprint) (fun s a => entersAlone options s a = true)
      (System.start none) labels)
    (hrun : run (honestStep options fingerprint) (System.start none) labels = some s) :
    HandledOnce s := by
  have hs : DefaultInvariant fingerprint s :=
    run_invariant_of_meets (honestStep_defaultInvariant hdefault) (defaultInvariant_start fingerprint)
      halone hrun
  refine ⟨hs.once, ?_⟩
  intro id request result hrequest hdone
  have hphase := hs.phase id request hrequest
  rw [hdone] at hphase
  exact hphase

/-- The second request arrives after the first one has answered. -/
def sequentialRun : List Label :=
  lookAhead 1 ++ handleLocked 1 ++
    [.arrive 2 "f" 60000, .reply 2 (.entry (some ⟨"f", some 201, "{}", [], 60002, .completed⟩))]

theorem handled_once_sequentialRun :
    ∃ s, run (honestStep ⟨false, 12⟩ "f") (System.start none) sequentialRun = some s ∧
      s.shared.successes = [(1, sampleResponse)] ∧
      (s.requests.get? 2).map Request.phase = some (.done (.replayed sampleResponse)) ∧
      HandledOnce s := by
  have hrun : (run (honestStep ⟨false, 12⟩ "f") (System.start none) sequentialRun).map (fun s =>
      (s.shared.successes, (s.requests.get? 2).map Request.phase)) =
      some ([(1, sampleResponse)], some (.done (.replayed sampleResponse))) := by
    decide
  obtain ⟨s, hs, hfields⟩ := Option.map_eq_some_iff.mp hrun
  rw [Prod.mk.injEq] at hfields
  have halone : RunMeets (honestStep ⟨false, 12⟩ "f")
      (fun s a => entersAlone ⟨false, 12⟩ s a = true) (System.start none) sequentialRun := by
    decide
  exact ⟨s, hs, hfields.1, hfields.2,
    handled_once_of_entersAlone ⟨false, 12⟩ rfl "f" sequentialRun s halone hs⟩

/-- Both requests look before the first one runs; the second is granted the released lock. -/
def earlyLookupRun : List Label :=
  lookAhead 1 ++ lookAhead 2 ++ handleLocked 1 ++ handleLocked 2

theorem handled_twice_earlyLookupRun :
    ¬ ∀ s, run (honestStep ⟨false, 12⟩ "f") (System.start none) earlyLookupRun = some s →
      HandledOnce s := by
  have hrun : (run (honestStep ⟨false, 12⟩ "f") (System.start none) earlyLookupRun).map (fun s =>
      s.shared.successes.length) = some 2 := by
    decide
  obtain ⟨s, hs, hlength⟩ := Option.map_eq_some_iff.mp hrun
  intro h
  have honce := (h s hs).1
  rw [hlength] at honce
  omega

end Stynx.IdempotencyInterceptorRuns
