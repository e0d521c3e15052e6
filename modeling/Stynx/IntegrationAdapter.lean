import Mathlib.Data.List.Infix

/-!
# Attempts of an integration adapter

`IntegrationAdapter.execute` of `packages/integration-adapter/src/index.ts`. One `try`
holds the request, the storing of its result, the circuit breaker and the telemetry,
so a response that has been obtained is treated as a failure when one of the steps
after it throws.
-/

namespace Stynx.IntegrationAdapter

variable {R : Type}

structure Config where
  /-- There is an idempotency key, and it is not empty. -/
  keyed : Bool
  /-- There is a key of the circuit breaker. -/
  guarded : Bool
  /-- `none` is `Infinity`; what is not a number allows no attempt, like zero. -/
  maxAttempts : Option Rat

/-- What the ports do on one attempt; a step that does not return throws. -/
structure Attempt (R : Type) where
  emitStart : Bool
  /-- What the request and `parseResponse` come to, `undefined` or not, if neither throws. -/
  response : Option (Option R)
  setReturns : Bool
  /-- `set` has stored the result even if it throws. -/
  setStores : Bool
  recordSuccess : Bool
  emitSuccess : Bool
  recordFailure : Bool
  /-- What `retryable` says, unless it throws. -/
  retryable : Option Bool
  emitRetry : Bool
  sleep : Bool

structure Ports (R : Type) where
  /-- `idempotencyStore.get`, unless it throws. -/
  existing : Option (Option R)
  beforeRequest : Bool
  attempt : Nat → Attempt R

inductive Event (R : Type) where
  | request (attempt : Nat)
  /-- The response has been obtained and parsed. -/
  | parsed (attempt : Nat) (result : Option R)
  | stored (result : Option R)
  | recordFailure (attempt : Nat)

def Config.allows (c : Config) (n : Nat) : Bool :=
  c.maxAttempts.all fun limit => decide ((n : Int) * limit.den ≤ limit.num)

def shouldRetry (c : Config) (n : Nat) (a : Attempt R) : Bool :=
  !(c.maxAttempts.any fun limit => decide (limit.num ≤ (n : Int) * limit.den)) && a.retryable = some true

/-- No step after the response throws. -/
def Attempt.kept (c : Config) (a : Attempt R) : Bool :=
  (!c.keyed || a.setReturns) && (!c.guarded || a.recordSuccess) && a.emitSuccess

def Attempt.stores (c : Config) (a : Attempt R) : Bool :=
  c.keyed && (a.setReturns || a.setStores)

def Attempt.storing (c : Config) (a : Attempt R) (result : Option R) : List (Event R) :=
  if a.stores c then [.stored result] else []

/-- The `catch` of an attempt comes to its end. -/
def retries (c : Config) (n : Nat) (a : Attempt R) : Bool :=
  (!c.guarded || a.recordFailure) && shouldRetry c n a && a.emitRetry && a.sleep

/-- What is done on an attempt, and whether the loop goes on. -/
def runAttempt (c : Config) (n : Nat) (a : Attempt R) : List (Event R) × Bool :=
  let failed := if c.guarded then [Event.recordFailure n] else []
  if a.emitStart then
    match a.response with
    | none => (.request n :: failed, retries c n a)
    | some result =>
      if a.kept c then (.request n :: .parsed n result :: a.storing c result, false)
      else (.request n :: .parsed n result :: (a.storing c result ++ failed), retries c n a)
  else ([], false)

/-- The loop, for a number of attempts. -/
def attempts (c : Config) (o : Nat → Attempt R) : Nat → Nat → List (Event R)
  | 0, _ => []
  | left + 1, n =>
    if c.allows n then
      (runAttempt c n (o n)).1 ++ if (runAttempt c n (o n)).2 then attempts c o left (n + 1) else []
    else []

/-- `execute` comes to its loop: there is no stored result, and the circuit is closed. -/
def Opens (c : Config) (ports : Ports R) : Prop :=
  (c.keyed = true → ports.existing = some none) ∧ (c.guarded = true → ports.beforeRequest = true)

/-- What `execute` has done after a number of attempts. -/
inductive Executes (c : Config) (ports : Ports R) : List (Event R) → Prop
  | ended : ¬ Opens c ports → Executes c ports []
  | loop (left : Nat) : Opens c ports → Executes c ports (attempts c ports.attempt left 1)

/-- After a response no request is sent and its attempt is not reported as a failure; if the result
was stored, a later call sends no request. -/
def LawfulEvents (c : Config) (events : List (Event R)) : Prop :=
  ∀ n result after, .parsed n result :: after <:+ events →
    (∀ m, .request m ∉ after) ∧ .recordFailure n ∉ after ∧
      (.stored result ∈ after → ∀ later : Ports R,
        later.existing = none ∨ later.existing = some result →
          ∀ events', Executes c later events' → ∀ m, .request m ∉ events')

/-- The law of all runs of one call. -/
def Lawful (c : Config) (ports : Ports R) : Prop :=
  ∀ events, Executes c ports events → LawfulEvents c events

/-- All attempts before this one have sent a request that failed, and were retried. -/
inductive Reached (c : Config) (o : Nat → Attempt R) : Nat → Prop
  | first : Reached c o 1
  | next {n : Nat} : Reached c o n → c.allows n = true → (o n).emitStart = true →
      (o n).response = none → retries c n (o n) = true → Reached c o (n + 1)

def Starts (c : Config) (o : Nat → Attempt R) (n : Nat) : Prop :=
  c.allows n = true ∧ (o n).emitStart = true

/-- The steps after a response return, or without a circuit breaker no attempt follows; a stored
result is not `undefined`. -/
def Settles (c : Config) (o : Nat → Attempt R) (n : Nat) (result : Option R) : Prop :=
  ((o n).kept c = true ∨ c.guarded = false ∧ (retries c n (o n) = true → ¬ Starts c o (n + 1))) ∧
    ((o n).stores c = true → result ≠ none)

variable {c : Config} {o : Nat → Attempt R} {n : Nat}

theorem attempts_of_not_starts (h : ¬ Starts c o n) (left : Nat) : attempts c o left n = [] := by
  cases left with
  | zero => rfl
  | succ left =>
    rw [attempts]
    split
    · have hstart : (o n).emitStart = false := Bool.eq_false_iff.mpr fun hemit => h ⟨‹_›, hemit⟩
      simp [runAttempt, hstart]
    · rfl

theorem LawfulEvents.cons {event : Event R} {events : List (Event R)}
    (hevent : ∀ n result, event ≠ .parsed n result) (h : LawfulEvents c events) :
    LawfulEvents c (event :: events) := by
  intro n result after hafter
  rcases List.suffix_cons_iff.mp hafter with heq | hafter
  · exact absurd (List.cons.inj heq).1.symm (hevent n result)
  · exact h n result after hafter

theorem no_request_later {result : Option R} (hkeyed : c.keyed = true) (hresult : result ≠ none)
    {later : Ports R} (hexisting : later.existing = none ∨ later.existing = some result)
    {events : List (Event R)} (h : Executes c later events) (m : Nat) : .request m ∉ events := by
  cases h with
  | ended => exact List.not_mem_nil
  | loop left hopens =>
    rcases hexisting with hnone | hsome
    · cases hnone.symm.trans (hopens.1 hkeyed)
    · exact absurd (Option.some.inj (hsome.symm.trans (hopens.1 hkeyed))) hresult

theorem attempts_of_settles {result : Option R} (hstarts : Starts c o n)
    (hresponse : (o n).response = some result) (hsettles : Settles c o n result) (left : Nat) :
    attempts c o (left + 1) n = .request n :: .parsed n result :: (o n).storing c result := by
  have hrest : (o n).kept c = false → retries c n (o n) = true →
      attempts c o left (n + 1) = [] := fun hkept hretries =>
    attempts_of_not_starts ((hsettles.1.resolve_left (by simp [hkept])).2 hretries) left
  rw [attempts, if_pos hstarts.1, runAttempt, if_pos hstarts.2, hresponse]
  cases hkept : (o n).kept c with
  | true => simp
  | false =>
    have hguarded : c.guarded = false := (hsettles.1.resolve_left (by simp [hkept])).1
    cases hretries : retries c n (o n) with
    | true => simp [hguarded, hrest hkept hretries]
    | false => simp [hguarded]

theorem attempts_of_failure (hstarts : Starts c o n) (hresponse : (o n).response = none)
    (left : Nat) : attempts c o (left + 1) n = .request n ::
      ((if c.guarded then [.recordFailure n] else []) ++
        if retries c n (o n) then attempts c o left (n + 1) else []) := by
  rw [attempts, if_pos hstarts.1, runAttempt, if_pos hstarts.2, hresponse]
  rfl

theorem lawful_attempts (h : ∀ n result, Reached c o n → Starts c o n →
    (o n).response = some result → Settles c o n result) (left : Nat) {n : Nat}
    (hreached : Reached c o n) : LawfulEvents c (attempts c o left n) := by
  have hnil : LawfulEvents c ([] : List (Event R)) := fun _ _ _ hafter => by
    cases List.suffix_nil.mp hafter
  induction left generalizing n with
  | zero => exact hnil
  | succ left ih =>
    by_cases hstarts : Starts c o n
    · cases hresponse : (o n).response with
      | none =>
        rw [attempts_of_failure hstarts hresponse]
        refine .cons (fun _ _ heq => by cases heq) ?_
        have hrest : LawfulEvents c
            (if retries c n (o n) then attempts c o left (n + 1) else []) := by
          split
          · exact ih (.next hreached hstarts.1 hstarts.2 hresponse ‹_›)
          · exact hnil
        cases c.guarded with
        | true => exact .cons (fun _ _ heq => by cases heq) hrest
        | false => exact hrest
      | some result =>
        have hsettles := h n result hreached hstarts hresponse
        rw [attempts_of_settles hstarts hresponse hsettles]
        refine .cons (fun _ _ heq => by cases heq) fun m result' after hafter => ?_
        rcases List.suffix_cons_iff.mp hafter with heq | hafter
        · cases heq
          rw [Attempt.storing]
          cases hstores : (o n).stores c with
          | false => simp
          | true =>
            refine ⟨by simp, by simp, fun _ later hexisting events => ?_⟩
            have hkeyed : c.keyed = true := (Bool.and_eq_true_iff.mp hstores).1
            exact no_request_later hkeyed (hsettles.2 hstores) hexisting
        · have hmem := hafter.subset (.head _)
          rw [Attempt.storing] at hmem
          split at hmem <;> simp at hmem
    · rw [attempts_of_not_starts hstarts]
      exact hnil

theorem suffix_of_reached (hreached : Reached c o n) (left : Nat) :
    ∃ left', attempts c o left n <:+ attempts c o left' 1 := by
  induction hreached generalizing left with
  | first => exact ⟨left, List.suffix_refl _⟩
  | @next n hreached hallows hemit hresponse hretries ih =>
    obtain ⟨left', hsuffix⟩ := ih (left + 1)
    refine ⟨left', .trans ?_ hsuffix⟩
    rw [attempts_of_failure ⟨hallows, hemit⟩ hresponse, if_pos hretries]
    exact (List.suffix_append _ _).trans (List.suffix_cons _ _)

theorem Reached.allows_one (hreached : Reached c o n) (h : c.allows n = true) :
    c.allows 1 = true := by
  induction hreached with
  | first => exact h
  | next _ hallows _ _ _ ih => exact ih hallows

theorem request_mem_attempts (hstarts : Starts c o n) (left : Nat) :
    .request n ∈ attempts c o (left + 1) n := by
  rw [attempts, if_pos hstarts.1, List.mem_append, runAttempt, if_pos hstarts.2]
  left
  split
  · exact .head _
  · split <;> exact .head _

theorem attempts_of_response {result : Option R} (hstarts : Starts c o n)
    (hresponse : (o n).response = some result) (left : Nat) :
    ∃ after, attempts c o (left + 1) n = .request n :: .parsed n result :: after ∧
      ((o n).stores c = true → .stored result ∈ after) ∧
      ((o n).kept c = false → (c.guarded = true → .recordFailure n ∈ after) ∧
        (retries c n (o n) = true → attempts c o left (n + 1) ⊆ after)) := by
  rw [attempts, if_pos hstarts.1, runAttempt, if_pos hstarts.2, hresponse]
  have hstoring : (o n).stores c = true → Event.stored result ∈ (o n).storing c result :=
    fun hstores => by simp [Attempt.storing, hstores]
  cases (o n).kept c with
  | true =>
    simp only [if_true, Bool.false_eq_true, if_false, List.append_nil]
    exact ⟨_, rfl, hstoring, fun hkept => by cases hkept⟩
  | false =>
    simp only [Bool.false_eq_true, if_false, List.cons_append]
    refine ⟨_, rfl, fun hstores => ?_, fun _ => ⟨fun hguarded => ?_, fun hretries => ?_⟩⟩
    · simp [hstoring hstores]
    · simp [hguarded]
    · rw [if_pos hretries]
      exact List.subset_append_right _ _

theorem settles_of_lawful {ports : Ports R} (hopens : Opens c ports) (hlawful : Lawful c ports)
    {result : Option R} (hreached : Reached c ports.attempt n) (hstarts : Starts c ports.attempt n)
    (hresponse : (ports.attempt n).response = some result) :
    Settles c ports.attempt n result := by
  obtain ⟨left, hsuffix⟩ := suffix_of_reached hreached 2
  obtain ⟨after, heq, hstored, hunkept⟩ := attempts_of_response hstarts hresponse 1
  rw [heq] at hsuffix
  obtain ⟨hrequest, hfailure, hlater⟩ :=
    hlawful _ (.loop left hopens) n result after ((List.suffix_cons _ _).trans hsuffix)
  constructor
  · cases hkept : (ports.attempt n).kept c with
    | true => exact .inl rfl
    | false =>
      obtain ⟨hguarded, hretries⟩ := hunkept hkept
      refine .inr ⟨Bool.eq_false_iff.mpr fun h => hfailure (hguarded h), fun h hagain => ?_⟩
      exact hrequest (n + 1) (hretries h (request_mem_attempts hagain 0))
  · rintro hstores rfl
    have hagain : Starts c (fun _ => ports.attempt n) 1 := ⟨hreached.allows_one hstarts.1, hstarts.2⟩
    exact hlater (hstored hstores) ⟨some none, true, fun _ => ports.attempt n⟩ (.inr rfl) _
      (.loop 1 ⟨fun _ => rfl, fun _ => rfl⟩) 1 (request_mem_attempts hagain 0)

/-- The runs of a call keep the law exactly when the call does not come to its loop, or each response
that it obtains is settled. -/
theorem lawful_iff (c : Config) (ports : Ports R) : Lawful c ports ↔
    (Opens c ports → ∀ n result, Reached c ports.attempt n → Starts c ports.attempt n →
      (ports.attempt n).response = some result → Settles c ports.attempt n result) := by
  constructor
  · intro hlawful hopens n result hreached hstarts hresponse
    exact settles_of_lawful hopens hlawful hreached hstarts hresponse
  · intro h events hevents
    cases hevents with
    | ended =>
      intro n result after hafter
      cases List.suffix_nil.mp hafter
    | loop left hopens => exact lawful_attempts (h hopens) left .first

/-- Each request is answered, and nothing throws but the telemetry after the response. -/
def silentTelemetry : Ports Nat where
  existing := some none
  beforeRequest := true
  attempt _ := ⟨true, some (some 0), true, true, true, false, true, some true, true, true⟩

/-- The request is sent again when the telemetry fails. -/
theorem answered_request_resent : ¬ ∀ (c : Config) (ports : Ports Nat), Lawful c ports := by
  intro h
  have hlaw := h ⟨true, false, some 2⟩ silentTelemetry _
    (.loop 2 ⟨fun _ => rfl, fun hguarded => by cases hguarded⟩) 1 (some 0)
    [.stored (some 0), .request 2, .parsed 2 (some 0), .stored (some 0)]
    (List.suffix_cons (Event.request 1) _)
  exact hlaw.1 2 (.tail _ (.head _))

end Stynx.IntegrationAdapter
