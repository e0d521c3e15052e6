import Stynx.OrderedMap
import Stynx.SlidingWindows
import Stynx.TransitionRuns

/-!
# The Redis rate limit

`packages/ratelimit/src/redis-rate-limit.store.ts`: a script that Redis runs
atomically keeps the admissions of a key in a sorted set, their costs in a hash
and the sum of the costs in a counter of its own. Any number of store instances
call it with the time of their own clock; the keys expire by the clock of Redis.
-/

namespace Stynx.RedisRateLimit

open TransitionRuns SlidingWindows OrderedMap

inductive RateLimitBucket where
  | ip
  | tenant
  | user
  | route

def RateLimitBucket.text : RateLimitBucket → String
  | .ip => "ip"
  | .tenant => "tenant"
  | .user => "user"
  | .route => "route"

/-- The fields of `RateLimitDecisionContext` that the store reads. -/
structure RateLimitDecisionContext where
  bucket : RateLimitBucket
  scope : String
  bucketKey : String
  ttlMs : Nat
  limit : Nat
  cost : Nat

structure RateLimitDecision where
  allowed : Bool
  limit : Nat
  remaining : Int
  /-- When the oldest admission leaves the window. -/
  resetAtEpochMs : Int
  retryAfterSeconds : Int
  used : Int

def baseKey (keyPrefix : Option String) (context : RateLimitDecisionContext) : String :=
  keyPrefix.getD "stynx:ratelimit" ++ ":" ++ context.bucket.text ++ ":" ++ context.scope ++ ":" ++
    context.bucketKey

/-- The three keys of one base key. They are written, and expire, together. -/
structure Counter where
  /-- `events`: the members with their scores. -/
  events : OrderedMap String Nat := .empty
  /-- `weights`: the costs of the members. -/
  weights : OrderedMap String Nat := .empty
  total : Int := 0
  expiresAt : Option Nat := none

/-- What Redis finds at a time of its clock: keys past their expiry are gone. -/
def live (c : Counter) (redisTime : Nat) : Counter :=
  if c.expiresAt.any fun deadline => deadline < redisTime then {} else c

def weight (c : Counter) (member : String) : Nat := (c.weights.get? member).getD 0

/-- The members up to a score. -/
def expired (c : Counter) (minScore : Int) : List String :=
  (c.events.filter fun event => event.2 ≤ minScore).entries.map Prod.fst

def removedCost (c : Counter) (minScore : Int) : Nat := ((expired c minScore).map (weight c)).sum

/-- Without the members up to a score. -/
def prune (c : Counter) (minScore : Int) : Counter :=
  { c with
    events := c.events.filter fun event => minScore < event.2
    weights := (expired c minScore).foldl OrderedMap.delete c.weights
    total := c.total - removedCost c minScore }

def addMember (c : Counter) (redisTime now windowMs cost : Nat) (member : String) : Counter where
  events := c.events.set member now
  weights := c.weights.set member cost
  total := c.total + cost
  expiresAt := some (redisTime + max (windowMs * 2) 1000)

/-- When the oldest member leaves the window. -/
def resetAt (c : Counter) (now windowMs : Nat) : Nat :=
  match (c.events.entries.map Prod.snd).min? with
  | some oldest => oldest + windowMs
  | none => now + windowMs

/-- `math.max(1, math.ceil(x / 1000))`. -/
def seconds (x : Int) : Int := max 1 (-(-x / 1000))

def reply (allowed : Bool) (c : Counter) (now windowMs limit : Nat) : RateLimitDecision where
  allowed := allowed
  limit := limit
  remaining := max (limit - c.total) 0
  resetAtEpochMs := resetAt c now windowMs
  retryAfterSeconds := seconds (resetAt c now windowMs - now)
  used := c.total

/-- The script. `unpack` fails, before anything is written, for more members than the stack takes.
-/
def slidingWindow (unpackLimit : Nat) (c : Counter) (redisTime now windowMs limit cost : Nat)
    (member : String) : Counter × Option RateLimitDecision :=
  let found := live c redisTime
  let minScore : Int := now - windowMs
  if unpackLimit < (expired found minScore).length then (found, none)
  else
    let kept := prune found minScore
    if kept.total + cost > limit then (kept, some (reply false kept now windowMs limit))
    else
      let admitted := addMember kept redisTime now windowMs cost member
      (admitted, some (reply true admitted now windowMs limit))

structure Instance where
  keyPrefix : Option String
  sequence : Nat

/-- A call of `consume` that has come to its end. -/
structure Consumption where
  key : String
  now : Nat
  redisTime : Nat
  windowMs : Nat
  limit : Nat
  cost : Nat
  /-- What was returned, unless the script has failed. -/
  decision : Option RateLimitDecision

/-- The instances, the keys of the Redis that they share, and the calls so far. -/
structure Redis where
  instances : List Instance := []
  counters : OrderedMap String Counter := .empty
  /-- The calls in the order in which Redis has run them. -/
  calls : List Consumption := []

inductive Label where
  /-- A store instance starts. -/
  | connect (keyPrefix : Option String)
  /-- An instance is asked at a time of its clock, and Redis runs the script at one of its own. -/
  | consume (index : Nat) (context : RateLimitDecisionContext) (now redisTime : Nat)

def maxSafeInteger : Nat := 9007199254740991

def consume (unpackLimit : Nat) (s : Redis) (index : Nat) (store : Instance)
    (context : RateLimitDecisionContext) (now redisTime : Nat) : Redis :=
  let key := baseKey store.keyPrefix context
  let sequence := (store.sequence + 1) % maxSafeInteger
  let (after, decision) := slidingWindow unpackLimit ((s.counters.get? key).getD {}) redisTime now
    context.ttlMs context.limit context.cost (toString now ++ ":" ++ toString sequence)
  { instances := s.instances.set index { store with sequence := sequence }
    counters := s.counters.set key after
    calls := s.calls ++ [{
      key, now, redisTime, windowMs := context.ttlMs, limit := context.limit, cost := context.cost
      decision }] }

def step (unpackLimit : Nat) (s : Redis) : Label → Option Redis
  | .connect keyPrefix => some { s with instances := s.instances ++ [⟨keyPrefix, 0⟩] }
  | .consume index context now redisTime =>
    s.instances[index]?.map fun store => consume unpackLimit s index store context now redisTime

variable {c : Counter} {m cutoff : Int} {redisTime now windowMs cost : Nat} {member : String}

theorem removedCost_eq_sum (c : Counter) (cutoff : Int) :
    removedCost c cutoff =
      ((c.events.entries.filter fun event => event.2 ≤ cutoff).map
        fun event => weight c event.1).sum := by
  rw [removedCost, expired, List.map_map]
  rfl

theorem removedCost_eq_ite (c : Counter) (cutoff : Int) :
    removedCost c cutoff = (c.events.entries.map fun event =>
      if event.2 ≤ cutoff then weight c event.1 else 0).sum := by
  rw [removedCost_eq_sum]
  induction c.events.entries with
  | nil => rfl
  | cons event rest ih =>
    rw [List.filter_cons, List.map_cons, List.sum_cons, ← ih]
    by_cases h : event.2 ≤ cutoff
    · simp [h]
    · simp [h]

theorem weight_prune {event : String × Nat} (hevent : event ∈ c.events.entries)
    (hstays : m < event.2) : weight (prune c m) event.1 = weight c event.1 := by
  have hother : event.1 ∉ expired c m := by
    intro hexpired
    obtain ⟨other, hother, hname⟩ := List.mem_map.mp hexpired
    obtain ⟨hmem, hscore⟩ := List.mem_filter.mp hother
    have hsame : other = event := List.inj_on_of_nodup_map c.events.nodup hmem hevent hname
    subst hsame
    have hle : (other.2 : Int) ≤ m := of_decide_eq_true hscore
    omega
  exact congrArg (fun found : Option Nat => found.getD 0)
    (OrderedMap.get?_foldl_delete c.weights hother)

theorem removedCost_prune (h : m ≤ cutoff) :
    removedCost (prune c m) cutoff + removedCost c m = removedCost c cutoff := by
  have hkept : removedCost (prune c m) cutoff = ((c.events.entries.filter fun event =>
      m < event.2 ∧ event.2 ≤ cutoff).map fun event => weight c event.1).sum := by
    rw [removedCost_eq_sum]
    refine congrArg List.sum ?_
    have hfilter : (prune c m).events.entries.filter (fun event => event.2 ≤ cutoff) =
        c.events.entries.filter fun event => m < event.2 ∧ event.2 ≤ cutoff := by
      rw [prune, OrderedMap.filter, List.filter_filter]
      refine List.filter_congr fun event _ => ?_
      rw [Bool.decide_and, Bool.and_comm]
    rw [hfilter]
    refine List.map_congr_left fun event hevent => ?_
    obtain ⟨hmem, hscore⟩ := List.mem_filter.mp hevent
    exact weight_prune hmem (of_decide_eq_true hscore).1
  rw [hkept, removedCost_eq_sum, removedCost_eq_sum]
  induction c.events.entries with
  | nil => rfl
  | cons event rest ih =>
    simp only [List.filter_cons, decide_eq_true_eq]
    by_cases hm : (event.2 : Int) ≤ m
    · have hnot : ¬ (m < event.2 ∧ (event.2 : Int) ≤ cutoff) := fun hboth => by omega
      rw [if_neg hnot, if_pos hm, if_pos (hm.trans h), List.map_cons, List.map_cons,
        List.sum_cons, List.sum_cons, ← ih]
      omega
    · by_cases hcutoff : (event.2 : Int) ≤ cutoff
      · rw [if_pos ⟨by omega, hcutoff⟩, if_neg hm, if_pos hcutoff, List.map_cons, List.map_cons,
          List.sum_cons, List.sum_cons, ← ih]
        omega
      · rw [if_neg fun hboth => hcutoff hboth.2, if_neg hm, if_neg hcutoff]
        exact ih

theorem removedCost_admit :
    removedCost (addMember c redisTime now windowMs cost member) cutoff ≤
      removedCost c cutoff + if (now : Int) ≤ cutoff then cost else 0 := by
  rw [removedCost_eq_ite, removedCost_eq_ite]
  refine (OrderedMap.sum_set_le c.events member now
    (f := fun event => if (event.2 : Int) ≤ cutoff then weight c event.1 else 0) ?_).trans ?_
  · intro event _ hne
    have hweight : weight (addMember c redisTime now windowMs cost member) event.1 =
        weight c event.1 :=
      congrArg (fun found : Option Nat => found.getD 0)
        (get?_set_of_ne c.weights cost (Ne.symm hne))
    rw [hweight]
  · have hweight : weight (addMember c redisTime now windowMs cost member) member = cost :=
      congrArg (fun found : Option Nat => found.getD 0) (get?_set_self c.weights member cost)
    rw [hweight]

def ofKey (key : String) (calls : List Consumption) : List Consumption :=
  calls.filter fun call => call.key = key

def Consumption.allowed (call : Consumption) : Bool :=
  match call.decision with
  | some decision => decision.allowed
  | none => false

def admitted (key : String) (calls : List Consumption) : List Consumption :=
  (ofKey key calls).filter Consumption.allowed

def admittedAfter (key : String) (cutoff : Int) (calls : List Consumption) : Nat :=
  costAfter (fun call => (call.now : Int)) Consumption.cost cutoff (admitted key calls)

/-- The cost of the admissions of a key in the window that ends at a time. -/
def admittedWithin (key : String) (windowMs : Nat) (last : Int) (calls : List Consumption) : Nat :=
  costWithin (fun call => (call.now : Int)) Consumption.cost windowMs last (admitted key calls)

/-- How long the keys live after an admission. -/
def lifetime (windowMs : Nat) : Nat := max (windowMs * 2) 1000

/-- One window and one limit, clock values that do not decrease, and a clock of Redis that does not
run ahead by more than the lifetime of the keys has in reserve. -/
structure Regular (key : String) (windowMs limit : Nat) (calls : List Consumption) : Prop where
  policy : ∀ call ∈ ofKey key calls, call.windowMs = windowMs ∧ call.limit ≤ limit
  /-- Clock values do not decrease. -/
  monotone : (ofKey key calls).Pairwise fun earlier later => earlier.now ≤ later.now
  /-- The clock of Redis advances with the clock values, or by at most the reserve more. -/
  redisClock : (ofKey key calls).Pairwise fun earlier later =>
    later.redisTime + earlier.now ≤ earlier.redisTime + later.now + (lifetime windowMs - windowMs)

instance (key : String) (windowMs limit : Nat) (calls : List Consumption) :
    Decidable (Regular key windowMs limit calls) :=
  decidable_of_iff
    ((∀ call ∈ ofKey key calls, call.windowMs = windowMs ∧ call.limit ≤ limit) ∧
      ((ofKey key calls).Pairwise fun earlier later => earlier.now ≤ later.now) ∧
      (ofKey key calls).Pairwise fun earlier later => later.redisTime + earlier.now ≤
        earlier.redisTime + later.now + (lifetime windowMs - windowMs))
    ⟨fun h => ⟨h.1, h.2.1, h.2.2⟩, fun h => ⟨h.policy, h.monotone, h.redisClock⟩⟩

def counter (s : Redis) (key : String) : Counter := (s.counters.get? key).getD {}

/-- The keys against the admissions. -/
structure Counted (key : String) (windowMs limit : Nat) (s : Redis) : Prop where
  /-- The total covers what has been admitted after a cutoff or is still to be removed. -/
  total : ∀ cutoff : Int, (∀ call ∈ ofKey key s.calls, call.now - windowMs ≤ cutoff) →
    (admittedAfter key cutoff s.calls : Int) + removedCost (counter s key) cutoff ≤
      (counter s key).total
  /-- The keys expire their lifetime after the last admission. -/
  expiry : ∀ deadline ∈ (counter s key).expiresAt, ∃ call ∈ ofKey key s.calls,
    deadline = call.redisTime + lifetime windowMs ∧
      ∀ other ∈ admitted key s.calls, other.now ≤ call.now
  /-- No window has cost more than the limit. -/
  law : ∀ last, admittedWithin key windowMs last s.calls ≤ limit

variable {calls : List Consumption} {call : Consumption} {key : String} {limit : Nat} {s t : Redis}

theorem ofKey_concat_self : ofKey call.key (calls ++ [call]) = ofKey call.key calls ++ [call] := by
  rw [ofKey, List.filter_append, List.filter_singleton, decide_eq_true rfl]
  rfl

theorem ofKey_concat_of_ne (h : call.key ≠ key) :
    ofKey key (calls ++ [call]) = ofKey key calls := by
  rw [ofKey, List.filter_append, List.filter_singleton, decide_eq_false h]
  exact List.append_nil _

theorem admitted_concat_self :
    admitted call.key (calls ++ [call]) =
      admitted call.key calls ++ if call.allowed then [call] else [] := by
  rw [admitted, ofKey_concat_self, List.filter_append, List.filter_singleton]
  cases call.allowed <;> rfl

theorem Regular.init {windowMs : Nat} (h : Regular key windowMs limit (calls ++ [call])) :
    Regular key windowMs limit calls := by
  have hsub : List.Sublist (ofKey key calls) (ofKey key (calls ++ [call])) := by
    rw [ofKey, ofKey, List.filter_append]
    exact List.sublist_append_left _ _
  exact ⟨fun other hother => h.policy other (hsub.subset hother), h.monotone.sublist hsub,
    h.redisClock.sublist hsub⟩

theorem Regular.last {windowMs : Nat} (h : Regular call.key windowMs limit (calls ++ [call])) :
    (call.windowMs = windowMs ∧ call.limit ≤ limit) ∧
      ∀ earlier ∈ ofKey call.key calls, earlier.now ≤ call.now ∧
        call.redisTime + earlier.now ≤
          earlier.redisTime + call.now + (lifetime windowMs - windowMs) := by
  have hpolicy := h.policy
  have hmonotone := h.monotone
  have hclock := h.redisClock
  rw [ofKey_concat_self] at hpolicy hmonotone hclock
  refine ⟨hpolicy call (List.mem_append_right _ (List.mem_singleton_self call)), ?_⟩
  intro earlier hearlier
  exact ⟨(List.pairwise_append.mp hmonotone).2.2 earlier hearlier call (List.mem_singleton_self call),
    (List.pairwise_append.mp hclock).2.2 earlier hearlier call (List.mem_singleton_self call)⟩

theorem Counted.live {windowMs : Nat} (h : Counted key windowMs limit s) {now redisTime : Nat}
    (hlast : ∀ earlier ∈ ofKey key s.calls, earlier.now ≤ now ∧ redisTime + earlier.now ≤
      earlier.redisTime + now + (lifetime windowMs - windowMs))
    {cutoff : Int} (hcutoff : (now : Int) - windowMs ≤ cutoff) :
    (admittedAfter key cutoff s.calls : Int) +
        removedCost (RedisRateLimit.live (counter s key) redisTime) cutoff ≤
      (RedisRateLimit.live (counter s key) redisTime).total := by
  unfold RedisRateLimit.live
  split
  case isTrue hexpired =>
    obtain ⟨deadline, hdeadline, hpast⟩ := (Option.any_eq_true _ _).mp hexpired
    obtain ⟨call, hcall, rfl, hadmitted⟩ := h.expiry deadline hdeadline
    have hclock := (hlast call hcall).2
    have hgone : call.redisTime + lifetime windowMs < redisTime := of_decide_eq_true hpast
    have hnone : admittedAfter key cutoff s.calls = 0 := by
      refine costAfter_eq_zero fun other hother => ?_
      have hbefore := hadmitted other hother
      have hlong : windowMs ≤ lifetime windowMs := by unfold lifetime; omega
      omega
    rw [hnone]
    exact Int.le_refl 0
  case isFalse =>
    refine h.total cutoff fun earlier hearlier => ?_
    have hbefore := (hlast earlier hearlier).1
    omega

theorem slidingWindow_cases (unpackLimit : Nat) (c : Counter)
    (redisTime now windowMs limit cost : Nat) (member : String) :
    let kept := prune (live c redisTime) (now - windowMs)
    slidingWindow unpackLimit c redisTime now windowMs limit cost member =
        (live c redisTime, none) ∨
      (∃ decision : RateLimitDecision, decision.allowed = false ∧
        slidingWindow unpackLimit c redisTime now windowMs limit cost member =
          (kept, some decision)) ∨
      ∃ decision : RateLimitDecision, decision.allowed = true ∧ kept.total + cost ≤ limit ∧
        slidingWindow unpackLimit c redisTime now windowMs limit cost member =
          (addMember kept redisTime now windowMs cost member, some decision) := by
  simp only [slidingWindow]
  split
  · exact .inl rfl
  · split
    case isTrue => exact .inr (.inl ⟨_, rfl, rfl⟩)
    case isFalse hfits => exact .inr (.inr ⟨_, rfl, Int.not_lt.mp hfits, rfl⟩)

theorem expiresAt_live {c : Counter} {redisTime deadline : Nat}
    (h : deadline ∈ (live c redisTime).expiresAt) : deadline ∈ c.expiresAt := by
  unfold live at h
  split at h
  · cases h
  · exact h

theorem Counted.other {windowMs : Nat} (h : Counted key windowMs limit s) (hne : call.key ≠ key)
    (hcalls : t.calls = s.calls ++ [call]) (hcounter : counter t key = counter s key) :
    Counted key windowMs limit t := by
  have hof : ofKey key t.calls = ofKey key s.calls := by
    rw [hcalls, ofKey_concat_of_ne hne]
  have hadmitted : admitted key t.calls = admitted key s.calls := by
    rw [admitted, admitted, hof]
  refine ⟨fun cutoff hcutoff => ?_, fun deadline hdeadline => ?_, fun last => ?_⟩
  · rw [hcounter, admittedAfter, hadmitted]
    exact h.total cutoff (hof ▸ hcutoff)
  · rw [hof, hadmitted]
    exact h.expiry deadline (hcounter ▸ hdeadline)
  · rw [admittedWithin, hadmitted]
    exact h.law last

theorem Counted.refused {windowMs : Nat} (h : Counted call.key windowMs limit s)
    (hcalls : t.calls = s.calls ++ [call]) (hrefused : call.allowed = false)
    (htotal : ∀ cutoff : Int, (call.now : Int) - windowMs ≤ cutoff →
      (admittedAfter call.key cutoff s.calls : Int) + removedCost (counter t call.key) cutoff ≤
        (counter t call.key).total)
    (hexpiry : ∀ deadline ∈ (counter t call.key).expiresAt,
      deadline ∈ (counter s call.key).expiresAt) : Counted call.key windowMs limit t := by
  have hadmitted : admitted call.key t.calls = admitted call.key s.calls := by
    rw [hcalls, admitted_concat_self, hrefused]
    exact List.append_nil _
  have hof : ofKey call.key t.calls = ofKey call.key s.calls ++ [call] := by
    rw [hcalls, ofKey_concat_self]
  refine ⟨fun cutoff hcutoff => ?_, fun deadline hdeadline => ?_, fun last => ?_⟩
  · rw [admittedAfter, hadmitted]
    refine htotal cutoff (hcutoff call ?_)
    rw [hof]
    exact List.mem_append_right _ (List.mem_singleton_self call)
  · rw [hof, hadmitted]
    obtain ⟨earlier, hearlier, hrest⟩ := h.expiry deadline (hexpiry deadline hdeadline)
    exact ⟨earlier, List.mem_append_left _ hearlier, hrest⟩
  · rw [admittedWithin, hadmitted]
    exact h.law last

theorem Counted.granted {windowMs : Nat} {kept : Counter} {member : String}
    (h : Counted call.key windowMs limit s) (hcalls : t.calls = s.calls ++ [call])
    (hallowed : call.allowed = true)
    (hcounter : counter t call.key =
      addMember kept call.redisTime call.now windowMs call.cost member)
    (htotal : ∀ cutoff : Int, (call.now : Int) - windowMs ≤ cutoff →
      (admittedAfter call.key cutoff s.calls : Int) + removedCost kept cutoff ≤ kept.total)
    (hfits : kept.total + call.cost ≤ limit)
    (hlatest : ∀ earlier ∈ ofKey call.key s.calls, earlier.now ≤ call.now) :
    Counted call.key windowMs limit t := by
  have hadmitted : admitted call.key t.calls = admitted call.key s.calls ++ [call] := by
    rw [hcalls, admitted_concat_self, hallowed]
    rfl
  have hof : ofKey call.key t.calls = ofKey call.key s.calls ++ [call] := by
    rw [hcalls, ofKey_concat_self]
  have hmem : call ∈ ofKey call.key t.calls := by
    rw [hof]
    exact List.mem_append_right _ (List.mem_singleton_self call)
  refine ⟨fun cutoff hcutoff => ?_, fun deadline hdeadline => ?_, fun last => ?_⟩
  · have hbefore := htotal cutoff (hcutoff call hmem)
    have hremoved : removedCost (addMember kept call.redisTime call.now windowMs call.cost member)
        cutoff ≤ removedCost kept cutoff + if (call.now : Int) ≤ cutoff then call.cost else 0 :=
      removedCost_admit
    have hafter : admittedAfter call.key cutoff t.calls = admittedAfter call.key cutoff s.calls +
        if cutoff < call.now then call.cost else 0 := by
      rw [admittedAfter, hadmitted, costAfter_concat]
      rfl
    have hnew : (addMember kept call.redisTime call.now windowMs call.cost member).total =
        kept.total + call.cost := rfl
    rw [hcounter, hafter, hnew]
    -- the new cost is either after the cutoff or still to be removed
    split at hremoved <;> split <;> omega
  · rw [hcounter] at hdeadline
    cases hdeadline
    refine ⟨call, hmem, rfl, fun other hother => ?_⟩
    rw [hadmitted] at hother
    rcases mem_concat_iff.mp hother with hold | hnew
    · exact hlatest other (List.mem_filter.mp hold).1
    · exact Nat.le_of_eq (congrArg Consumption.now hnew)
  · rw [admittedWithin, hadmitted]
    refine costWithin_concat_le h.law ?_ last
    have hwindow := htotal ((call.now : Int) - windowMs) (Int.le_refl _)
    have hcovered : admittedAfter call.key ((call.now : Int) - windowMs) s.calls + call.cost ≤
        limit := by omega
    exact hcovered

structure Consumed (unpackLimit : Nat) (s t : Redis) (call : Consumption) (member : String) :
    Prop where
  calls : t.calls = s.calls ++ [call]
  /-- The script has run on its keys. -/
  own : (counter t call.key, call.decision) = slidingWindow unpackLimit (counter s call.key)
    call.redisTime call.now call.windowMs call.limit call.cost member
  other : ∀ key, call.key ≠ key → counter t key = counter s key

theorem consumed (unpackLimit : Nat) (s : Redis) (index : Nat) (store : Instance)
    (context : RateLimitDecisionContext) (now redisTime : Nat) :
    ∃ call member,
      Consumed unpackLimit s (consume unpackLimit s index store context now redisTime) call member := by
  refine ⟨{
    key := baseKey store.keyPrefix context, now, redisTime, windowMs := context.ttlMs
    limit := context.limit, cost := context.cost
    decision := (slidingWindow unpackLimit (counter s (baseKey store.keyPrefix context)) redisTime
      now context.ttlMs context.limit context.cost
      (toString now ++ ":" ++ toString ((store.sequence + 1) % maxSafeInteger))).2 },
    toString now ++ ":" ++ toString ((store.sequence + 1) % maxSafeInteger), rfl, ?_, ?_⟩
  · refine Prod.ext ?_ rfl
    dsimp only
    rw [counter, consume, get?_set_self]
    rfl
  · intro key hne
    rw [counter, consume, get?_set_of_ne _ _ hne]
    rfl

theorem Counted.consume {windowMs unpackLimit : Nat} {member : String}
    (h : Counted key windowMs limit s) (hconsumed : Consumed unpackLimit s t call member)
    (hregular : Regular key windowMs limit t.calls) : Counted key windowMs limit t := by
  have hcalls := hconsumed.calls
  by_cases hkey : call.key = key
  · subst hkey
    rw [hcalls] at hregular
    obtain ⟨⟨rfl, hlimit⟩, hlast⟩ := hregular.last
    have hlive := fun (cutoff : Int) (hcutoff : (call.now : Int) - call.windowMs ≤ cutoff) =>
      h.live hlast hcutoff
    have hown := hconsumed.own
    generalize hfound : RedisRateLimit.live (counter s call.key) call.redisTime = found at hlive
    have hpruned : ∀ cutoff : Int, (call.now : Int) - call.windowMs ≤ cutoff →
        (admittedAfter call.key cutoff s.calls : Int) +
            removedCost (prune found (call.now - call.windowMs)) cutoff ≤
          (prune found (call.now - call.windowMs)).total := by
      intro cutoff hcutoff
      have hcovered := hlive cutoff hcutoff
      have hsplit := removedCost_prune (c := found) hcutoff
      have htotal : (prune found (call.now - call.windowMs)).total =
        found.total - removedCost found (call.now - call.windowMs) := rfl
      omega
    have hexpiry : ∀ deadline ∈ found.expiresAt, deadline ∈ (counter s call.key).expiresAt := by
      rw [← hfound]
      exact fun deadline hdeadline => expiresAt_live hdeadline
    have hcases := slidingWindow_cases unpackLimit (counter s call.key) call.redisTime call.now
      call.windowMs call.limit call.cost member
    rw [hfound, ← hown] at hcases
    rcases hcases with hfails | ⟨decision, hallowed, hresult⟩ | ⟨decision, hallowed, hfits, hresult⟩
    · obtain ⟨hcounter, hdecision⟩ := Prod.mk.inj hfails
      refine h.refused hcalls ?_ ?_ ?_
      · rw [Consumption.allowed, hdecision]
      · rw [hcounter]
        exact hlive
      · rw [hcounter]
        exact hexpiry
    · obtain ⟨hcounter, hdecision⟩ := Prod.mk.inj hresult
      refine h.refused hcalls ?_ ?_ ?_
      · rw [Consumption.allowed, hdecision]
        exact hallowed
      · rw [hcounter]
        exact hpruned
      · rw [hcounter]
        exact hexpiry
    · obtain ⟨hcounter, hdecision⟩ := Prod.mk.inj hresult
      refine h.granted hcalls ?_ hcounter hpruned ?_ fun earlier hearlier => (hlast earlier hearlier).1
      · rw [Consumption.allowed, hdecision]
        exact hallowed
      · exact hfits.trans (Int.ofNat_le.mpr hlimit)
  · exact h.other hkey hcalls (hconsumed.other key hkey)

theorem counted_init (key : String) (windowMs limit : Nat) : Counted key windowMs limit {} where
  total cutoff _ := Int.le_refl 0
  expiry deadline h := by cases h
  law last := Nat.zero_le limit

/-- A call of one key that costs something. -/
def costs (cost : Nat) : RateLimitDecisionContext := ⟨.tenant, "records", "t1", 1000, 3, cost⟩

/-- Two calls with one member name, one that is refused, one after the window. -/
def twoInstances : List Label :=
  [.connect none, .connect none, .consume 0 (costs 1) 5000 5000, .consume 1 (costs 2) 5000 5001,
    .consume 0 (costs 1) 5500 5500, .consume 1 (costs 1) 6001 6001]

end Stynx.RedisRateLimit
