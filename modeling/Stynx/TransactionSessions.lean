import Stynx.TransitionRuns

/-!
# Sessions of transactions

`Database.tx` resolves a role, a read-only mode and an execution context for each call. The call
that opens a transaction writes them to the session of its connection; a call inside an active
transaction only sets a savepoint. The active transaction is kept in the store of the request,
which a derived request or system context hides.

Settings that no call resolves are null.
-/

namespace Stynx.TransactionSessions

open TransitionRuns

/-- `StynxDataRole`. -/
inductive Role where
  | owner
  | app
  | reader
  deriving DecidableEq

structure RequestContextState where
  requestId : String
  tenantId : Option String
  actorId : Option String
  sessionId : Option String
  roles : Option (List String)

/-- `RequestContextPatch`. A field that is present may be undefined. -/
structure RequestContextPatch where
  tenantId : Option (Option String)
  actorId : Option (Option String)
  sessionId : Option (Option String)
  roles : Option (Option (List String))

structure SystemExecutionContext where
  requestId : String
  actorId : Option String

/-- `TxOptions`. The retry is `false` or a number of attempts. -/
structure TxOptions where
  role : Option Role
  readonly : Option Bool
  replica : Option Bool
  retry : Option (Option Nat)

structure ResolvedExecutionContext where
  requestId : Option String
  tenantId : Option String
  actorId : Option String
  sessionId : Option String
  roles : Option (List String)
  deriving DecidableEq

structure Resolved where
  role : Role
  readonly : Bool
  context : ResolvedExecutionContext
  deriving DecidableEq

/-- The session of a connection. -/
structure Settings where
  role : Option Role
  requestId : Option String
  tenantId : Option String
  actorId : Option String
  roles : Option String
  sessionId : Option String
  /-- `transaction_read_only`. -/
  readonly : Bool
  deriving DecidableEq

/-- The store of a request, or of a derived context. -/
structure Store where
  request : Option RequestContextState
  system : Option SystemExecutionContext
  /-- The session of the active transaction. -/
  active : Option Settings

/-- The errors of a call that is refused. -/
inductive Refusal where
  | readOnlyViolation
  | systemContextRequired
  | tenantContextMissing
  | actorContextMissing

structure Call where
  resolved : Resolved
  /-- The session on which the callback runs. -/
  live : Settings
  outermost : Bool
  attempts : Nat

/-- What runs inside what, the innermost first. -/
inductive Frame where
  | call (call : Call)
  /-- A derived context, with the store that it hides. -/
  | scope (saved : Store)

/-- What a callback sees and does. -/
inductive Observation where
  | callback (resolved : Resolved) (live : Settings)
  /-- A statement that modifies data, in a callback. -/
  | write (readonly : Bool) (modified : Bool)
  deriving DecidableEq

structure State where
  store : Store
  frames : List Frame
  observations : List Observation

/-- What may happen next. -/
inductive Label where
  | tx (options : TxOptions)
  | withReplica
  /-- An attempt has failed and is made again. -/
  | retry
  /-- The innermost callback ends. -/
  | leave
  | patch (patch : RequestContextPatch)
  | runWithRequestContext (seed : RequestContextState)
  /-- The length of the reason, without blanks at its ends, and the new request. -/
  | withSystemContext (reasonLength : Nat) (requestId : String)
  /-- A statement of the innermost callback that modifies data. -/
  | write

def truthy (value : Option String) : Option String := value.filter fun text => text ≠ ""

def patchField {α : Type} (old : Option α) : Option (Option α) → Option α
  | none => old
  | some new => new

def RequestContextState.patch (current : RequestContextState) (patch : RequestContextPatch) :
    RequestContextState :=
  { current with
    tenantId := patchField current.tenantId patch.tenantId
    actorId := patchField current.actorId patch.actorId
    sessionId := patchField current.sessionId patch.sessionId
    roles := patchField current.roles patch.roles }

def assertRoleConstraints (store : Store) (role : Role) (readonly replica : Bool) :
    Except Refusal Unit :=
  if role = .reader && !readonly then .error .readOnlyViolation
  else if replica && !readonly then .error .readOnlyViolation
  else if role = .owner && store.system.isNone then .error .systemContextRequired
  else .ok ()

def resolveExecutionContext (store : Store) (role : Role) :
    Except Refusal ResolvedExecutionContext :=
  if role = .owner then
    match store.system with
    | none => .error .systemContextRequired
    | some system => .ok ⟨some system.requestId, none, truthy system.actorId, none, none⟩
  else
    match store.request with
    | none => .error .tenantContextMissing
    | some request =>
      match truthy request.tenantId, truthy request.actorId with
      | none, _ => .error .tenantContextMissing
      | some _, none => .error .actorContextMissing
      | some tenantId, some actorId =>
        .ok ⟨some request.requestId, some tenantId, some actorId, truthy request.sessionId,
          request.roles.filter fun roles => !roles.isEmpty⟩

/-- What `runTransaction` resolves for a call. -/
def resolve (store : Store) (options : TxOptions) : Except Refusal Resolved := do
  let role := options.role.getD .app
  let readonly := options.readonly.getD false
  assertRoleConstraints store role readonly (options.replica.getD false)
  let context ← resolveExecutionContext store role
  .ok ⟨role, readonly, context⟩

/-- A connection after `BEGIN`. -/
def Settings.fresh : Settings := ⟨none, none, none, none, none, none, false⟩

def setTruthy (old value : Option String) : Option String := (truthy value).or old

def applySessionState (settings : Settings) (resolved : Resolved) : Settings where
  role := some resolved.role
  requestId := setTruthy settings.requestId resolved.context.requestId
  tenantId := setTruthy settings.tenantId resolved.context.tenantId
  actorId := setTruthy settings.actorId resolved.context.actorId
  roles := some (",".intercalate (resolved.context.roles.getD []))
  sessionId := setTruthy settings.sessionId resolved.context.sessionId
  readonly := settings.readonly || resolved.readonly

def attempts (options : TxOptions) : Nat :=
  match options.retry with
  | none => 3
  | some none => 1
  | some (some attempts) => max attempts 1

def replicaOptions : TxOptions := ⟨some .reader, some true, some true, none⟩

section

variable (s : State)

def State.runTransaction (options : TxOptions) : State :=
  match resolve s.store options with
  | .error _ => s
  | .ok resolved =>
    match s.store.active with
    | some active =>
      { s with
        frames := .call ⟨resolved, active, false, 0⟩ :: s.frames
        observations := s.observations ++ [.callback resolved active] }
    | none =>
      let live := applySessionState .fresh resolved
      { store := { s.store with active := some live }
        frames := .call ⟨resolved, live, true, attempts options - 1⟩ :: s.frames
        observations := s.observations ++ [.callback resolved live] }

/-- The call on whose `Transaction` the innermost callback works. -/
def innermost : List Frame → Option Call
  | [] => none
  | .call call :: _ => some call
  | .scope _ :: rest => innermost rest

def step : Label → Option State
  | .tx options => some (s.runTransaction options)
  | .withReplica => some (s.runTransaction replicaOptions)
  | .retry =>
    match s.frames with
    | .call ⟨resolved, _, true, left + 1⟩ :: rest =>
      let live := applySessionState .fresh resolved
      some
        { store := { s.store with active := some live }
          frames := .call ⟨resolved, live, true, left⟩ :: rest
          observations := s.observations ++ [.callback resolved live] }
    | _ => none
  | .leave =>
    match s.frames with
    | [] => none
    | .call call :: rest =>
      some
        { s with
          store := if call.outermost then { s.store with active := none } else s.store
          frames := rest }
    | .scope saved :: rest => some { s with store := saved, frames := rest }
  | .patch patch =>
    some { s with
      store := { s.store with request := s.store.request.map fun current => current.patch patch } }
  | .runWithRequestContext seed =>
    some { s with store := ⟨some seed, none, none⟩, frames := .scope s.store :: s.frames }
  | .withSystemContext reasonLength requestId =>
    if reasonLength < 10 then some s
    else
      let actorId := s.store.request.bind RequestContextState.actorId
      some
        { s with
          store := ⟨some ⟨requestId, none, actorId, none, none⟩, some ⟨requestId, actorId⟩, none⟩
          frames := .scope s.store :: s.frames }
  | .write =>
    match innermost s.frames with
    | none => none
    | some call =>
      some
        { s with
          observations := s.observations ++ [.write call.resolved.readonly (!call.live.readonly)] }

def start (request : Option RequestContextState) (system : Option SystemExecutionContext) : State :=
  ⟨⟨request, system, none⟩, [], []⟩

end

structure Settings.Matches (live : Settings) (resolved : Resolved) : Prop where
  role : live.role = some resolved.role
  tenantId : live.tenantId = resolved.context.tenantId
  actorId : live.actorId = resolved.context.actorId
  /-- Read-only mode. -/
  readonly : live.readonly = resolved.readonly

/-- A callback runs on the session resolved for it, and modifies nothing if it is to read only. -/
def Observation.Right : Observation → Prop
  | .callback resolved live => live.Matches resolved
  | .write readonly modified => readonly = true → modified = false

/-- The call that has opened the active transaction. -/
def opener : List Frame → Option Call
  | [] => none
  | .scope _ :: _ => none
  | .call call :: rest => if call.outermost then some call else opener rest

/-- Two calls resolve the same role, tenant, actor and read-only mode. -/
def Resolved.Agrees (first second : Resolved) : Prop :=
  first.role = second.role ∧ first.context.tenantId = second.context.tenantId ∧
    first.context.actorId = second.context.actorId ∧ first.readonly = second.readonly

instance (first second : Resolved) : Decidable (first.Agrees second) :=
  inferInstanceAs (Decidable (_ ∧ _ ∧ _ ∧ _))

/-- A call inside an active transaction resolves what the call resolved that has opened it. -/
def CallAgrees (s : State) (options : TxOptions) : Prop :=
  match opener s.frames, resolve s.store options with
  | some call, .ok resolved => call.resolved.Agrees resolved
  | _, _ => True

instance (s : State) (options : TxOptions) : Decidable (CallAgrees s options) := by
  unfold CallAgrees
  split <;> infer_instance

/-- The condition on a step. -/
def Consistent (s : State) : Label → Prop
  | .tx options => CallAgrees s options
  | .withReplica => CallAgrees s replicaOptions
  | _ => True

instance (s : State) : ∀ label, Decidable (Consistent s label)
  | .tx options => inferInstanceAs (Decidable (CallAgrees s options))
  | .withReplica => inferInstanceAs (Decidable (CallAgrees s replicaOptions))
  | .retry => isTrue trivial
  | .leave => isTrue trivial
  | .patch _ => isTrue trivial
  | .runWithRequestContext _ => isTrue trivial
  | .withSystemContext _ _ => isTrue trivial
  | .write => isTrue trivial

def AllRight (s : State) : Prop := ∀ observation ∈ s.observations, observation.Right

/-- Tenant and actor are not empty. -/
structure Resolved.Proper (resolved : Resolved) : Prop where
  tenantId : truthy resolved.context.tenantId = resolved.context.tenantId
  actorId : truthy resolved.context.actorId = resolved.context.actorId

theorem truthy_truthy (value : Option String) : truthy (truthy value) = truthy value := by
  simp [truthy]

theorem resolve_proper {store : Store} {options : TxOptions} {resolved : Resolved}
    (h : resolve store options = .ok resolved) : resolved.Proper := by
  rw [resolve] at h
  cases hrole : assertRoleConstraints store (options.role.getD .app) (options.readonly.getD false)
      (options.replica.getD false) with
  | error refusal =>
    rw [hrole] at h
    cases h
  | ok _ =>
    rw [hrole] at h
    cases hcontext : resolveExecutionContext store (options.role.getD .app) with
    | error refusal =>
      rw [hcontext] at h
      cases h
    | ok context =>
      rw [hcontext] at h
      cases h
      rw [resolveExecutionContext] at hcontext
      split at hcontext
      · split at hcontext
        · cases hcontext
        · cases hcontext
          exact ⟨rfl, truthy_truthy _⟩
      · split at hcontext
        · cases hcontext
        · rename_i request _
          split at hcontext
          · cases hcontext
          · cases hcontext
          · rename_i tenantId actorId htenant hactor
            cases hcontext
            exact ⟨htenant ▸ truthy_truthy _, hactor ▸ truthy_truthy _⟩

theorem Resolved.Proper.applySessionState {resolved : Resolved} (h : resolved.Proper) :
    (applySessionState .fresh resolved).Matches resolved where
  role := rfl
  tenantId := by
    change setTruthy none resolved.context.tenantId = _
    rw [setTruthy, h.tenantId, Option.or_none]
  actorId := by
    change setTruthy none resolved.context.actorId = _
    rw [setTruthy, h.actorId, Option.or_none]
  readonly := rfl

theorem Settings.Matches.iff_agrees {live : Settings} {first second : Resolved}
    (h : live.Matches first) : live.Matches second ↔ first.Agrees second := by
  constructor
  · intro h'
    exact ⟨Option.some.inj (h.role.symm.trans h'.role), h.tenantId.symm.trans h'.tenantId,
      h.actorId.symm.trans h'.actorId, h.readonly.symm.trans h'.readonly⟩
  · intro hagrees
    obtain ⟨hrole, htenant, hactor, hreadonly⟩ := hagrees
    exact ⟨hrole ▸ h.role, h.tenantId.trans htenant, h.actorId.trans hactor,
      h.readonly.trans hreadonly⟩

/-- Calls run on the session of the call that has opened their transaction, and hidden stores keep
theirs. -/
def Held : List Frame → Prop
  | [] => True
  | .call call :: rest =>
    (if call.outermost then opener rest = none
      else (opener rest).map Call.live = some call.live) ∧ Held rest
  | .scope saved :: rest => saved.active = (opener rest).map Call.live ∧ Held rest

structure Inv (s : State) : Prop where
  held : Held s.frames
  active : s.store.active = (opener s.frames).map Call.live
  /-- What the callbacks of running calls saw. -/
  seen : ∀ call, .call call ∈ s.frames → .callback call.resolved call.live ∈ s.observations
  /-- A call that has opened a transaction has written its session. -/
  own : ∀ call, .call call ∈ s.frames → call.outermost = true →
    call.live = applySessionState .fresh call.resolved ∧ call.resolved.Proper

variable {s t : State}

theorem mem_of_opener {frames : List Frame} {call : Call} (h : opener frames = some call) :
    .call call ∈ frames ∧ call.outermost = true := by
  induction frames with
  | nil => cases h
  | cons frame rest ih =>
    cases frame with
    | scope saved => cases h
    | call first =>
      rw [opener] at h
      split at h
      · rename_i houtermost
        obtain rfl := Option.some.inj h
        exact ⟨(.head _), houtermost⟩
      · exact ⟨.tail _ (ih h).1, (ih h).2⟩

theorem mem_of_innermost {frames : List Frame} {call : Call} (h : innermost frames = some call) :
    .call call ∈ frames := by
  induction frames with
  | nil => cases h
  | cons frame rest ih =>
    cases frame with
    | scope saved => exact .tail _ (ih h)
    | call first =>
      obtain rfl := Option.some.inj h
      exact .head _

theorem allRight_append (observation : Observation)
    (h : t.observations = s.observations ++ [observation]) :
    AllRight t ↔ AllRight s ∧ observation.Right := by
  rw [AllRight, h]
  constructor
  · intro hall
    exact ⟨fun other hother => hall other (List.mem_append_left _ hother),
      hall observation (List.mem_concat_self)⟩
  · intro hboth other hother
    rcases mem_concat_iff.mp hother with hold | hnew
    · exact hboth.1 other hold
    · exact hnew ▸ hboth.2

theorem Inv.runTransaction_cases (h : Inv s) (options : TxOptions) :
    (∃ refusal, resolve s.store options = .error refusal ∧ s.runTransaction options = s) ∨
    (∃ resolved call, resolve s.store options = .ok resolved ∧ opener s.frames = some call ∧
      s.runTransaction options =
        { s with
          frames := .call ⟨resolved, call.live, false, 0⟩ :: s.frames
          observations := s.observations ++ [.callback resolved call.live] }) ∨
    (∃ resolved, resolve s.store options = .ok resolved ∧ opener s.frames = none ∧
      s.runTransaction options =
        { store := { s.store with active := some (applySessionState .fresh resolved) }
          frames := .call ⟨resolved, applySessionState .fresh resolved, true,
            attempts options - 1⟩ :: s.frames
          observations :=
            s.observations ++ [.callback resolved (applySessionState .fresh resolved)] }) := by
  cases hresolve : resolve s.store options with
  | error refusal =>
    refine .inl ⟨refusal, rfl, ?_⟩
    rw [State.runTransaction, hresolve]
  | ok resolved =>
    have hactive := h.active
    cases hopener : opener s.frames with
    | none =>
      rw [hopener, Option.map_none] at hactive
      refine .inr (.inr ⟨resolved, rfl, rfl, ?_⟩)
      rw [State.runTransaction, hresolve, hactive]
    | some call =>
      rw [hopener, Option.map_some] at hactive
      refine .inr (.inl ⟨resolved, call, rfl, rfl, ?_⟩)
      rw [State.runTransaction, hresolve, hactive]

theorem Inv.runTransaction (h : Inv s) (options : TxOptions) : Inv (s.runTransaction options) := by
  rcases h.runTransaction_cases options with ⟨-, -, hsame⟩ | ⟨resolved, call, -, hopener, hcall⟩ |
    ⟨resolved, hresolve, hopener, hcall⟩
  · rw [hsame]
    exact h
  · rw [hcall]
    refine ⟨⟨by simp [hopener], h.held⟩, ?_, ?_, ?_⟩
    · simp [opener, hopener, h.active]
    · intro other hother
      rcases List.mem_cons.mp hother with heq | hother
      · cases heq
        simp
      · exact List.mem_append_left _ (h.seen other hother)
    · intro other hother houtermost
      rcases List.mem_cons.mp hother with heq | hother
      · cases heq
        cases houtermost
      · exact h.own other hother houtermost
  · rw [hcall]
    refine ⟨⟨by simp [hopener], h.held⟩, ?_, ?_, ?_⟩
    · simp [opener]
    · intro other hother
      rcases List.mem_cons.mp hother with heq | hother
      · cases heq
        simp
      · exact List.mem_append_left _ (h.seen other hother)
    · intro other hother houtermost
      rcases List.mem_cons.mp hother with heq | hother
      · cases heq
        exact ⟨rfl, resolve_proper hresolve⟩
      · exact h.own other hother houtermost

theorem Inv.runTransaction_allRight (h : Inv s) (options : TxOptions) :
    AllRight (s.runTransaction options) ↔ AllRight s ∧ CallAgrees s options := by
  rcases h.runTransaction_cases options with ⟨refusal, hresolve, hsame⟩ |
    ⟨resolved, call, hresolve, hopener, hcall⟩ | ⟨resolved, hresolve, hopener, hcall⟩
  · rw [hsame, CallAgrees, hresolve]
    cases opener s.frames <;> simp
  · have hagrees : CallAgrees s options ↔ call.resolved.Agrees resolved := by
      rw [CallAgrees, hopener, hresolve]
    obtain ⟨hmem, houtermost⟩ := mem_of_opener hopener
    obtain ⟨hlive, hproper⟩ := h.own call hmem houtermost
    have hmatches : call.live.Matches call.resolved := hlive ▸ hproper.applySessionState
    rw [hagrees, ← hmatches.iff_agrees, hcall]
    exact allRight_append (.callback resolved call.live) rfl
  · have hagrees : CallAgrees s options := by
      rw [CallAgrees, hopener]
      trivial
    rw [and_iff_left hagrees, hcall]
    exact (allRight_append (.callback resolved _) rfl).trans
      (and_iff_left (resolve_proper hresolve).applySessionState)

theorem step_inv {label : Label} (h : Inv s) (hstep : step s label = some t) : Inv t := by
  cases label with
  | tx options =>
    cases hstep
    exact h.runTransaction options
  | withReplica =>
    cases hstep
    exact h.runTransaction replicaOptions
  | retry =>
    rw [step] at hstep
    split at hstep
    · rename_i resolved live left rest hframes
      cases hstep
      have hheld := h.held
      rw [hframes] at hheld
      obtain ⟨-, hproper⟩ := h.own ⟨resolved, live, true, left + 1⟩ (by simp [hframes]) rfl
      refine ⟨⟨hheld.1, hheld.2⟩, by simp [opener], ?_, ?_⟩
      · intro other hother
        rcases List.mem_cons.mp hother with heq | hother
        · cases heq
          simp
        · exact List.mem_append_left _ (h.seen other (hframes ▸ .tail _ hother))
      · intro other hother houtermost
        rcases List.mem_cons.mp hother with heq | hother
        · cases heq
          exact ⟨rfl, hproper⟩
        · exact h.own other (hframes ▸ .tail _ hother) houtermost
    · cases hstep
  | leave =>
    rw [step] at hstep
    have hheld := h.held
    have hactive := h.active
    split at hstep
    · cases hstep
    · rename_i call rest hframes
      cases hstep
      rw [hframes] at hheld hactive
      refine ⟨hheld.2, ?_, fun other hother => h.seen other (hframes ▸ .tail _ hother),
        fun other hother => h.own other (hframes ▸ .tail _ hother)⟩
      cases houtermost : call.outermost with
      | true =>
        have hnone : opener rest = none := by simpa [houtermost] using hheld.1
        simp [hnone]
      | false =>
        rw [opener, houtermost] at hactive
        exact hactive
    · rename_i saved rest hframes
      cases hstep
      rw [hframes] at hheld
      exact ⟨hheld.2, hheld.1, fun other hother => h.seen other (hframes ▸ .tail _ hother),
        fun other hother => h.own other (hframes ▸ .tail _ hother)⟩
  | patch patch =>
    cases hstep
    exact ⟨h.held, h.active, h.seen, h.own⟩
  | runWithRequestContext seed =>
    cases hstep
    exact ⟨⟨h.active, h.held⟩, rfl, fun other hother => h.seen other (by simpa using hother),
      fun other hother => h.own other (by simpa using hother)⟩
  | withSystemContext reasonLength requestId =>
    rw [step] at hstep
    split at hstep
    · cases hstep
      exact h
    · cases hstep
      exact ⟨⟨h.active, h.held⟩, rfl, fun other hother => h.seen other (by simpa using hother),
        fun other hother => h.own other (by simpa using hother)⟩
  | write =>
    rw [step] at hstep
    split at hstep
    · cases hstep
    · cases hstep
      exact ⟨h.held, h.active, fun other hother => List.mem_append_left _ (h.seen other hother), h.own⟩

theorem step_allRight {label : Label} (h : Inv s) (hstep : step s label = some t) :
    AllRight t ↔ AllRight s ∧ Consistent s label := by
  cases label with
  | tx options =>
    cases hstep
    exact h.runTransaction_allRight options
  | withReplica =>
    cases hstep
    exact h.runTransaction_allRight replicaOptions
  | retry =>
    rw [step] at hstep
    split at hstep
    · rename_i resolved live left rest hframes
      cases hstep
      obtain ⟨-, hproper⟩ := h.own ⟨resolved, live, true, left + 1⟩ (by simp [hframes]) rfl
      exact (allRight_append (.callback resolved _) rfl).trans (and_congr_right fun _ =>
        iff_of_true hproper.applySessionState trivial)
    · cases hstep
  | leave =>
    rw [step] at hstep
    split at hstep
    · cases hstep
    · cases hstep
      exact (and_iff_left trivial).symm
    · cases hstep
      exact (and_iff_left trivial).symm
  | patch patch =>
    cases hstep
    exact (and_iff_left trivial).symm
  | runWithRequestContext seed =>
    cases hstep
    exact (and_iff_left trivial).symm
  | withSystemContext reasonLength requestId =>
    rw [step] at hstep
    split at hstep
    · cases hstep
      exact (and_iff_left trivial).symm
    · cases hstep
      exact (and_iff_left trivial).symm
  | write =>
    rw [step] at hstep
    split at hstep
    · cases hstep
    · rename_i call hcall
      cases hstep
      refine (allRight_append (.write call.resolved.readonly _) rfl).trans
        (and_congr_right fun hright => ?_)
      -- the callback has seen the session on which it writes
      have hmatches : call.live.Matches call.resolved := hright _ (h.seen call (mem_of_innermost hcall))
      refine iff_of_true ?_ trivial
      intro hreadonly
      rw [hmatches.readonly, hreadonly]
      rfl

theorem start_inv (request : Option RequestContextState) (system : Option SystemExecutionContext) :
    Inv (start request system) :=
  ⟨trivial, rfl, fun _ hcall => absurd hcall List.not_mem_nil,
    fun _ hcall => absurd hcall List.not_mem_nil⟩

/-- Each callback runs on the session that is resolved for it, and none that is to read only
modifies data, if and only if each call inside an active transaction resolves the role, the tenant,
the actor and the read-only mode of the call that has opened it. -/
theorem sessions_right_iff {request : Option RequestContextState}
    {system : Option SystemExecutionContext} {labels : List Label} {s : State}
    (hrun : run step (start request system) labels = some s) :
    AllRight s ↔ RunMeets step Consistent (start request system) labels := by
  have hstart : AllRight (start request system) := fun _ hseen => absurd hseen List.not_mem_nil
  rw [run_iff_meets (fun _ _ _ h hstep => step_inv h hstep)
    (fun _ _ _ h hstep => step_allRight h hstep) (start_inv request system) hrun,
    and_iff_right hstart]

def defaultOptions : TxOptions := ⟨none, none, none, none⟩

def sampleRequest : RequestContextState := ⟨"request-1", some "tenant-1", some "actor-1", none, none⟩

/-- A call within a call, and a call on a replica in a derived context. -/
theorem sessions_right_in_context :
    ∃ s, run step (start (some sampleRequest) none) [.tx defaultOptions, .tx defaultOptions, .write,
        .leave, .runWithRequestContext sampleRequest, .withReplica, .write, .leave, .leave,
        .leave] = some s ∧
      s.observations.length = 5 ∧ AllRight s := by
  obtain ⟨s, hrun, hlength⟩ : ∃ s, run step (start (some sampleRequest) none) [.tx defaultOptions,
      .tx defaultOptions, .write, .leave, .runWithRequestContext sampleRequest, .withReplica, .write,
      .leave, .leave, .leave] = some s ∧ s.observations.length = 5 := ⟨_, rfl, rfl⟩
  exact ⟨s, hrun, hlength, (sessions_right_iff hrun).mpr (by decide)⟩

/-- A callback that is to read only modifies data inside the transaction of another call. -/
theorem readonly_callback_modifies :
    ∃ s, run step (start (some sampleRequest) none) [.tx defaultOptions,
        .tx ⟨none, some true, none, none⟩, .write] = some s ∧
      .write true true ∈ s.observations ∧ ¬AllRight s := by
  refine ⟨_, rfl, by decide, ?_⟩
  intro hright
  have hwrite := hright (.write true true) (by decide) rfl
  cases hwrite

/-- After a patch of the tenant, a nested call runs on the session of another tenant. -/
example : (run step (start (some sampleRequest) none) [.tx defaultOptions,
    .patch ⟨some (some "tenant-2"), none, none, none⟩, .tx defaultOptions]).map
      (fun s => s.observations.map fun observation => match observation with
        | .callback resolved live => (resolved.context.tenantId, live.tenantId)
        | .write _ _ => (none, none)) =
    some [(some "tenant-1", some "tenant-1"), (some "tenant-2", some "tenant-1")] := by decide

end Stynx.TransactionSessions
