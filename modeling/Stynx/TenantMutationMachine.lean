import Stynx.TenantMutationOrder

/-!
# The promises of the calls

What a waiting reaction or a settled promise says of the call that it belongs to. A gate is
settled by the job right before the one that ends its call; so when any other job runs, each
call with a settled gate is finished.
-/

namespace Stynx.TenantMutations

open CallTables Microtasks

variable {s t : State} {next : Option Reaction}

def Fine (s : State) : Reaction → Prop
  | .element c k p => ∃ call, s.calls[c]? = some call ∧ call.exclusive = true ∧
    call.sources[k]? = some p
  | .run c p => ∃ call, s.calls[c]? = some call ∧ call.phase = .waiting ∧
    (call.exclusive = true ∧ p = .all c ∨ call.exclusive = false ∧ call.sources = [p])
  | .resolveThenable c => ∃ call, s.calls[c]? = some call ∧ call.Started
  | .adopt c => ∃ call, s.calls[c]? = some call ∧ call.Started
  | .settleGate c => ∃ call, s.calls[c]? = some call
  | .finish c => ∃ call, s.calls[c]? = some call ∧ ¬ call.Finished

/-- What a settled promise says, when a reaction is the next to run. -/
def Sound (next : Option Reaction) (s : State) (fulfilled : Bool) : PromiseId → Prop
  | .resolved => fulfilled = true
  | .all c => (∃ call, s.calls[c]? = some call) ∧ s.missing c = []
  | .operation _ => True
  | .result c => ∃ call, s.calls[c]? = some call ∧ call.Started
  | .gate c => fulfilled = true ∧ ∃ call, s.calls[c]? = some call ∧
    (call.Finished ∨ next = some (.finish c))

/-- What holds of promises and jobs. -/
structure Machine (next : Option Reaction) (s : State) : Prop where
  tidy : Tasks.Tidy Reaction.source s.tasks
  /-- A call ends right after its gate is settled. -/
  adjacent : ∀ c, s.tasks.Adjacent (.settleGate c) (.finish c)
  present : ∀ r, s.tasks.Present r → Fine s r
  settled : ∀ p f, s.tasks.promises p = .settled f → Sound next s f p
  /-- `result` subscribes to the operation once. -/
  apart : ∀ c, s.tasks.Present (.resolveThenable c) → ¬ s.tasks.Present (.adopt c)
  /-- A call waits for gates. -/
  origins : ∀ (c : Nat) call p, s.calls[c]? = some call → p ∈ call.sources →
    p = .resolved ∨ ∃ i, p = .gate i
  /-- An element with a value is settled. -/
  values : ∀ (c : Nat) call (k : Nat) p, s.calls[c]? = some call → call.exclusive = true →
    call.sources[k]? = some p → k ∉ s.missing c → s.tasks.Settled p

/-- The reaction that runs next. -/
def State.upcoming (s : State) : Option Reaction := (s.tasks.queue.map Prod.fst).head?

variable {r : Reaction} {f : Bool} {p : PromiseId}

theorem Fine.mono (hcalls : ∀ (c : Nat) call, s.calls[c]? = some call → t.calls[c]? = some call)
    (h : Fine s r) : Fine t r := by
  cases r with
  | element c k p => exact h.imp fun call hcall => hcall.imp_left (hcalls c call)
  | run c p => exact h.imp fun call hcall => hcall.imp_left (hcalls c call)
  | resolveThenable c => exact h.imp fun call hcall => hcall.imp_left (hcalls c call)
  | adopt c => exact h.imp fun call hcall => hcall.imp_left (hcalls c call)
  | settleGate c => exact h.imp fun call hcall => hcalls c call hcall
  | finish c => exact h.imp fun call hcall => hcall.imp_left (hcalls c call)

theorem Sound.mono (hcalls : ∀ (c : Nat) call, s.calls[c]? = some call → t.calls[c]? = some call)
    (hmissing : ∀ c, s.missing c = [] → (∃ call, s.calls[c]? = some call) → t.missing c = [])
    (h : Sound next s f p) : Sound next t f p := by
  cases p with
  | resolved => exact h
  | all c => exact ⟨h.1.imp (hcalls c), hmissing c h.2 h.1⟩
  | operation c => trivial
  | result c => exact h.imp fun call hcall => hcall.imp_left (hcalls c call)
  | gate c => exact h.imp_right fun hgate => hgate.imp fun call hcall => hcall.imp_left (hcalls c call)

theorem Machine.settle (h : Machine next s) (hsound : Sound next s f p) :
    Machine next { s with tasks := s.tasks.settle p f } where
  tidy := h.tidy.settle
  adjacent c := (h.adjacent c).settle
  present r hr := h.present r hr.of_settle
  settled q g hq := by
    rcases Tasks.settle_promises_cases hq with hold | ⟨rfl, rfl⟩
    · exact h.settled q g hold
    · exact hsound
  apart c hthen hadopt := h.apart c hthen.of_settle hadopt.of_settle
  origins := h.origins
  values c call k q hcall hexclusive hk hvalue :=
    (h.values c call k q hcall hexclusive hk hvalue).settle

theorem Machine.subscribe (h : Machine next s) (hsource : r.source = some p)
    (hnew : ¬ s.tasks.Present r) (hfine : Fine s r) (hgate : ∀ c, r ≠ .settleGate c)
    (hadopt : ∀ c, r = .adopt c → ¬ s.tasks.Present (.resolveThenable c)) :
    Machine next { s with tasks := s.tasks.subscribe p r } where
  tidy := h.tidy.subscribe hsource hnew
  adjacent c := (h.adjacent c).subscribe (hgate c)
  present x hx := by
    rcases hx.of_subscribe with rfl | hold
    · exact hfine
    · exact h.present x hold
  settled q g hq := h.settled q g (Tasks.subscribe_promises_iff.mp hq)
  apart c hthen hother := by
    have hold : s.tasks.Present (.resolveThenable c) := by
      refine hthen.of_subscribe.resolve_left ?_
      rintro rfl
      cases hsource
    rcases hother.of_subscribe with heq | hbefore
    · exact hadopt c heq.symm hold
    · exact h.apart c hold hbefore
  origins := h.origins
  values c call k q hcall hexclusive hk hvalue :=
    Tasks.settled_subscribe_iff.mpr (h.values c call k q hcall hexclusive hk hvalue)

theorem Machine.enqueue (h : Machine next s) {c : Nat} (hfine : Fine s (.resolveThenable c))
    (hnew : ¬ s.tasks.Present (.resolveThenable c)) (hadopt : ¬ s.tasks.Present (.adopt c)) :
    Machine next { s with tasks := s.tasks.enqueue (.resolveThenable c) } where
  tidy := h.tidy.enqueue rfl hnew
  adjacent c := (h.adjacent c).enqueue (fun heq => by cases heq)
  present x hx := by
    rcases hx.of_enqueue with rfl | hold
    · exact hfine
    · exact h.present x hold
  settled := h.settled
  apart c' hthen hother := by
    have hbefore : s.tasks.Present (.adopt c') :=
      hother.of_enqueue.resolve_left fun heq => by cases heq
    rcases hthen.of_enqueue with heq | hold
    · cases heq
      exact hadopt hbefore
    · exact h.apart c' hold hbefore
  origins := h.origins
  values := h.values

theorem Machine.congr (h : Machine next s) (hcalls : t.calls = s.calls) (htasks : t.tasks = s.tasks)
    (hmissing : t.missing = s.missing) : Machine next t := by
  have hsame : ∀ (c : Nat) call, s.calls[c]? = some call → t.calls[c]? = some call := by
    rw [hcalls]
    exact fun c call hcall => hcall
  refine ⟨htasks ▸ h.tidy, htasks ▸ h.adjacent, fun r hr => ?_, fun p f hp => ?_, htasks ▸ h.apart,
    hcalls ▸ h.origins, ?_⟩
  · rw [htasks] at hr
    exact (h.present r hr).mono hsame
  · rw [htasks] at hp
    exact (h.settled p f hp).mono hsame fun c hc _ => by rw [hmissing, hc]
  · rw [hcalls, htasks, hmissing]
    exact h.values

theorem Machine.grow {u : State} (hu : Machine s.upcoming u)
    (hqueue : s.tasks.queue <+: u.tasks.queue) : Machine u.upcoming u := by
  obtain ⟨more, hmore⟩ := hqueue
  have hnext : ∀ r, s.upcoming = some r → u.upcoming = some r := by
    intro r hr
    rw [State.upcoming] at hr
    rw [State.upcoming, ← hmore, List.map_append, List.head?_append, hr]
    rfl
  refine { hu with settled := fun p f hp => ?_ }
  have hsound := hu.settled p f hp
  cases p with
  | gate c =>
    exact hsound.imp_right fun hgate => hgate.imp fun call hcall =>
      hcall.imp_right (Or.imp_right (hnext _))
  | resolved => exact hsound
  | all c => exact hsound
  | operation c => exact hsound
  | result c => exact hsound

theorem Machine.pop (h : Machine s.upcoming s) {rest : List (Reaction × Bool)}
    (hqueue : s.tasks.queue = (r, f) :: rest) :
    Machine (some r) { s with tasks := { s.tasks with queue := rest } } ∧
      ¬ Tasks.Present { s.tasks with queue := rest } r := by
  obtain ⟨htidy, hgone⟩ := h.tidy.tail hqueue
  have hnext : s.upcoming = some r := by
    rw [State.upcoming, hqueue]
    rfl
  rw [hnext] at h
  refine ⟨⟨htidy, fun c => (h.adjacent c).tail hqueue, fun x hx => ?_, h.settled,
    fun c hthen hadopt => ?_, h.origins, h.values⟩, hgone⟩
  · exact h.present x (hx.of_tail hqueue)
  · exact h.apart c (hthen.of_tail hqueue) (hadopt.of_tail hqueue)

theorem Machine.advance (h : Machine (some r) s)
    (hdone : ∀ (c : Nat) call, r = .finish c → s.calls[c]? = some call → call.Finished)
    (next : Option Reaction) : Machine next s := by
  refine { h with settled := fun p f hp => ?_ }
  have hsound := h.settled p f hp
  cases p with
  | gate c =>
    refine hsound.imp_right fun hgate => hgate.imp fun call hcall => ⟨hcall.1, .inl ?_⟩
    exact hcall.2.elim id fun heq => hdone c call (Option.some.inj heq) hcall.1
  | resolved => exact hsound
  | all c => exact hsound
  | operation c => exact hsound
  | result c => exact hsound

theorem Machine.put (h : Machine next s) {c : Nat} {call : Call} (phase : Phase)
    (hcall : s.calls[c]? = some call) (hstarted : phase ≠ .waiting)
    (hruns : ∀ p, ¬ s.tasks.Present (.run c p))
    (hends : phase = .committed ∨ phase = .rolledBack → ¬ s.tasks.Present (.finish c))
    (hkept : call.Finished → phase = .committed ∨ phase = .rolledBack) :
    Machine next { s with toAdmissions := s.put c call phase } := by
  -- what is known of a call, apart from its phase
  have hcalls : ∀ (i : Nat) old, s.calls[i]? = some old → ∃ found,
      (s.put c call phase).calls[i]? = some found ∧ found = { old with phase := found.phase } ∧
        (i = c ∧ old = call ∧ found.phase = phase ∨ i ≠ c ∧ found = old) := by
    intro i old hold
    obtain ⟨found, hfound, -⟩ := put_of_getElem? phase hcall hold
    obtain ⟨same, hsame, hrest⟩ := put_cases hcall hfound
    rw [hold] at hsame
    cases hsame
    exact ⟨found, hfound, hrest⟩
  have hstart : ∀ (i : Nat), (∃ old, s.calls[i]? = some old ∧ old.Started) →
      ∃ found, (s.put c call phase).calls[i]? = some found ∧ found.Started := by
    rintro i ⟨old, hold, hbefore⟩
    obtain ⟨found, hfound, -, ⟨-, -, hphase⟩ | ⟨-, rfl⟩⟩ := hcalls i old hold
    · exact ⟨found, hfound, by rw [Call.Started, hphase]; exact hstarted⟩
    · exact ⟨found, hfound, hbefore⟩
  refine ⟨h.tidy, h.adjacent, fun r hr => ?_, fun p f hp => ?_, h.apart, ?_, ?_⟩
  · have hfine := h.present r hr
    cases r with
    | element i k p =>
      obtain ⟨old, hold, hrest⟩ := hfine
      obtain ⟨found, hfound, heq, -⟩ := hcalls i old hold
      exact ⟨found, hfound, by rw [heq]; exact hrest⟩
    | run i p =>
      obtain ⟨old, hold, hrest⟩ := hfine
      obtain ⟨found, hfound, -, ⟨rfl, -, -⟩ | ⟨-, rfl⟩⟩ := hcalls i old hold
      · exact absurd hr (hruns p)
      · exact ⟨found, hfound, hrest⟩
    | resolveThenable i => exact hstart i hfine
    | adopt i => exact hstart i hfine
    | settleGate i =>
      obtain ⟨old, hold⟩ := hfine
      obtain ⟨found, hfound, -⟩ := hcalls i old hold
      exact ⟨found, hfound⟩
    | finish i =>
      obtain ⟨old, hold, hrest⟩ := hfine
      obtain ⟨found, hfound, -, ⟨rfl, rfl, hphase⟩ | ⟨-, rfl⟩⟩ := hcalls i old hold
      · refine ⟨found, hfound, fun hfinished => ?_⟩
        rw [Call.Finished, hphase] at hfinished
        exact hends hfinished hr
      · exact ⟨found, hfound, hrest⟩
  · have hsound := h.settled p f hp
    cases p with
    | resolved => exact hsound
    | all i =>
      obtain ⟨⟨old, hold⟩, hmissing⟩ := hsound
      obtain ⟨found, hfound, -⟩ := hcalls i old hold
      exact ⟨⟨found, hfound⟩, hmissing⟩
    | operation i => trivial
    | result i => exact hstart i hsound
    | gate i =>
      obtain ⟨htrue, old, hold, hgate⟩ := hsound
      obtain ⟨found, hfound, -, ⟨rfl, rfl, hphase⟩ | ⟨-, rfl⟩⟩ := hcalls i old hold
      · refine ⟨htrue, found, hfound, hgate.imp_left fun hfinished => ?_⟩
        rw [Call.Finished, hphase]
        exact hkept hfinished
      · exact ⟨htrue, found, hfound, hgate⟩
  · intro i found p hfound hp
    obtain ⟨old, hold, heq, -⟩ := put_cases hcall hfound
    rw [heq] at hp
    exact h.origins i old p hold hp
  · intro i found k p hfound hexclusive hk hvalue
    obtain ⟨old, hold, heq, -⟩ := put_cases hcall hfound
    rw [heq] at hexclusive hk
    exact h.values i old k p hold hexclusive hk hvalue

end Stynx.TenantMutations
