import Stynx.TenantMutationRuns

/-!
# The law of exclusive operations

The jobs keep what is known of promises and tables, so every reachable state has it.
-/

namespace Stynx.TenantMutations

open CallTables Microtasks TransitionRuns

variable {s t : State}

structure Inv (s : State) : Prop where
  machine : Machine s.upcoming s
  ordered : Ordered s.toAdmissions

theorem inv_initial : Inv {} where
  machine := by
    have hnone : ∀ r, ¬ (({} : Tasks PromiseId Reaction).settle .resolved true).Present r := by
      intro r hr
      rcases hr.of_settle with hqueued | ⟨p, reactions, hpending, hmem⟩
      · cases hqueued
      · cases hpending
        cases hmem
    refine ⟨Tasks.tidy_initial.settle, fun c => Tasks.adjacent_of_not_present (hnone _),
      fun r hr => absurd hr (hnone r), fun p f hp => ?_, fun c hr => absurd hr (hnone _),
      fun c call p hcall => (by cases hcall), fun c call k p hcall => (by cases hcall)⟩
    have hp : (({} : Tasks PromiseId Reaction).settle .resolved true).promises p = .settled f := hp
    rcases Tasks.settle_promises_cases hp with hold | ⟨rfl, rfl⟩
    · cases hold
    · rfl
  ordered := ordered_initial

/-- What a step does to the phases of the calls. -/
inductive Moves (s t : State) : Prop
  /-- No call reaches another phase. -/
  | keeps : t.calls = s.calls → Moves s t
  | adds (entry : Call) : t.calls = s.calls ++ [entry] → entry.phase = .waiting → Moves s t
  | starts (c : Nat) (call : Call) : s.calls[c]? = some call → call.phase = .waiting →
    t.calls = s.calls.set c { call with phase := .running } → Moves s t
  /-- A frame is committed or rolled back. -/
  | ends (c : Nat) (call : Call) (phase : Phase) : s.calls[c]? = some call → call.Started →
    ¬ call.Finished → t.calls = s.calls.set c { call with phase } → Moves s t

/-- A job has left the queue, and its reaction runs. -/
structure Taken (s : State) (r : Reaction) (f : Bool) (rest : List (Reaction × Bool)) : Prop where
  inv : Inv s
  /-- The job was the next one. -/
  queue : s.tasks.queue = (r, f) :: rest

/-- The state without the job. -/
def State.taken (s : State) (rest : List (Reaction × Bool)) : State :=
  { s with tasks := { s.tasks with queue := rest } }

variable {r : Reaction} {f : Bool} {rest : List (Reaction × Bool)}

theorem Taken.machine (h : Taken s r f rest) : Machine (some r) (s.taken rest) :=
  (h.inv.machine.pop h.queue).1

theorem Taken.gone (h : Taken s r f rest) : ¬ (s.taken rest).tasks.Present r :=
  (h.inv.machine.pop h.queue).2

theorem Taken.fine (h : Taken s r f rest) : Fine s r := by
  refine h.inv.machine.present r (.inl ?_)
  rw [h.queue]
  exact .head _

variable {p : PromiseId} {c : Nat} {call : Call}

theorem Taken.promise (h : Taken s r f rest) (hsource : r.source = some p) :
    s.tasks.promises p = .settled f :=
  h.inv.machine.tidy.queued r f p (h.queue ▸ (.head _)) hsource

theorem Taken.advance (h : Taken s r f rest) (hr : ∀ c, r ≠ .finish c) (next : Option Reaction) :
    Machine next (s.taken rest) :=
  h.machine.advance (fun c _ heq => absurd heq (hr c)) next

theorem Taken.element {k : Nat} (h : Taken s (.element c k p) f rest) :
    Inv (resolveElement (s.taken rest) c k f) := by
  refine ⟨?_, ?_⟩
  · obtain ⟨call, hcall, hexclusive, hk⟩ := h.fine
    have hpromise := h.promise rfl
    have hfulfilled : f = true := by
      rcases h.inv.machine.origins c call p hcall (List.mem_of_getElem? hk) with rfl | ⟨i, rfl⟩
      · exact h.inv.machine.settled _ f hpromise
      · exact (h.inv.machine.settled _ f hpromise).1
    subst hfulfilled
    have hvalue : ∀ next, Machine next { s.taken rest with
        missing := Function.update s.missing c ((s.missing c).filter (· ≠ k)) } := fun next =>
      (h.advance (fun i heq => by cases heq) next).value hcall hk ⟨true, hpromise⟩
    by_cases hdone : (s.missing c).filter (· ≠ k) = []
    · have ht : resolveElement (s.taken rest) c k true = { s.taken rest with
          missing := Function.update s.missing c ((s.missing c).filter (· ≠ k))
          tasks := (s.taken rest).tasks.settle (.all c) true } := by
        rw [resolveElement, if_pos rfl]
        exact congrArg (fun tasks => { s.taken rest with
          missing := Function.update s.missing c ((s.missing c).filter (· ≠ k))
          tasks := tasks }) (if_pos hdone)
      rw [ht]
      exact (hvalue _).settle ⟨⟨call, hcall⟩, (Function.update_self _ _ _).trans hdone⟩
    · have ht : resolveElement (s.taken rest) c k true = { s.taken rest with
          missing := Function.update s.missing c ((s.missing c).filter (· ≠ k)) } := by
        rw [resolveElement, if_pos rfl]
        exact congrArg (fun tasks => { s.taken rest with
          missing := Function.update s.missing c ((s.missing c).filter (· ≠ k))
          tasks := tasks }) (if_neg hdone)
      rw [ht]
      exact hvalue _
  · unfold resolveElement
    split
    all_goals exact h.inv.ordered

theorem Taken.admitted (h : Taken s (.run c p) f rest) (hcall : s.calls[c]? = some call) {i : Nat}
    (hgate : .gate i ∈ call.sources) :
    ∃ one, s.calls[i]? = some one ∧ one.Finished := by
  have hsettled : s.tasks.Settled (.gate i) := by
    obtain ⟨same, hsame, -, ⟨hexclusive, rfl⟩ | ⟨-, hsources⟩⟩ := h.fine
    · rw [hcall] at hsame
      cases hsame
      obtain ⟨k, hk⟩ := List.getElem?_of_mem hgate
      refine h.inv.machine.values c call k (.gate i) hcall hexclusive hk ?_
      rw [(h.inv.machine.settled _ f (h.promise rfl)).2]
      exact List.not_mem_nil
    · rw [hcall] at hsame
      cases hsame
      rw [hsources, List.mem_singleton] at hgate
      exact ⟨f, hgate ▸ h.promise rfl⟩
  obtain ⟨g, hg⟩ := hsettled
  obtain ⟨-, one, hone, hfinished⟩ := h.machine.settled (.gate i) g hg
  refine ⟨one, hone, hfinished.elim id fun heq => ?_⟩
  cases heq

theorem Taken.run (h : Taken s (.run c p) f rest) (hcall : s.calls[c]? = some call)
    (ht : { s.taken rest with
      toAdmissions := s.put c call .running
      tasks := (s.taken rest).tasks.enqueue (.resolveThenable c) } = t) : Inv t := by
  obtain ⟨same, hsame, hwaiting, hadmits⟩ := h.fine
  rw [hcall] at hsame
  cases hsame
  have hunfinished : ¬ call.Finished := fun hfinished => hfinished.started hwaiting
  refine ⟨?_, ?_⟩
  · have hadvanced := h.advance (fun i heq => by cases heq) t.upcoming
    have hnotStarted : ∀ r : Reaction, r.call = c →
        (Fine (s.taken rest) r → ∃ found, s.calls[c]? = some found ∧ found.Started) →
        ¬ (s.taken rest).tasks.Present r := by
      intro r hr hfine hpresent
      obtain ⟨found, hfound, hstarted⟩ := hfine (hadvanced.present r hpresent)
      rw [hcall] at hfound
      cases hfound
      exact hstarted hwaiting
    have hput := hadvanced.put .running hcall (by decide) (fun q hpresent => ?_)
      (fun hfalse => (by rcases hfalse with hfalse | hfalse <;> cases hfalse))
      fun hfinished => absurd hfinished hunfinished
    · have hlt := (List.getElem?_eq_some_iff.mp hcall).1
      have hfinal := hput.enqueue (c := c)
        ⟨{ call with phase := .running }, List.getElem?_set_self hlt, fun hfalse => by cases hfalse⟩
        (hnotStarted _ rfl id) (hnotStarted _ rfl id)
      exact ht ▸ hfinal
    · obtain ⟨found, hfound, -, hadmits'⟩ := hadvanced.present _ hpresent
      have hfound : s.calls[c]? = some found := hfound
      rw [hcall] at hfound
      cases hfound
      have hsame : q = p := by
        rcases hadmits with ⟨hexclusive, rfl⟩ | ⟨hshared, hsources⟩
        · rcases hadmits' with ⟨-, rfl⟩ | ⟨hshared, -⟩
          · rfl
          · rw [hexclusive] at hshared
            cases hshared
        · rcases hadmits' with ⟨hexclusive, -⟩ | ⟨-, hsources'⟩
          · rw [hshared] at hexclusive
            cases hexclusive
          · rw [hsources] at hsources'
            cases hsources'
            rfl
      exact h.gone (hsame ▸ hpresent)
  · have hordered := h.inv.ordered.put .running hcall
      (fun hfinished => absurd hfinished hunfinished) fun i one hlt hone hconflict => ?_
    · exact ht ▸ hordered
    · rcases h.inv.ordered.waits i c one call hlt hone hcall hconflict with
        hfinished | hgate | ⟨k, mid, hik, hmid, htenant, hexclusive, hgate⟩
      · exact hfinished
      · obtain ⟨found, hfound, hfinished⟩ := h.admitted hcall hgate
        rw [hone] at hfound
        cases hfound
        exact hfinished
      · -- an exclusive call between the two is finished, and so it has started
        obtain ⟨found, hfound, hfinished⟩ := h.admitted hcall hgate
        rw [hmid] at hfound
        cases hfound
        exact h.inv.ordered.law i k one mid hik hone hmid
          ⟨hconflict.1.trans htenant.symm, .inr hexclusive⟩ hfinished.started

theorem Taken.finish (h : Taken s (.finish c) f rest) (hcall : s.calls[c]? = some call) :
    Inv (finish (s.taken rest) c call f) ∧ Moves s (finish (s.taken rest) c call f) := by
  have hunfinished : ¬ call.Finished := by
    obtain ⟨found, hfound, hopen⟩ := h.fine
    rw [hcall] at hfound
    cases hfound
    exact hopen
  have hstarted : call.Started := by
    obtain ⟨found, hfound, hbegun⟩ := h.inv.machine.settled (.result c) f (h.promise rfl)
    rw [hcall] at hfound
    cases hfound
    exact hbegun
  obtain ⟨phase, hphase, hend⟩ : ∃ phase : Phase,
      TenantMutations.finish (s.taken rest) c call f =
        { s.taken rest with toAdmissions := (s.put c call phase).leave c call } ∧
      (phase = .committed ∨ phase = .rolledBack) := by
    refine ⟨_, rfl, ?_⟩
    split
    · exact .inl rfl
    · exact .inr rfl
  rw [hphase]
  have hlt := (List.getElem?_eq_some_iff.mp hcall).1
  have hset : (s.put c call phase).calls[c]? = some { call with phase } :=
    List.getElem?_set_self hlt
  have hleave : ((s.put c call phase).leave c call).calls = (s.put c call phase).calls := by
    unfold Admissions.leave
    split
    all_goals rfl
  refine ⟨⟨?_, ?_⟩, .ends c call phase hcall hstarted hunfinished hleave⟩
  · have hput := h.machine.put phase hcall (by rcases hend with rfl | rfl <;> decide)
      (fun p hpresent => ?_) (fun _ => h.gone) fun _ => hend
    · refine (hput.advance (fun i found heq hfound => ?_) _).congr hleave rfl rfl
      cases heq
      have hsame := hset.symm.trans hfound
      cases hsame
      exact hend
    · obtain ⟨found, hfound, hwaiting, -⟩ := h.machine.present _ hpresent
      have hfound : s.calls[c]? = some found := hfound
      rw [hcall] at hfound
      cases hfound
      exact hstarted hwaiting
  · have hordered := h.inv.ordered.put phase hcall (fun _ => hend)
      fun i one hlt hone hconflict =>
        h.inv.ordered.law i c one call hlt hone hcall hconflict hstarted
    have hleft := hordered.leave hset hend fun hshared =>
      ((h.inv.ordered.shared c call hcall hshared).resolve_left hunfinished).1
    exact hleft

theorem Taken.resolveThenable (h : Taken s (.resolveThenable c) f rest) :
    Inv { s.taken rest with tasks := (s.taken rest).tasks.subscribe (.operation c) (.adopt c) } where
  machine := by
    refine (h.advance (fun i heq => by cases heq) _).subscribe rfl (fun hpresent => ?_) h.fine
      (fun i heq => by cases heq) fun i heq => ?_
    · have hqueued : s.tasks.Present (.resolveThenable c) := by
        refine .inl ?_
        rw [h.queue]
        exact .head _
      exact h.inv.machine.apart c hqueued (hpresent.of_tail h.queue)
    · cases heq
      exact h.gone
  ordered := h.inv.ordered

theorem Taken.adopt (h : Taken s (.adopt c) f rest) :
    Inv { s.taken rest with tasks := (s.taken rest).tasks.settle (.result c) f } where
  machine := (h.advance (fun i heq => by cases heq) _).settle h.fine
  ordered := h.inv.ordered

theorem Taken.settleGate (h : Taken s (.settleGate c) f rest) :
    Inv { s.taken rest with tasks := (s.taken rest).tasks.settle (.gate c) true } where
  machine := by
    obtain ⟨call, hcall⟩ := h.fine
    refine (h.advance (fun i heq => by cases heq) _).settle ⟨rfl, call, hcall, .inr ?_⟩
    have hnext := (h.inv.machine.adjacent c).next h.queue
    obtain ⟨more, hmore⟩ : (s.taken rest).tasks.queue <+:
        ((s.taken rest).tasks.settle (.gate c) true).queue := Tasks.queue_prefix_settle
    rw [State.upcoming, ← hmore, List.map_append, List.head?_append, show
      ((s.taken rest).tasks.queue.map Prod.fst).head? = some (.finish c) from hnext]
    rfl
  ordered := h.inv.ordered

theorem Inv.job (h : Inv s) {r : Reaction} {f : Bool} {rest : List (Reaction × Bool)}
    (hqueue : s.tasks.queue = (r, f) :: rest) (hjob : runJob (s.taken rest) f r = some t) :
    Inv t ∧ Moves s t := by
  have htaken : Taken s r f rest := ⟨h, hqueue⟩
  cases r with
  | element c k p =>
    cases hjob
    refine ⟨htaken.element, .keeps ?_⟩
    unfold resolveElement
    split
    all_goals rfl
  | run c p =>
    obtain ⟨call, hcall, ht⟩ := Option.map_eq_some_iff.mp hjob
    refine ⟨htaken.run hcall ht, ?_⟩
    obtain ⟨found, hfound, hwaiting, -⟩ := htaken.fine
    have hcall : s.calls[c]? = some call := hcall
    rw [hcall] at hfound
    cases hfound
    exact .starts c call hcall hwaiting (ht ▸ rfl)
  | resolveThenable c =>
    cases hjob
    exact ⟨htaken.resolveThenable, .keeps rfl⟩
  | adopt c =>
    cases hjob
    exact ⟨htaken.adopt, .keeps rfl⟩
  | settleGate c =>
    cases hjob
    exact ⟨htaken.settleGate, .keeps rfl⟩
  | finish c =>
    obtain ⟨call, hcall, rfl⟩ := Option.map_eq_some_iff.mp hjob
    exact htaken.finish hcall

theorem Inv.step (h : Inv s) {label : Label} (hstep : step s label = some t) : Inv t ∧ Moves s t := by
  cases label with
  | request tenantId exclusive =>
    cases hstep
    obtain ⟨entry, hcalls, hwaiting, -⟩ := enter_calls s.toAdmissions tenantId exclusive
    exact ⟨⟨h.machine.request tenantId exclusive, h.ordered.enter tenantId exclusive⟩,
      .adds entry hcalls hwaiting⟩
  | job =>
    rw [TenantMutations.step] at hstep
    split at hstep
    · cases hstep
    case h_2 r f rest hqueue => exact h.job hqueue hstep
  | openFrame c =>
    rw [TenantMutations.step] at hstep
    split at hstep
    · cases hstep
      exact ⟨⟨h.machine.congr rfl rfl rfl, h.ordered⟩, .keeps rfl⟩
    · cases hstep
  | closeFrame c =>
    rw [TenantMutations.step] at hstep
    split at hstep
    · cases hstep
      exact ⟨⟨h.machine.congr rfl rfl rfl, h.ordered⟩, .keeps rfl⟩
    · cases hstep
  | settle c succeeds =>
    rw [TenantMutations.step] at hstep
    split at hstep
    · cases hstep
      refine ⟨⟨?_, h.ordered⟩, .keeps rfl⟩
      exact Machine.grow (h.machine.settle trivial) Tasks.queue_prefix_settle
    · cases hstep

/-- Exclusive operations run alone and in their order. -/
structure Law (s : State) : Prop where
  /-- While an exclusive operation runs, no other of its tenant does. -/
  alone : ∀ (i j : Nat) one two, i ≠ j → s.calls[i]? = some one → s.calls[j]? = some two →
    one.tenantId = two.tenantId → one.exclusive = true → one.phase = .running →
    two.phase ≠ .running
  /-- While an exclusive operation runs, no step starts, commits or rolls back another one of its
  tenant. -/
  still : ∀ label t, step s label = some t → ∀ (i j : Nat) one later, i ≠ j →
    s.calls[i]? = some one → t.calls[j]? = some later → one.tenantId = later.tenantId →
    one.exclusive = true → one.phase = .running →
    (∃ two, s.calls[j]? = some two ∧ two.phase = later.phase) ∨
      s.calls[j]? = none ∧ later.phase = .waiting
  /-- When an exclusive operation has started, those that were requested before have, too. -/
  ordered : ∀ (i j : Nat) one two, i < j → s.calls[i]? = some one → s.calls[j]? = some two →
    one.tenantId = two.tenantId → one.exclusive = true → two.exclusive = true → two.Started →
    one.Started

theorem not_finished_of_running {call : Call} (h : call.phase = .running) : ¬ call.Finished := by
  intro hfinished
  rw [Call.Finished, h] at hfinished
  rcases hfinished with hfalse | hfalse
  all_goals cases hfalse

theorem started_of_running {call : Call} (h : call.phase = .running) : call.Started := by
  intro hwaiting
  rw [h] at hwaiting
  cases hwaiting

theorem Ordered.alone {s : Admissions} (h : Ordered s) {i j : Nat} {one two : Call} (hne : i ≠ j)
    (hone : s.calls[i]? = some one) (htwo : s.calls[j]? = some two)
    (htenant : one.tenantId = two.tenantId) (hexclusive : one.exclusive = true)
    (hrunning : one.phase = .running) : two.phase = .waiting ∨ two.Finished := by
  rcases Nat.lt_or_gt_of_ne hne with hlt | hlt
  · refine .inl (not_not.mp fun hstarted => not_finished_of_running hrunning ?_)
    exact h.law i j one two hlt hone htwo ⟨htenant, .inl hexclusive⟩ hstarted
  · exact .inr (h.law j i two one hlt htwo hone ⟨htenant.symm, .inr hexclusive⟩
      (started_of_running hrunning))

theorem Inv.law (h : Inv s) : Law s where
  alone i j one two hne hone htwo htenant hexclusive hrunning hother := by
    rcases h.ordered.alone hne hone htwo htenant hexclusive hrunning with hwaiting | hfinished
    · rw [hother] at hwaiting
      cases hwaiting
    · exact not_finished_of_running hother hfinished
  still label t hstep i j one later hne hone hlater htenant hexclusive hrunning := by
    obtain ⟨hinv, hmoves⟩ := h.step hstep
    cases hmoves with
    | keeps hcalls => exact .inl ⟨later, hcalls ▸ hlater, rfl⟩
    | adds entry hcalls hwaiting =>
      rw [hcalls] at hlater
      rcases getElem?_concat_cases hlater with ⟨rfl, rfl⟩ | ⟨-, hold⟩
      · exact .inr ⟨List.getElem?_eq_none le_rfl, hwaiting⟩
      · exact .inl ⟨later, hold, rfl⟩
    | starts c call hcall hwaiting hcalls =>
      have hset := hlater
      rw [hcalls] at hset
      rcases getElem?_set_cases hset with ⟨rfl, rfl⟩ | ⟨-, hold⟩
      · -- the exclusive operation is still running afterwards, so nothing else starts
        have hkept : t.calls[i]? = some one := by
          rw [hcalls, List.getElem?_set_ne (Ne.symm hne), hone]
        rcases hinv.ordered.alone hne hkept hlater htenant hexclusive hrunning with hnot | hfinished
        · cases hnot
        · exact absurd hfinished (not_finished_of_running rfl)
      · exact .inl ⟨later, hold, rfl⟩
    | ends c call phase hcall hstarted hunfinished hcalls =>
      rw [hcalls] at hlater
      rcases getElem?_set_cases hlater with ⟨rfl, rfl⟩ | ⟨-, hold⟩
      · rcases h.ordered.alone hne hone hcall htenant hexclusive hrunning with hwaiting | hfinished
        · exact absurd hwaiting hstarted
        · exact absurd hfinished hunfinished
      · exact .inl ⟨later, hold, rfl⟩
  ordered i j one two hlt hone htwo htenant hexclusive _ hstarted :=
    (h.ordered.law i j one two hlt hone htwo ⟨htenant, .inl hexclusive⟩ hstarted).started

/-- An exclusive operation runs alone from its start until its frame is committed or rolled back,
and exclusive operations start in the order of their requests. -/
theorem exclusive_operations_alone (labels : List Label) (s : State)
    (hrun : run step {} labels = some s) : Law s :=
  (run_invariant (fun _ _ _ h hstep => (h.step hstep).1) inv_initial hrun).law

/-- Two exclusive calls and a shared one, whose frame stays incomplete; the first one throws. -/
def contendedRun : List Label :=
  [.request "t" true, .request "t" false, .request "t" true, .job, .job, .job, .settle 0 false,
    .job, .job, .job, .job, .openFrame 1, .job, .job, .settle 1 true, .job, .job, .job, .job, .job]

theorem exclusive_operations_alone_contendedRun :
    ∃ s, run step {} contendedRun = some s ∧ Law s := by
  have hsome : (run step {} contendedRun).isSome = true := by decide
  obtain ⟨s, hs⟩ := Option.isSome_iff_exists.mp hsome
  exact ⟨s, hs, exclusive_operations_alone contendedRun s hs⟩

end Stynx.TenantMutations
