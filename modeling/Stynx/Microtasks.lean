import Mathlib.Data.List.Nodup

/-!
# Promises and their reactions

A promise is pending, with the reactions that wait for it, or settled. Settling a promise
queues its reactions in the order in which they came; a reaction to a settled promise is
queued at once. Jobs leave the queue in the order in which they came.

A reaction that belongs to one promise and is registered once runs at most once, and only
after that promise is settled; two reactions registered one after the other run one after the
other, with no job between them.
-/

namespace Stynx.Microtasks

universe u v

inductive PromiseState (ρ : Type v) where
  | pending (reactions : List ρ)
  | settled (fulfilled : Bool)

/-- Promises and the queue of jobs. A job is a reaction with the way in which its promise was
settled. -/
structure Tasks (π : Type u) (ρ : Type v) where
  /-- Promises; one that was not created yet is pending. -/
  promises : π → PromiseState ρ := fun _ => .pending []
  queue : List (ρ × Bool) := []

namespace Tasks

variable {π : Type u} {ρ : Type v} [DecidableEq π] {tasks : Tasks π ρ} {p q : π} {r x : ρ}
  {fulfilled : Bool}

/-- A promise is settled, unless it is already. -/
def settle (tasks : Tasks π ρ) (p : π) (fulfilled : Bool) : Tasks π ρ :=
  match tasks.promises p with
  | .pending reactions =>
    { promises := Function.update tasks.promises p (.settled fulfilled)
      queue := tasks.queue ++ reactions.map fun r => (r, fulfilled) }
  | .settled _ => tasks

def subscribe (tasks : Tasks π ρ) (p : π) (r : ρ) : Tasks π ρ :=
  match tasks.promises p with
  | .pending reactions =>
    { tasks with promises := Function.update tasks.promises p (.pending (reactions ++ [r])) }
  | .settled fulfilled => { tasks with queue := tasks.queue ++ [(r, fulfilled)] }

/-- A job is queued that waits for no promise. -/
def enqueue (tasks : Tasks π ρ) (r : ρ) : Tasks π ρ :=
  { tasks with queue := tasks.queue ++ [(r, true)] }

def Settled (tasks : Tasks π ρ) (p : π) : Prop := ∃ f, tasks.promises p = .settled f

/-- A reaction waits, or its job does. -/
def Present (tasks : Tasks π ρ) (r : ρ) : Prop :=
  r ∈ tasks.queue.map Prod.fst ∨ ∃ p reactions, tasks.promises p = .pending reactions ∧ r ∈ reactions

variable {f : Bool} {rest : List (ρ × Bool)}

theorem settle_promises_of_settled (h : tasks.promises q = .settled f) :
    (tasks.settle p fulfilled).promises q = .settled f := by
  unfold settle
  split
  case h_1 reactions hpending =>
    have hne : q ≠ p := by
      rintro rfl
      rw [hpending] at h
      cases h
    dsimp only
    rw [Function.update_of_ne hne, h]
  case h_2 => exact h

theorem settle_promises_cases (h : (tasks.settle p fulfilled).promises q = .settled f) :
    tasks.promises q = .settled f ∨ q = p ∧ f = fulfilled := by
  unfold settle at h
  split at h
  case h_1 reactions hpending =>
    by_cases hq : q = p
    · subst hq
      dsimp only at h
      rw [Function.update_self] at h
      cases h
      exact .inr ⟨rfl, rfl⟩
    · dsimp only at h
      rw [Function.update_of_ne hq] at h
      exact .inl h
  case h_2 => exact .inl h

theorem subscribe_promises_iff :
    (tasks.subscribe p r).promises q = .settled f ↔ tasks.promises q = .settled f := by
  unfold subscribe
  split
  case h_1 reactions hpending =>
    by_cases hq : q = p
    · subst hq
      dsimp only
      rw [Function.update_self, hpending]
      constructor
      all_goals
        intro h
        cases h
    · dsimp only
      rw [Function.update_of_ne hq]
  case h_2 => exact Iff.rfl

theorem Settled.settle (h : tasks.Settled q) : (tasks.settle p fulfilled).Settled q :=
  h.imp fun _ hf => settle_promises_of_settled hf

theorem settled_subscribe_iff : (tasks.subscribe p r).Settled q ↔ tasks.Settled q :=
  exists_congr fun _ => subscribe_promises_iff

theorem Present.of_settle (h : (tasks.settle p fulfilled).Present r) : tasks.Present r := by
  unfold Tasks.settle at h
  split at h
  case h_2 => exact h
  case h_1 reactions hpending =>
    rcases h with hqueued | ⟨q, others, hothers, hr⟩
    · rw [List.map_append, List.map_map, List.mem_append] at hqueued
      rcases hqueued with hold | hnew
      · exact .inl hold
      · obtain ⟨x, hx, rfl⟩ := List.mem_map.mp hnew
        exact .inr ⟨p, reactions, hpending, hx⟩
    · by_cases hq : q = p
      · subst hq
        dsimp only at hothers
        rw [Function.update_self] at hothers
        cases hothers
      · dsimp only at hothers
        rw [Function.update_of_ne hq] at hothers
        exact .inr ⟨q, others, hothers, hr⟩

theorem Present.of_subscribe (h : (tasks.subscribe p x).Present r) : r = x ∨ tasks.Present r := by
  unfold Tasks.subscribe at h
  split at h
  case h_2 f hsettled =>
    rcases h with hqueued | hwaiting
    · rw [List.map_append, List.mem_append] at hqueued
      rcases hqueued with hold | hnew
      · exact .inr (.inl hold)
      · exact .inl (List.mem_singleton.mp hnew)
    · exact .inr (.inr hwaiting)
  case h_1 reactions hpending =>
    rcases h with hqueued | ⟨q, others, hothers, hr⟩
    · exact .inr (.inl hqueued)
    · by_cases hq : q = p
      · subst hq
        dsimp only at hothers
        rw [Function.update_self] at hothers
        cases hothers
        rcases List.mem_append.mp hr with hold | hnew
        · exact .inr (.inr ⟨q, reactions, hpending, hold⟩)
        · exact .inl (List.mem_singleton.mp hnew)
      · dsimp only at hothers
        rw [Function.update_of_ne hq] at hothers
        exact .inr (.inr ⟨q, others, hothers, hr⟩)

omit [DecidableEq π] in
theorem Present.of_enqueue (h : (tasks.enqueue x).Present r) : r = x ∨ tasks.Present r := by
  rcases h with hqueued | hwaiting
  · rw [enqueue, List.map_append, List.mem_append] at hqueued
    rcases hqueued with hold | hnew
    · exact .inr (.inl hold)
    · exact .inl (List.mem_singleton.mp hnew)
  · exact .inr (.inr hwaiting)

omit [DecidableEq π] in
theorem Present.of_tail {job : ρ × Bool} (hqueue : tasks.queue = job :: rest)
    (h : Present { tasks with queue := rest } r) : tasks.Present r := by
  refine h.imp (fun hqueued => ?_) id
  rw [hqueue]
  exact .tail _ hqueued

theorem queue_prefix_settle : tasks.queue <+: (tasks.settle p fulfilled).queue := by
  unfold settle
  split
  · exact List.prefix_append _ _
  · exact List.prefix_rfl

theorem queue_prefix_subscribe : tasks.queue <+: (tasks.subscribe p r).queue := by
  unfold subscribe
  split
  · exact List.prefix_rfl
  · exact List.prefix_append _ _

omit [DecidableEq π] in
/-- Each reaction belongs to a promise, and is there at most once. -/
structure Tidy (source : ρ → Option π) (tasks : Tasks π ρ) : Prop where
  waiting : ∀ p reactions, tasks.promises p = .pending reactions →
    reactions.Nodup ∧ ∀ r ∈ reactions, source r = some p
  /-- A queued reaction belongs to a promise that is settled so. -/
  queued : ∀ r f p, (r, f) ∈ tasks.queue → source r = some p → tasks.promises p = .settled f
  /-- No reaction is queued twice. -/
  nodup : (tasks.queue.map Prod.fst).Nodup

variable {source : ρ → Option π}

omit [DecidableEq π] in
theorem tidy_initial : Tidy source ({} : Tasks π ρ) where
  waiting p reactions h := by
    cases h
    exact ⟨List.nodup_nil, fun r hr => by cases hr⟩
  queued r f p h := by cases h
  nodup := List.nodup_nil

theorem Tidy.settle (h : Tidy source tasks) : Tidy source (tasks.settle p fulfilled) := by
  unfold Tasks.settle
  split
  case h_2 => exact h
  case h_1 reactions hpending =>
    obtain ⟨hnodup, hsource⟩ := h.waiting p reactions hpending
    refine ⟨fun q others hothers => ?_, fun r f q hjob hq => ?_, ?_⟩
    · by_cases hq : q = p
      · subst hq
        dsimp only at hothers
        rw [Function.update_self] at hothers
        cases hothers
      · dsimp only at hothers
        rw [Function.update_of_ne hq] at hothers
        exact h.waiting q others hothers
    · dsimp only
      rcases List.mem_append.mp hjob with hold | hnew
      · have hsettled := h.queued r f q hold hq
        have hne : q ≠ p := by
          rintro rfl
          rw [hpending] at hsettled
          cases hsettled
        rw [Function.update_of_ne hne, hsettled]
      · obtain ⟨x, hx, heq⟩ := List.mem_map.mp hnew
        cases heq
        rw [hsource r hx] at hq
        cases hq
        exact Function.update_self _ _ _
    · rw [List.map_append, List.map_map]
      have hids : reactions.map (Prod.fst ∘ fun r => (r, fulfilled)) = reactions := List.map_id _
      rw [hids]
      refine List.nodup_append.mpr ⟨h.nodup, hnodup, fun r hr x hx heq => ?_⟩
      obtain ⟨⟨r', f⟩, hjob, rfl⟩ := List.mem_map.mp hr
      have hown : r' = x := heq
      have hsettled := h.queued r' f p hjob (hown ▸ hsource x hx)
      rw [hpending] at hsettled
      cases hsettled

theorem Tidy.subscribe (h : Tidy source tasks) (hsource : source r = some p)
    (hnew : ¬ tasks.Present r) : Tidy source (tasks.subscribe p r) := by
  unfold Tasks.subscribe
  split
  case h_1 reactions hpending =>
    obtain ⟨hnodup, hall⟩ := h.waiting p reactions hpending
    refine ⟨fun q others hothers => ?_, fun x f q hjob hq => ?_, h.nodup⟩
    · by_cases hq : q = p
      · subst hq
        dsimp only at hothers
        rw [Function.update_self] at hothers
        cases hothers
        refine ⟨List.nodup_append.mpr ⟨hnodup, List.nodup_singleton r, ?_⟩, fun x hx => ?_⟩
        · intro x hx y hy heq
          rw [List.mem_singleton.mp hy] at heq
          exact hnew (.inr ⟨q, reactions, hpending, heq ▸ hx⟩)
        · rcases List.mem_append.mp hx with hold | hnew
          · exact hall x hold
          · rw [List.mem_singleton.mp hnew, hsource]
      · dsimp only at hothers
        rw [Function.update_of_ne hq] at hothers
        exact h.waiting q others hothers
    · have hsettled := h.queued x f q hjob hq
      have hne : q ≠ p := by
        rintro rfl
        rw [hpending] at hsettled
        cases hsettled
      dsimp only
      rw [Function.update_of_ne hne, hsettled]
  case h_2 f hsettled =>
    refine ⟨h.waiting, fun x f' q hjob hq => ?_, ?_⟩
    · rcases List.mem_append.mp hjob with hold | hadded
      · exact h.queued x f' q hold hq
      · cases List.mem_singleton.mp hadded
        rw [hsource] at hq
        cases hq
        exact hsettled
    · rw [List.map_append]
      refine List.nodup_append.mpr ⟨h.nodup, List.nodup_singleton _, fun x hx y hy heq => ?_⟩
      have hsame : x = r := heq.trans (List.mem_singleton.mp hy)
      exact hnew (.inl (hsame ▸ hx))

omit [DecidableEq π] in
theorem Tidy.enqueue (h : Tidy source tasks) (hsource : source r = none)
    (hnew : ¬ tasks.Present r) : Tidy source (tasks.enqueue r) where
  waiting := h.waiting
  queued x f q hjob hq := by
    rcases List.mem_append.mp hjob with hold | hadded
    · exact h.queued x f q hold hq
    · cases List.mem_singleton.mp hadded
      rw [hsource] at hq
      cases hq
  nodup := by
    rw [Tasks.enqueue, List.map_append]
    refine List.nodup_append.mpr ⟨h.nodup, List.nodup_singleton _, fun x hx y hy heq => ?_⟩
    have hsame : x = r := heq.trans (List.mem_singleton.mp hy)
    exact hnew (.inl (hsame ▸ hx))

omit [DecidableEq π] in
theorem Tidy.tail (h : Tidy source tasks) (hqueue : tasks.queue = (r, f) :: rest) :
    Tidy source { tasks with queue := rest } ∧ ¬ Present { tasks with queue := rest } r := by
  have hnodup := h.nodup
  rw [hqueue, List.map_cons, List.nodup_cons] at hnodup
  refine ⟨⟨h.waiting, fun x f' q hjob hq => ?_, hnodup.2⟩, fun hpresent => ?_⟩
  · exact h.queued x f' q (hqueue ▸ .tail _ hjob) hq
  · rcases hpresent with hqueued | ⟨p, reactions, hpending, hr⟩
    · exact hnodup.1 hqueued
    · have hsource := (h.waiting p reactions hpending).2 r hr
      have hsettled := h.queued r f p (hqueue ▸ (.head _)) hsource
      rw [hpending] at hsettled
      cases hsettled

end Tasks

/-- In a list, `x` comes right after each `r`. -/
def NextTo {α : Type v} (r x : α) (l : List α) : Prop := ∀ k, l[k]? = some r → l[k + 1]? = some x

namespace NextTo

variable {α : Type v} {r x y : α} {l l' : List α}

theorem of_not_mem (h : r ∉ l) : NextTo r x l := fun _ hk => absurd (List.mem_of_getElem? hk) h

theorem append (h : NextTo r x l) (h' : NextTo r x l') : NextTo r x (l ++ l') := by
  intro k hk
  by_cases hlt : k < l.length
  · rw [List.getElem?_append_left hlt] at hk
    have hnext := h k hk
    rw [List.getElem?_append_left (List.getElem?_eq_some_iff.mp hnext).1, hnext]
  · rw [List.getElem?_append_right (Nat.le_of_not_lt hlt)] at hk
    have hnext := h' _ hk
    rw [List.getElem?_append_right (by omega), ← hnext]
    congr 1
    omega

theorem tail (h : NextTo r x (y :: l)) : NextTo r x l := fun k hk => h (k + 1) hk

theorem head (h : NextTo r x (r :: l)) : l.head? = some x := by
  rw [List.head?_eq_getElem?]
  exact h 0 rfl

theorem pair (h : r ≠ x) : NextTo r x [r, x] := by
  intro k hk
  match k with
  | 0 => rfl
  | 1 => exact absurd (Option.some.inj hk).symm h
  | k + 2 => cases hk

end NextTo

namespace Tasks

variable {π : Type u} {ρ : Type v} [DecidableEq π] {tasks : Tasks π ρ} {p : π} {r x y : ρ}
  {fulfilled : Bool}

/-- Wherever `r` waits, `x` comes right after it. -/
structure Adjacent (tasks : Tasks π ρ) (r x : ρ) : Prop where
  waiting : ∀ p reactions, tasks.promises p = .pending reactions → NextTo r x reactions
  queued : NextTo r x (tasks.queue.map Prod.fst)

omit [DecidableEq π] in
theorem adjacent_of_not_present (h : ¬ tasks.Present r) : tasks.Adjacent r x where
  waiting p reactions hpending := .of_not_mem fun hr => h (.inr ⟨p, reactions, hpending, hr⟩)
  queued := .of_not_mem fun hr => h (.inl hr)

theorem Adjacent.settle (h : tasks.Adjacent r x) : (tasks.settle p fulfilled).Adjacent r x := by
  unfold Tasks.settle
  split
  case h_2 => exact h
  case h_1 reactions hpending =>
    refine ⟨fun q others hothers => ?_, ?_⟩
    · by_cases hq : q = p
      · subst hq
        dsimp only at hothers
        rw [Function.update_self] at hothers
        cases hothers
      · dsimp only at hothers
        rw [Function.update_of_ne hq] at hothers
        exact h.waiting q others hothers
    · rw [List.map_append, List.map_map]
      have hids : reactions.map (Prod.fst ∘ fun r => (r, fulfilled)) = reactions := List.map_id _
      rw [hids]
      exact h.queued.append (h.waiting p reactions hpending)

theorem Adjacent.subscribe (h : tasks.Adjacent r x) (hne : y ≠ r) :
    (tasks.subscribe p y).Adjacent r x := by
  have hlast : NextTo r x [y] := .of_not_mem fun hr => hne (List.mem_singleton.mp hr).symm
  unfold Tasks.subscribe
  split
  case h_1 reactions hpending =>
    refine ⟨fun q others hothers => ?_, h.queued⟩
    by_cases hq : q = p
    · subst hq
      dsimp only at hothers
      rw [Function.update_self] at hothers
      cases hothers
      exact (h.waiting q reactions hpending).append hlast
    · dsimp only at hothers
      rw [Function.update_of_ne hq] at hothers
      exact h.waiting q others hothers
  case h_2 f hsettled =>
    refine ⟨h.waiting, ?_⟩
    rw [List.map_append]
    exact h.queued.append hlast

omit [DecidableEq π] in
theorem Adjacent.enqueue (h : tasks.Adjacent r x) (hne : y ≠ r) : (tasks.enqueue y).Adjacent r x where
  waiting := h.waiting
  queued := by
    rw [Tasks.enqueue, List.map_append]
    exact h.queued.append (.of_not_mem fun hr => hne (List.mem_singleton.mp hr).symm)

variable {rest : List (ρ × Bool)}

omit [DecidableEq π] in
theorem Adjacent.tail (h : tasks.Adjacent r x) {job : ρ × Bool} (hqueue : tasks.queue = job :: rest) :
    Adjacent { tasks with queue := rest } r x where
  waiting := h.waiting
  queued := by
    have hqueued := h.queued
    rw [hqueue, List.map_cons] at hqueued
    exact hqueued.tail

omit [DecidableEq π] in
theorem Adjacent.next (h : tasks.Adjacent r x) {f : Bool} (hqueue : tasks.queue = (r, f) :: rest) :
    (rest.map Prod.fst).head? = some x := by
  have hqueued := h.queued
  rw [hqueue, List.map_cons] at hqueued
  exact hqueued.head

theorem adjacent_subscribe {reactions : List ρ} (hpending : tasks.promises p = .pending reactions)
    (hnew : ¬ tasks.Present r) (hne : r ≠ x) :
    ((tasks.subscribe p r).subscribe p x).Adjacent r x := by
  have hfirst : tasks.subscribe p r = { tasks with
      promises := Function.update tasks.promises p (.pending (reactions ++ [r])) } := by
    rw [subscribe, hpending]
  have hsecond : (tasks.subscribe p r).subscribe p x = { tasks with
      promises := Function.update tasks.promises p (.pending (reactions ++ [r, x])) } := by
    rw [hfirst, subscribe]
    dsimp only
    rw [Function.update_self]
    dsimp only
    rw [Function.update_idem, List.append_assoc]
    rfl
  rw [hsecond]
  have hold : tasks.Adjacent r x := adjacent_of_not_present hnew
  refine ⟨fun q others hothers => ?_, hold.queued⟩
  by_cases hq : q = p
  · subst hq
    dsimp only at hothers
    rw [Function.update_self] at hothers
    cases hothers
    exact (hold.waiting q reactions hpending).append (.pair hne)
  · dsimp only at hothers
    rw [Function.update_of_ne hq] at hothers
    exact hold.waiting q others hothers

end Tasks

end Stynx.Microtasks
