import Mathlib.Logic.Basic

/-!
# Runs of labelled transition functions

A system is a partial step function on a state type: a label is taken, giving the next state, or is
not enabled. A run is a list of labels. The rules turn a fact about one step into one about every
run: an invariant, with or without a side condition at every label taken, and a relation between
the ends of a run.
-/

namespace Stynx.TransitionRuns

universe u v w

variable {σ : Type u} {α : Type v} {β : Type w}

/-- Take the labels in order; a label that is not enabled ends the run without a state. -/
def run (step : σ → α → Option σ) : σ → List α → Option σ
  | s, [] => some s
  | s, a :: rest =>
    match step s a with
    | some t => run step t rest
    | none => none

/-- Every label of the run meets `ok` in the state in which it is taken. -/
def RunMeets (step : σ → α → Option σ) (ok : σ → α → Prop) : σ → List α → Prop
  | _, [] => True
  | s, a :: rest =>
    ok s a ∧
      match step s a with
      | some t => RunMeets step ok t rest
      | none => True

/-- The case split on a log that a step extends by an entry. -/
theorem mem_concat_iff {log : List β} {x y : β} : x ∈ log ++ [y] ↔ x ∈ log ∨ x = y := by
  rw [List.mem_append, List.mem_singleton]

@[simp] theorem run_nil (step : σ → α → Option σ) (s : σ) : run step s [] = some s := rfl

variable {step : σ → α → Option σ} {C D : σ → α → Prop} {I : σ → Prop}
  {s t m : σ} {a : α} {labels rest before after : List α}

theorem run_cons_eq_some :
    run step s (a :: rest) = some t ↔ ∃ m, step s a = some m ∧ run step m rest = some t := by
  change (match step s a with | some t => run step t rest | none => none) = some t ↔ _
  cases step s a with
  | none => exact ⟨(fun h => nomatch h), fun ⟨_, hm, _⟩ => nomatch hm⟩
  | some m => exact ⟨fun h => ⟨m, rfl, h⟩, fun ⟨_, rfl, h⟩ => h⟩

theorem runMeets_cons :
    RunMeets step C s (a :: rest) ↔ C s a ∧ ∀ m, step s a = some m → RunMeets step C m rest := by
  change C s a ∧ (match step s a with | some t => RunMeets step C t rest | none => True) ↔ _
  refine and_congr_right fun _ => ?_
  cases step s a with
  | none => exact ⟨(fun _ _ hm => nomatch hm), fun _ => trivial⟩
  | some m => exact ⟨fun h _ hm => Option.some.inj hm ▸ h, fun h => h m rfl⟩

theorem runMeets_of_some (h : step s a = some t) :
    RunMeets step C s (a :: rest) ↔ C s a ∧ RunMeets step C t rest := by
  rw [runMeets_cons, h]
  exact and_congr_right fun _ => ⟨fun hall => hall t rfl, fun ht m hm => Option.some.inj hm ▸ ht⟩

theorem runMeets_of_none (h : step s a = none) : RunMeets step C s (a :: rest) ↔ C s a := by
  rw [runMeets_cons, h]
  exact and_iff_left fun m hm => nomatch hm

/-- A side condition on a concrete run can be evaluated. -/
instance decidableRunMeets (step : σ → α → Option σ) (ok : σ → α → Prop)
    [∀ s a, Decidable (ok s a)] : ∀ s as, Decidable (RunMeets step ok s as)
  | _, [] => isTrue trivial
  | s, a :: rest =>
    match h : step s a with
    | some t =>
      have := decidableRunMeets step ok t rest
      decidable_of_iff (ok s a ∧ RunMeets step ok t rest) (runMeets_of_some h).symm
    | none => decidable_of_iff (ok s a) (runMeets_of_none h).symm

theorem run_invariant (hstep : ∀ s a t, I s → step s a = some t → I t)
    {t : σ} (hs : I s) (hrun : run step s labels = some t) : I t := by
  induction labels generalizing s with
  | nil =>
    cases hrun
    exact hs
  | cons a rest ih =>
    obtain ⟨m, hm, hrest⟩ := run_cons_eq_some.mp hrun
    exact ih (hstep s a m hs hm) hrest

theorem run_invariant_of_meets (hstep : ∀ s a t, I s → C s a → step s a = some t → I t)
    {t : σ} (hs : I s) (hok : RunMeets step C s labels) (hrun : run step s labels = some t) : I t := by
  induction labels generalizing s with
  | nil =>
    cases hrun
    exact hs
  | cons a rest ih =>
    obtain ⟨m, hm, hrest⟩ := run_cons_eq_some.mp hrun
    obtain ⟨hfirst, hlater⟩ := runMeets_cons.mp hok
    exact ih (hstep s a m hs hfirst hm) (hlater m hm) hrest

theorem run_iff_meets {I good : σ → Prop} (hinv : ∀ s a t, I s → step s a = some t → I t)
    (hiff : ∀ s a t, I s → step s a = some t → (good t ↔ good s ∧ C s a))
    {t : σ} (hs : I s) (hrun : run step s labels = some t) :
    good t ↔ good s ∧ RunMeets step C s labels := by
  induction labels generalizing s with
  | nil =>
    cases hrun
    exact (and_iff_left trivial).symm
  | cons a rest ih =>
    obtain ⟨m, hm, hrest⟩ := run_cons_eq_some.mp hrun
    rw [ih (hinv s a m hs hm) hrest, hiff s a m hs hm, runMeets_of_some hm, and_assoc]

theorem runMeets_of_forall_mem {ok : α → Prop}
    (h : ∀ a ∈ labels, ok a) : RunMeets step (fun _ a => ok a) s labels := by
  induction labels generalizing s with
  | nil => trivial
  | cons a rest ih =>
    exact runMeets_cons.mpr ⟨h a (.head _),
      fun m _ => ih fun b hb => h b (.tail a hb)⟩

theorem RunMeets.mono
    (h : RunMeets step C s labels) (hle : ∀ s a, C s a → D s a) : RunMeets step D s labels := by
  induction labels generalizing s with
  | nil => trivial
  | cons a rest ih =>
    obtain ⟨hfirst, hrest⟩ := runMeets_cons.mp h
    exact runMeets_cons.mpr ⟨hle s a hfirst, fun m hm => ih (hrest m hm)⟩

theorem runMeets_append (hbefore : run step s before = some m) :
    RunMeets step C s (before ++ after) ↔ RunMeets step C s before ∧ RunMeets step C m after := by
  induction before generalizing s with
  | nil =>
    cases hbefore
    exact (and_iff_right trivial).symm
  | cons a rest ih =>
    obtain ⟨t, ht, hrest⟩ := run_cons_eq_some.mp hbefore
    rw [List.cons_append, runMeets_of_some ht, runMeets_of_some ht, and_assoc, ih hrest]

theorem runMeets_and (h : RunMeets step C s labels) (h' : RunMeets step D s labels) :
    RunMeets step (fun s a => C s a ∧ D s a) s labels := by
  induction labels generalizing s with
  | nil => trivial
  | cons a rest ih =>
    obtain ⟨hfirst, hrest⟩ := runMeets_cons.mp h
    obtain ⟨hfirst', hrest'⟩ := runMeets_cons.mp h'
    exact runMeets_cons.mpr ⟨⟨hfirst, hfirst'⟩, fun m hm => ih (hrest m hm) (hrest' m hm)⟩

theorem runMeets_of_steps (hstep : ∀ s a t, I s → C s a → step s a = some t → I t ∧ D s a)
    {t : σ} (hs : I s) (hok : RunMeets step C s labels)
    (hrun : run step s labels = some t) : RunMeets step D s labels ∧ I t := by
  induction labels generalizing s with
  | nil =>
    cases hrun
    exact ⟨trivial, hs⟩
  | cons a rest ih =>
    obtain ⟨m, hm, hrest⟩ := run_cons_eq_some.mp hrun
    obtain ⟨hfirst, hlater⟩ := runMeets_cons.mp hok
    obtain ⟨hnext, hafter⟩ := hstep s a m hs hfirst hm
    obtain ⟨hall, hend⟩ := ih hnext (hlater m hm) hrest
    refine ⟨runMeets_cons.mpr ⟨hafter, fun m' hm' => ?_⟩, hend⟩
    rw [hm] at hm'
    cases hm'
    exact hall

theorem run_of_foldlM {ε : Type w} {f : σ → α → Except ε σ}
    (h : labels.foldlM f s = .ok t) : run (fun s a => (f s a).toOption) s labels = some t := by
  induction labels generalizing s with
  | nil =>
    cases h
    rfl
  | cons a rest ih =>
    rw [List.foldlM_cons] at h
    cases hstep : f s a with
    | error e =>
      rw [hstep] at h
      cases h
    | ok m =>
      rw [hstep] at h
      refine run_cons_eq_some.mpr ⟨m, ?_, ih h⟩
      rw [hstep]
      rfl

/-- What the labels of a run show, in order. -/
def trace (step : σ → α → Option σ) (shows : σ → α → List β) : σ → List α → List β
  | _, [] => []
  | s, a :: rest =>
    shows s a ++
      match step s a with
      | some t => trace step shows t rest
      | none => []

theorem trace_cons {shows : σ → α → List β} (h : step s a = some t) :
    trace step shows s (a :: rest) = shows s a ++ trace step shows t rest := by
  change shows s a ++ (match step s a with | some t => trace step shows t rest | none => []) = _
  rw [h]

theorem run_invariant_trace {shows : σ → α → List β} {I : List β → σ → Prop}
    (hstep : ∀ shown s a t, I shown s → C s a → step s a = some t → I (shown ++ shows s a) t)
    {t : σ} {shown : List β} (hs : I shown s)
    (hok : RunMeets step C s labels) (hrun : run step s labels = some t) :
    I (shown ++ trace step shows s labels) t := by
  induction labels generalizing s shown with
  | nil =>
    cases hrun
    change I (shown ++ []) _
    rw [List.append_nil]
    exact hs
  | cons a rest ih =>
    obtain ⟨m, hm, hrest⟩ := run_cons_eq_some.mp hrun
    obtain ⟨hfirst, hlater⟩ := runMeets_cons.mp hok
    rw [trace_cons hm, ← List.append_assoc]
    exact ih (hstep shown s a m hs hfirst hm) (hlater m hm) hrest

theorem run_relation {R : σ → σ → Prop}
    (hrefl : ∀ s, R s s) (htrans : ∀ s m t, R s m → R m t → R s t)
    (hinv : ∀ s a t, I s → step s a = some t → I t)
    (hrel : ∀ s a t, I s → step s a = some t → R s t)
    {t : σ} (hs : I s) (hrun : run step s labels = some t) : R s t := by
  induction labels generalizing s with
  | nil =>
    cases hrun
    exact hrefl _
  | cons a rest ih =>
    obtain ⟨m, hm, hrest⟩ := run_cons_eq_some.mp hrun
    exact htrans s m t (hrel s a m hs hm) (ih (hinv s a m hs hm) hrest)

end Stynx.TransitionRuns
