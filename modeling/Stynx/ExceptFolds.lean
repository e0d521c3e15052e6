/-!
# Computations that may throw

Rules for a sequence of steps in `Except`. A sequence ends well exactly when
each step does, and what every step of a loop respects, the loop respects.
-/

namespace Stynx.ExceptFolds

universe u v w

variable {ε : Type u} {α : Type v} {β : Type w}

theorem bind_eq_ok {γ : Type w} {x : Except ε β} {f : β → Except ε γ} {c : γ} :
    (x >>= f) = .ok c ↔ ∃ b, x = .ok b ∧ f b = .ok c := by
  cases x with
  | error e =>
    constructor
    · intro h
      cases h
    · rintro ⟨b, hb, -⟩
      cases hb
  | ok b =>
    constructor
    · intro h
      exact ⟨b, rfl, h⟩
    · rintro ⟨b', hb, h⟩
      cases hb
      exact h

theorem map_eq_ok {γ : Type w} {x : Except ε β} {f : β → γ} {c : γ} :
    x.map f = .ok c ↔ ∃ b, x = .ok b ∧ f b = c := by
  cases x with
  | error e =>
    constructor
    · intro h
      cases h
    · rintro ⟨b, hb, -⟩
      cases hb
  | ok b =>
    constructor
    · intro h
      exact ⟨b, rfl, Except.ok.inj h⟩
    · rintro ⟨b', hb, rfl⟩
      cases hb
      rfl

variable {f : β → α → Except ε β} {items : List α} {b c : β}

theorem foldlM_relation (rel : β → β → Prop) (hrefl : ∀ b, rel b b)
    (htrans : ∀ a b c, rel a b → rel b c → rel a c) (hstep : ∀ b x c, f b x = .ok c → rel b c)
    (h : items.foldlM f b = .ok c) : rel b c := by
  induction items generalizing b with
  | nil =>
    cases h
    exact hrefl c
  | cons x rest ih =>
    rw [List.foldlM_cons] at h
    obtain ⟨m, hm, hrest⟩ := bind_eq_ok.mp h
    exact htrans b m c (hstep b x m hm) (ih hrest)

theorem foldlM_preserves {P : β → Prop} (hstep : ∀ x ∈ items, ∀ b c, P b → f b x = .ok c → P c)
    (h : items.foldlM f b = .ok c) (hb : P b) : P c := by
  induction items generalizing b with
  | nil =>
    cases h
    exact hb
  | cons x rest ih =>
    rw [List.foldlM_cons] at h
    obtain ⟨m, hm, hrest⟩ := bind_eq_ok.mp h
    exact ih (fun y hy => hstep y (.tail _ hy)) hrest (hstep x (.head _) b m hb hm)

theorem foldlM_covers {P : β → Prop} {R : α → β → Prop}
    (hstep : ∀ x ∈ items, ∀ b c, P b → f b x = .ok c → P c ∧ R x c)
    (hkeep : ∀ x, ∀ y ∈ items, ∀ b c, R x b → P b → f b y = .ok c → R x c)
    (h : items.foldlM f b = .ok c) (hb : P b) : P c ∧ ∀ x ∈ items, R x c := by
  induction items generalizing b with
  | nil =>
    cases h
    exact ⟨hb, fun _ hx => absurd hx List.not_mem_nil⟩
  | cons x rest ih =>
    rw [List.foldlM_cons] at h
    obtain ⟨m, hm, hrest⟩ := bind_eq_ok.mp h
    obtain ⟨hPm, hRm⟩ := hstep x (.head _) b m hb hm
    obtain ⟨hPc, hRc⟩ := ih (fun y hy => hstep y (.tail _ hy))
      (fun z y hy => hkeep z y (.tail _ hy)) hrest hPm
    refine ⟨hPc, ?_⟩
    intro y hy
    rcases List.mem_cons.mp hy with rfl | hy
    · exact (foldlM_preserves (P := fun b => P b ∧ R y b)
        (fun z hz b c hPR hbc => ⟨(hstep z (.tail _ hz) b c hPR.1 hbc).1,
          hkeep y z (.tail _ hz) b c hPR.2 hPR.1 hbc⟩) hrest ⟨hPm, hRm⟩).2
    · exact hRc y hy

end Stynx.ExceptFolds
