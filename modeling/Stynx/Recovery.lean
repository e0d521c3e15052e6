import Mathlib.Data.Set.Basic

/-!
# Recovery

A lost node is recovered with its family: first the lost nodes above it, then the
node itself, then the lost nodes below it, one list after the other. A list is read
before its nodes are recovered, and a node that is not lost when its turn comes
makes the recovery fail. What a recovery leaves is what cannot be reached through
lost nodes.
-/

namespace Stynx.Recovery

open Relation (ReflTransGen)
open scoped Classical

universe u

variable {α : Type u}

section

variable (up : α → List α) (down : α → List (List α))

/-- A lost node is directly above or below a node. -/
def Next (lost : Set α) (a b : α) : Prop :=
  b ∈ lost ∧ (b ∈ up a ∨ ∃ below ∈ down a, b ∈ below)

/-- A node can be reached through lost nodes. -/
def Reach (lost : Set α) : α → α → Prop := ReflTransGen (Next up down lost)

/-- What is still lost after the recovery of some nodes. -/
def After (lost : Set α) (nodes : List α) : Set α :=
  { b | b ∈ lost ∧ ∀ a ∈ nodes, ¬Reach up down lost a b }

noncomputable def lostOf (lost : Set α) (nodes : List α) : List α :=
  nodes.filter fun a => a ∈ lost

/-- What is still lost after several lists, each read when its turn comes. -/
noncomputable def afterLists : Set α → List (List α) → Set α
  | lost, [] => lost
  | lost, nodes :: rest => afterLists (After up down lost (lostOf lost nodes)) rest

/-- What there is to recover. -/
inductive Goal (α : Type u) where
  | node (a : α)
  | nodes (list : List α)
  | lists (rest : List (List α))

noncomputable def Goal.after (lost : Set α) : Goal α → Set α
  | .node a => After up down lost [a]
  | .nodes list => After up down lost list
  | .lists rest => afterLists up down lost rest

end

section

variable (up : α → List α) (down : α → List (List α)) (fit : Set α → α → Prop)

/-- The recovery itself. A node must be fit for what is still lost when it is put back. -/
inductive Recovers : Set α → Goal α → Set α → Prop
  | node {lost above below : Set α} {a : α} :
    a ∈ lost → Recovers lost (.nodes (lostOf lost (up a))) above → fit above a →
    Recovers (above \ {a}) (.lists (down a)) below → Recovers lost (.node a) below
  | nil (lost : Set α) : Recovers lost (.nodes []) lost
  | cons {lost lost' lost'' : Set α} {a : α} {rest : List α} :
    Recovers lost (.node a) lost' → Recovers lost' (.nodes rest) lost'' →
    Recovers lost (.nodes (a :: rest)) lost''
  | none (lost : Set α) : Recovers lost (.lists []) lost
  | list {lost lost' lost'' : Set α} {nodes : List α} {rest : List (List α)} :
    Recovers lost (.nodes (lostOf lost nodes)) lost' → Recovers lost' (.lists rest) lost'' →
    Recovers lost (.lists (nodes :: rest)) lost''

/-- Each node is still lost at its turn: no node before it in its list reaches it. -/
inductive Clear : Set α → Goal α → Prop
  | node {lost : Set α} {a : α} :
    a ∈ lost → Clear lost (.nodes (lostOf lost (up a))) →
    fit (After up down lost (lostOf lost (up a))) a →
    Clear (After up down lost (lostOf lost (up a)) \ {a}) (.lists (down a)) → Clear lost (.node a)
  | nil (lost : Set α) : Clear lost (.nodes [])
  | cons {lost : Set α} {a : α} {rest : List α} :
    Clear lost (.node a) → Clear (After up down lost [a]) (.nodes rest) →
    Clear lost (.nodes (a :: rest))
  | none (lost : Set α) : Clear lost (.lists [])
  | list {lost : Set α} {nodes : List α} {rest : List (List α)} :
    Clear lost (.nodes (lostOf lost nodes)) →
    Clear (After up down lost (lostOf lost nodes)) (.lists rest) →
    Clear lost (.lists (nodes :: rest))

end

section

variable {up : α → List α} {down : α → List (List α)} {lost lost' : Set α}

variable {nodes : List α} {a : α}

theorem mem_lostOf : a ∈ lostOf lost nodes ↔ a ∈ nodes ∧ a ∈ lost := by
  simp [lostOf]

theorem Reach.mono (h : ∀ a ∈ lost, a ∈ lost') {b : α} (hreach : Reach up down lost a b) :
    Reach up down lost' a b :=
  ReflTransGen.mono (fun _ _ hnext => ⟨h _ hnext.1, hnext.2⟩) _ _ hreach

theorem after_subset (h : a ∈ After up down lost nodes) : a ∈ lost := h.1

theorem after_nil : After up down lost [] = lost := by
  ext b
  simp [After]

theorem Reach.after {b : α} (h : Reach up down lost a b)
    (hfree : ∀ c ∈ nodes, ¬Reach up down lost c b) :
    Reach up down (After up down lost nodes) a b := by
  induction h with
  | refl => exact .refl
  | tail _ hlast ih =>
    have hbefore := ih fun c hc hreach => hfree c hc (hreach.tail hlast)
    exact hbefore.tail ⟨⟨hlast.1, hfree⟩, hlast.2⟩

theorem after_append (first second : List α) :
    After up down (After up down lost first) second = After up down lost (first ++ second) := by
  ext b
  constructor
  · intro h
    refine ⟨h.1.1, ?_⟩
    intro a ha hreach
    rcases List.mem_append.mp ha with hfirst | hsecond
    · exact h.1.2 a hfirst hreach
    · exact h.2 a hsecond (hreach.after h.1.2)
  · intro h
    refine ⟨⟨h.1, fun a ha => h.2 a (List.mem_append_left _ ha)⟩, ?_⟩
    intro a ha hreach
    exact h.2 a (List.mem_append_right _ ha) (hreach.mono fun _ => after_subset)

theorem after_congr {first second : List α} (h : ∀ a ∈ first, ∃ b ∈ second, Reach up down lost b a)
    (h' : ∀ a ∈ second, ∃ b ∈ first, Reach up down lost b a) :
    After up down lost first = After up down lost second := by
  ext c
  constructor
  · intro hc
    refine ⟨hc.1, ?_⟩
    intro a ha hreach
    obtain ⟨b, hb, hba⟩ := h' a ha
    exact hc.2 b hb (hba.trans hreach)
  · intro hc
    refine ⟨hc.1, ?_⟩
    intro a ha hreach
    obtain ⟨b, hb, hba⟩ := h a ha
    exact hc.2 b hb (hba.trans hreach)

theorem afterLists_eq (lists : List (List α)) :
    afterLists up down lost lists = After up down lost (lostOf lost lists.flatten) := by
  induction lists generalizing lost with
  | nil => simp [afterLists, lostOf, after_nil]
  | cons nodes rest ih =>
    rw [afterLists, ih, after_append]
    refine after_congr ?_ ?_
    · intro a ha
      rcases List.mem_append.mp ha with hnode | hrest
      · obtain ⟨hmem, hlost⟩ := mem_lostOf.mp hnode
        exact ⟨a, mem_lostOf.mpr ⟨by simp [hmem], hlost⟩, .refl⟩
      · obtain ⟨hmem, hlost⟩ := mem_lostOf.mp hrest
        refine ⟨a, mem_lostOf.mpr ⟨?_, hlost.1⟩, .refl⟩
        rw [List.flatten_cons]
        exact List.mem_append_right _ hmem
    · intro a ha
      obtain ⟨hmem, hlost⟩ := mem_lostOf.mp ha
      rw [List.flatten_cons] at hmem
      rcases List.mem_append.mp hmem with hnode | hrest
      · exact ⟨a, List.mem_append_left _ (mem_lostOf.mpr ⟨hnode, hlost⟩), .refl⟩
      · by_cases hafter : a ∈ After up down lost (lostOf lost nodes)
        · exact ⟨a, List.mem_append_right _ (mem_lostOf.mpr ⟨hrest, hafter⟩), .refl⟩
        · -- it has been recovered with one of the first list
          have hsome : ∃ b ∈ lostOf lost nodes, Reach up down lost b a := by
            by_contra hnone
            exact hafter ⟨hlost, fun b hb hreach => hnone ⟨b, hb, hreach⟩⟩
          obtain ⟨b, hb, hreach⟩ := hsome
          exact ⟨b, List.mem_append_left _ hb, hreach⟩

theorem after_node (ha : a ∈ lost) :
    afterLists up down (After up down lost (lostOf lost (up a)) \ {a}) (down a) =
      After up down lost [a] := by
  rw [afterLists_eq]
  generalize habove : After up down lost (lostOf lost (up a)) = above
  have hsub : ∀ b ∈ above \ {a}, b ∈ lost := by
    intro b hb
    rw [← habove] at hb
    exact hb.1.1
  have hfirst : ∀ {b : α}, b ∈ lost → (b ∈ up a ∨ ∃ below ∈ down a, b ∈ below) →
      ∀ {c : α}, Reach up down lost b c → Reach up down lost a c :=
    fun hb hnext _ hreach => ReflTransGen.head ⟨hb, hnext⟩ hreach
  ext c
  constructor
  · intro hc
    refine ⟨hsub c hc.1, ?_⟩
    -- what has been recovered is closed under reaching
    have hclosed : ∀ b, Reach up down lost a b →
        b ∉ After up down (above \ {a}) (lostOf (above \ {a}) (down a).flatten) := by
      intro b hb
      induction hb with
      | refl => exact fun hafter => hafter.1.2 rfl
      | @tail b d hbefore hlast ih =>
        intro hafter
        apply ih
        have hd : ∀ e ∈ lostOf lost (up a), ¬Reach up down lost e d := by
          have hd := hafter.1.1
          rw [← habove] at hd
          exact hd.2
        by_cases hself : b = a
        · subst hself
          rcases hlast.2 with habove' | ⟨below, hbelow, hmem⟩
          · exact absurd .refl (hd d (mem_lostOf.mpr ⟨habove', hlast.1⟩))
          · refine absurd .refl (hafter.2 d (mem_lostOf.mpr ⟨?_, hafter.1⟩))
            exact List.mem_flatten.mpr ⟨below, hbelow, hmem⟩
        · have hb : b ∈ lost := by
            rcases ReflTransGen.cases_tail hbefore with heq | ⟨e, -, hnext⟩
            · exact absurd heq hself
            · exact hnext.1
          have hbAbove : b ∈ above := by
            rw [← habove]
            exact ⟨hb, fun e he hreach => hd e he (hreach.tail hlast)⟩
          refine ⟨⟨hbAbove, hself⟩, ?_⟩
          intro e he hreach
          exact hafter.2 e he (hreach.tail ⟨hafter.1, hlast.2⟩)
    intro b hb hreach
    rw [List.mem_singleton] at hb
    subst hb
    exact hclosed c hreach hc
  · intro hc
    have hfree : ¬Reach up down lost a c := hc.2 a (.head _)
    refine ⟨⟨?_, ?_⟩, ?_⟩
    · rw [← habove]
      refine ⟨hc.1, ?_⟩
      intro b hb hreach
      obtain ⟨hup, hlost⟩ := mem_lostOf.mp hb
      exact hfree (hfirst hlost (.inl hup) hreach)
    · intro heq
      have hsame : c = a := heq
      rw [hsame] at hfree
      exact hfree .refl
    · intro b hb hreach
      obtain ⟨hmem, hlost⟩ := mem_lostOf.mp hb
      obtain ⟨below, hbelow, hin⟩ := List.mem_flatten.mp hmem
      exact hfree (hfirst (hsub b hlost) (.inr ⟨below, hbelow, hin⟩) (hreach.mono hsub))

end

variable {up : α → List α} {down : α → List (List α)} {fit : Set α → α → Prop}
  {lost lost' : Set α} {goal : Goal α}

theorem Recovers.subset (h : Recovers up down fit lost goal lost') : ∀ a ∈ lost', a ∈ lost := by
  induction h with
  | node _ _ _ _ ihAbove ihBelow => exact fun a ha => ihAbove a (ihBelow a ha).1
  | nil => exact fun _ ha => ha
  | cons _ _ ihNode ihRest => exact fun a ha => ihNode a (ihRest a ha)
  | none => exact fun _ ha => ha
  | list _ _ ihNodes ihRest => exact fun a ha => ihNodes a (ihRest a ha)

theorem Recovers.eq_after (h : Recovers up down fit lost goal lost') :
    lost' = Goal.after up down lost goal := by
  induction h with
  | node ha _ _ _ ihAbove ihBelow =>
    rw [ihBelow, ihAbove]
    exact after_node ha
  | nil => exact after_nil.symm
  | cons _ _ ihNode ihRest =>
    rw [ihRest, ihNode]
    exact after_append _ _
  | none => rfl
  | list _ _ ihNodes ihRest =>
    rw [ihRest, ihNodes]
    rfl

theorem recovers_iff_clear :
    (∃ lost', Recovers up down fit lost goal lost') ↔ Clear up down fit lost goal := by
  constructor
  · intro h
    obtain ⟨lost', hrecovers⟩ := h
    induction hrecovers with
    | node ha habove hfit _ ihAbove ihBelow =>
      rw [habove.eq_after] at hfit ihBelow
      exact .node ha ihAbove hfit ihBelow
    | nil => exact .nil _
    | cons hnode _ ihNode ihRest =>
      rw [hnode.eq_after] at ihRest
      exact .cons ihNode ihRest
    | none => exact .none _
    | list hnodes _ ihNodes ihRest =>
      rw [hnodes.eq_after] at ihRest
      exact .list ihNodes ihRest
  · intro h
    induction h with
    | node ha _ hfit _ ihAbove ihBelow =>
      obtain ⟨above, habove⟩ := ihAbove
      obtain ⟨rest, hrest⟩ := ihBelow
      obtain rfl := habove.eq_after
      exact ⟨rest, .node ha habove hfit hrest⟩
    | nil => exact ⟨_, .nil _⟩
    | cons _ _ ihNode ihRest =>
      obtain ⟨middle, hnode⟩ := ihNode
      obtain ⟨rest, hrest⟩ := ihRest
      obtain rfl := hnode.eq_after
      exact ⟨rest, .cons hnode hrest⟩
    | none => exact ⟨_, .none _⟩
    | list _ _ ihNodes ihRest =>
      obtain ⟨middle, hnodes⟩ := ihNodes
      obtain ⟨rest, hrest⟩ := ihRest
      obtain rfl := hnodes.eq_after
      exact ⟨rest, .list hnodes hrest⟩

theorem clear_single {a : α} (h : a ∈ lost → Clear up down fit lost (.node a)) :
    Clear up down fit lost (.nodes (lostOf lost [a])) := by
  by_cases ha : a ∈ lost
  · have hlist : lostOf lost [a] = [a] := by simp [lostOf, ha]
    rw [hlist]
    exact .cons (h ha) (.nil _)
  · have hlist : lostOf lost [a] = [] := by simp [lostOf, ha]
    rw [hlist]
    exact .nil _

end Stynx.Recovery
