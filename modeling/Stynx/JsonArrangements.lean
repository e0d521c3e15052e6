import Mathlib.Data.List.Dedup
import Mathlib.Data.List.Sort
import Stynx.JsonValues

/-!
# JSON values with sorted members

A value with the members of every object sorted by their keys, by a stable sort
under an order that may take different keys for equal. Two values are arranged
alike when they are equal up to the order of members and tied members stand in
one order in both.
-/

set_option linter.unusedSectionVars false

namespace Stynx.JsonArrangements

open JsonTokens CanonicalJson

section

variable {β : Type} {a b : β} {l : List β}

theorem pair_sublist_or (ha : a ∈ l) (hb : b ∈ l) (hne : a ≠ b) :
    [a, b].Sublist l ∨ [b, a].Sublist l := by
  induction l with
  | nil => cases ha
  | cons c l ih =>
    rcases List.mem_cons.mp ha with rfl | ha
    · rcases List.mem_cons.mp hb with rfl | hb
      · exact absurd rfl hne
      · exact .inl ((List.singleton_sublist.mpr hb).cons_cons a)
    · rcases List.mem_cons.mp hb with heq | hb
      · rw [heq]
        exact .inr ((List.singleton_sublist.mpr ha).cons_cons c)
      · exact (ih ha hb).imp (List.Sublist.cons c) (List.Sublist.cons c)

theorem not_pair_sublist (hl : l.Nodup) (h : [a, b].Sublist l) : ¬[b, a].Sublist l := by
  induction l with
  | nil => cases h
  | cons c l ih =>
    obtain ⟨hc, hl⟩ := List.nodup_cons.mp hl
    intro h'
    cases h with
    | cons _ h =>
      cases h' with
      | cons _ h' => exact ih hl h h'
      | cons_cons _ h' => exact hc (h.subset (by simp))
    | cons_cons _ h =>
      cases h' with
      | cons _ h' => exact hc (h'.subset (by simp))
      | cons_cons _ h' => exact hc (List.singleton_sublist.mp h)

end

section

variable {β : Type} (le : JsString → JsString → Prop)

/-- The order of members by their keys. -/
def ByKey (m n : JsString × β) : Prop := le m.1 n.1

instance [DecidableRel le] : DecidableRel (ByKey (β := β) le) := fun m n =>
  inferInstanceAs (Decidable (le m.1 n.1))

instance [Std.Total le] : Std.Total (ByKey (β := β) le) :=
  ⟨fun m n => Std.Total.total m.1 n.1⟩

instance [IsTrans JsString le] : IsTrans (JsString × β) (ByKey le) :=
  ⟨fun _ _ _ h h' => IsTrans.trans (r := le) _ _ _ h h'⟩

/-- Keys that the order does not tell apart stand in one order in both lists. -/
def TiesAlike (keys others : List JsString) : Prop :=
  ∀ k k', k ≠ k' → le k k' → le k' k → ([k, k'].Sublist keys ↔ [k, k'].Sublist others)

variable {le} [DecidableRel le] {ms ns : List (JsString × β)}

theorem keys_insertionSort_perm (ms : List (JsString × β)) :
    ((ms.insertionSort (ByKey le)).map Prod.fst).Perm (ms.map Prod.fst) :=
  (List.perm_insertionSort _ ms).map Prod.fst

theorem pair_sublist_sorted {k k' : JsString} (hle : le k k')
    (h : [k, k'].Sublist (ms.map Prod.fst)) :
    [k, k'].Sublist ((ms.insertionSort (ByKey le)).map Prod.fst) := by
  obtain ⟨pair, hsub, hpair⟩ := List.sublist_map_iff.mp h
  match pair, hpair with
  | [m, n], hpair =>
    obtain ⟨rfl, rfl⟩ : k = m.1 ∧ k' = n.1 := by simpa using hpair
    exact (List.pair_sublist_insertionSort (r := ByKey le) hle hsub).map Prod.fst

variable [Std.Total le] [IsTrans JsString le]

theorem pairwise_sorted (hms : (ms.map Prod.fst).Nodup) :
    (ms.insertionSort (ByKey le)).Pairwise fun m n =>
      le m.1 n.1 ∧ (le n.1 m.1 → m.1 = n.1 ∨ [m.1, n.1].Sublist (ms.map Prod.fst)) := by
  have hsorted := List.pairwise_insertionSort (ByKey le) ms
  rw [List.pairwise_iff_forall_sublist] at hsorted ⊢
  intro m n hsub
  refine ⟨hsorted hsub, fun htie => ?_⟩
  by_cases hkey : m.1 = n.1
  · exact .inl hkey
  have hkeys := hsub.map Prod.fst
  have hmem : ∀ k, k ∈ [m, n].map Prod.fst → k ∈ ms.map Prod.fst := fun k hk =>
    (keys_insertionSort_perm ms).subset (hkeys.subset hk)
  rcases pair_sublist_or (hmem m.1 (by simp)) (hmem n.1 (by simp)) hkey with hpair | hpair
  · exact .inr hpair
  · have hnodup : ((ms.insertionSort (ByKey le)).map Prod.fst).Nodup :=
      (keys_insertionSort_perm ms).nodup_iff.mpr hms
    exact absurd hkeys (not_pair_sublist hnodup (pair_sublist_sorted htie hpair))

theorem sorted_eq_of_tiesAlike (hms : (ms.map Prod.fst).Nodup) (hperm : ms.Perm ns)
    (hties : TiesAlike le (ms.map Prod.fst) (ns.map Prod.fst)) :
    ms.insertionSort (ByKey le) = ns.insertionSort (ByKey le) := by
  have hns : (ns.map Prod.fst).Nodup := (hperm.map Prod.fst).nodup_iff.mp hms
  have hsorted := (List.perm_insertionSort (ByKey le) ms).trans
    (hperm.trans (List.perm_insertionSort (ByKey le) ns).symm)
  refine hsorted.eq_of_pairwise ?_ (pairwise_sorted hms)
    ((pairwise_sorted hns).imp fun {m n} h => ⟨h.1, fun htie => ?_⟩)
  · intro m n hm hn hmn hnm
    have hkey : m.1 = n.1 := by
      rcases hmn.2 hnm.1 with hkey | hmn'
      · exact hkey
      rcases hnm.2 hmn.1 with hkey | hnm'
      · exact hkey.symm
      · exact absurd hnm' (not_pair_sublist hms hmn')
    have hm' := (List.perm_insertionSort _ ms).subset hm
    have hn' := hperm.symm.subset ((List.perm_insertionSort _ ns).subset hn)
    exact List.inj_on_of_nodup_map hms hm' hn' hkey
  · rcases h.2 htie with hkey | hpair
    · exact .inl hkey
    by_cases hkey : m.1 = n.1
    · exact .inl hkey
    · exact .inr ((hties m.1 n.1 hkey h.1 htie).mpr hpair)

omit [Std.Total le] [IsTrans JsString le] in
theorem tiesAlike_of_sorted_eq (hms : (ms.map Prod.fst).Nodup)
    (h : (ms.insertionSort (ByKey le)).map Prod.fst = (ns.insertionSort (ByKey le)).map Prod.fst) :
    TiesAlike le (ms.map Prod.fst) (ns.map Prod.fst) := by
  have hperm : (ms.map Prod.fst).Perm (ns.map Prod.fst) :=
    (keys_insertionSort_perm ms).symm.trans (h ▸ keys_insertionSort_perm ns)
  have hone : ∀ {ms ns : List (JsString × β)} {k k' : JsString}, (ms.map Prod.fst).Nodup →
      (ms.map Prod.fst).Perm (ns.map Prod.fst) →
      (ms.insertionSort (ByKey le)).map Prod.fst = (ns.insertionSort (ByKey le)).map Prod.fst →
      k ≠ k' → le k k' → le k' k →
      [k, k'].Sublist (ms.map Prod.fst) → [k, k'].Sublist (ns.map Prod.fst) := by
    intro ms ns k k' hms hperm h hne hle hle' hpair
    have hmem : ∀ key ∈ [k, k'], key ∈ ns.map Prod.fst := fun key hkey =>
      hperm.subset (hpair.subset hkey)
    rcases pair_sublist_or (hmem k (by simp)) (hmem k' (by simp)) hne with hns | hns
    · exact hns
    · have hsorted := pair_sublist_sorted hle hpair
      rw [h] at hsorted
      have hnodup : ((ns.insertionSort (ByKey le)).map Prod.fst).Nodup :=
        ((keys_insertionSort_perm ns).trans hperm.symm).nodup_iff.mpr hms
      exact absurd (pair_sublist_sorted hle' hns) (not_pair_sublist hnodup hsorted)
  intro k k' hne hle hle'
  exact ⟨hone hms hperm h hne hle hle',
    hone (hperm.nodup_iff.mp hms) hperm.symm h.symm hne hle hle'⟩

end

variable (le : JsString → JsString → Prop) [DecidableRel le]

mutual

def arrange : Json → Json
  | .null => .null
  | .bool b => .bool b
  | .num n => .num n
  | .str s => .str s
  | .arr items => .arr (arrangeItems items)
  | .obj members => .obj ((arrangeMembers members).insertionSort (ByKey le))

def arrangeItems : List Json → List Json
  | [] => []
  | x :: xs => arrange x :: arrangeItems xs

def arrangeMembers : List (JsString × Json) → List (JsString × Json)
  | [] => []
  | (key, value) :: ms => (key, arrange value) :: arrangeMembers ms

end

theorem arrangeItems_eq_map (items : List Json) :
    arrangeItems le items = items.map (arrange le) := by
  induction items with
  | nil => rfl
  | cons x xs ih => rw [arrangeItems, ih, List.map_cons]

theorem arrangeMembers_eq_map (members : List (JsString × Json)) :
    arrangeMembers le members = members.map fun m => (m.1, arrange le m.2) := by
  induction members with
  | nil => rfl
  | cons m ms ih =>
    obtain ⟨key, value⟩ := m
    rw [arrangeMembers, ih, List.map_cons]

theorem keys_arrangeMembers (members : List (JsString × Json)) :
    (arrangeMembers le members).map Prod.fst = members.map Prod.fst := by
  rw [arrangeMembers_eq_map, List.map_map]
  rfl

mutual

/-- Tied members stand in one order wherever the two values have an object. -/
def Alike : Json → Json → Prop
  | .arr xs, .arr ys => AlikeItems xs ys
  | .obj ms, .obj ns => TiesAlike le (ms.map Prod.fst) (ns.map Prod.fst) ∧ AlikeMembers ms ns
  | _, _ => True

def AlikeItems : List Json → List Json → Prop
  | x :: xs, y :: ys => Alike x y ∧ AlikeItems xs ys
  | _, _ => True

def AlikeMembers : List (JsString × Json) → List (JsString × Json) → Prop
  | [], _ => True
  | (key, value) :: ms, ns => (∀ other, (key, other) ∈ ns → Alike value other) ∧ AlikeMembers ms ns

end

variable {le}

theorem kind_arrange (v : Json) : (arrange le v).kind = v.kind := by
  cases v <;> rfl

variable {v w : Json} {ms ns : List (JsString × Json)}

theorem kind_eq_of_arrange (h : arrange le v = arrange le w) : v.kind = w.kind := by
  have hkind := congrArg Json.kind h
  rwa [kind_arrange, kind_arrange] at hkind

theorem arrangeMembers_perm (h : arrange le (.obj ms) = arrange le (.obj ns)) :
    (arrangeMembers le ms).Perm (arrangeMembers le ns) := by
  rw [arrange, arrange] at h
  have hsorted := Json.obj.inj h
  have hns := List.perm_insertionSort (ByKey le) (arrangeMembers le ns)
  exact (List.perm_insertionSort (ByKey le) (arrangeMembers le ms)).symm.trans (hsorted ▸ hns)

theorem exists_member_of_arrange (h : arrange le (.obj ms) = arrange le (.obj ns))
    {m : JsString × Json} (hm : m ∈ ms) :
    ∃ other, (m.1, other) ∈ ns ∧ arrange le m.2 = arrange le other := by
  have hmem : (m.1, arrange le m.2) ∈ arrangeMembers le ms := by
    rw [arrangeMembers_eq_map]
    exact List.mem_map_of_mem hm
  have hmem' := (arrangeMembers_perm h).subset hmem
  rw [arrangeMembers_eq_map] at hmem'
  obtain ⟨n, hn, heq⟩ := List.mem_map.mp hmem'
  obtain ⟨hkey, hvalue⟩ := Prod.mk.inj heq
  exact ⟨n.2, by rw [← hkey]; exact hn, hvalue.symm⟩

mutual

theorem same_of_arrange_eq : ∀ v w : Json, arrange le v = arrange le w → Same v w
  | .null, w => fun h => by
    have hkind := kind_eq_of_arrange h
    cases w with
    | null => trivial
    | _ => cases hkind
  | .bool b, w => fun h => by
    have hkind := kind_eq_of_arrange h
    cases w with
    | bool c => exact Json.bool.inj h
    | _ => cases hkind
  | .num n, w => fun h => by
    have hkind := kind_eq_of_arrange h
    cases w with
    | num m => exact Json.num.inj h
    | _ => cases hkind
  | .str s, w => fun h => by
    have hkind := kind_eq_of_arrange h
    cases w with
    | str t => exact Json.str.inj h
    | _ => cases hkind
  | .arr items, w => fun h => by
    have hkind := kind_eq_of_arrange h
    cases w with
    | arr others =>
      rw [arrange, arrange, arrangeItems_eq_map, arrangeItems_eq_map] at h
      exact sameItems_of_arrange_eq items others (Json.arr.inj h)
    | _ => cases hkind
  | .obj members, w => fun h => by
    have hkind := kind_eq_of_arrange h
    cases w with
    | obj others =>
      refine ⟨sameMembers_of_arrange_eq members others fun m hm =>
        exists_member_of_arrange h hm, ?_⟩
      intro key hkey
      obtain ⟨n, hn, rfl⟩ := List.mem_map.mp hkey
      obtain ⟨value, hvalue, -⟩ := exists_member_of_arrange h.symm hn
      exact List.mem_map.mpr ⟨(n.1, value), hvalue, rfl⟩
    | _ => cases hkind

theorem sameItems_of_arrange_eq : ∀ items others : List Json,
    items.map (arrange le) = others.map (arrange le) → SameItems items others
  | [], [] => fun _ => trivial
  | [], _ :: _ => nofun
  | _ :: _, [] => nofun
  | x :: xs, y :: ys => fun h => by
    obtain ⟨hhead, htail⟩ := List.cons.inj h
    exact ⟨same_of_arrange_eq x y hhead, sameItems_of_arrange_eq xs ys htail⟩

theorem sameMembers_of_arrange_eq : ∀ members others : List (JsString × Json),
    (∀ m ∈ members, ∃ other, (m.1, other) ∈ others ∧ arrange le m.2 = arrange le other) →
      SameMembers members others
  | [], _ => fun _ => trivial
  | (key, value) :: ms, others => fun h => by
    obtain ⟨other, hmem, heq⟩ := h (key, value) (.head _)
    exact ⟨⟨other, hmem, same_of_arrange_eq value other heq⟩,
      sameMembers_of_arrange_eq ms others fun m hm => h m (.tail _ hm)⟩

end

theorem value_eq_of_mem (hns : (ns.map Prod.fst).Nodup) {key : JsString} {value other : Json}
    (h : (key, value) ∈ ns) (h' : (key, other) ∈ ns) :
    value = other :=
  congrArg Prod.snd (List.inj_on_of_nodup_map hns h h' rfl)

mutual

theorem alike_of_arrange_eq : ∀ v w : Json, v.WellFormed → w.WellFormed →
    arrange le v = arrange le w → Alike le v w
  | .null, _ => fun _ _ _ => by simp [Alike]
  | .bool _, _ => fun _ _ _ => by simp [Alike]
  | .num _, _ => fun _ _ _ => by simp [Alike]
  | .str _, _ => fun _ _ _ => by simp [Alike]
  | .arr items, w => fun hv hw h => by
    have hkind := kind_eq_of_arrange h
    cases w with
    | arr others =>
      rw [arrange, arrange, arrangeItems_eq_map, arrangeItems_eq_map] at h
      rw [Json.WellFormed] at hv hw
      exact alikeItems_of_arrange_eq items others hv hw (Json.arr.inj h)
    | _ => cases hkind
  | .obj members, w => fun hv hw h => by
    have hkind := kind_eq_of_arrange h
    cases w with
    | obj others =>
      have hexists := fun m hm => exists_member_of_arrange (m := m) h hm
      rw [arrange, arrange] at h
      have hsorted := congrArg (List.map Prod.fst) (Json.obj.inj h)
      rw [Json.WellFormed] at hv hw
      have hkeys : ((arrangeMembers le members).map Prod.fst).Nodup := by
        rw [keys_arrangeMembers]
        exact hv.1
      have hties := tiesAlike_of_sorted_eq hkeys hsorted
      rw [keys_arrangeMembers, keys_arrangeMembers] at hties
      refine ⟨hties, alikeMembers_of_arrange_eq members others hv.2 hw fun m hm other hother => ?_⟩
      obtain ⟨value, hvalue, heq⟩ := hexists m hm
      rw [heq, value_eq_of_mem hw.1 hvalue hother]
    | _ => cases hkind

theorem alikeItems_of_arrange_eq : ∀ items others : List Json, WellFormedItems items →
    WellFormedItems others → items.map (arrange le) = others.map (arrange le) →
      AlikeItems le items others
  | [], _ => fun _ _ _ => by simp [AlikeItems]
  | _ :: _, [] => fun _ _ h => by cases h
  | x :: xs, y :: ys => fun hv hw h => by
    obtain ⟨hhead, htail⟩ := List.cons.inj h
    exact ⟨alike_of_arrange_eq x y hv.1 hw.1 hhead, alikeItems_of_arrange_eq xs ys hv.2 hw.2 htail⟩

theorem alikeMembers_of_arrange_eq : ∀ members others : List (JsString × Json),
    WellFormedMembers members → (others.map Prod.fst).Nodup ∧ WellFormedMembers others →
    (∀ m ∈ members, ∀ other, (m.1, other) ∈ others → arrange le m.2 = arrange le other) →
      AlikeMembers le members others
  | [], _ => fun _ _ _ => trivial
  | (key, value) :: ms, others => fun hv hw h => by
    refine ⟨fun other hother => ?_, alikeMembers_of_arrange_eq ms others hv.2 hw fun m hm =>
      h m (.tail _ hm)⟩
    exact alike_of_arrange_eq value other hv.1 (wellFormedMembers_iff.mp hw.2 _ hother)
      (h (key, value) (.head _) other hother)

end

section

variable [Std.Total le] [IsTrans JsString le]

theorem arrange_obj_eq {ms ns : List (JsString × Json)} (hms : (ms.map Prod.fst).Nodup)
    (hns : (ns.map Prod.fst).Nodup) (hkeys : ∀ key ∈ ns.map Prod.fst, key ∈ ms.map Prod.fst)
    (hsame : ∀ m ∈ ms, ∃ other, (m.1, other) ∈ ns)
    (hvalues : ∀ m ∈ ms, ∀ other, (m.1, other) ∈ ns → arrange le m.2 = arrange le other)
    (hties : TiesAlike le (ms.map Prod.fst) (ns.map Prod.fst)) :
    arrange le (.obj ms) = arrange le (.obj ns) := by
  have hnodup : ∀ {l : List (JsString × Json)}, (l.map Prod.fst).Nodup →
      ((arrangeMembers le l).map Prod.fst).Nodup := by
    intro l hl
    rw [keys_arrangeMembers]
    exact hl
  have hperm : (arrangeMembers le ms).Perm (arrangeMembers le ns) := by
    refine (List.perm_ext_iff_of_nodup (hnodup hms).of_map (hnodup hns).of_map).mpr fun m => ?_
    rw [arrangeMembers_eq_map, arrangeMembers_eq_map, List.mem_map, List.mem_map]
    constructor
    · rintro ⟨n, hn, rfl⟩
      obtain ⟨other, hother⟩ := hsame n hn
      exact ⟨(n.1, other), hother, by rw [hvalues n hn other hother]⟩
    · rintro ⟨n, hn, rfl⟩
      obtain ⟨p, hp, hkey⟩ := List.mem_map.mp (hkeys n.1 (List.mem_map_of_mem hn))
      have heq := hvalues p hp n.2 (by rw [hkey]; exact hn)
      exact ⟨p, hp, by rw [hkey, heq]⟩
  rw [arrange, arrange, sorted_eq_of_tiesAlike (hnodup hms) hperm]
  rw [keys_arrangeMembers, keys_arrangeMembers]
  exact hties

mutual

theorem arrange_eq_of_same : ∀ v w : Json, v.WellFormed → w.WellFormed → Same v w →
    Alike le v w → arrange le v = arrange le w
  | .null, w => fun _ _ h _ => by
    cases w with
    | null => rfl
    | _ => exact absurd h (by simp [Same])
  | .bool b, w => fun _ _ h _ => by
    cases w with
    | bool c => rw [show b = c from h]
    | _ => exact absurd h (by simp [Same])
  | .num n, w => fun _ _ h _ => by
    cases w with
    | num m => rw [show n = m from h]
    | _ => exact absurd h (by simp [Same])
  | .str s, w => fun _ _ h _ => by
    cases w with
    | str t => rw [show s = t from h]
    | _ => exact absurd h (by simp [Same])
  | .arr items, w => fun hv hw h ha => by
    cases w with
    | arr others =>
      rw [Json.WellFormed] at hv hw
      rw [arrange, arrange, arrangeItems_eq_map, arrangeItems_eq_map,
        arrangeItems_eq_of_same items others hv hw h ha]
    | _ => exact absurd h (by simp [Same])
  | .obj members, w => fun hv hw h ha => by
    cases w with
    | obj others =>
      rw [Json.WellFormed] at hv hw
      obtain ⟨hmembers, hkeys⟩ := h
      refine arrange_obj_eq hv.1 hw.1 hkeys (fun m hm => ?_)
        (arrangeMembers_eq_of_same members others hv.2 hw hmembers ha.2) ha.1
      obtain ⟨other, hother, -⟩ := sameMembers_iff.mp hmembers m hm
      exact ⟨other, hother⟩
    | _ => exact absurd h (by simp [Same])

theorem arrangeItems_eq_of_same : ∀ items others : List Json, WellFormedItems items →
    WellFormedItems others → SameItems items others → AlikeItems le items others →
      items.map (arrange le) = others.map (arrange le)
  | [], [] => fun _ _ _ _ => rfl
  | [], _ :: _ => fun _ _ h _ => absurd h (by simp [SameItems])
  | _ :: _, [] => fun _ _ h _ => absurd h (by simp [SameItems])
  | x :: xs, y :: ys => fun hv hw h ha => by
    rw [List.map_cons, List.map_cons, arrange_eq_of_same x y hv.1 hw.1 h.1 ha.1,
      arrangeItems_eq_of_same xs ys hv.2 hw.2 h.2 ha.2]

theorem arrangeMembers_eq_of_same : ∀ members others : List (JsString × Json),
    WellFormedMembers members → (others.map Prod.fst).Nodup ∧ WellFormedMembers others →
    SameMembers members others → AlikeMembers le members others →
      ∀ m ∈ members, ∀ other, (m.1, other) ∈ others → arrange le m.2 = arrange le other
  | [], _ => fun _ _ _ _ _ hm => absurd hm List.not_mem_nil
  | (key, value) :: ms, others => fun hv hw h ha m hm other hother => by
    rcases List.mem_cons.mp hm with rfl | hm
    · obtain ⟨same, hmem, hsame⟩ := h.1
      have hone : same = other := value_eq_of_mem hw.1 hmem hother
      rw [hone] at hsame
      exact arrange_eq_of_same value other hv.1 (wellFormedMembers_iff.mp hw.2 _ hother) hsame
        (ha.1 other hother)
    · exact arrangeMembers_eq_of_same ms others hv.2 hw h.2 ha.2 m hm other hother

end

theorem arrange_eq_iff {v w : Json} (hv : v.WellFormed) (hw : w.WellFormed) :
    arrange le v = arrange le w ↔ Same v w ∧ Alike le v w :=
  ⟨fun h => ⟨same_of_arrange_eq v w h, alike_of_arrange_eq v w hv hw h⟩,
    fun h => arrange_eq_of_same v w hv hw h.1 h.2⟩

end

section

variable [Std.Total le] [IsTrans JsString le]

mutual

theorem arrange_arrange : ∀ v : Json, arrange le (arrange le v) = arrange le v
  | .null => rfl
  | .bool _ => rfl
  | .num _ => rfl
  | .str _ => rfl
  | .arr items => by rw [arrange, arrange, arrangeItems_arrangeItems items]
  | .obj members => by
    have hsort : arrangeMembers le ((arrangeMembers le members).insertionSort (ByKey le)) =
        (arrangeMembers le (arrangeMembers le members)).insertionSort (ByKey le) := by
      rw [arrangeMembers_eq_map le ((arrangeMembers le members).insertionSort (ByKey le)),
        arrangeMembers_eq_map le (arrangeMembers le members)]
      exact List.map_insertionSort (ByKey le) (ByKey le) _ _ fun _ _ _ _ => Iff.rfl
    rw [arrange, arrange, hsort, arrangeMembers_arrangeMembers members,
      (List.pairwise_insertionSort (ByKey le) _).insertionSort_eq]

theorem arrangeItems_arrangeItems : ∀ items : List Json,
    arrangeItems le (arrangeItems le items) = arrangeItems le items
  | [] => rfl
  | x :: xs => by
    rw [arrangeItems, arrangeItems, arrange_arrange x, arrangeItems_arrangeItems xs]

theorem arrangeMembers_arrangeMembers : ∀ members : List (JsString × Json),
    arrangeMembers le (arrangeMembers le members) = arrangeMembers le members
  | [] => rfl
  | (key, value) :: ms => by
    rw [arrangeMembers, arrangeMembers, arrange_arrange value, arrangeMembers_arrangeMembers ms]

end

theorem same_arrange (v : Json) : Same v (arrange le v) :=
  same_of_arrange_eq v _ (arrange_arrange v).symm

end

variable (P : JsString → Prop)

mutual

/-- Every key of every object is of some kind. -/
def KeysIn : Json → Prop
  | .arr items => KeysInItems items
  | .obj members => (∀ key ∈ members.map Prod.fst, P key) ∧ KeysInMembers members
  | _ => True

def KeysInItems : List Json → Prop
  | [] => True
  | x :: xs => KeysIn x ∧ KeysInItems xs

def KeysInMembers : List (JsString × Json) → Prop
  | [] => True
  | (_, value) :: ms => KeysIn value ∧ KeysInMembers ms

end

variable {P}

theorem keysInMembers_iff {members : List (JsString × Json)} :
    KeysInMembers P members ↔ ∀ m ∈ members, KeysIn P m.2 := by
  induction members with
  | nil => simp [KeysInMembers]
  | cons m ms ih => simp [KeysInMembers, ih]

mutual

theorem alike_of_keysIn (hP : ∀ k k', P k → P k' → le k k' → le k' k → k = k') :
    ∀ v w : Json, KeysIn P v → KeysIn P w → Alike le v w
  | .null, _ => fun _ _ => by simp [Alike]
  | .bool _, _ => fun _ _ => by simp [Alike]
  | .num _, _ => fun _ _ => by simp [Alike]
  | .str _, _ => fun _ _ => by simp [Alike]
  | .arr items, w => fun hv hw => by
    cases w with
    | arr others => exact alikeItems_of_keysIn hP items others hv hw
    | _ => simp [Alike]
  | .obj members, w => fun hv hw => by
    cases w with
    | obj others =>
      refine ⟨fun k k' hne hle hle' => ⟨fun hpair => ?_, fun hpair => ?_⟩,
        alikeMembers_of_keysIn hP members others hv.2 (keysInMembers_iff.mp hw.2)⟩
      · exact absurd (hP k k' (hv.1 k (hpair.subset (by simp))) (hv.1 k' (hpair.subset (by simp)))
          hle hle') hne
      · exact absurd (hP k k' (hw.1 k (hpair.subset (by simp))) (hw.1 k' (hpair.subset (by simp)))
          hle hle') hne
    | _ => simp [Alike]

theorem alikeItems_of_keysIn (hP : ∀ k k', P k → P k' → le k k' → le k' k → k = k') :
    ∀ items others : List Json, KeysInItems P items → KeysInItems P others →
      AlikeItems le items others
  | [], _ => fun _ _ => by simp [AlikeItems]
  | _ :: _, [] => fun _ _ => by simp [AlikeItems]
  | x :: xs, y :: ys => fun hv hw =>
    ⟨alike_of_keysIn hP x y hv.1 hw.1, alikeItems_of_keysIn hP xs ys hv.2 hw.2⟩

theorem alikeMembers_of_keysIn (hP : ∀ k k', P k → P k' → le k k' → le k' k → k = k') :
    ∀ members others : List (JsString × Json), KeysInMembers P members →
      (∀ m ∈ others, KeysIn P m.2) → AlikeMembers le members others
  | [], _ => fun _ _ => trivial
  | (_, value) :: ms, others => fun hv hw =>
    ⟨fun other hother => alike_of_keysIn hP value other hv.1 (hw _ hother),
      alikeMembers_of_keysIn hP ms others hv.2 hw⟩

end

mutual

theorem keysIn_of_forall (hP : ∀ key, P key) : ∀ v : Json, KeysIn P v
  | .null => by simp [KeysIn]
  | .bool _ => by simp [KeysIn]
  | .num _ => by simp [KeysIn]
  | .str _ => by simp [KeysIn]
  | .arr items => keysInItems_of_forall hP items
  | .obj members => ⟨fun key _ => hP key, keysInMembers_of_forall hP members⟩

theorem keysInItems_of_forall (hP : ∀ key, P key) : ∀ items : List Json, KeysInItems P items
  | [] => trivial
  | x :: xs => ⟨keysIn_of_forall hP x, keysInItems_of_forall hP xs⟩

theorem keysInMembers_of_forall (hP : ∀ key, P key) :
    ∀ members : List (JsString × Json), KeysInMembers P members
  | [] => trivial
  | (_, value) :: ms => ⟨keysIn_of_forall hP value, keysInMembers_of_forall hP ms⟩

end

theorem arrange_eq_iff_of_keysIn [Std.Total le] [IsTrans JsString le]
    (hP : ∀ k k', P k → P k' → le k k' → le k' k → k = k') {v w : Json} (hv : v.WellFormed)
    (hw : w.WellFormed) (hv' : KeysIn P v) (hw' : KeysIn P w) :
    arrange le v = arrange le w ↔ Same v w := by
  rw [arrange_eq_iff hv hw]
  exact and_iff_left (alike_of_keysIn hP v w hv' hw')

theorem arrange_eq_iff_same [Std.Total le] [IsTrans JsString le] [Std.Antisymm le]
    (hv : v.WellFormed) (hw : w.WellFormed) : arrange le v = arrange le w ↔ Same v w :=
  arrange_eq_iff_of_keysIn (P := fun _ => True) (fun k k' _ _ => Std.Antisymm.antisymm k k') hv hw
    (keysIn_of_forall (fun _ => trivial) v) (keysIn_of_forall (fun _ => trivial) w)

end Stynx.JsonArrangements
