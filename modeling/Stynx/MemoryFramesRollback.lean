import Stynx.TransitionRuns
import Stynx.MemoryFramesInvariant

/-!
# Rollback of nested frames

The map always agrees with the journal: a key holds the value of the last write
that no rollback has undone. A commit hands records over and a rollback flags
and undoes them; either way the records and the journal's holders are settled
together.
-/

namespace Stynx.MemoryFramesRollback

open VersionChains MemoryFrames MemoryFramesInvariant TransitionRuns

universe u v

variable {κ : Type u} {ν : Type v}

theorem subtree_mem_self (frames : Nat → Frame κ) (fuel frame : Nat) :
    frame ∈ Memory.subtree frames fuel frame := by
  cases fuel with
  | zero => exact .head _
  | succ fuel => exact .head _

variable {frames : Nat → Frame κ} {fuel frame g : Nat}

theorem under_of_mem_subtree (hlisted : ∀ p c, c ∈ (frames p).children → (frames c).parent = some p)
    (hg : g ∈ Memory.subtree frames fuel frame) :
    Under (fun h => (frames h).parent) frame g := by
  induction fuel generalizing frame with
  | zero =>
    rw [Memory.subtree, List.mem_singleton] at hg
    rw [hg]
    exact .refl
  | succ fuel ih =>
    rw [Memory.subtree, List.mem_cons, List.mem_flatMap] at hg
    rcases hg with rfl | ⟨child, hchild, hg⟩
    · exact .refl
    · exact (ih hg).outward (hlisted frame child hchild)

theorem mem_subtree_child {child : Nat} (hg : g ∈ Memory.subtree frames fuel frame)
    (hchild : child ∈ (frames g).children) :
    child ∈ Memory.subtree frames (fuel + 1) frame := by
  induction fuel generalizing frame with
  | zero =>
    rw [Memory.subtree, List.mem_singleton] at hg
    subst hg
    exact List.mem_cons_of_mem g
      (List.mem_flatMap.mpr ⟨child, hchild, subtree_mem_self frames 0 child⟩)
  | succ fuel ih =>
    rw [Memory.subtree, List.mem_cons, List.mem_flatMap] at hg
    rcases hg with rfl | ⟨next, hnext, hg⟩
    · exact List.mem_cons_of_mem g
        (List.mem_flatMap.mpr ⟨child, hchild, subtree_mem_self frames (fuel + 1) child⟩)
    · exact .tail frame (List.mem_flatMap.mpr ⟨next, hnext, ih hg⟩)

variable [DecidableEq κ]

variable {s : System κ ν} {frame : Nat}

theorem mem_subtree_of_active (hs : Core s) {g : Nat}
    (hg : Under (fun h => (s.memory.frames h).parent) frame g)
    (hactive : (s.memory.frames g).active = true) :
    ∀ fuel, g ≤ frame + fuel → g ∈ Memory.subtree s.memory.frames fuel frame := by
  have hdown : ∀ h p, (s.memory.frames h).parent = some p → p < h := fun h p hp =>
    (hs.older h p hp).1
  induction hg with
  | refl =>
    intro fuel _
    exact subtree_mem_self s.memory.frames fuel frame
  | step hparent hnext ih =>
    intro fuel hfuel
    obtain ⟨houter, hmem⟩ := hs.nested _ _ hactive hparent
    have hlt := hdown _ _ hparent
    have hle := hnext.le hdown
    cases fuel with
    | zero => omega
    | succ fuel => exact mem_subtree_child (ih houter fuel (by omega)) hmem

variable {mem : Memory κ ν} {t : System κ ν} {map : κ → Option ν} {anyKey : κ}
  {actions : List (Action κ ν)}

/-- Records change hands, frames close and versions are flagged while the journal settles. -/
theorem core_settle (hs : Core s)
    (hmem : mem = { s.memory with frames := mem.frames, heap := mem.heap })
    {fate : Option Nat → Option (Option Nat)} (hfree : fate none = some none)
    (hparents : ∀ g, (mem.frames g).parent = (s.memory.frames g).parent)
    (hclaims : ∀ g, (mem.frames g).claims = (s.memory.frames g).claims)
    (hchildren : ∀ g c, c ∈ (mem.frames g).children → c ∈ (s.memory.frames g).children)
    (hactive : ∀ g, (mem.frames g).active = true → (s.memory.frames g).active = true)
    (hnested : ∀ g p, (mem.frames g).active = true → (s.memory.frames g).parent = some p →
      (mem.frames p).active = true ∧ g ∈ (mem.frames p).children)
    (hrecorded : ∀ g change, change ∈ (mem.frames g).changes → (mem.frames g).active = true ∧
      g ∈ s.memory.owners change.key ∧ ∃ h, change ∈ (s.memory.frames h).changes)
    (hkeys : ∀ version, (mem.heap version).key = (s.memory.heap version).key)
    (hprevious : ∀ version, (mem.heap version).previous = (s.memory.heap version).previous)
    (hcontents : ∀ version, (mem.heap version).content = (s.memory.heap version).content)
    (hkept : ∀ version holder holder', HeldBy (Held s.memory.frames) version holder →
      fate holder = some holder' →
      (mem.heap version).rolledBack = (s.memory.heap version).rolledBack ∧
        HeldBy (Held mem.frames) version holder')
    (hdropped : ∀ version holder, HeldBy (Held s.memory.frames) version holder →
      fate holder = none →
      (mem.heap version).rolledBack = true ∧ HeldBy (Held mem.frames) version none) :
    Core ⟨mem, s.journal.settle fate⟩ := by
  rw [hmem]
  refine ⟨?_, hs.counts, ?_, ?_, ?_, ?_, ?_, ?_, ?_, ?_, ?_, ?_, ?_, hs.present⟩
  · intro g
    exact (hparents g).trans (hs.parents g)
  · intro g p hp
    exact hs.older g p ((hparents g).symm.trans hp)
  · intro g hg
    exact (hclaims g).trans (hs.fresh g hg)
  · intro p c hc
    exact (hparents c).trans (hs.listed p c (hchildren p c hc))
  · intro g p hg hp
    exact hnested g p hg ((hparents g).symm.trans hp)
  · intro g change hchange
    obtain ⟨hg, howner, h, hold⟩ := hrecorded g change hchange
    obtain ⟨-, -, hkey, hlt⟩ := hs.recorded h change hold
    exact ⟨hg, howner, (hkeys change.version).trans hkey, hlt⟩
  · intro g k howner
    dsimp only
    rw [hclaims g]
    exact hs.claims g k howner
  · intro g k p howner hg hp
    exact hs.owners g k p howner (hactive g hg) ((hparents g).symm.trans hp)
  · intro g k hk
    dsimp only at hk
    rw [hclaims g] at hk
    exact hs.chained g k hk
  · intro version below hbelow
    exact hs.down version below ((hprevious version).symm.trans hbelow)
  · intro k hk
    obtain ⟨hmap, hwrites⟩ := hs.untouched k hk
    refine ⟨hmap, ?_⟩
    rw [writesTo_settle, hwrites]
    rfl
  · intro k top htop
    obtain ⟨hlt, htracks⟩ := hs.tracks k top htop
    refine ⟨hlt, ?_⟩
    rw [writesTo_settle]
    exact htracks.settle hfree hkeys hprevious hcontents hkept hdropped

omit [DecidableEq κ] in
theorem settle_some (journal : Journal κ ν) : journal.settle some = journal := by
  have hid : ∀ entry ∈ journal.log, Entry.settle some entry = some entry := fun _ _ => rfl
  rw [Journal.settle, List.filterMap_congr hid, List.filterMap_some]

omit [DecidableEq κ] in
theorem handedTo_none (outer : Option Nat) (frame : Nat) :
    Journal.handedTo outer frame none = some none := by
  rw [Journal.handedTo, if_neg (Option.some_ne_none frame).symm]

theorem heldBy_handedTo {held held' : Nat → Nat → Prop} {outer : Option Nat} {version : Nat}
    (hheld : ∀ g, held' g version ↔
      g ≠ frame ∧ held g version ∨ outer = some g ∧ held frame version)
    {holder : Option Nat} (h : HeldBy held version holder) :
    HeldBy held' version (if holder = some frame then outer else holder) := by
  intro g
  rw [hheld g]
  by_cases hholder : holder = some frame
  · rw [if_pos hholder]
    have hframe := (h frame).mp hholder
    constructor
    · intro hg
      exact .inr ⟨hg, hframe⟩
    · rintro (⟨hne, hg⟩ | ⟨hg, -⟩)
      · have hsame := (h g).mpr hg
        rw [hholder] at hsame
        exact absurd (Option.some.inj hsame).symm hne
      · exact hg
  · rw [if_neg hholder]
    have hframe : ¬ held frame version := fun hf => hholder ((h frame).mpr hf)
    constructor
    · intro hg
      refine .inl ⟨?_, (h g).mp hg⟩
      rintro rfl
      exact hholder hg
    · rintro (⟨-, hg⟩ | ⟨-, hf⟩)
      · exact (h g).mpr hg
      · exact absurd hf hframe

omit [DecidableEq κ] in
theorem detach_frames (mem : Memory κ ν) (frame g : Nat) :
    ((mem.detach frame).frames g).parent = (mem.frames g).parent ∧
    ((mem.detach frame).frames g).claims = (mem.frames g).claims ∧
    ((mem.detach frame).frames g).active = (if g = frame then false else (mem.frames g).active) ∧
    ((mem.detach frame).frames g).changes = (if g = frame then [] else (mem.frames g).changes) ∧
    ∀ c, c ∈ ((mem.detach frame).frames g).children ↔
      c ∈ (mem.frames g).children ∧ ¬ ((mem.frames frame).parent = some g ∧ c = frame) := by
  cases hparent : (mem.frames frame).parent with
  | none =>
    simp only [Memory.detach, hparent, Memory.onFrame, Memory.mapFrames]
    split_ifs with hg
    · exact ⟨rfl, rfl, rfl, rfl, fun c => by simp⟩
    · exact ⟨rfl, rfl, rfl, rfl, fun c => by simp⟩
  | some outer =>
    simp only [Memory.detach, hparent, Memory.onFrame, Memory.mapFrames]
    split_ifs with houter hg hg
    · exact ⟨rfl, rfl, rfl, rfl, fun c => by simp [houter]⟩
    · exact ⟨rfl, rfl, rfl, rfl, fun c => by simp [houter]⟩
    · exact ⟨rfl, rfl, rfl, rfl, fun c => by simp [Ne.symm houter]⟩
    · exact ⟨rfl, rfl, rfl, rfl, fun c => by simp [Ne.symm houter]⟩

omit [DecidableEq κ] in
theorem detach_heap (mem : Memory κ ν) (frame : Nat) : (mem.detach frame).heap = mem.heap := by
  rw [Memory.detach]
  split <;> rfl

omit [DecidableEq κ] in
theorem detach_rest (mem : Memory κ ν) (frame : Nat) : mem.detach frame =
    { mem with frames := (mem.detach frame).frames, heap := (mem.detach frame).heap } := by
  rw [Memory.detach]
  split <;> rfl

theorem core_detach (hs : Core s) (frame : Nat) (changes : Nat → List (Change κ))
    (fate : Option Nat → Option (Option Nat)) (hfree : fate none = some none)
    (hidle : ∀ g, (s.memory.frames g).active = true → (s.memory.frames g).parent ≠ some frame)
    (hrecorded : ∀ g change, g ≠ frame → change ∈ changes g →
      (s.memory.frames g).active = true ∧ g ∈ s.memory.owners change.key ∧
        ∃ h, change ∈ (s.memory.frames h).changes)
    (hheld : ∀ version holder, HeldBy (Held s.memory.frames) version holder →
      ∃ holder', fate holder = some holder' ∧
        HeldBy (fun g v => g ≠ frame ∧ ∃ change ∈ changes g, change.version = v) version holder') :
    Core ⟨(s.memory.mapFrames fun g record => { record with changes := changes g }).detach frame,
      s.journal.settle fate⟩ := by
  have hrest := detach_rest
    (s.memory.mapFrames fun g record => { record with changes := changes g }) frame
  have hframes := detach_frames
    (s.memory.mapFrames fun g record => { record with changes := changes g }) frame
  have hheap : ∀ version, ((s.memory.mapFrames fun g record =>
      { record with changes := changes g }).detach frame).heap version = s.memory.heap version :=
    fun version => congrFun (detach_heap _ frame) version
  have hsame : ∀ g version,
      Held ((s.memory.mapFrames fun g record =>
        { record with changes := changes g }).detach frame).frames g version ↔
      g ≠ frame ∧ ∃ change ∈ changes g, change.version = version := by
    intro g version
    rw [Held, (hframes g).2.2.2.1]
    split_ifs with hg
    · simp [hg]
    · simp [hg, Memory.mapFrames]
  refine core_settle hs hrest hfree (fun g => (hframes g).1) (fun g => (hframes g).2.1) ?_ ?_ ?_ ?_
    (fun version => congrArg Version.key (hheap version))
    (fun version => congrArg Version.previous (hheap version))
    (fun version => congrArg Version.content (hheap version)) ?_ ?_
  · intro g c hc
    exact (((hframes g).2.2.2.2 c).mp hc).1
  · intro g hg
    rw [(hframes g).2.2.1] at hg
    split_ifs at hg
    exact hg
  · intro g p hg hp
    rw [(hframes g).2.2.1] at hg
    split_ifs at hg with hne
    obtain ⟨hactive, hmem⟩ := hs.nested g p hg hp
    have hpne : p ≠ frame := by
      rintro rfl
      exact hidle g hg hp
    refine ⟨?_, ((hframes p).2.2.2.2 g).mpr ⟨hmem, fun h => hne h.2⟩⟩
    rw [(hframes p).2.2.1, if_neg hpne]
    exact hactive
  · intro g change hchange
    rw [(hframes g).2.2.2.1] at hchange
    rw [(hframes g).2.2.1]
    split_ifs at hchange ⊢ with hne
    · cases hchange
    · exact hrecorded g change hne hchange
  · intro version holder holder' h hfate
    obtain ⟨found, hfound, hby⟩ := hheld version holder h
    obtain rfl := Option.some.inj (hfate.symm.trans hfound)
    exact ⟨congrArg Version.rolledBack (hheap version),
      fun g => (hby g).trans (hsame g version).symm⟩
  · intro version holder h hfate
    obtain ⟨found, hfound, -⟩ := hheld version holder h
    rw [hfate] at hfound
    cases hfound

/-- A closed frame gives up a key, whose past is cut with the last frame that could undo a write to
it. -/
theorem invariant_releaseClaim (hs : Invariant s) {key : κ}
    (hclosed : (s.memory.frames frame).active = false)
    (hclaim : key ∈ (s.memory.frames frame).claims) :
    Invariant ⟨s.memory.releaseClaim frame key, s.journal⟩ ∧
      (s.memory.releaseClaim frame key).frames = s.memory.frames ∧
      ∀ g k, g ∈ (s.memory.releaseClaim frame key).owners k ↔
        g ∈ s.memory.owners k ∧ (k = key → g ≠ frame) := by
  have hcore := hs.core
  obtain ⟨top, htop⟩ := Option.ne_none_iff_exists'.mp (hcore.chained frame key hclaim)
  obtain ⟨hlt, htracks⟩ := hcore.tracks key top htop
  obtain ⟨hflag, -⟩ := hs.shown key top htop
  have howners : ∀ g k, g ∈ (if k = key then (s.memory.owners key).filter (· ≠ frame)
      else s.memory.owners k) ↔ g ∈ s.memory.owners k ∧ (k = key → g ≠ frame) := by
    intro g k
    split_ifs with hk
    · subst hk
      simp
    · simp [hk]
  have hactive : ∀ g, (s.memory.frames g).active = true → g ≠ frame := by
    rintro g hg rfl
    rw [hclosed] at hg
    cases hg
  have hrecorded : ∀ g change, change ∈ (s.memory.frames g).changes →
      g ∈ (if change.key = key then (s.memory.owners key).filter (· ≠ frame)
        else s.memory.owners change.key) := by
    intro g change hchange
    obtain ⟨hg, howner, -⟩ := hcore.recorded g change hchange
    exact (howners g _).mpr ⟨howner, fun _ => hactive g hg⟩
  have hwider : ∀ g k p, g ∈ (if k = key then (s.memory.owners key).filter (· ≠ frame)
      else s.memory.owners k) → (s.memory.frames g).active = true →
      (s.memory.frames g).parent = some p →
      p ∈ (if k = key then (s.memory.owners key).filter (· ≠ frame) else s.memory.owners k) := by
    intro g k p hg hgactive hp
    have howner := ((howners g k).mp hg).1
    have hpactive := (hcore.nested g p hgactive hp).1
    exact (howners p k).mpr ⟨hcore.owners g k p howner hgactive hp, fun _ => hactive p hpactive⟩
  rw [Memory.releaseClaim]
  dsimp only
  split_ifs with hempty
  · rw [htop]
    have hnone : ∀ version g, (s.memory.heap version).key = key →
        ¬ Held s.memory.frames g version := by
      rintro version g hkey ⟨change, hchange, rfl⟩
      have hmem := hrecorded g change hchange
      rw [(hcore.recorded g change hchange).2.2.1] at hkey
      rw [if_pos hkey, List.isEmpty_iff.mp hempty] at hmem
      cases hmem
    have hcut : ∀ version, version ≠ top → (if version = top then
        { s.memory.heap version with previous := none } else s.memory.heap version) =
          s.memory.heap version := fun version hne => if_neg hne
    refine ⟨⟨⟨hcore.parents, hcore.counts, hcore.older, hcore.fresh, hcore.listed, hcore.nested,
      ?_, ?_, hwider, hcore.chained, ?_, hcore.untouched, ?_, hcore.present⟩, ?_⟩, rfl, howners⟩
    · intro g change hchange
      obtain ⟨hg, -, hkey, hbound⟩ := hcore.recorded g change hchange
      refine ⟨hg, hrecorded g change hchange, ?_, hbound⟩
      dsimp only
      split_ifs <;> exact hkey
    · intro g k hg
      exact hcore.claims g k ((howners g k).mp hg).1
    · intro version below hbelow
      dsimp only at hbelow
      split_ifs at hbelow
      exact hcore.down version below hbelow
    · intro k found hfound
      obtain ⟨hbound, hstands⟩ := hcore.tracks k found hfound
      refine ⟨hbound, ?_⟩
      dsimp only at hfound ⊢
      by_cases hk : k = key
      · subst hk
        obtain rfl := Option.some.inj (htop.symm.trans hfound)
        refine .bottom top _ ?_ ?_ ?_ ?_ ?_ (hstands.free_of_not_held hnone)
        · rw [if_pos rfl]
          exact hstands.key_eq
        · rw [if_pos rfl]
        · rw [if_pos rfl]
          exact hflag
        · rw [if_pos rfl]
          exact hstands.content_eq hflag
        · intro g
          constructor
          · intro h
            cases h
          · intro h
            exact absurd h (hnone top g hstands.key_eq)
      · refine hstands.congr hcore.down (fun version _ hkey => hcut version ?_)
          fun _ _ _ _ => Iff.rfl
        rintro rfl
        exact hk (hkey.symm.trans htracks.key_eq)
    · intro k found hfound
      dsimp only at hfound ⊢
      split_ifs <;> exact hs.shown k found hfound
  · refine ⟨⟨⟨hcore.parents, hcore.counts, hcore.older, hcore.fresh, hcore.listed, hcore.nested,
      ?_, ?_, hwider, hcore.chained, hcore.down, hcore.untouched, hcore.tracks, hcore.present⟩,
      hs.shown⟩, rfl, howners⟩
    · intro g change hchange
      obtain ⟨hg, -, hrest⟩ := hcore.recorded g change hchange
      exact ⟨hg, hrecorded g change hchange, hrest⟩
    · intro g k hg
      exact hcore.claims g k ((howners g k).mp hg).1

theorem invariant_foldl_releaseClaim (keys : List κ) (hs : Invariant s)
    (hclosed : (s.memory.frames frame).active = false)
    (hclaims : ∀ k ∈ keys, k ∈ (s.memory.frames frame).claims) :
    Invariant ⟨keys.foldl (Memory.releaseClaim frame) s.memory, s.journal⟩ ∧
      (keys.foldl (Memory.releaseClaim frame) s.memory).frames = s.memory.frames ∧
      ∀ g k, g ∈ (keys.foldl (Memory.releaseClaim frame) s.memory).owners k →
        g ∈ s.memory.owners k ∧ (k ∈ keys → g ≠ frame) := by
  induction keys generalizing s with
  | nil => exact ⟨hs, rfl, fun g k hg => ⟨hg, nofun⟩⟩
  | cons key rest ih =>
    obtain ⟨hnext, hframes, howners⟩ :=
      invariant_releaseClaim hs hclosed (hclaims key (.head _))
    have hrest := ih hnext (by dsimp only; rw [hframes]; exact hclosed) (by
      dsimp only
      rw [hframes]
      exact fun k hk => hclaims k (.tail key hk))
    obtain ⟨hlast, hsame, hlower⟩ := hrest
    rw [List.foldl_cons]
    refine ⟨hlast, hsame.trans hframes, ?_⟩
    intro g k hg
    obtain ⟨hmiddle, hne⟩ := hlower g k hg
    obtain ⟨hfirst, hkey⟩ := (howners g k).mp hmiddle
    refine ⟨hfirst, fun hk => ?_⟩
    rcases List.mem_cons.mp hk with hk | hk
    · exact hkey hk
    · exact hne hk

theorem invariant_releaseClaims (hs : Invariant s)
    (hclosed : (s.memory.frames frame).active = false) :
    Invariant ⟨s.memory.releaseClaims frame, s.journal⟩ ∧
      ∀ g, ((s.memory.releaseClaims frame).frames g).active = (s.memory.frames g).active := by
  obtain ⟨hfold, hframes, howners⟩ := invariant_foldl_releaseClaim
    (s.memory.frames frame).claims hs hclosed fun _ hk => hk
  have hcore := hfold.core
  have hsame : ∀ g,
      ((s.memory.releaseClaims frame).frames g).parent = (s.memory.frames g).parent ∧
      ((s.memory.releaseClaims frame).frames g).active = (s.memory.frames g).active ∧
      ((s.memory.releaseClaims frame).frames g).children = (s.memory.frames g).children ∧
      ((s.memory.releaseClaims frame).frames g).changes = (s.memory.frames g).changes ∧
      ((s.memory.releaseClaims frame).frames g).claims =
        if g = frame then [] else (s.memory.frames g).claims := by
    intro g
    dsimp only [Memory.releaseClaims, Memory.onFrame, Memory.mapFrames]
    rw [hframes]
    split_ifs <;> exact ⟨rfl, rfl, rfl, rfl, rfl⟩
  refine ⟨⟨⟨?_, hcore.counts, ?_, ?_, ?_, ?_, ?_, ?_, ?_, ?_, hcore.down, hcore.untouched, ?_,
    hcore.present⟩, hfold.shown⟩, fun g => (hsame g).2.1⟩
  · intro g
    rw [(hsame g).1]
    exact hs.core.parents g
  · intro g p hp
    rw [(hsame g).1, ← hframes] at hp
    exact hcore.older g p hp
  · intro g hg
    rw [(hsame g).2.2.2.2, ← hframes]
    split_ifs
    · rfl
    · exact hcore.fresh g hg
  · intro p c hc
    rw [(hsame p).2.2.1] at hc
    rw [(hsame c).1]
    exact hs.core.listed p c hc
  · intro g p hg hp
    rw [(hsame g).2.1] at hg
    rw [(hsame g).1] at hp
    rw [(hsame p).2.1, (hsame p).2.2.1]
    exact hs.core.nested g p hg hp
  · intro g change hchange
    rw [(hsame g).2.2.2.1, ← hframes] at hchange
    rw [(hsame g).2.1, ← hframes]
    exact hcore.recorded g change hchange
  · intro g k hg
    rw [(hsame g).2.2.2.2]
    obtain ⟨howner, hne⟩ := howners g k hg
    have hclaim := hs.core.claims g k howner
    split_ifs with hgframe
    · subst hgframe
      exact absurd rfl (hne hclaim)
    · exact hclaim
  · intro g k p hg hactive hp
    rw [(hsame g).2.1, ← hframes] at hactive
    rw [(hsame g).1, ← hframes] at hp
    exact hcore.owners g k p hg hactive hp
  · intro g k hk
    rw [(hsame g).2.2.2.2, ← hframes] at hk
    split_ifs at hk
    · cases hk
    · exact hcore.chained g k hk
  · intro k top htop
    obtain ⟨hlt, htracks⟩ := hcore.tracks k top htop
    refine ⟨hlt, htracks.congr hcore.down (fun _ _ _ => rfl) fun version _ _ g => ?_⟩
    dsimp only
    rw [Held, Held, (hsame g).2.2.2.1, hframes]

theorem invariant_foldl_releaseClaims (frames : List Nat) (hs : Invariant s)
    (hclosed : ∀ g ∈ frames, (s.memory.frames g).active = false) :
    Invariant ⟨frames.foldl Memory.releaseClaims s.memory, s.journal⟩ ∧
      ∀ g, ((frames.foldl Memory.releaseClaims s.memory).frames g).active =
        (s.memory.frames g).active := by
  induction frames generalizing s with
  | nil => exact ⟨hs, fun _ => rfl⟩
  | cons frame rest ih =>
    obtain ⟨hnext, hsame⟩ := invariant_releaseClaims hs (hclosed frame (.head _))
    obtain ⟨hlast, hrest⟩ := ih hnext fun g hg =>
      (hsame g).trans (hclosed g (.tail frame hg))
    exact ⟨hlast, fun g => (hrest g).trans (hsame g)⟩

theorem core_handOver (hs : Core s) {changes : Nat → List (Change κ)}
    (hactive : (s.memory.frames frame).active = true)
    (hchildren : (s.memory.frames frame).children = [])
    (hchanges : ∀ g change, change ∈ changes g ↔ change ∈ (s.memory.frames g).changes ∨
      (s.memory.frames frame).parent = some g ∧ change ∈ (s.memory.frames frame).changes) :
    Core ⟨(s.memory.mapFrames fun g record => { record with changes := changes g }).detach frame,
      s.journal.record (.committed frame)⟩ := by
  rw [Journal.record, ← hs.parents]
  refine core_detach hs frame changes _ (handedTo_none _ frame) ?_ ?_ ?_
  · intro g hg hp
    have hmem := (hs.nested g frame hg hp).2
    rw [hchildren] at hmem
    cases hmem
  · intro g change _ hchange
    rcases (hchanges g change).mp hchange with hold | ⟨hparent, hmoved⟩
    · obtain ⟨hg, howner, -⟩ := hs.recorded g change hold
      exact ⟨hg, howner, g, hold⟩
    · obtain ⟨-, howner, -⟩ := hs.recorded frame change hmoved
      exact ⟨(hs.nested frame g hactive hparent).1,
        hs.owners frame change.key g howner hactive hparent, frame, hmoved⟩
  · intro version holder h
    refine ⟨_, rfl, heldBy_handedTo ?_ h⟩
    intro g
    constructor
    · rintro ⟨hg, change, hchange, rfl⟩
      rcases (hchanges g change).mp hchange with hold | ⟨hparent, hmoved⟩
      · exact .inl ⟨hg, change, hold, rfl⟩
      · exact .inr ⟨hparent, change, hmoved, rfl⟩
    · rintro (⟨hg, change, hold, rfl⟩ | ⟨hparent, change, hmoved, rfl⟩)
      · exact ⟨hg, change, (hchanges g change).mpr (.inl hold), rfl⟩
      · have hlt := (hs.older frame g hparent).1
        exact ⟨by omega, change, (hchanges g change).mpr (.inr ⟨hparent, hmoved⟩), rfl⟩

omit [DecidableEq κ] in
theorem shown_detach {k : κ} (h : Shown mem k) : Shown (mem.detach frame) k := by
  rw [detach_rest]
  dsimp only [Shown]
  rw [detach_heap]
  exact h

omit [DecidableEq κ] in
theorem detach_closed (mem : Memory κ ν) (frame : Nat) :
    ((mem.detach frame).frames frame).active = false := by
  rw [(detach_frames mem frame frame).2.2.1, if_pos rfl]

theorem invariant_commitFrame (hs : Invariant s) (hactive : (s.memory.frames frame).active = true)
    (hchildren : (s.memory.frames frame).children = []) :
    Invariant ⟨s.memory.commitFrame frame, s.journal.record (.committed frame)⟩ := by
  cases hparent : (s.memory.frames frame).parent with
  | none =>
    have hdetached : Core ⟨s.memory.detach frame, s.journal.record (.committed frame)⟩ :=
      core_handOver hs.core hactive hchildren fun g change => by simp [hparent]
    rw [Memory.commitFrame, hparent]
    exact (invariant_releaseClaims ⟨hdetached, fun k => shown_detach (hs.shown k)⟩
      (detach_closed s.memory frame)).1
  | some outer =>
    have hhanded : s.memory.handOver frame outer = s.memory.mapFrames fun g record =>
        { record with changes := if g = outer then
            (s.memory.frames g).changes ++ (s.memory.frames frame).changes
          else (s.memory.frames g).changes } := by
      dsimp only [Memory.handOver, Memory.onFrame, Memory.mapFrames]
      congr 1
      funext g
      split_ifs <;> rfl
    have hdetached : Core ⟨(s.memory.handOver frame outer).detach frame,
        s.journal.record (.committed frame)⟩ := by
      rw [hhanded]
      refine core_handOver hs.core hactive hchildren fun g change => ?_
      rw [hparent]
      split_ifs with hg
      · simp [hg]
      · simp [Ne.symm hg]
    rw [Memory.commitFrame, hparent]
    exact (invariant_releaseClaims ⟨hdetached, fun k => shown_detach (hs.shown k)⟩
      (detach_closed (s.memory.handOver frame outer) frame)).1

theorem invariant_forget (hs : Invariant s) (frame : Nat) :
    Invariant ⟨s.memory.onFrame frame fun record => { record with changes := [] },
      s.journal.record (.kept frame)⟩ := by
  have hcore := hs.core
  have hframes : ∀ g, ((s.memory.onFrame frame fun record =>
      { record with changes := [] }).frames g) = { s.memory.frames g with
        changes := if g = frame then [] else (s.memory.frames g).changes } := by
    intro g
    dsimp only [Memory.onFrame, Memory.mapFrames]
    split_ifs <;> rfl
  have hheld : ∀ g version, Held (s.memory.onFrame frame fun record =>
      { record with changes := [] }).frames g version ↔
        g ≠ frame ∧ Held s.memory.frames g version := by
    intro g version
    rw [Held, hframes]
    by_cases hg : g = frame
    · simp [Held, hg]
    · simp [Held, hg]
  refine ⟨?_, hs.shown⟩
  refine core_settle hcore rfl (handedTo_none none frame) ?_ ?_ ?_ ?_ ?_ ?_ (fun _ => rfl)
    (fun _ => rfl) (fun _ => rfl) ?_ ?_
  · intro g
    rw [hframes]
  · intro g
    rw [hframes]
  · intro g c hc
    rw [hframes] at hc
    exact hc
  · intro g hg
    rw [hframes] at hg
    exact hg
  · intro g p hg hp
    rw [hframes] at hg ⊢
    exact hcore.nested g p hg hp
  · intro g change hchange
    rw [hframes] at hchange ⊢
    dsimp only at hchange ⊢
    split_ifs at hchange
    · cases hchange
    · obtain ⟨hg, howner, -⟩ := hcore.recorded g change hchange
      exact ⟨hg, howner, g, hchange⟩
  · intro version holder holder' h hfate
    obtain rfl := Option.some.inj hfate
    refine ⟨rfl, heldBy_handedTo (fun g => ?_) h⟩
    rw [hheld]
    simp
  · intro version holder h hfate
    cases hfate

theorem core_close (hs : Core s) (frame : Nat) :
    Core ⟨(s.memory.close (Memory.subtree s.memory.frames s.memory.frameCount frame)).flag
        ((Memory.subtree s.memory.frames s.memory.frameCount frame).flatMap fun g =>
          (s.memory.frames g).changes),
      s.journal.record (.rolledBack frame)⟩ := by
  generalize hsubtree : Memory.subtree s.memory.frames s.memory.frameCount frame = closing
  have hdown : ∀ g p, (s.memory.frames g).parent = some p → p < g := fun g p hp =>
    (hs.older g p hp).1
  have hinside : ∀ g, g ∈ closing → Under (fun h => (s.memory.frames h).parent) frame g := by
    intro g hg
    rw [← hsubtree] at hg
    exact under_of_mem_subtree hs.listed hg
  have hall : ∀ g, Under (fun h => (s.memory.frames h).parent) frame g →
      (s.memory.frames g).active = true → g ∈ closing := by
    intro g hg hactive
    rw [← hsubtree]
    refine mem_subtree_of_active hs hg hactive s.memory.frameCount ?_
    cases hg with
    | refl => exact Nat.le_add_right frame s.memory.frameCount
    | step hparent _ =>
      have hlt := (hs.older g _ hparent).2
      omega
  have hparent : s.journal.parent = fun h => (s.memory.frames h).parent :=
    funext fun h => (hs.parents h).symm
  have hfate : ∀ holder, frame ∈ lineage s.journal.parent holder holder ↔
      Under (fun h => (s.memory.frames h).parent) frame holder := by
    intro holder
    rw [hparent]
    exact mem_lineage_iff hdown (Nat.le_refl holder)
  have hframes : ∀ g, ((s.memory.close closing).frames g) = { s.memory.frames g with
      active := if g ∈ closing then false else (s.memory.frames g).active
      changes := if g ∈ closing then [] else (s.memory.frames g).changes } := by
    intro g
    dsimp only [Memory.close, Memory.mapFrames]
    simp only [List.contains_iff_mem]
    split_ifs <;> rfl
  have hheld : ∀ g version, Held (s.memory.close closing).frames g version ↔
      g ∉ closing ∧ Held s.memory.frames g version := by
    intro g version
    rw [Held, hframes]
    by_cases hg : g ∈ closing
    · simp [Held, hg]
    · simp [Held, hg]
  have hflag : ∀ version, (∃ g ∈ closing, Held s.memory.frames g version) ↔
      (closing.flatMap fun g => (s.memory.frames g).changes).any
        (fun change => change.version = version) = true := by
    intro version
    simp only [List.any_eq_true, List.mem_flatMap, decide_eq_true_eq, Held]
    constructor
    · rintro ⟨g, hg, change, hchange, hversion⟩
      exact ⟨change, ⟨g, hg, hchange⟩, hversion⟩
    · rintro ⟨change, ⟨g, hg, hchange⟩, hversion⟩
      exact ⟨g, hg, change, hchange, hversion⟩
  refine core_settle hs rfl rfl ?_ ?_ ?_ ?_ ?_ ?_ ?_ ?_ ?_ ?_ ?_
  · intro g
    rw [Memory.flag, hframes]
  · intro g
    rw [Memory.flag, hframes]
  · intro g c hc
    rw [Memory.flag, hframes] at hc
    exact hc
  · intro g hg
    rw [Memory.flag, hframes] at hg
    dsimp only at hg
    split_ifs at hg
    exact hg
  · intro g p hg hp
    rw [Memory.flag, hframes] at hg ⊢
    dsimp only at hg ⊢
    split_ifs at hg with hgclosing
    obtain ⟨hactive, hmem⟩ := hs.nested g p hg hp
    have hpclosing : p ∉ closing := fun h => hgclosing (hall g (.step hp (hinside p h)) hg)
    rw [if_neg hpclosing]
    exact ⟨hactive, hmem⟩
  · intro g change hchange
    rw [Memory.flag, hframes] at hchange ⊢
    dsimp only at hchange ⊢
    split_ifs at hchange ⊢
    · cases hchange
    · obtain ⟨hg, howner, -⟩ := hs.recorded g change hchange
      exact ⟨hg, howner, g, hchange⟩
  · intro version
    dsimp only [Memory.flag]
    split_ifs <;> rfl
  · intro version
    dsimp only [Memory.flag]
    split_ifs <;> rfl
  · intro version
    dsimp only [Memory.flag]
    split_ifs <;> rfl
  · intro version holder holder' h hsome
    have hout : ∀ g, Held s.memory.frames g version → g ∉ closing := by
      intro g hg hclosing
      rw [(h g).mpr hg, Journal.undoneIn, if_pos ((hfate g).mpr (hinside g hclosing))] at hsome
      cases hsome
    have hsame : holder' = holder := by
      cases holder with
      | none => exact (Option.some.inj hsome).symm
      | some g =>
        rw [Journal.undoneIn] at hsome
        split_ifs at hsome
        exact (Option.some.inj hsome).symm
    refine ⟨?_, fun g => ?_⟩
    · dsimp only [Memory.flag]
      rw [if_neg]
      · rfl
      · rw [← hflag]
        rintro ⟨g, hclosing, hg⟩
        exact hout g hg hclosing
    · rw [hsame, h g]
      exact ⟨fun hg => (hheld g version).mpr ⟨hout g hg, hg⟩, fun hg => ((hheld g version).mp hg).2⟩
  · intro version holder h hnone
    cases holder with
    | none => cases hnone
    | some g =>
      rw [Journal.undoneIn] at hnone
      split_ifs at hnone with hmem
      have hg : Held s.memory.frames g version := (h g).mp rfl
      obtain ⟨change, hchange, -⟩ := id hg
      have hclosing : g ∈ closing :=
        hall g ((hfate g).mp hmem) (hs.recorded g change hchange).1
      refine ⟨?_, fun other => ?_⟩
      · dsimp only [Memory.flag]
        rw [if_pos ((hflag version).mp ⟨g, hclosing, hg⟩)]
      · constructor
        · intro hother
          cases hother
        · intro hother
          obtain ⟨hopen, hold⟩ := (hheld other version).mp hother
          obtain rfl := Option.some.inj ((h other).mpr hold)
          exact absurd hclosing hopen

/-- The chain of a key is shown, or its top waits to be undone. -/
def Pending (mem : Memory κ ν) (changes : List (Change κ)) (k : κ) : Prop :=
  Shown mem k ∨ ∃ change ∈ changes, change.key = k ∧ mem.versions k = some change.version

/-- Undoing a flagged write finds a version below and shows it. -/
theorem core_undo (hs : Core s) (change : Change κ)
    (hflag : (s.memory.heap change.version).rolledBack = true) :
    Core ⟨s.memory.undo change, s.journal⟩ ∧ (s.memory.undo change).heap = s.memory.heap ∧
      (s.memory.undo change).frames = s.memory.frames ∧
      ∀ k, (k = change.key ∧ s.memory.versions k = some change.version →
          Shown (s.memory.undo change) k) ∧
        (¬ (k = change.key ∧ s.memory.versions k = some change.version) →
          (s.memory.undo change).versions k = s.memory.versions k ∧
            (s.memory.undo change).map k = s.memory.map k) := by
  rw [Memory.undo]
  split_ifs with htop
  · obtain ⟨hlt, htracks⟩ := hs.tracks change.key change.version htop
    obtain ⟨below, hbelow, hstands⟩ := htracks.below_of_flagged hflag
    obtain ⟨found, hprior, hlive, hle, hfound⟩ := hstands.prior_eq hs.down (Nat.le_refl below)
    have hlower := hs.down change.version below hbelow
    rw [hbelow]
    dsimp only
    rw [hprior]
    dsimp only [Memory.setVersion]
    refine ⟨⟨hs.parents, hs.counts, hs.older, hs.fresh, hs.listed, hs.nested, hs.recorded,
      hs.claims, hs.owners, ?_, hs.down, ?_, ?_, hs.present⟩, rfl, rfl, fun k => ⟨?_, ?_⟩⟩
    · intro g k hk
      dsimp only
      split_ifs
      · exact Option.some_ne_none found
      · exact hs.chained g k hk
    · intro k hk
      dsimp only at hk ⊢
      split_ifs at hk ⊢
      exact hs.untouched k hk
    · intro k top hktop
      dsimp only at hktop ⊢
      split_ifs at hktop with hk
      · obtain rfl := Option.some.inj hktop
        rw [hk]
        exact ⟨by omega, hfound⟩
      · exact hs.tracks k top hktop
    · rintro ⟨rfl, -⟩ top hktop
      dsimp only at hktop ⊢
      rw [if_pos rfl] at hktop ⊢
      obtain rfl := Option.some.inj hktop
      exact ⟨hlive, rfl⟩
    · intro hother
      have hk : k ≠ change.key := by
        rintro rfl
        exact hother ⟨rfl, htop⟩
      rw [if_neg hk, if_neg hk]
      exact ⟨rfl, rfl⟩
  · exact ⟨hs, rfl, rfl, fun k => ⟨fun h => absurd (h.1 ▸ h.2) htop, fun _ => ⟨rfl, rfl⟩⟩⟩

theorem invariant_foldl_undo (changes : List (Change κ)) (hs : Core s)
    (hflag : ∀ change ∈ changes, (s.memory.heap change.version).rolledBack = true)
    (hpending : ∀ k, Pending s.memory changes k) :
    Invariant ⟨changes.foldl Memory.undo s.memory, s.journal⟩ ∧
      (changes.foldl Memory.undo s.memory).frames = s.memory.frames := by
  induction changes generalizing s with
  | nil =>
    refine ⟨⟨hs, fun k => ?_⟩, rfl⟩
    rcases hpending k with hshown | ⟨change, hchange, -⟩
    · exact hshown
    · cases hchange
  | cons change rest ih =>
    obtain ⟨hnext, hheap, hframes, hkeys⟩ := core_undo hs change (hflag change (.head _))
    have hrest : ∀ k, Pending (s.memory.undo change) rest k := by
      intro k
      by_cases hk : k = change.key ∧ s.memory.versions k = some change.version
      · exact .inl ((hkeys k).1 hk)
      · obtain ⟨hversions, hmap⟩ := (hkeys k).2 hk
        rcases hpending k with hshown | ⟨other, hother, hkey, htop⟩
        · refine .inl fun top htop => ?_
          rw [hversions] at htop
          rw [hheap, hmap]
          exact hshown top htop
        · rcases List.mem_cons.mp hother with rfl | hother
          · exact absurd ⟨hkey.symm, htop⟩ hk
          · exact .inr ⟨other, hother, hkey, hversions.trans htop⟩
    obtain ⟨hlast, hsame⟩ := ih hnext (fun other hother => by
      dsimp only
      rw [hheap]
      exact hflag other (.tail change hother)) hrest
    exact ⟨hlast, hsame.trans hframes⟩

theorem pending_flag (hs : Invariant s) {closing : List Nat} {changes : List (Change κ)}
    (hchanges : ∀ change ∈ changes, ∃ g, change ∈ (s.memory.frames g).changes) (k : κ) :
    Pending ((s.memory.close closing).flag changes) changes k := by
  cases hversion : s.memory.versions k with
  | none =>
    refine .inl fun top htop => ?_
    rw [Memory.flag, Memory.close, Memory.mapFrames, hversion] at htop
    cases htop
  | some top =>
    by_cases hany : changes.any (fun change => change.version = top) = true
    · obtain ⟨change, hchange, htop⟩ := List.any_eq_true.mp hany
      obtain ⟨g, hg⟩ := hchanges change hchange
      have hkey := (hs.core.recorded g change hg).2.2.1
      have htracks := (hs.core.tracks k top hversion).2
      rw [of_decide_eq_true htop, htracks.key_eq] at hkey
      exact .inr ⟨change, hchange, hkey.symm, by rw [of_decide_eq_true htop]; exact hversion⟩
    · refine .inl fun found hfound => ?_
      obtain rfl := Option.some.inj (hversion.symm.trans hfound)
      dsimp only [Memory.flag, Memory.close, Memory.mapFrames]
      rw [if_neg hany]
      exact hs.shown k top hversion

theorem invariant_rollbackFrame (hs : Invariant s) (frame : Nat) :
    Invariant ⟨s.memory.rollbackFrame frame, s.journal.record (.rolledBack frame)⟩ ∧
      ((s.memory.rollbackFrame frame).frames frame).active = false := by
  have hclose := core_close hs.core frame
  have hself := subtree_mem_self s.memory.frames s.memory.frameCount frame
  rw [Memory.rollbackFrame]
  generalize Memory.subtree s.memory.frames s.memory.frameCount frame = closing at hclose hself ⊢
  generalize hchanges : (closing.flatMap fun g => (s.memory.frames g).changes) = changes at hclose ⊢
  have hsort : ∀ change,
      change ∈ changes.insertionSort (fun left right => right.order ≤ left.order) ↔
        change ∈ changes := fun change => List.mem_insertionSort _
  have hfrom : ∀ change ∈ changes, ∃ g, change ∈ (s.memory.frames g).changes := by
    intro change hchange
    rw [← hchanges, List.mem_flatMap] at hchange
    obtain ⟨g, -, hg⟩ := hchange
    exact ⟨g, hg⟩
  have hflag : ∀ change ∈ changes.insertionSort (fun left right => right.order ≤ left.order),
      (((s.memory.close closing).flag changes).heap change.version).rolledBack = true := by
    intro change hchange
    have hany : changes.any (fun other => other.version = change.version) = true :=
      List.any_eq_true.mpr ⟨change, (hsort change).mp hchange, decide_eq_true rfl⟩
    dsimp only [Memory.flag]
    rw [if_pos hany]
  have hpending : ∀ k, Pending ((s.memory.close closing).flag changes)
      (changes.insertionSort fun left right => right.order ≤ left.order) k := by
    intro k
    rcases pending_flag hs hfrom k with hshown | ⟨change, hchange, htop⟩
    · exact .inl hshown
    · exact .inr ⟨change, (hsort change).mpr hchange, htop⟩
  obtain ⟨hundone, hframes⟩ := invariant_foldl_undo _ hclose hflag hpending
  have hclosed : ∀ g ∈ closing, (((changes.insertionSort fun left right =>
      right.order ≤ left.order).foldl Memory.undo
        ((s.memory.close closing).flag changes)).frames g).active = false := by
    intro g hg
    rw [hframes]
    dsimp only [Memory.flag, Memory.close, Memory.mapFrames]
    rw [if_pos (List.contains_iff_mem.mpr hg)]
  obtain ⟨hreleased, hactive⟩ := invariant_foldl_releaseClaims closing hundone hclosed
  exact ⟨hreleased, (hactive frame).trans (hclosed frame hself)⟩

theorem invariant_leave (hs : Invariant s) (hclosed : (s.memory.frames frame).active = false) :
    Invariant ⟨s.memory.leave frame, s.journal⟩ := by
  have hcore := hs.core
  have hempty : ∀ version, ¬ Held s.memory.frames frame version := by
    rintro version ⟨change, hchange, -⟩
    have hactive := (hcore.recorded frame change hchange).1
    rw [hclosed] at hactive
    cases hactive
  have hdetached : Core ⟨s.memory.detach frame, s.journal.settle some⟩ := by
    refine core_detach hcore frame (fun g => (s.memory.frames g).changes) some rfl ?_ ?_ ?_
    · intro g hg hp
      have hactive := (hcore.nested g frame hg hp).1
      rw [hclosed] at hactive
      cases hactive
    · intro g change _ hchange
      obtain ⟨hg, howner, -⟩ := hcore.recorded g change hchange
      exact ⟨hg, howner, g, hchange⟩
    · intro version holder h
      refine ⟨holder, rfl, fun g => (h g).trans ⟨fun hg => ⟨?_, hg⟩, fun hg => hg.2⟩⟩
      rintro rfl
      exact hempty version hg
  rw [settle_some] at hdetached
  exact (invariant_releaseClaims ⟨hdetached, fun k => shown_detach (hs.shown k)⟩
    (detach_closed s.memory frame)).1

theorem step_finish_cases {resolved : Bool} (h : step s (.finish frame resolved) = some t) :
    resolved = true ∧ s.memory.isComplete frame = true ∧
        t = ⟨s.memory.commitFrame frame, s.journal.record (.committed frame)⟩ ∨
      ¬ (resolved = true ∧ s.memory.isComplete frame = true) ∧
        t = ⟨(s.memory.rollbackFrame frame).leave frame, s.journal.record (.rolledBack frame)⟩ := by
  rw [step, perform] at h
  split_ifs at h with hended hcomplete
  · cases h
  · rw [Bool.and_eq_true] at hcomplete
    exact .inl ⟨hcomplete.1, hcomplete.2, (Option.some.inj h).symm⟩
  · rw [Bool.and_eq_true] at hcomplete
    exact .inr ⟨hcomplete, (Option.some.inj h).symm⟩

theorem step_invariant {a : Action κ ν} (hs : Invariant s) (h : step s a = some t) :
    Invariant t := by
  cases a with
  | openRoot =>
    obtain rfl := Option.some.inj h
    exact hs.openFrame none fun p hp => by cases hp
  | openChild parent =>
    rw [step, perform] at h
    split_ifs at h with hok
    · obtain rfl := Option.some.inj h
      refine hs.openFrame (some parent) fun p hp => ?_
      obtain rfl := Option.some.inj hp
      exact ⟨hok.1, hs.core.active_of_under hok.2 .refl⟩
    · cases h
  | claim frame key =>
    rw [step, perform] at h
    split_ifs at h with hok
    · obtain rfl := Option.some.inj h
      exact hs.claimProjection frame key hok.1
    · cases h
  | write frame key value =>
    rw [step, perform] at h
    split_ifs at h with hok
    · obtain rfl := Option.some.inj h
      have hactive := (Bool.and_eq_true_iff.mp hok.2).1
      exact hs.writeProjection key value hok.1 (hs.core.active_of_under hactive .refl)
    · cases h
  | finish frame resolved =>
    rcases step_finish_cases h with ⟨-, hcomplete, rfl⟩ | ⟨-, rfl⟩
    · obtain ⟨hactive, hchildren⟩ := Bool.and_eq_true_iff.mp hcomplete
      exact invariant_commitFrame hs (hs.core.active_of_under hactive .refl)
        (List.isEmpty_iff.mp hchildren)
    · obtain ⟨hrolled, hclosed⟩ := invariant_rollbackFrame hs frame
      exact invariant_leave hrolled hclosed
  | forget frame =>
    rw [step, perform] at h
    split_ifs at h
    · cases h
    · obtain rfl := Option.some.inj h
      exact invariant_forget hs frame

theorem run_keeps_invariant
    (hrun : run step ⟨Memory.start map anyKey, Journal.start map⟩ actions = some s) :
    Invariant s :=
  run_invariant (fun _ _ _ hs h => step_invariant hs h) (invariant_start map anyKey) hrun

omit [DecidableEq κ] in
theorem initial_record (journal : Journal κ ν) (event : Event κ ν) :
    (journal.record event).initial = journal.initial := by
  cases event <;> rfl

theorem run_keeps_initial
    (hrun : run step ⟨Memory.start map anyKey, Journal.start map⟩ actions = some s) :
    s.journal.initial = map := by
  have hstep : ∀ (s : System κ ν) a t, s.journal.initial = map → step s a = some t →
      t.journal.initial = map := by
    intro s a t hs h
    obtain ⟨p, -, rfl⟩ := Option.map_eq_some_iff.mp h
    exact (initial_record s.journal p.2).trans hs
  exact run_invariant hstep rfl hrun

omit [DecidableEq κ] in
theorem log_committed (journal : Journal κ ν) (frame : Nat) :
    (journal.record (.committed frame)).log = journal.log.map fun entry =>
      if entry.holder = some frame then { entry with holder := journal.parent frame }
      else entry := by
  dsimp only [Journal.record, Journal.settle]
  rw [← List.filterMap_eq_map]
  refine List.filterMap_congr fun entry _ => ?_
  dsimp only [Entry.settle, Journal.handedTo, Option.map_some, Function.comp]
  split_ifs <;> rfl

omit [DecidableEq κ] in
theorem log_rolledBack (journal : Journal κ ν) (frame : Nat) :
    (journal.record (.rolledBack frame)).log = journal.log.filter fun entry =>
      ! entry.holder.any fun holder => (lineage journal.parent holder holder).contains frame := by
  dsimp only [Journal.record, Journal.settle]
  rw [← List.filterMap_eq_filter]
  refine List.filterMap_congr fun entry _ => ?_
  obtain ⟨key, value, holder⟩ := entry
  cases holder with
  | none => rfl
  | some holder =>
    by_cases hmem : frame ∈ lineage journal.parent holder holder
    · simp [Entry.settle, Journal.undoneIn, hmem, Option.guard]
    · simp [Entry.settle, Journal.undoneIn, hmem, Option.guard]

/-- In every run of nested frames each key holds the value of the last surviving write to it, and no
missing version is dereferenced. A commit hands the writes of a frame to the frame around it; a
rollback drops those of the frame and of the frames inside it. -/
theorem frames_keep_surviving_writes (map : κ → Option ν) (anyKey : κ)
    (actions : List (Action κ ν)) (s : System κ ν)
    (hrun : run step ⟨Memory.start map anyKey, Journal.start map⟩ actions = some s) :
    s.memory.missing = false ∧
    (∀ k, s.memory.map k = read (map k) (s.journal.writesTo k)) ∧
    ∀ frame resolved t, step s (.finish frame resolved) = some t →
      t.memory.missing = false ∧
      (∀ k, t.memory.map k = read (map k) (t.journal.writesTo k)) ∧
      (resolved = true ∧ s.memory.isComplete frame = true →
        t.journal.log = s.journal.log.map fun entry =>
          if entry.holder = some frame then
            { entry with holder := (s.memory.frames frame).parent }
          else entry) ∧
      (¬ (resolved = true ∧ s.memory.isComplete frame = true) →
        t.journal.log = s.journal.log.filter fun entry =>
          ! entry.holder.any fun holder => s.memory.isAncestor frame holder) := by
  have hs := run_keeps_invariant hrun
  have hinitial := run_keeps_initial hrun
  have hvalue : ∀ k, s.memory.map k = read (map k) (s.journal.writesTo k) := by
    intro k
    rw [hs.value_eq k, Journal.value, hinitial]
  refine ⟨hs.core.present, hvalue, ?_⟩
  intro frame resolved t hfinish
  have ht := step_invariant hs hfinish
  have hparent : s.journal.parent = fun g => (s.memory.frames g).parent :=
    funext fun g => (hs.core.parents g).symm
  have hlater : t.journal.initial = map := by
    obtain ⟨p, -, rfl⟩ := Option.map_eq_some_iff.mp hfinish
    exact (initial_record s.journal p.2).trans hinitial
  refine ⟨ht.core.present, ?_, ?_, ?_⟩
  · intro k
    rw [ht.value_eq k, Journal.value, hlater]
  · intro hcommit
    rcases step_finish_cases hfinish with ⟨-, -, rfl⟩ | ⟨hrolled, -⟩
    · rw [log_committed, hparent]
    · exact absurd hcommit hrolled
  · intro hrolled
    rcases step_finish_cases hfinish with ⟨hresolved, hcomplete, -⟩ | ⟨-, rfl⟩
    · exact absurd ⟨hresolved, hcomplete⟩ hrolled
    · rw [log_rolledBack, hparent]
      rfl

/-- A child writes over its parent's write and commits; a second child is rolled back. -/
def nestedRun : List (MemoryFrames.Action String Nat) :=
  [.openRoot, .write 0 "receipt" 1, .openChild 0, .openChild 1, .write 2 "receipt" 2,
    .finish 2 true, .write 1 "other" 3, .finish 1 true, .openChild 0, .write 3 "receipt" 4,
    .finish 3 false]

/-- The map before the run. -/
def nestedMap (key : String) : Option Nat := if key = "receipt" then some 7 else none

theorem frames_keep_surviving_writes_nestedRun :
    ∃ s, run step ⟨Memory.start nestedMap "", Journal.start nestedMap⟩ nestedRun = some s ∧
      s.memory.missing = false ∧ s.memory.map "receipt" = some 2 ∧
      ∃ t, step s (.finish 0 false) = some t ∧ t.memory.missing = false ∧
        t.memory.map "receipt" = some 7 ∧ t.memory.map "other" = none ∧
        ∀ k, t.memory.map k = read (nestedMap k) (t.journal.writesTo k) := by
  have hread : (run step ⟨Memory.start nestedMap "", Journal.start nestedMap⟩ nestedRun).map
      (fun s => (s.memory.map "receipt", (step s (.finish 0 false)).map fun t =>
        (t.memory.map "receipt", t.memory.map "other"))) =
      some (some 2, some (some 7, none)) := by
    decide
  obtain ⟨s, hs, hread⟩ := Option.map_eq_some_iff.mp hread
  obtain ⟨hreceipt, hfinished⟩ := Prod.mk.inj hread
  obtain ⟨t, ht, hvalues⟩ := Option.map_eq_some_iff.mp hfinished
  obtain ⟨hrestored, hother⟩ := Prod.mk.inj hvalues
  obtain ⟨hmissing, -, hfinish⟩ := frames_keep_surviving_writes nestedMap "" nestedRun s hs
  obtain ⟨hstill, hvalue, -⟩ := hfinish 0 false t ht
  exact ⟨s, hs, hmissing, hreceipt, t, ht, hstill, hrestored, hother, hvalue⟩

end Stynx.MemoryFramesRollback
