import Stynx.MemoryFrames

/-!
# Invariant of nested frames

The chain of each key stands for the surviving writes to it, a version can still
be undone by exactly the frame that holds its record, and a frame which holds a
record owns the key, as do the frames around it.
-/

namespace Stynx.MemoryFramesInvariant

open VersionChains MemoryFrames

universe u v

/-- The frame is the other one or inside it. -/
inductive Under (parent : Nat → Option Nat) (outer : Nat) : Nat → Prop where
  | refl : Under parent outer outer
  | step {frame next : Nat} (hparent : parent frame = some next) (hnext : Under parent outer next) :
      Under parent outer frame

variable {parent : Nat → Option Nat} {outer frame : Nat}

theorem Under.outward {next : Nat} (h : Under parent outer frame)
    (hparent : parent outer = some next) :
    Under parent next frame := by
  induction h with
  | refl => exact .step hparent .refl
  | step hframe _ ih => exact .step hframe ih

theorem Under.le (hdown : ∀ g p, parent g = some p → p < g) (h : Under parent outer frame) :
    outer ≤ frame := by
  induction h with
  | refl => exact Nat.le_refl outer
  | step hparent _ ih =>
    have hlt := hdown _ _ hparent
    omega

theorem mem_lineage_iff (hdown : ∀ g p, parent g = some p → p < g) {fuel : Nat}
    (hfuel : frame ≤ fuel) :
    outer ∈ lineage parent fuel frame ↔ Under parent outer frame := by
  induction fuel generalizing frame with
  | zero =>
    rw [lineage, List.mem_singleton]
    constructor
    · rintro rfl
      exact .refl
    · intro h
      cases h with
      | refl => rfl
      | step hparent _ =>
        have hlt := hdown frame _ hparent
        omega
  | succ fuel ih =>
    rw [lineage, List.mem_cons]
    constructor
    · rintro (rfl | h)
      · exact .refl
      · split at h
        · rename_i next hparent
          have hlt := hdown frame next hparent
          exact .step hparent ((ih (by omega)).mp h)
        · cases h
    · intro h
      cases h with
      | refl => exact .inl rfl
      | step hparent hnext =>
        have hlt := hdown frame _ hparent
        rw [hparent]
        exact .inr ((ih (by omega)).mpr hnext)

variable {κ : Type u} {ν : Type v}

def Held (frames : Nat → Frame κ) (frame version : Nat) : Prop :=
  ∃ change ∈ (frames frame).changes, change.version = version

variable [DecidableEq κ]

/-- The frames, the claims and the chains fit together. -/
structure Core (s : System κ ν) : Prop where
  parents : ∀ g, (s.memory.frames g).parent = s.journal.parent g
  counts : s.memory.frameCount = s.journal.frameCount
  /-- A frame is younger than the one around it. -/
  older : ∀ g p, (s.memory.frames g).parent = some p → p < g ∧ g < s.memory.frameCount
  /-- A frame to come claims nothing. -/
  fresh : ∀ g, s.memory.frameCount ≤ g → (s.memory.frames g).claims = []
  /-- A frame is listed only in the one around it. -/
  listed : ∀ p c, c ∈ (s.memory.frames p).children → (s.memory.frames c).parent = some p
  nested : ∀ g p, (s.memory.frames g).active = true → (s.memory.frames g).parent = some p →
    (s.memory.frames p).active = true ∧ g ∈ (s.memory.frames p).children
  /-- A frame with an undo record is active and owns the key. -/
  recorded : ∀ g change, change ∈ (s.memory.frames g).changes →
    (s.memory.frames g).active = true ∧ g ∈ s.memory.owners change.key ∧
      (s.memory.heap change.version).key = change.key ∧ change.version < s.memory.heapCount
  /-- An owner of a key has it among its claims. -/
  claims : ∀ g k, g ∈ s.memory.owners k → k ∈ (s.memory.frames g).claims
  owners : ∀ g k p, g ∈ s.memory.owners k → (s.memory.frames g).active = true →
    (s.memory.frames g).parent = some p → p ∈ s.memory.owners k
  chained : ∀ g k, k ∈ (s.memory.frames g).claims → s.memory.versions k ≠ none
  down : ∀ version below, (s.memory.heap version).previous = some below → below < version
  /-- A key without a chain was never written. -/
  untouched : ∀ k, s.memory.versions k = none →
    s.memory.map k = s.journal.initial k ∧ s.journal.writesTo k = []
  /-- The chain of a key stands for its surviving writes. -/
  tracks : ∀ k top, s.memory.versions k = some top → top < s.memory.heapCount ∧
    Tracks s.memory.heap (Held s.memory.frames) k (s.journal.initial k) top (s.journal.writesTo k)
  /-- No missing version was dereferenced. -/
  present : s.memory.missing = false

/-- The map shows the top of each chain. -/
def Shown (mem : Memory κ ν) (k : κ) : Prop :=
  ∀ top, mem.versions k = some top → (mem.heap top).rolledBack = false ∧
    mem.map k = (mem.heap top).content

/-- What holds between actions. -/
structure Invariant (s : System κ ν) : Prop where
  core : Core s
  /-- The map shows every chain. -/
  shown : ∀ k, Shown s.memory k

variable {s : System κ ν} {frame : Nat}

theorem Invariant.value_eq (hs : Invariant s) (k : κ) : s.memory.map k = s.journal.value k := by
  cases hversion : s.memory.versions k with
  | none =>
    obtain ⟨hmap, hwrites⟩ := hs.core.untouched k hversion
    rw [hmap, Journal.value, hwrites]
    rfl
  | some top =>
    obtain ⟨hflag, hmap⟩ := hs.shown k top hversion
    obtain ⟨-, htracks⟩ := hs.core.tracks k top hversion
    rw [hmap, htracks.content_eq hflag]
    rfl

theorem invariant_start (map : κ → Option ν) (anyKey : κ) :
    Invariant (⟨Memory.start map anyKey, Journal.start map⟩ : System κ ν) where
  core :=
    { parents := fun _ => rfl
      counts := rfl
      older := fun _ _ h => by cases h
      fresh := fun _ _ => rfl
      listed := fun _ _ h => by cases h
      nested := fun _ _ h => by cases h
      recorded := fun _ _ h => by cases h
      claims := fun _ _ h => by cases h
      owners := fun _ _ _ h => by cases h
      chained := fun _ _ h => by cases h
      down := fun _ _ h => by cases h
      untouched := fun _ _ => ⟨rfl, rfl⟩
      tracks := fun _ _ h => by cases h
      present := rfl }
  shown := fun _ _ h => by cases h

theorem writesTo_settle (journal : Journal κ ν) (fate : Option Nat → Option (Option Nat)) (k : κ) :
    (journal.settle fate).writesTo k = (journal.writesTo k).filterMap (Entry.settle fate) := by
  have hkey : ∀ entry entry' : Entry κ ν, Entry.settle fate entry = some entry' →
      entry'.key = entry.key := by
    intro entry entry' h
    obtain ⟨holder, -, rfl⟩ := Option.map_eq_some_iff.mp h
    rfl
  have hlog : ∀ log : List (Entry κ ν),
      (log.filterMap (Entry.settle fate)).filter (fun entry => entry.key = k) =
        (log.filter fun entry => entry.key = k).filterMap (Entry.settle fate) := by
    intro log
    induction log with
    | nil => rfl
    | cons entry rest ih =>
      cases hsettle : Entry.settle fate entry with
      | none =>
        rw [List.filterMap_cons_none hsettle, ih]
        by_cases hk : entry.key = k
        · rw [List.filter_cons_of_pos (by simpa using hk), List.filterMap_cons_none hsettle]
        · rw [List.filter_cons_of_neg (by simpa using hk)]
      | some entry' =>
        have hsame := hkey entry entry' hsettle
        rw [List.filterMap_cons_some hsettle]
        by_cases hk : entry.key = k
        · rw [List.filter_cons_of_pos (by simpa [hsame] using hk), ih,
            List.filter_cons_of_pos (by simpa using hk), List.filterMap_cons_some hsettle]
        · rw [List.filter_cons_of_neg (by simpa [hsame] using hk), ih,
            List.filter_cons_of_neg (by simpa using hk)]
  rw [Journal.writesTo, Journal.writesTo, Journal.settle, hlog, List.filterMap_reverse]

theorem Core.no_claim_of_fresh (hs : Core s) {g : Nat} (hg : s.memory.frameCount ≤ g) (k : κ) :
    g ∉ s.memory.owners k := by
  intro howner
  have hclaim := hs.claims g k howner
  rw [hs.fresh g hg] at hclaim
  cases hclaim

omit [DecidableEq κ] in
theorem openFrame_frames (mem : Memory κ ν) (parent : Option Nat)
    (hparent : parent ≠ some mem.frameCount) (g : Nat) :
    (mem.openFrame parent).frames g =
      if g = mem.frameCount then ⟨parent, true, false, [], [], []⟩
      else if parent = some g then
        { mem.frames g with children := (mem.frames g).children ++ [mem.frameCount] }
      else mem.frames g := by
  cases parent with
  | none =>
    dsimp only [Memory.openFrame, Memory.onFrame, Memory.mapFrames]
    rw [if_neg (Option.some_ne_none g).symm]
  | some outer =>
    dsimp only [Memory.openFrame, Memory.onFrame, Memory.mapFrames]
    by_cases hg : g = mem.frameCount
    · subst hg
      have hne : mem.frameCount ≠ outer := fun h => hparent (by rw [h])
      rw [if_neg hne, if_pos rfl, if_pos rfl]
    · rw [if_neg hg, if_neg hg]
      by_cases houter : g = outer
      · rw [if_pos houter, if_pos (by rw [houter])]
      · rw [if_neg houter, if_neg fun h => houter (Option.some.inj h).symm]

omit [DecidableEq κ] in
theorem openFrame_rest (mem : Memory κ ν) (parent : Option Nat) :
    (mem.openFrame parent).frameCount = mem.frameCount + 1 ∧
      (mem.openFrame parent).heap = mem.heap ∧ (mem.openFrame parent).heapCount = mem.heapCount ∧
      (mem.openFrame parent).versions = mem.versions ∧
      (mem.openFrame parent).owners = mem.owners ∧ (mem.openFrame parent).map = mem.map ∧
      (mem.openFrame parent).missing = mem.missing := by
  cases parent <;> exact ⟨rfl, rfl, rfl, rfl, rfl, rfl, rfl⟩

theorem Invariant.openFrame (hs : Invariant s) (parent : Option Nat)
    (hparent : ∀ p, parent = some p → p < s.memory.frameCount ∧ (s.memory.frames p).active = true) :
    Invariant ⟨s.memory.openFrame parent, s.journal.record (.opened parent)⟩ := by
  have hcore := hs.core
  have hne : parent ≠ some s.memory.frameCount := by
    intro h
    have := (hparent _ h).1
    omega
  have hframes := openFrame_frames s.memory parent hne
  obtain ⟨hcount, hheap, hheapCount, hversions, howners, hmap, hmissing⟩ :=
    openFrame_rest s.memory parent
  have hnew : (s.memory.openFrame parent).frames s.memory.frameCount =
      ⟨parent, true, false, [], [], []⟩ := by rw [hframes, if_pos rfl]
  have hold : ∀ g, g ≠ s.memory.frameCount →
      ((s.memory.openFrame parent).frames g).parent = (s.memory.frames g).parent ∧
      ((s.memory.openFrame parent).frames g).active = (s.memory.frames g).active ∧
      ((s.memory.openFrame parent).frames g).changes = (s.memory.frames g).changes ∧
      ((s.memory.openFrame parent).frames g).claims = (s.memory.frames g).claims := by
    intro g hg
    rw [hframes, if_neg hg]
    split_ifs <;> exact ⟨rfl, rfl, rfl, rfl⟩
  have hchildren : ∀ g c, c ∈ ((s.memory.openFrame parent).frames g).children ↔
      g ≠ s.memory.frameCount ∧ (c ∈ (s.memory.frames g).children ∨
        parent = some g ∧ c = s.memory.frameCount) := by
    intro g c
    rw [hframes]
    split_ifs with hg hp
    · simp [hg]
    · simp [hg, hp]
    · simp [hg, hp]
  have hheld : ∀ g version, Held (s.memory.openFrame parent).frames g version ↔
      Held s.memory.frames g version := by
    intro g version
    by_cases hg : g = s.memory.frameCount
    · subst hg
      constructor
      · rintro ⟨change, hchange, -⟩
        rw [hnew] at hchange
        cases hchange
      · rintro ⟨change, hchange, -⟩
        exact absurd (hcore.recorded _ change hchange).2.1 (hcore.no_claim_of_fresh (le_refl _) _)
    · rw [Held, Held, (hold g hg).2.2.1]
  refine ⟨⟨?_, ?_, ?_, ?_, ?_, ?_, ?_, ?_, ?_, ?_, ?_, ?_, ?_, ?_⟩, ?_⟩
  · intro g
    dsimp only [Journal.record]
    by_cases hg : g = s.memory.frameCount
    · rw [hg, hnew, if_pos hcore.counts]
    · rw [(hold g hg).1, hcore.parents, if_neg]
      rw [← hcore.counts]
      exact hg
  · dsimp only [Journal.record]
    rw [hcount, hcore.counts]
  · intro g p hp
    dsimp only at hp ⊢
    rw [hcount]
    by_cases hg : g = s.memory.frameCount
    · rw [hg, hnew] at hp
      have := (hparent p hp).1
      omega
    · rw [(hold g hg).1] at hp
      have := hcore.older g p hp
      omega
  · intro g hg
    dsimp only at hg ⊢
    rw [hcount] at hg
    rw [(hold g (by omega)).2.2.2]
    exact hcore.fresh g (by omega)
  · intro p c hc
    dsimp only at hc ⊢
    obtain ⟨-, hc | ⟨hp, rfl⟩⟩ := (hchildren p c).mp hc
    · have hparentc := hcore.listed p c hc
      have hlt := (hcore.older c p hparentc).2
      rw [(hold c (by omega)).1, hparentc]
    · rw [hnew]
      exact hp
  · intro g p hactive hp
    dsimp only at hactive hp ⊢
    by_cases hg : g = s.memory.frameCount
    · rw [hg, hnew] at hp
      obtain ⟨hlt, hpactive⟩ := hparent p hp
      have hpne : p ≠ s.memory.frameCount := by omega
      refine ⟨by rw [(hold p hpne).2.1]; exact hpactive, ?_⟩
      exact (hchildren p g).mpr ⟨hpne, .inr ⟨hp, hg⟩⟩
    · rw [(hold g hg).2.1] at hactive
      rw [(hold g hg).1] at hp
      obtain ⟨hpactive, hmem⟩ := hcore.nested g p hactive hp
      have := hcore.older g p hp
      have hpne : p ≠ s.memory.frameCount := by omega
      exact ⟨by rw [(hold p hpne).2.1]; exact hpactive, (hchildren p g).mpr ⟨hpne, .inl hmem⟩⟩
  · intro g change hchange
    dsimp only at hchange ⊢
    by_cases hg : g = s.memory.frameCount
    · rw [hg, hnew] at hchange
      cases hchange
    · rw [(hold g hg).2.2.1] at hchange
      rw [(hold g hg).2.1, howners, hheap, hheapCount]
      exact hcore.recorded g change hchange
  · intro g k howner
    dsimp only at howner ⊢
    rw [howners] at howner
    have hg : g ≠ s.memory.frameCount := by
      rintro rfl
      exact hcore.no_claim_of_fresh (le_refl _) k howner
    rw [(hold g hg).2.2.2]
    exact hcore.claims g k howner
  · intro g k p howner hactive hp
    dsimp only at howner hactive hp ⊢
    rw [howners] at howner ⊢
    have hg : g ≠ s.memory.frameCount := by
      rintro rfl
      exact hcore.no_claim_of_fresh (le_refl _) k howner
    rw [(hold g hg).2.1] at hactive
    rw [(hold g hg).1] at hp
    exact hcore.owners g k p howner hactive hp
  · intro g k hk
    dsimp only at hk ⊢
    rw [hversions]
    by_cases hg : g = s.memory.frameCount
    · rw [hg, hnew] at hk
      cases hk
    · rw [(hold g hg).2.2.2] at hk
      exact hcore.chained g k hk
  · dsimp only
    rw [hheap]
    exact hcore.down
  · dsimp only
    rw [hversions, hmap]
    exact hcore.untouched
  · intro k top htop
    dsimp only at htop ⊢
    rw [hversions] at htop
    rw [hheap, hheapCount]
    obtain ⟨hlt, htracks⟩ := hcore.tracks k top htop
    exact ⟨hlt, htracks.congr hcore.down (fun _ _ _ => rfl) fun version _ _ g => hheld g version⟩
  · exact hmissing.trans hcore.present
  · intro k top htop
    dsimp only at htop ⊢
    rw [hversions] at htop
    rw [hheap, hmap]
    exact hs.shown k top htop

theorem Invariant.firstVersion (hs : Invariant s) {key : κ} (hkey : s.memory.versions key = none) :
    Invariant ⟨(s.memory.allocate ⟨key, none, s.memory.map key, false⟩).setVersion key
      s.memory.heapCount, s.journal⟩ := by
  have hcore := hs.core
  obtain ⟨hinitial, hwrites⟩ := hcore.untouched key hkey
  have hold : ∀ version, version < s.memory.heapCount →
      (if version = s.memory.heapCount then ⟨key, none, s.memory.map key, false⟩
        else s.memory.heap version) = s.memory.heap version := by
    intro version hlt
    rw [if_neg (by omega)]
  refine ⟨⟨hcore.parents, hcore.counts, hcore.older, hcore.fresh, hcore.listed, hcore.nested, ?_,
    hcore.claims, hcore.owners, ?_, ?_, ?_, ?_, hcore.present⟩, ?_⟩
  · intro g change hchange
    obtain ⟨hactive, howner, hsame, hlt⟩ := hcore.recorded g change hchange
    refine ⟨hactive, howner, ?_, Nat.lt_succ_of_lt hlt⟩
    dsimp only [Memory.setVersion, Memory.allocate]
    rw [hold _ hlt, hsame]
  · intro g k hk
    dsimp only [Memory.setVersion, Memory.allocate]
    split_ifs
    · exact Option.some_ne_none _
    · exact hcore.chained g k hk
  · intro version below hbelow
    dsimp only [Memory.setVersion, Memory.allocate] at hbelow
    split_ifs at hbelow
    exact hcore.down version below hbelow
  · intro k hk
    dsimp only [Memory.setVersion, Memory.allocate] at hk ⊢
    split_ifs at hk
    exact hcore.untouched k hk
  · intro k top htop
    dsimp only [Memory.setVersion, Memory.allocate] at htop ⊢
    by_cases hk : k = key
    · subst hk
      rw [if_pos rfl] at htop
      obtain rfl := Option.some.inj htop
      refine ⟨Nat.lt_succ_self _, ?_⟩
      rw [hwrites]
      refine .bottom _ _ ?_ ?_ ?_ ?_ ?_ fun _ h => by cases h
      · rw [if_pos rfl]
      · rw [if_pos rfl]
      · rw [if_pos rfl]
      · rw [if_pos rfl]
        exact hinitial
      · intro g
        constructor
        · intro h
          cases h
        · rintro ⟨change, hchange, hversion⟩
          have hlt := (hcore.recorded g change hchange).2.2.2
          omega
    · rw [if_neg hk] at htop
      obtain ⟨hlt, htracks⟩ := hcore.tracks k top htop
      refine ⟨Nat.lt_succ_of_lt hlt, ?_⟩
      exact htracks.congr hcore.down (fun version hle _ => hold version (by omega))
        fun _ _ _ _ => Iff.rfl
  · intro k top htop
    dsimp only [Memory.setVersion, Memory.allocate] at htop ⊢
    by_cases hk : k = key
    · subst hk
      rw [if_pos rfl] at htop
      obtain rfl := Option.some.inj htop
      rw [if_pos rfl]
      exact ⟨rfl, rfl⟩
    · rw [if_neg hk] at htop
      rw [hold top (hcore.tracks k top htop).1]
      exact hs.shown k top htop

theorem Core.mem_chain_iff (hs : Core s) (g frame : Nat) :
    g ∈ s.memory.chain frame ↔ Under (fun h => (s.memory.frames h).parent) g frame :=
  mem_lineage_iff (fun h p hp => (hs.older h p hp).1) (Nat.le_refl frame)

theorem Core.active_of_under (hs : Core s) {g : Nat} (hactive : s.memory.frameIsActive frame = true)
    (hg : Under (fun h => (s.memory.frames h).parent) g frame) :
    (s.memory.frames g).active = true := by
  rw [Memory.frameIsActive, List.all_eq_true] at hactive
  exact hactive g ((hs.mem_chain_iff g frame).mpr hg)

theorem Invariant.claimChain (hs : Invariant s) (frame : Nat) (key : κ)
    (hframe : frame < s.memory.frameCount) (hkey : s.memory.versions key ≠ none) :
    Invariant ⟨s.memory.claimChain frame key, s.journal⟩ := by
  have hcore := hs.core
  have hchain := fun g => hcore.mem_chain_iff g frame
  have hframes : ∀ g,
      ((s.memory.claimChain frame key).frames g).parent = (s.memory.frames g).parent ∧
      ((s.memory.claimChain frame key).frames g).active = (s.memory.frames g).active ∧
      ((s.memory.claimChain frame key).frames g).children = (s.memory.frames g).children ∧
      ((s.memory.claimChain frame key).frames g).changes = (s.memory.frames g).changes := by
    intro g
    dsimp only [Memory.claimChain, Memory.mapFrames]
    split_ifs <;> exact ⟨rfl, rfl, rfl, rfl⟩
  have hclaims : ∀ g k, k ∈ ((s.memory.claimChain frame key).frames g).claims ↔
      k ∈ (s.memory.frames g).claims ∨ k = key ∧ g ∈ s.memory.chain frame := by
    intro g k
    dsimp only [Memory.claimChain, Memory.mapFrames]
    split_ifs with hg
    · rw [List.mem_insert_iff, or_comm]
      rw [List.contains_iff_mem] at hg
      simp [hg]
    · rw [List.contains_iff_mem] at hg
      simp [hg]
  have howners : ∀ g k, g ∈ (s.memory.claimChain frame key).owners k ↔
      g ∈ s.memory.owners k ∨ k = key ∧ g ∈ s.memory.chain frame := by
    intro g k
    dsimp only [Memory.claimChain]
    split_ifs with hk
    · rw [List.mem_union_iff]
      simp [hk]
    · simp [hk]
  have hheld : ∀ g version, Held (s.memory.claimChain frame key).frames g version ↔
      Held s.memory.frames g version := by
    intro g version
    rw [Held, Held, (hframes g).2.2.2]
  refine ⟨⟨?_, hcore.counts, ?_, ?_, ?_, ?_, ?_, ?_, ?_, ?_, hcore.down, hcore.untouched, ?_,
    hcore.present⟩, hs.shown⟩
  · intro g
    rw [(hframes g).1]
    exact hcore.parents g
  · intro g p hp
    rw [(hframes g).1] at hp
    exact hcore.older g p hp
  · intro g hg
    rw [List.eq_nil_iff_forall_not_mem]
    intro k hk
    rcases (hclaims g k).mp hk with hk | ⟨-, hmem⟩
    · rw [hcore.fresh g hg] at hk
      cases hk
    · have hle := ((hchain g).mp hmem).le fun h p hp => (hcore.older h p hp).1
      exact absurd (Nat.lt_of_le_of_lt hle hframe) (Nat.not_lt.mpr hg)
  · intro p c hc
    rw [(hframes p).2.2.1] at hc
    rw [(hframes c).1]
    exact hcore.listed p c hc
  · intro g p hactive hp
    rw [(hframes g).2.1] at hactive
    rw [(hframes g).1] at hp
    rw [(hframes p).2.1, (hframes p).2.2.1]
    exact hcore.nested g p hactive hp
  · intro g change hchange
    rw [(hframes g).2.2.2] at hchange
    rw [(hframes g).2.1]
    obtain ⟨hactive, howner, hrest⟩ := hcore.recorded g change hchange
    exact ⟨hactive, (howners g _).mpr (.inl howner), hrest⟩
  · intro g k howner
    rcases (howners g k).mp howner with howner | hnew
    · exact (hclaims g k).mpr (.inl (hcore.claims g k howner))
    · exact (hclaims g k).mpr (.inr hnew)
  · intro g k p howner hactive hp
    rw [(hframes g).2.1] at hactive
    rw [(hframes g).1] at hp
    rcases (howners g k).mp howner with howner | ⟨hk, hmem⟩
    · exact (howners p k).mpr (.inl (hcore.owners g k p howner hactive hp))
    · refine (howners p k).mpr (.inr ⟨hk, ?_⟩)
      exact (hchain p).mpr (((hchain g).mp hmem).outward hp)
  · intro g k hk
    rcases (hclaims g k).mp hk with hk | ⟨rfl, -⟩
    · exact hcore.chained g k hk
    · exact hkey
  · intro k top htop
    obtain ⟨hlt, htracks⟩ := hcore.tracks k top htop
    exact ⟨hlt, htracks.congr hcore.down (fun _ _ _ => rfl) fun version _ _ g => hheld g version⟩

theorem Invariant.claimProjection (hs : Invariant s) (frame : Nat) (key : κ)
    (hframe : frame < s.memory.frameCount) :
    Invariant ⟨s.memory.claimProjection frame key, s.journal⟩ := by
  cases hkey : s.memory.versions key with
  | some top =>
    have hclaimed := hs.claimChain frame key hframe (by rw [hkey]; exact Option.some_ne_none top)
    rw [Memory.claimProjection, hkey]
    exact hclaimed
  | none =>
    have hfirst := hs.firstVersion hkey
    have hclaimed := hfirst.claimChain frame key hframe
      (by dsimp only [Memory.setVersion]; rw [if_pos rfl]; exact Option.some_ne_none _)
    rw [Memory.claimProjection, hkey]
    exact hclaimed

theorem writesTo_wrote (journal : Journal κ ν) (frame : Nat) (key : κ) (value : ν) (k : κ) :
    (journal.record (.wrote frame key value)).writesTo k =
      if k = key then ⟨key, value, some frame⟩ :: journal.writesTo k else journal.writesTo k := by
  dsimp only [Journal.record, Journal.writesTo]
  rw [List.filter_append]
  by_cases hk : k = key
  · rw [if_pos hk, List.filter_cons_of_pos (by simpa using hk.symm), List.filter_nil,
      List.reverse_append, List.reverse_singleton, List.singleton_append]
  · rw [if_neg hk, List.filter_cons_of_neg (by simpa using fun h => hk h.symm), List.filter_nil,
      List.append_nil]

theorem Invariant.pushVersion (hs : Invariant s) {key : κ} (value : ν)
    (hactive : (s.memory.frames frame).active = true) (howner : frame ∈ s.memory.owners key) :
    Invariant ⟨s.memory.pushVersion frame key value,
      s.journal.record (.wrote frame key value)⟩ := by
  have hcore := hs.core
  have hwrites := writesTo_wrote s.journal frame key value
  obtain ⟨top, htop⟩ := Option.ne_none_iff_exists'.mp
    (hcore.chained frame key (hcore.claims frame key howner))
  obtain ⟨hlt, htracks⟩ := hcore.tracks key top htop
  have hframes : ∀ g,
      ((s.memory.pushVersion frame key value).frames g).parent = (s.memory.frames g).parent ∧
      ((s.memory.pushVersion frame key value).frames g).active = (s.memory.frames g).active ∧
      ((s.memory.pushVersion frame key value).frames g).children = (s.memory.frames g).children ∧
      ((s.memory.pushVersion frame key value).frames g).claims = (s.memory.frames g).claims := by
    intro g
    dsimp only [Memory.pushVersion, Memory.onFrame, Memory.mapFrames, Memory.setVersion,
      Memory.allocate]
    split_ifs <;> exact ⟨rfl, rfl, rfl, rfl⟩
  have hchanges : ∀ g change, change ∈ ((s.memory.pushVersion frame key value).frames g).changes ↔
      change ∈ (s.memory.frames g).changes ∨
        g = frame ∧ change = ⟨s.memory.projectionSequence + 1, key, s.memory.heapCount⟩ := by
    intro g change
    dsimp only [Memory.pushVersion, Memory.onFrame, Memory.mapFrames, Memory.setVersion,
      Memory.allocate]
    split_ifs with hg
    · simp [hg]
    · simp [hg]
  have hnew : (s.memory.pushVersion frame key value).heap s.memory.heapCount =
      ⟨key, some top, some value, false⟩ := by
    dsimp only [Memory.pushVersion, Memory.onFrame, Memory.mapFrames, Memory.setVersion,
      Memory.allocate]
    rw [if_pos rfl, htop]
  have hold : ∀ version, version ≠ s.memory.heapCount →
      (s.memory.pushVersion frame key value).heap version = s.memory.heap version := by
    intro version hne
    dsimp only [Memory.pushVersion, Memory.onFrame, Memory.mapFrames, Memory.setVersion,
      Memory.allocate]
    rw [if_neg hne]
  have hversions : ∀ k, (s.memory.pushVersion frame key value).versions k =
      if k = key then some s.memory.heapCount else s.memory.versions k := fun _ => rfl
  have hmap : ∀ k, (s.memory.pushVersion frame key value).map k =
      if k = key then some value else s.memory.map k := fun _ => rfl
  have hheld : ∀ g version, version < s.memory.heapCount →
      (Held (s.memory.pushVersion frame key value).frames g version ↔
        Held s.memory.frames g version) := by
    intro g version hversion
    constructor
    · rintro ⟨change, hchange, rfl⟩
      rcases (hchanges g change).mp hchange with hchange | ⟨-, rfl⟩
      · exact ⟨change, hchange, rfl⟩
      · exact absurd hversion (Nat.lt_irrefl _)
    · rintro ⟨change, hchange, rfl⟩
      exact ⟨change, (hchanges g change).mpr (.inl hchange), rfl⟩
  have hkept : ∀ k older, s.memory.versions k = some older →
      Tracks (s.memory.pushVersion frame key value).heap
        (Held (s.memory.pushVersion frame key value).frames) k (s.journal.initial k) older
        (s.journal.writesTo k) := by
    intro k older holder
    obtain ⟨hbound, hstands⟩ := hcore.tracks k older holder
    exact hstands.congr hcore.down (fun version hle _ => hold version (by omega))
      fun version hle _ g => hheld g version (by omega)
  refine ⟨⟨?_, hcore.counts, ?_, ?_, ?_, ?_, ?_, ?_, ?_, ?_, ?_, ?_, ?_, hcore.present⟩, ?_⟩
  · intro g
    rw [(hframes g).1]
    exact hcore.parents g
  · intro g p hp
    rw [(hframes g).1] at hp
    exact hcore.older g p hp
  · intro g hg
    rw [(hframes g).2.2.2]
    exact hcore.fresh g hg
  · intro p c hc
    rw [(hframes p).2.2.1] at hc
    rw [(hframes c).1]
    exact hcore.listed p c hc
  · intro g p hg hp
    rw [(hframes g).2.1] at hg
    rw [(hframes g).1] at hp
    rw [(hframes p).2.1, (hframes p).2.2.1]
    exact hcore.nested g p hg hp
  · intro g change hchange
    rw [(hframes g).2.1]
    rcases (hchanges g change).mp hchange with hchange | ⟨rfl, rfl⟩
    · obtain ⟨hg, hgowner, hsame, hbound⟩ := hcore.recorded g change hchange
      refine ⟨hg, hgowner, ?_, Nat.lt_succ_of_lt hbound⟩
      rw [hold _ (by omega)]
      exact hsame
    · refine ⟨hactive, howner, ?_, Nat.lt_succ_self _⟩
      rw [hnew]
  · intro g k hg
    rw [(hframes g).2.2.2]
    exact hcore.claims g k hg
  · intro g k p hg hgactive hp
    rw [(hframes g).2.1] at hgactive
    rw [(hframes g).1] at hp
    exact hcore.owners g k p hg hgactive hp
  · intro g k hk
    rw [(hframes g).2.2.2] at hk
    rw [hversions]
    split_ifs
    · exact Option.some_ne_none _
    · exact hcore.chained g k hk
  · intro version below hbelow
    by_cases hversion : version = s.memory.heapCount
    · rw [hversion, hnew] at hbelow
      obtain rfl := Option.some.inj hbelow
      rw [hversion]
      exact hlt
    · rw [hold version hversion] at hbelow
      exact hcore.down version below hbelow
  · intro k hk
    rw [hversions] at hk
    split_ifs at hk with hne
    rw [hmap, hwrites, if_neg hne, if_neg hne]
    exact hcore.untouched k hk
  · intro k found hfound
    rw [hversions] at hfound
    rw [hwrites]
    split_ifs at hfound ⊢ with hk
    · obtain rfl := Option.some.inj hfound
      refine ⟨Nat.lt_succ_self _, ?_⟩
      rw [hk]
      refine .live _ top _ _ ?_ ?_ ?_ ?_ ?_ (hkept key top htop)
      · rw [hnew]
      · rw [hnew]
      · rw [hnew]
      · rw [hnew]
      · intro g
        constructor
        · intro hg
          obtain rfl := Option.some.inj hg
          exact ⟨_, (hchanges _ _).mpr (.inr ⟨rfl, rfl⟩), rfl⟩
        · rintro ⟨change, hchange, hversion⟩
          rcases (hchanges g change).mp hchange with hchange | ⟨rfl, -⟩
          · have hbound := (hcore.recorded g change hchange).2.2.2
            omega
          · rfl
    · exact ⟨Nat.lt_succ_of_lt (hcore.tracks k found hfound).1, hkept k found hfound⟩
  · intro k found hfound
    rw [hversions] at hfound
    rw [hmap]
    split_ifs at hfound ⊢ with hk
    · obtain rfl := Option.some.inj hfound
      rw [hnew]
      exact ⟨rfl, rfl⟩
    · have hbound := (hcore.tracks k found hfound).1
      rw [hold found (by omega)]
      exact hs.shown k found hfound

theorem Invariant.writeProjection (hs : Invariant s) (key : κ) (value : ν)
    (hframe : frame < s.memory.frameCount) (hactive : (s.memory.frames frame).active = true) :
    Invariant ⟨s.memory.writeProjection frame key value,
      s.journal.record (.wrote frame key value)⟩ := by
  have hclaimed := hs.claimProjection frame key hframe
  have hmem : frame ∈ s.memory.chain frame := (hs.core.mem_chain_iff frame frame).mpr .refl
  refine hclaimed.pushVersion value ?_ ?_
  · have hsame : ((s.memory.claimChain frame key).frames frame).active =
        (s.memory.frames frame).active := by
      dsimp only [Memory.claimChain, Memory.mapFrames]
      split_ifs <;> rfl
    rw [← hactive, ← hsame]
    cases hkey : s.memory.versions key with
    | none => rw [Memory.claimProjection, hkey]; rfl
    | some top => rw [Memory.claimProjection, hkey]
  · have hchain : frame ∈ (s.memory.claimChain frame key).owners key := by
      dsimp only [Memory.claimChain]
      rw [if_pos rfl]
      exact List.mem_union_iff.mpr (.inr hmem)
    cases hkey : s.memory.versions key with
    | none => rw [Memory.claimProjection, hkey]; exact hchain
    | some top => rw [Memory.claimProjection, hkey]; exact hchain

end Stynx.MemoryFramesInvariant
