import Mathlib.Data.List.Nodup
import Stynx.ExceptFolds
import Stynx.SoftDeleteReferences
import Stynx.Walks

/-!
# The plan of a soft delete, and its execution

The plan goes through the rows that reference the root by cascade keys, once for
each path to them. The execution goes the same way over rows that it archives.
-/

namespace Stynx.SoftDelete

open Relation (ReflTransGen)
open ExceptFolds
open Walks
open scoped List

variable {V : Type} [DecidableEq V]

section

variable (inst : Instance V)

def cascadeChildren (db : Db V) (row : RowId V) : List (RowId V) :=
  (cascadeEntries inst row.table).flatMap fun entry => listChildIds inst db entry row.id

def CascadesTo (db : Db V) (parent child : RowId V) : Prop :=
  ∃ key ∈ inst.registry, key.behavior = .cascade ∧ key.references db child parent = true

def IsNulled (table : TableName) (name : String) : Prop :=
  ∃ key ∈ inst.registry, key.behavior = .hide ∧ key.child = table ∧
    ∃ pair ∈ key.columns, pair.1 = name

/-- Keys that can be followed by their first column, and columns that no hide key sets to null. -/
structure Followable (db : Db V) : Prop where
  /-- The first column names the parent. -/
  names : ∀ key ∈ inst.registry, key.behavior ≠ .hide → NamesParent db key
  /-- The columns of the child are not set to null. -/
  child : ∀ key ∈ inst.registry, key.behavior ≠ .hide → ∀ pair ∈ key.columns,
    ¬IsNulled inst key.child pair.1
  /-- The columns of the parent are not set to null. -/
  parent : ∀ key ∈ inst.registry, key.behavior ≠ .hide → ∀ pair ∈ key.columns,
    ¬IsNulled inst key.parent pair.2

def SameRow (table : TableName) (old new : Columns V) : Prop :=
  ∀ name, ¬IsNulled inst table name → new name = old name

/-- What a soft delete has done so far. -/
structure Moved (start : Db V) (deletedAt : Int) (state : SoftDeleteState V) : Prop where
  /-- Each row is archived once. -/
  nodup : state.cascaded.Nodup
  archived : ∀ row ∈ state.cascaded, state.db.live row = none ∧ inst.mirrors row.table = true ∧
    ∃ columns, start.live row = some columns ∧
      ∃ entry : ArchiveEntry V, entry.deletedAt = deletedAt ∧
        SameRow inst row.table columns entry.columns ∧
        state.db.archive row = entry :: start.archive row
  /-- The other rows stay. -/
  kept : ∀ row ∉ state.cascaded, state.db.archive row = start.archive row ∧
    (start.live row = none → state.db.live row = none) ∧
    ∀ columns, start.live row = some columns →
      ∃ columns', state.db.live row = some columns' ∧ SameRow inst row.table columns columns'

end

section

variable {inst : Instance V} {start : Db V} {deletedAt : Int} {state : SoftDeleteState V}

omit [DecidableEq V] in
theorem mem_cascadeEntries {table : TableName} {entry : RegistryEntry} :
    entry ∈ cascadeEntries inst table ↔
      ∃ key ∈ inst.registry, key.parent = table ∧ key.behavior = .cascade ∧ key.entry = entry := by
  simp only [cascadeEntries, loadRegistryByParent, List.mem_filter, List.mem_map, decide_eq_true_eq]
  constructor
  · intro h
    obtain ⟨⟨key, ⟨hkey, htable⟩, rfl⟩, hbehavior⟩ := h
    exact ⟨key, hkey, htable, hbehavior, rfl⟩
  · intro h
    obtain ⟨key, hkey, htable, hbehavior, rfl⟩ := h
    exact ⟨⟨key, ⟨hkey, htable⟩, rfl⟩, hbehavior⟩

omit [DecidableEq V] in
theorem Moved.nothing (inst : Instance V) (start : Db V) (deletedAt : Int) :
    Moved inst start deletedAt ⟨start, []⟩ where
  nodup := List.nodup_nil
  archived _ hrow := absurd hrow List.not_mem_nil
  kept _ _ := ⟨rfl, id, fun columns hcolumns => ⟨columns, hcolumns, fun _ _ => rfl⟩⟩

variable {row : RowId V} {key : ForeignKey}

omit [DecidableEq V] in
theorem SameRow.column {old new : Columns V} (h : SameRow inst row.table old new) {name : String}
    (hname : ¬IsNulled inst row.table name) :
    row.column new name = row.column old name := by
  rw [RowId.column, RowId.column, h name hname]

variable {child parent : RowId V}

theorem fits_congr (hplain : Followable inst start) (hkey : key ∈ inst.registry)
    (hbehavior : key.behavior ≠ .hide) (hchild : child.table = key.child)
    (hparent : parent.table = key.parent)
    {childColumns childColumns' parentColumns parentColumns' : Columns V}
    (hsame : SameRow inst child.table childColumns childColumns')
    (hsame' : SameRow inst parent.table parentColumns parentColumns') :
    key.fits child childColumns' parent parentColumns' =
      key.fits child childColumns parent parentColumns := by
  rw [Bool.eq_iff_iff, fits_iff, fits_iff]
  refine forall₂_congr fun pair hpair => ?_
  have hfirst : ¬IsNulled inst child.table pair.1 := hchild ▸ hplain.child key hkey hbehavior pair hpair
  have hsecond : ¬IsNulled inst parent.table pair.2 :=
    hparent ▸ hplain.parent key hkey hbehavior pair hpair
  rw [hsame.column hfirst, hsame'.column hsecond]

omit [DecidableEq V] in
theorem Moved.live_eq_some (h : Moved inst start deletedAt state) {columns' : Columns V}
    (hlive : state.db.live row = some columns') :
    row ∉ state.cascaded ∧ ∃ columns, start.live row = some columns ∧
      SameRow inst row.table columns columns' := by
  have hrow : row ∉ state.cascaded := by
    intro hmem
    rw [(h.archived row hmem).1] at hlive
    cases hlive
  refine ⟨hrow, ?_⟩
  obtain ⟨-, hnone, hsome⟩ := h.kept row hrow
  cases hstart : start.live row with
  | none =>
    rw [hnone hstart] at hlive
    cases hlive
  | some columns =>
    obtain ⟨kept, hkept, hsame⟩ := hsome columns hstart
    obtain rfl : kept = columns' := Option.some.inj (hkept.symm.trans hlive)
    exact ⟨columns, rfl, hsame⟩

theorem Moved.references_iff (hplain : Followable inst start) (h : Moved inst start deletedAt state)
    (hkey : key ∈ inst.registry) (hbehavior : key.behavior ≠ .hide) :
    key.references state.db child parent = true ↔
      key.references start child parent = true ∧ child ∉ state.cascaded ∧
        parent ∉ state.cascaded := by
  rw [SoftDelete.references_iff, SoftDelete.references_iff]
  constructor
  · intro hnow
    obtain ⟨hchild, hparent, childColumns', hlive, parentColumns', hlive', hfits⟩ := hnow
    obtain ⟨hmem, childColumns, hstart, hsame⟩ := h.live_eq_some hlive
    obtain ⟨hmem', parentColumns, hstart', hsame'⟩ := h.live_eq_some hlive'
    rw [fits_congr hplain hkey hbehavior hchild hparent hsame hsame'] at hfits
    exact ⟨⟨hchild, hparent, childColumns, hstart, parentColumns, hstart', hfits⟩, hmem, hmem'⟩
  · intro hthen
    obtain ⟨⟨hchild, hparent, childColumns, hstart, parentColumns, hstart', hfits⟩, hmem, hmem'⟩ :=
      hthen
    obtain ⟨childColumns', hlive, hsame⟩ := (h.kept child hmem).2.2 childColumns hstart
    obtain ⟨parentColumns', hlive', hsame'⟩ := (h.kept parent hmem').2.2 parentColumns hstart'
    rw [← fits_congr hplain hkey hbehavior hchild hparent hsame hsame'] at hfits
    exact ⟨hchild, hparent, childColumns', hlive, parentColumns', hlive', hfits⟩

theorem Moved.childRows_eq (h : Moved inst start deletedAt state)
    (hkept : ¬IsNulled inst key.child key.first.1) (id : V) :
    childRows inst state.db key.entry id =
      (childRows inst start key.entry id).filter fun row => row ∉ state.cascaded := by
  rw [childRows, childRows, List.filter_filter]
  refine List.filter_congr fun row _ => ?_
  rw [Bool.eq_iff_iff]
  simp only [Bool.and_eq_true, decide_eq_true_eq, Option.any_eq_true]
  have hcolumn : ∀ {old new : Columns V}, row.table = key.child →
      SameRow inst row.table old new →
      row.column new key.entry.childColumn = row.column old key.entry.childColumn := by
    intro old new htable hsame
    refine hsame.column ?_
    rw [htable]
    exact hkept
  constructor
  · intro hnow
    obtain ⟨htable, columns', hlive, hvalue⟩ := hnow
    obtain ⟨hmem, columns, hstart, hsame⟩ := h.live_eq_some hlive
    rw [hcolumn htable hsame] at hvalue
    exact ⟨hmem, htable, columns, hstart, hvalue⟩
  · intro hthen
    obtain ⟨hmem, htable, columns, hstart, hvalue⟩ := hthen
    obtain ⟨columns', hlive, hsame⟩ := (h.kept row hmem).2.2 columns hstart
    rw [← hcolumn htable hsame] at hvalue
    exact ⟨htable, columns', hlive, hvalue⟩

theorem Followable.first_kept (hplain : Followable inst start) (hkey : key ∈ inst.registry)
    (hbehavior : key.behavior ≠ .hide) :
    ¬IsNulled inst key.child key.first.1 :=
  hplain.child key hkey hbehavior key.first (.head _)

theorem Moved.archiveMove (h : Moved inst start deletedAt state) {columns : Columns V}
    (hlive : state.db.live row = some columns) (hmirror : inst.mirrors row.table = true) :
    Moved inst start deletedAt
      ⟨archiveMove inst state.db row columns deletedAt, state.cascaded ++ [row]⟩ := by
  obtain ⟨hrow, old, hstart, hsame⟩ := h.live_eq_some hlive
  refine ⟨?_, ?_, ?_⟩
  · rw [List.nodup_append]
    refine ⟨h.nodup, List.nodup_singleton _, ?_⟩
    intro other hother last hlast heq
    rw [List.mem_singleton.mp hlast] at heq
    exact hrow (heq ▸ hother)
  · intro other hother
    by_cases heq : other = row
    · subst heq
      refine ⟨by simp [SoftDelete.archiveMove], hmirror, old, hstart,
        ⟨state.db.nextArchiveId other.table, columns, deletedAt⟩, rfl, hsame, ?_⟩
      simp [SoftDelete.archiveMove, (h.kept other hrow).1]
    · have hmem : other ∈ state.cascaded := by
        rcases List.mem_append.mp hother with hmem | hlast
        · exact hmem
        · exact absurd (List.mem_singleton.mp hlast) heq
      obtain ⟨hnone, hmirror', columns', hstart', entry, hat, hentry, harchive⟩ :=
        h.archived other hmem
      refine ⟨by simp [SoftDelete.archiveMove, hnone], hmirror', columns', hstart', entry, hat,
        hentry, ?_⟩
      simp [SoftDelete.archiveMove, heq, harchive]
  · intro other hother
    have hmem : other ∉ state.cascaded := fun hmem => hother (List.mem_append_left _ hmem)
    have heq : other ≠ row := fun heq => hother (by simp [heq])
    obtain ⟨harchive, hnone, hsome⟩ := h.kept other hmem
    refine ⟨by simp [SoftDelete.archiveMove, heq, harchive], ?_, ?_⟩
    · intro hstart'
      simp [SoftDelete.archiveMove, hnone hstart']
    · intro columns' hstart'
      obtain ⟨kept, hkept, hsame'⟩ := hsome columns' hstart'
      refine ⟨setNull inst state.db row other kept, by simp [SoftDelete.archiveMove, heq, hkept], ?_⟩
      intro name hname
      rw [← hsame' name hname, setNull, if_neg]
      intro hnulled
      obtain ⟨key, hkey, hnull⟩ := List.any_eq_true.mp hnulled
      simp only [Bool.and_eq_true, decide_eq_true_eq, List.any_eq_true] at hnull
      obtain ⟨⟨hbehavior, hreferences⟩, pair, hpair, hcolumn⟩ := hnull
      have htable := (SoftDelete.references_iff.mp hreferences).1
      exact hname ⟨key, hkey, hbehavior, htable.symm, pair, hpair, hcolumn⟩

end

section

variable {inst : Instance V} {maxCascadeDepth maxCascadeRows : Nat} {db : Db V}

variable {remaining : Nat} {plan : CascadePlan}

theorem planChildren_totalRows {children : List (RowId V)}
    (ih : ∀ child plan, buildCascadePlan inst maxCascadeDepth maxCascadeRows db remaining child =
      .ok plan → Complete (cascadeChildren inst db) remaining child ∧
        plan.totalRows = (walk (cascadeChildren inst db) remaining child).length)
    {plan' : CascadePlan}
    (h : children.foldlM (fun (plan : CascadePlan) child => do
        let childPlan ← buildCascadePlan inst maxCascadeDepth maxCascadeRows db remaining child
        .ok ⟨plan.steps ++ childPlan.steps, plan.totalRows + (childPlan.totalRows - 1),
          max plan.maxDepth childPlan.maxDepth⟩) plan = .ok plan') :
    (∀ child ∈ children, Complete (cascadeChildren inst db) remaining child) ∧
      plan'.totalRows + children.length =
        plan.totalRows + (children.flatMap (walk (cascadeChildren inst db) remaining)).length := by
  induction children generalizing plan with
  | nil =>
    cases h
    exact ⟨fun _ hchild => absurd hchild List.not_mem_nil, rfl⟩
  | cons child rest ihList =>
    rw [List.foldlM_cons] at h
    obtain ⟨next, hnext, hrest⟩ := bind_eq_ok.mp h
    obtain ⟨childPlan, hchild, hadd⟩ := bind_eq_ok.mp hnext
    obtain ⟨hcomplete, htotal⟩ := ih child childPlan hchild
    obtain ⟨hall, hsum⟩ := ihList hrest
    have hpos := hcomplete.length_pos
    cases hadd
    refine ⟨?_, ?_⟩
    · intro other hother
      rcases List.mem_cons.mp hother with rfl | hother
      · exact hcomplete
      · exact hall other hother
    · rw [List.flatMap_cons, List.length_append, List.length_cons]
      dsimp only at hsum
      omega

theorem buildCascadePlan_totalRows {row : RowId V}
    (h : buildCascadePlan inst maxCascadeDepth maxCascadeRows db remaining row = .ok plan) :
    Complete (cascadeChildren inst db) remaining row ∧
      plan.totalRows = (walk (cascadeChildren inst db) remaining row).length ∧
      plan.totalRows ≤ maxCascadeRows := by
  induction remaining generalizing row plan with
  | zero => cases h
  | succ remaining ih =>
    rw [buildCascadePlan] at h
    obtain ⟨counted, hloop, hlimit⟩ := bind_eq_ok.mp h
    have hentries : ∀ (entries : List RegistryEntry) (first last : CascadePlan),
        entries.foldlM (fun (plan : CascadePlan) entry =>
          let children := listChildIds inst db entry row.id
          if children.length = 0 then .ok plan
          else
            children.foldlM (fun (plan : CascadePlan) child => do
              let childPlan ← buildCascadePlan inst maxCascadeDepth maxCascadeRows db remaining child
              .ok ⟨plan.steps ++ childPlan.steps, plan.totalRows + (childPlan.totalRows - 1),
                max plan.maxDepth childPlan.maxDepth⟩)
              ⟨plan.steps ++ [⟨entry.child, children.length⟩], plan.totalRows + children.length,
                plan.maxDepth⟩) first = .ok last →
        (∀ child ∈ entries.flatMap fun entry => listChildIds inst db entry row.id,
          Complete (cascadeChildren inst db) remaining child) ∧
          last.totalRows = first.totalRows + ((entries.flatMap fun entry =>
            listChildIds inst db entry row.id).flatMap
              (walk (cascadeChildren inst db) remaining)).length := by
      intro entries
      induction entries with
      | nil =>
        intro first last hnil
        cases hnil
        exact ⟨fun _ hchild => absurd hchild List.not_mem_nil, rfl⟩
      | cons entry rest ihList =>
        intro first last hcons
        rw [List.foldlM_cons] at hcons
        obtain ⟨middle, hmiddle, hrest⟩ := bind_eq_ok.mp hcons
        obtain ⟨hall, hsum⟩ := ihList middle last hrest
        dsimp only at hmiddle
        split at hmiddle
        · rename_i hnone
          cases hmiddle
          rw [List.flatMap_cons, List.length_eq_zero_iff.mp hnone, List.nil_append]
          exact ⟨hall, hsum⟩
        · obtain ⟨hchildren, hcount⟩ := planChildren_totalRows
            (fun child plan hplan => ⟨(ih hplan).1, (ih hplan).2.1⟩) hmiddle
          dsimp only at hcount
          rw [List.flatMap_cons, List.flatMap_append, List.length_append]
          refine ⟨?_, by omega⟩
          intro child hchild
          rcases List.mem_append.mp hchild with hown | hother
          · exact hchildren child hown
          · exact hall child hother
    obtain ⟨hall, htotal⟩ := hentries _ _ _ hloop
    split at hlimit
    · cases hlimit
    · rename_i hwithin
      cases hlimit
      refine ⟨hall, ?_, Nat.le_of_not_lt hwithin⟩
      rw [htotal, walk, List.length_cons, Nat.add_comm]
      rfl

end

section

variable {inst : Instance V} {maxCascadeDepth maxCascadeRows : Nat} {start : Db V} {deletedAt : Int}

variable {row : RowId V} {state state' : SoftDeleteState V}

theorem describeBlockingChildren_eq_nil {db : Db V} :
    describeBlockingChildren inst db row = [] ↔
      ∀ key ∈ inst.registry, key.parent = row.table → key.behavior = .block →
        childRows inst db key.entry row.id = [] := by
  simp only [describeBlockingChildren, loadRegistryByParent, List.filterMap_eq_nil_iff,
    List.mem_filter, List.mem_map, decide_eq_true_eq, ite_eq_left_iff, reduceCtorEq, imp_false,
    not_not, List.length_eq_zero_iff]
  constructor
  · intro h key hkey hparent hbehavior
    exact h key.entry ⟨⟨key, ⟨hkey, hparent⟩, rfl⟩, hbehavior⟩
  · intro h entry hentry
    obtain ⟨⟨key, ⟨hkey, hparent⟩, rfl⟩, hbehavior⟩ := hentry
    exact h key hkey hparent hbehavior

theorem archiveRow_eq_ok :
    archiveRow inst deletedAt row state = .ok state' ↔
      describeBlockingChildren inst state.db row = [] ∧ isReferenced inst state.db row = false ∧
        ∃ columns, state.db.live row = some columns ∧
          state' = ⟨archiveMove inst state.db row columns deletedAt, state.cascaded ++ [row]⟩ := by
  rw [archiveRow]
  split
  · rename_i hblocked
    constructor
    · intro h
      cases h
    · intro h
      rw [h.1] at hblocked
      cases hblocked
  · rename_i hfree
    have hnone : describeBlockingChildren inst state.db row = [] :=
      List.length_eq_zero_iff.mp (Nat.eq_zero_of_not_pos hfree)
    rw [and_iff_right hnone]
    cases hlive : state.db.live row with
    | none =>
      constructor
      · intro h
        cases h
      · rintro ⟨-, columns, hcolumns, -⟩
        cases hcolumns
    | some columns =>
      dsimp only
      split
      · rename_i hreferenced
        constructor
        · intro h
          cases h
        · rintro ⟨hfalse, -⟩
          rw [hreferenced] at hfalse
          cases hfalse
      · rename_i hunreferenced
        rw [and_iff_right (by simpa using hunreferenced)]
        constructor
        · intro h
          cases h
          exact ⟨columns, rfl, rfl⟩
        · rintro ⟨columns', hcolumns', rfl⟩
          cases hcolumns'
          rfl

variable {remaining : Nat}

theorem softDeleteByReference_preserves {P : SoftDeleteState V → Prop} {Q : RowId V → Prop}
    (hlist : ∀ state row, P state → Q row → ∀ entry ∈ cascadeEntries inst row.table,
      ∀ child ∈ listChildIds inst state.db entry row.id, Q child)
    (hstep : ∀ state state' row, P state → Q row → inst.mirrors row.table = true →
      archiveRow inst deletedAt row state = .ok state' → P state')
    (hstate : P state) (hrow : Q row)
    (h : softDeleteByReference inst maxCascadeDepth maxCascadeRows deletedAt remaining state row =
      .ok state') : P state' := by
  induction remaining generalizing state state' row with
  | zero => cases h
  | succ remaining ih =>
    rw [softDeleteByReference] at h
    split at h
    · cases h
    · rename_i hmirror
      obtain ⟨loop, hloop, harchive⟩ := bind_eq_ok.mp h
      refine hstep loop.1 state' row ?_ hrow (by simpa using hmirror) harchive
      refine foldlM_preserves (P := fun loop : SoftDeleteState V × Nat => P loop.1) ?_ hloop hstate
      intro entry hentry first last hfirst hlast
      dsimp only at hlast
      split at hlast
      · cases hlast
      · obtain ⟨after, hchildren, hafter⟩ := bind_eq_ok.mp hlast
        cases hafter
        refine foldlM_preserves (fun child hchild middle middle' hP hmiddle => ?_) hchildren hfirst
        exact ih hP (hlist first.1 row hfirst hrow entry hentry child hchild) hmiddle

theorem softDeleteByReference_moved (hstate : Moved inst start deletedAt state)
    (h : softDeleteByReference inst maxCascadeDepth maxCascadeRows deletedAt remaining state row =
      .ok state') : Moved inst start deletedAt state' := by
  refine softDeleteByReference_preserves (fun _ _ _ _ _ _ _ _ => trivial) ?_ hstate trivial h
  intro first last other hfirst _ hmirror harchive
  obtain ⟨-, -, columns, hlive, rfl⟩ := archiveRow_eq_ok.mp harchive
  exact hfirst.archiveMove hlive hmirror

end

section

variable {inst : Instance V} {maxCascadeDepth maxCascadeRows : Nat} {start : Db V} {deletedAt : Int}

variable {key : ForeignKey} {parent child row : RowId V} {first second : List (RowId V)}
  {state : SoftDeleteState V}

theorem Followable.mem_childRows_iff (hintact : Intact inst start) (hplain : Followable inst start)
    (hkey : key ∈ inst.registry) (hbehavior : key.behavior ≠ .hide)
    (htable : key.parent = parent.table) (hlive : (start.live parent).isSome) :
    child ∈ childRows inst start key.entry parent.id ↔ key.references start child parent = true := by
  rw [mem_childRows]
  constructor
  · intro hrow
    obtain ⟨-, hchild, columns, hcolumns, hfirst⟩ := hrow
    exact ((hplain.names key hkey hbehavior).first_iff hintact hkey htable.symm hlive hchild
      hcolumns).mp hfirst
  · intro hreferences
    obtain ⟨hchild, -, columns, hcolumns, -⟩ := references_iff.mp hreferences
    refine ⟨hintact.scanned child (by simp [hcolumns]), hchild, columns, hcolumns, ?_⟩
    exact ((hplain.names key hkey hbehavior).first_iff hintact hkey htable.symm hlive hchild
      hcolumns).mpr hreferences

theorem cascade_ne_hide (h : key.behavior = .cascade) : key.behavior ≠ .hide := by
  rw [h]
  decide

theorem block_ne_hide (h : key.behavior = .block) : key.behavior ≠ .hide := by
  rw [h]
  decide

theorem Followable.mem_cascadeChildren_iff (hintact : Intact inst start)
    (hplain : Followable inst start) (hlive : (start.live parent).isSome) :
    child ∈ cascadeChildren inst start parent ↔ CascadesTo inst start parent child := by
  rw [cascadeChildren, List.mem_flatMap]
  constructor
  · intro h
    obtain ⟨entry, hentry, hchild⟩ := h
    obtain ⟨key, hkey, htable, hbehavior, rfl⟩ := mem_cascadeEntries.mp hentry
    exact ⟨key, hkey, hbehavior, (hplain.mem_childRows_iff hintact hkey (cascade_ne_hide hbehavior)
      htable hlive).mp hchild⟩
  · intro h
    obtain ⟨key, hkey, hbehavior, hreferences⟩ := h
    have htable := (references_iff.mp hreferences).2.1.symm
    exact ⟨key.entry, mem_cascadeEntries.mpr ⟨key, hkey, htable, hbehavior, rfl⟩,
      (hplain.mem_childRows_iff hintact hkey (cascade_ne_hide hbehavior) htable hlive).mpr
        hreferences⟩

variable {db : Db V} {root : RowId V} {state' : SoftDeleteState V} {rows : List (RowId V)}
  {remaining : Nat}

theorem live_of_mem_cascadeChildren (h : child ∈ cascadeChildren inst db parent) :
    (db.live child).isSome := by
  obtain ⟨entry, -, hchild⟩ := List.mem_flatMap.mp h
  obtain ⟨-, -, columns, hcolumns, -⟩ := mem_childRows.mp hchild
  simp [hcolumns]

theorem live_of_reached (hroot : (db.live root).isSome)
    (h : ReflTransGen (fun parent child => child ∈ cascadeChildren inst db parent) root row) :
    (db.live row).isSome := by
  cases h with
  | refl => exact hroot
  | tail _ hlast => exact live_of_mem_cascadeChildren hlast

theorem Followable.reached_iff (hintact : Intact inst start) (hplain : Followable inst start)
    (hroot : (start.live root).isSome) :
    ReflTransGen (CascadesTo inst start) root row ↔
      ReflTransGen (fun parent child => child ∈ cascadeChildren inst start parent) root row := by
  constructor
  · intro h
    induction h with
    | refl => exact .refl
    | tail _ hlast ih =>
      exact ih.tail ((hplain.mem_cascadeChildren_iff hintact (live_of_reached hroot ih)).mpr hlast)
  · intro h
    induction h with
    | refl => exact .refl
    | tail hfirst hlast ih =>
      exact ih.tail ((hplain.mem_cascadeChildren_iff hintact (live_of_reached hroot hfirst)).mp hlast)

/-- A walk that has not been begun: it visits each row once, and no archived row. -/
structure Ready (inst : Instance V) (start : Db V) (deletedAt : Int) (rows : List (RowId V))
    (state : SoftDeleteState V) : Prop where
  moved : Moved inst start deletedAt state
  nodup : rows.Nodup
  apart : ∀ row ∈ rows, row ∉ state.cascaded

/-- The walk has been made. -/
structure Done (inst : Instance V) (start : Db V) (deletedAt : Int) (rows : List (RowId V))
    (state state' : SoftDeleteState V) : Prop where
  moved : Moved inst start deletedAt state'
  cascaded : ∀ row, row ∈ state'.cascaded ↔ row ∈ state.cascaded ∨ row ∈ rows

omit [DecidableEq V] in
theorem Ready.left (h : Ready inst start deletedAt (first ++ second) state) :
    Ready inst start deletedAt first state :=
  ⟨h.moved, (List.nodup_append.mp h.nodup).1, fun row hrow => h.apart row
    (List.mem_append_left _ hrow)⟩

omit [DecidableEq V] in
theorem Ready.right (h : Ready inst start deletedAt (first ++ second) state)
    (hdone : Done inst start deletedAt first state state') :
    Ready inst start deletedAt second state' := by
  obtain ⟨-, hsecond, hdisjoint⟩ := List.nodup_append.mp h.nodup
  refine ⟨hdone.moved, hsecond, ?_⟩
  intro row hrow hmem
  rcases (hdone.cascaded row).mp hmem with hold | hfirst
  · exact h.apart row (List.mem_append_right _ hrow) hold
  · exact hdisjoint row hfirst row hrow rfl

omit [DecidableEq V] in
theorem Done.append {state'' : SoftDeleteState V} (h : Done inst start deletedAt first state state')
    (h' : Done inst start deletedAt second state' state'') :
    Done inst start deletedAt (first ++ second) state state'' := by
  refine ⟨h'.moved, ?_⟩
  intro row
  rw [h'.cascaded, h.cascaded, List.mem_append, or_assoc]

omit [DecidableEq V] in
theorem foldlM_done {f : SoftDeleteState V → RowId V → Except (Failure V) (SoftDeleteState V)}
    {rowsOf : RowId V → List (RowId V)}
    (hstep : ∀ row ∈ rows, ∀ state, Ready inst start deletedAt (rowsOf row) state →
      ∃ state', f state row = .ok state' ∧ Done inst start deletedAt (rowsOf row) state state')
    (h : Ready inst start deletedAt (rows.flatMap rowsOf) state) :
    ∃ state', rows.foldlM f state = .ok state' ∧
      Done inst start deletedAt (rows.flatMap rowsOf) state state' := by
  induction rows generalizing state with
  | nil => exact ⟨state, rfl, h.moved, by simp⟩
  | cons row rest ih =>
    rw [List.flatMap_cons] at h ⊢
    obtain ⟨middle, hmiddle, hdone⟩ := hstep row (.head _) state h.left
    obtain ⟨state', hrest, hdone'⟩ := ih (fun other hother => hstep other
      (.tail _ hother)) (h.right hdone)
    refine ⟨state', ?_, hdone.append hdone'⟩
    rw [List.foldlM_cons]
    exact bind_eq_ok.mpr ⟨middle, hmiddle, hrest⟩

theorem Moved.archiveRow_ok (hintact : Intact inst start) (hplain : Followable inst start)
    (h : Moved inst start deletedAt state) (hlive : (start.live row).isSome)
    (hrow : row ∉ state.cascaded)
    (hchildren : ∀ child ∈ cascadeChildren inst start row, child ∈ state.cascaded)
    (hblock : ∀ key ∈ inst.registry, key.behavior = .block → ∀ child,
      key.references start child row = false)
    (hmirror : inst.mirrors row.table = true) :
    ∃ state', archiveRow inst deletedAt row state = .ok state' ∧
      Done inst start deletedAt [row] state state' := by
  obtain ⟨old, hold⟩ := Option.isSome_iff_exists.mp hlive
  obtain ⟨columns, hcolumns, -⟩ := (h.kept row hrow).2.2 old hold
  have hblocking : describeBlockingChildren inst state.db row = [] := by
    rw [describeBlockingChildren_eq_nil]
    intro key hkey hparent hbehavior
    rw [h.childRows_eq (hplain.first_kept hkey (block_ne_hide hbehavior)), List.filter_eq_nil_iff]
    intro child hchild
    rw [hplain.mem_childRows_iff hintact hkey (block_ne_hide hbehavior) hparent hlive,
      hblock key hkey hbehavior child] at hchild
    cases hchild
  have hreferenced : isReferenced inst state.db row = false := by
    rw [Bool.eq_false_iff]
    intro hany
    obtain ⟨key, hkey, hholds⟩ := List.any_eq_true.mp hany
    simp only [Bool.and_eq_true, decide_eq_true_eq, List.any_eq_true] at hholds
    obtain ⟨hbehavior, child, -, -, hreferences⟩ := hholds
    obtain ⟨hstart, hchild, -⟩ := (h.references_iff hplain hkey hbehavior).mp hreferences
    cases hkind : key.behavior with
    | hide => exact hbehavior hkind
    | cascade =>
      exact hchild (hchildren child ((hplain.mem_cascadeChildren_iff hintact hlive).mpr
        ⟨key, hkey, hkind, hstart⟩))
    | block =>
      rw [hblock key hkey hkind child] at hstart
      cases hstart
  refine ⟨_, archiveRow_eq_ok.mpr ⟨hblocking, hreferenced, columns, hcolumns, rfl⟩,
    h.archiveMove hcolumns hmirror, ?_⟩
  intro other
  rw [List.mem_append]

/-- The condition under which each row of a walk can be archived. -/
structure Unblocked (inst : Instance V) (start : Db V) (rows : List (RowId V)) : Prop where
  mirrors : ∀ row ∈ rows, inst.mirrors row.table = true
  block : ∀ row ∈ rows, ∀ key ∈ inst.registry, key.behavior = .block → ∀ child,
    key.references start child row = false

theorem Unblocked.mono {rows' : List (RowId V)} (h : Unblocked inst start rows)
    (hsub : ∀ row ∈ rows', row ∈ rows) : Unblocked inst start rows' :=
  ⟨fun row hrow => h.mirrors row (hsub row hrow), fun row hrow => h.block row (hsub row hrow)⟩

/-- The loop over the entries of a row, while nothing of the walk has been archived. -/
theorem entriesLoop_done (hplain : Followable inst start) {entries : List RegistryEntry}
    (hentries : ∀ entry ∈ entries, entry ∈ cascadeEntries inst row.table)
    (hself : ∀ entry ∈ entries, ∀ child ∈ listChildIds inst start entry row.id,
      child ∈ walk (cascadeChildren inst start) remaining child)
    (hstep : ∀ entry ∈ entries, ∀ child ∈ listChildIds inst start entry row.id, ∀ state,
      Ready inst start deletedAt (walk (cascadeChildren inst start) remaining child) state →
      ∃ state', softDeleteByReference inst maxCascadeDepth maxCascadeRows deletedAt remaining state
          child = .ok state' ∧
        Done inst start deletedAt (walk (cascadeChildren inst start) remaining child) state state')
    {totalRows : Nat}
    (hlimit : totalRows + (entries.flatMap fun entry => listChildIds inst start entry row.id).length ≤
      maxCascadeRows)
    (h : Ready inst start deletedAt ((entries.flatMap fun entry =>
      listChildIds inst start entry row.id).flatMap
        (walk (cascadeChildren inst start) remaining)) state) :
    ∃ loop, entries.foldlM (fun (loop : SoftDeleteState V × Nat) entry =>
          let children := listChildIds inst loop.1.db entry row.id
          let totalRows := loop.2 + children.length
          if maxCascadeRows < totalRows then .error (.cascadeTooLarge maxCascadeRows row)
          else do
            let state ← children.foldlM
              (softDeleteByReference inst maxCascadeDepth maxCascadeRows deletedAt remaining) loop.1
            .ok (state, totalRows)) (state, totalRows) = .ok loop ∧
      Done inst start deletedAt ((entries.flatMap fun entry =>
        listChildIds inst start entry row.id).flatMap
          (walk (cascadeChildren inst start) remaining)) state loop.1 := by
  induction entries generalizing state totalRows with
  | nil => exact ⟨(state, totalRows), rfl, h.moved, by simp⟩
  | cons entry rest ih =>
    rw [List.flatMap_cons, List.length_append] at hlimit
    rw [List.flatMap_cons, List.flatMap_append] at h ⊢
    obtain ⟨key, hkey, -, hbehavior, rfl⟩ :=
      mem_cascadeEntries.mp (hentries entry (.head _))
    have hlist : listChildIds inst state.db key.entry row.id =
        listChildIds inst start key.entry row.id := by
      rw [listChildIds, h.moved.childRows_eq (hplain.first_kept hkey (cascade_ne_hide hbehavior)),
        List.filter_eq_self.mpr]
      · rfl
      · intro child hchild
        refine decide_eq_true ?_
        refine h.left.apart child (List.mem_flatMap.mpr ⟨child, hchild, ?_⟩)
        exact hself key.entry (.head _) child hchild
    obtain ⟨middle, hmiddle, hdone⟩ := foldlM_done
      (fun child hchild => hstep key.entry (.head _) child hchild) h.left
    have hlimit' : totalRows + (listChildIds inst start key.entry row.id).length +
        (rest.flatMap fun entry => listChildIds inst start entry row.id).length ≤
          maxCascadeRows := by omega
    obtain ⟨loop, hloop, hdone'⟩ := ih
      (fun other hother => hentries other (.tail _ hother))
      (fun other hother => hself other (.tail _ hother))
      (fun other hother => hstep other (.tail _ hother))
      hlimit' (h.right hdone)
    refine ⟨loop, ?_, hdone.append hdone'⟩
    rw [List.foldlM_cons]
    refine bind_eq_ok.mpr ⟨(middle, totalRows + (listChildIds inst start key.entry row.id).length),
      ?_, hloop⟩
    dsimp only
    rw [hlist, if_neg (by omega)]
    exact bind_eq_ok.mpr ⟨middle, hmiddle, rfl⟩

/-- The execution goes through a walk that visits each row once. -/
theorem softDeleteByReference_done (hintact : Intact inst start) (hplain : Followable inst start)
    (hcomplete : Complete (cascadeChildren inst start) remaining row)
    (hlive : (start.live row).isSome)
    (hlimit : (walk (cascadeChildren inst start) remaining row).length ≤ maxCascadeRows)
    (hfree : Unblocked inst start (walk (cascadeChildren inst start) remaining row))
    (h : Ready inst start deletedAt (walk (cascadeChildren inst start) remaining row) state) :
    ∃ state', softDeleteByReference inst maxCascadeDepth maxCascadeRows deletedAt remaining state
        row = .ok state' ∧
      Done inst start deletedAt (walk (cascadeChildren inst start) remaining row) state state' := by
  induction remaining generalizing row state with
  | zero => exact absurd hcomplete not_false
  | succ remaining ih =>
    have hwalk : walk (cascadeChildren inst start) (remaining + 1) row =
        row :: (cascadeChildren inst start row).flatMap
          (walk (cascadeChildren inst start) remaining) := rfl
    rw [hwalk] at hlimit hfree h ⊢
    have hchildren : ∀ entry ∈ cascadeEntries inst row.table,
        ∀ child ∈ listChildIds inst start entry row.id, child ∈ cascadeChildren inst start row :=
      fun entry hentry child hchild => List.mem_flatMap.mpr ⟨entry, hentry, hchild⟩
    -- the row itself comes last
    have hready : Ready inst start deletedAt ((cascadeChildren inst start row).flatMap
        (walk (cascadeChildren inst start) remaining)) state :=
      ⟨h.moved, (List.nodup_cons.mp h.nodup).2,
        fun other hother => h.apart other (.tail _ hother)⟩
    have hcount : (cascadeChildren inst start row).length ≤
        ((cascadeChildren inst start row).flatMap
          (walk (cascadeChildren inst start) remaining)).length :=
      length_le_flatMap fun child hchild => (hcomplete child hchild).length_pos
    rw [List.length_cons] at hlimit
    have hlimit' : 1 + (cascadeChildren inst start row).length ≤ maxCascadeRows := by omega
    have hstep : ∀ entry ∈ cascadeEntries inst row.table,
        ∀ child ∈ listChildIds inst start entry row.id, ∀ state',
        Ready inst start deletedAt (walk (cascadeChildren inst start) remaining child) state' →
        ∃ state'', softDeleteByReference inst maxCascadeDepth maxCascadeRows deletedAt remaining
            state' child = .ok state'' ∧
          Done inst start deletedAt (walk (cascadeChildren inst start) remaining child) state'
            state'' := by
      intro entry hentry child hchild state' hstate'
      have hmem := hchildren entry hentry child hchild
      have hshort := length_le_of_mem_flatMap
        (f := walk (cascadeChildren inst start) remaining) hmem
      refine ih (hcomplete child hmem) (live_of_mem_cascadeChildren hmem) (by omega)
        (hfree.mono ?_) hstate'
      exact fun other hother => .tail _ (List.mem_flatMap.mpr ⟨child, hmem, hother⟩)
    obtain ⟨loop, hloop, hdone⟩ := entriesLoop_done hplain (fun _ hentry => hentry)
      (fun entry hentry child hchild =>
        (hcomplete child (hchildren entry hentry child hchild)).self_mem)
      hstep hlimit' hready
    have hrow : row ∉ loop.1.cascaded := by
      intro hmem
      rcases (hdone.cascaded row).mp hmem with hold | hbelow
      · exact h.apart row (.head _) hold
      · exact (List.nodup_cons.mp h.nodup).1 hbelow
    obtain ⟨state', hstate', hdone'⟩ := hdone.moved.archiveRow_ok hintact hplain hlive hrow
      (fun child hchild => (hdone.cascaded child).mpr (.inr (List.mem_flatMap.mpr
        ⟨child, hchild, (hcomplete child hchild).self_mem⟩)))
      (hfree.block row (.head _)) (hfree.mirrors row (.head _))
    refine ⟨state', ?_, hdone'.moved, ?_⟩
    · rw [softDeleteByReference, if_neg (by simp [hfree.mirrors row List.mem_cons_self])]
      exact bind_eq_ok.mpr ⟨loop, hloop, hstate'⟩
    · intro other
      rw [hdone'.cascaded, hdone.cascaded, List.mem_singleton, List.mem_cons, or_assoc,
        @or_comm (other = row)]
      rfl

end

/-- The soft delete archives each row of the cascade once, and as many rows as the plan says. -/
structure FollowsPlan (inst : Instance V) (start : Db V) (deletedAt : Int) (root : RowId V)
    (plan : CascadePlan) (state : SoftDeleteState V) : Prop where
  reached : ∀ row, ReflTransGen (CascadesTo inst start) root row →
    state.db.live row = none ∧ ∃ entry : ArchiveEntry V, entry.deletedAt = deletedAt ∧
      state.db.archive row = entry :: start.archive row
  others : ∀ row, ¬ReflTransGen (CascadesTo inst start) root row →
    (state.db.live row).isSome = (start.live row).isSome ∧ state.db.archive row = start.archive row
  /-- The number of archived rows. -/
  total : plan.totalRows = state.cascaded.length

variable {inst : Instance V}

variable {start : Db V} {deletedAt : Int} {root : RowId V} {plan : CascadePlan}
  {state : SoftDeleteState V}

theorem Moved.followsPlan (h : Moved inst start deletedAt state)
    (hreached : ∀ row, row ∈ state.cascaded ↔ ReflTransGen (CascadesTo inst start) root row)
    (htotal : plan.totalRows = state.cascaded.length) :
    FollowsPlan inst start deletedAt root plan state where
  reached row hrow := by
    obtain ⟨hnone, -, columns, -, entry, hat, -, harchive⟩ :=
      h.archived row ((hreached row).mpr hrow)
    exact ⟨hnone, entry, hat, harchive⟩
  others row hrow := by
    obtain ⟨harchive, hnone, hsome⟩ := h.kept row fun hmem => hrow ((hreached row).mp hmem)
    refine ⟨?_, harchive⟩
    cases hstart : start.live row with
    | none => rw [hnone hstart]
    | some columns =>
      obtain ⟨columns', hcolumns', -⟩ := hsome columns hstart
      rw [hcolumns']
      rfl
  total := htotal

theorem FollowsPlan.mem_cascaded_iff (h : FollowsPlan inst start deletedAt root plan state)
    (hmoved : Moved inst start deletedAt state) (row : RowId V) :
    row ∈ state.cascaded ↔ ReflTransGen (CascadesTo inst start) root row := by
  constructor
  · intro hmem
    by_contra hrow
    obtain ⟨-, -, columns, -, entry, -, -, harchive⟩ := hmoved.archived row hmem
    rw [(h.others row hrow).2] at harchive
    exact List.cons_ne_self entry _ harchive.symm
  · intro hrow
    by_contra hmem
    obtain ⟨-, entry, -, harchive⟩ := h.reached row hrow
    rw [(hmoved.kept row hmem).1] at harchive
    exact List.cons_ne_self entry _ harchive.symm

theorem followable_of_single {db : Db V}
    (h : ∀ key ∈ inst.registry, key.IsSingle ∧ key.behavior ≠ .hide) : Followable inst db := by
  have hnever : ∀ table name, ¬IsNulled inst table name := by
    intro table name hnulled
    obtain ⟨key, hkey, hbehavior, -⟩ := hnulled
    exact (h key hkey).2 hbehavior
  exact ⟨fun key hkey _ => (h key hkey).1.namesParent db, fun _ _ _ _ _ => hnever _ _,
    fun _ _ _ _ _ => hnever _ _⟩

def items : TableName := ⟨"sample", "items"⟩

def itemsInstance : Instance Nat :=
  ⟨[⟨orders, items, "items_order_id_fkey", .cascade, ("order_id", "id"), []⟩,
      ⟨items, items, "items_parent_id_fkey", .cascade, ("parent_id", "id"), []⟩],
    [], fun _ => true, [⟨orders, 1⟩, ⟨items, 2⟩, ⟨items, 3⟩]⟩

/-- Two items of an order, the second below the first. -/
def itemsDb : Db Nat :=
  listDb [(⟨orders, 1⟩, []), (⟨items, 2⟩, [("order_id", 1)]),
    (⟨items, 3⟩, [("order_id", 1), ("parent_id", 2)])]

end Stynx.SoftDelete
