import Stynx.ArchiveRestore

/-!
# Families of archived rows

A restore after a soft delete is a recovery of the archived rows along the keys:
what is above a row are the parents that it names, what is below it are its
children, one list for each cascade key.
-/

namespace Stynx.SoftDelete

open Relation (ReflTransGen)
open ExceptFolds
open Recovery

variable {V : Type} [DecidableEq V]

section

variable (inst : Instance V) (start : Db V)

/-- The parents that a row names by cascade and block keys, in the order of the keys. -/
def namedParents (row : RowId V) : List (RowId V) :=
  ((loadRegistryByChild inst row.table).filter RegistryEntry.holds).filterMap fun entry =>
    (start.live row).bind (parentOf entry row)

def childLists (row : RowId V) : List (List (RowId V)) :=
  (cascadeEntries inst row.table).map fun entry => listChildIds inst start entry row.id

/-- What a row references is live while some rows are lost, or is the row itself. -/
def ReferencesBack (lost : Set (RowId V)) (row : RowId V) : Prop :=
  ∀ key ∈ inst.registry, key.child = row.table → ∀ columns, start.live row = some columns →
    (∀ pair ∈ key.columns, (row.column columns pair.1).isSome) →
    ∃ parent, key.references start row parent = true ∧ (parent = row ∨ parent ∉ lost)

/-- A row can be put back while some rows are lost. -/
structure Fits (lost : Set (RowId V)) (row : RowId V) : Prop where
  /-- A parent that the row names was live, or was never archived. -/
  parents : ∀ parent ∈ namedParents inst start row,
    (start.live parent).isSome ∨ inst.mirrors parent.table = true ∧ start.archive parent = []
  /-- What the row references is back, unless the row itself is. -/
  references : row ∈ lost → ReferencesBack inst start lost row
  children : ∀ entry ∈ cascadeEntries inst row.table, inst.mirrors entry.child = true

open scoped Classical in
noncomputable def whileLost (archived : Db V) (lost : Set (RowId V)) : Db V where
  live row := if row ∈ lost then none else start.live row
  archive row := if row ∈ lost then archived.archive row else start.archive row
  nextArchiveId := archived.nextArchiveId

end

section

variable {inst : Instance V} {start archived : Db V} {deletedAt : Int} {rows lost : Set (RowId V)}
  {row : RowId V}

omit [DecidableEq V] in
theorem whileLost_live_of_mem (h : row ∈ lost) : (whileLost start archived lost).live row = none :=
  if_pos h

omit [DecidableEq V] in
theorem whileLost_live_of_not_mem (h : row ∉ lost) :
    (whileLost start archived lost).live row = start.live row := if_neg h

omit [DecidableEq V] in
theorem whileLost_archive_of_mem (h : row ∈ lost) :
    (whileLost start archived lost).archive row = archived.archive row := if_pos h

omit [DecidableEq V] in
theorem whileLost_archive_of_not_mem (h : row ∉ lost) :
    (whileLost start archived lost).archive row = start.archive row := if_neg h

omit [DecidableEq V] in
theorem whileLost_congr {lost' : Set (RowId V)} (h : row ∈ lost' ↔ row ∈ lost) :
    (whileLost start archived lost').live row = (whileLost start archived lost).live row ∧
      (whileLost start archived lost').archive row =
        (whileLost start archived lost).archive row := by
  by_cases hrow : row ∈ lost
  · have hrow' := h.mpr hrow
    simp [whileLost_live_of_mem, whileLost_archive_of_mem, hrow, hrow']
  · have hrow' := mt h.mp hrow
    simp [whileLost_live_of_not_mem, whileLost_archive_of_not_mem, hrow, hrow']

variable {columns : Columns V} {entry : ArchiveEntry V}

omit [DecidableEq V] in
theorem whileLost_live_eq_some :
    (whileLost start archived lost).live row = some columns ↔
      row ∉ lost ∧ start.live row = some columns := by
  by_cases hrow : row ∈ lost
  · simp [whileLost_live_of_mem hrow, hrow]
  · simp [whileLost_live_of_not_mem hrow, hrow]

omit [DecidableEq V] in
theorem Archived.eq_whileLost (h : Archived inst start archived deletedAt rows) :
    archived = whileLost start archived rows := by
  refine Db.ext (funext fun row => ?_) (funext fun row => ?_) rfl
  · by_cases hrow : row ∈ rows
    · rw [whileLost_live_of_mem hrow, (h.gone row hrow).1]
    · rw [whileLost_live_of_not_mem hrow, (h.others row hrow).1]
  · by_cases hrow : row ∈ rows
    · rw [whileLost_archive_of_mem hrow]
    · rw [whileLost_archive_of_not_mem hrow, (h.others row hrow).2]

omit [DecidableEq V] in
theorem Mirrored.loadArchivedRow (h : Mirrored start archived deletedAt row entry)
    (hlast : ∀ older ∈ start.archive row, older.deletedAt < deletedAt) (hrow : row ∈ lost) :
    loadArchivedRow (whileLost start archived lost) row none = some entry := by
  have hall : ∀ entries : List (ArchiveEntry V), (entries.filter fun entry =>
      (none : Option Nat).all fun id => entry.archiveId = id) = entries := by
    intro entries
    rw [List.filter_eq_self]
    exact fun _ _ => rfl
  rw [SoftDelete.loadArchivedRow, hall, whileLost_archive_of_mem hrow, h.archive, latest]
  cases hmax : latest (start.archive row) with
  | none => rfl
  | some older =>
    have holder := hlast older (latest_eq_some hmax).1
    rw [← h.deletedAt] at holder
    exact if_neg (by omega)

/-- A step of `findArchivedParents`. -/
def lookUpParent (inst : Instance V) (db : Db V) (row : RowId V) (columns : Columns V)
    (parents : List (RowId V)) (entry : RegistryEntry) : Except (Failure V) (List (RowId V)) :=
  match parentOf entry row columns with
  | none => .ok parents
  | some parent =>
    if (db.live parent).isSome then .ok parents
    else if !inst.mirrors parent.table then .error (.database "42P01")
    else if (db.archive parent).isEmpty then .ok parents
    else .ok (parents ++ [parent])

omit [DecidableEq V] in
theorem lookUpParent_eq_ok {db : Db V} {first second : List (RowId V)} {entry : RegistryEntry}
    {parent : RowId V} (hparent : parentOf entry row columns = some parent) :
    lookUpParent inst db row columns first entry = .ok second ↔
      ((db.live parent).isSome ∨ inst.mirrors parent.table = true) ∧
      second = first ++ [parent].filter fun parent =>
        (db.live parent).isNone && !(db.archive parent).isEmpty := by
  rw [lookUpParent, hparent]
  dsimp only
  by_cases hlive : (db.live parent).isSome
  · have hsome : (db.live parent).isNone = false := by
      rw [← Option.not_isSome, hlive]
      rfl
    simp [hlive, hsome, @eq_comm _ first]
  · have hnone : db.live parent = none := by simpa using hlive
    cases hmirror : inst.mirrors parent.table with
    | false => simp [hnone]
    | true =>
      cases hempty : (db.archive parent).isEmpty with
      | true => simp [hnone, hempty, @eq_comm _ first]
      | false => simp [hnone, hempty, @eq_comm _ (first ++ [parent])]

omit [DecidableEq V] in
theorem findArchivedParents_eq_ok {db : Db V} {parents : List (RowId V)} :
    findArchivedParents inst db row columns = .ok parents ↔
      (∀ parent ∈ ((loadRegistryByChild inst row.table).filter RegistryEntry.holds).filterMap
        fun entry => parentOf entry row columns,
        (db.live parent).isSome ∨ inst.mirrors parent.table = true) ∧
      parents = (((loadRegistryByChild inst row.table).filter RegistryEntry.holds).filterMap
        fun entry => parentOf entry row columns).filter fun parent =>
          (db.live parent).isNone && !(db.archive parent).isEmpty := by
  have hloop : ∀ (entries : List RegistryEntry) (first : List (RowId V)),
      entries.foldlM (lookUpParent inst db row columns) first = .ok parents ↔
      (∀ parent ∈ entries.filterMap fun entry => parentOf entry row columns,
        (db.live parent).isSome ∨ inst.mirrors parent.table = true) ∧
      parents = first ++ (entries.filterMap fun entry => parentOf entry row columns).filter
        fun parent => (db.live parent).isNone && !(db.archive parent).isEmpty := by
    intro entries
    induction entries with
    | nil =>
      intro first
      constructor
      · intro h
        cases h
        simp
      · intro h
        simp only [List.filterMap_nil, List.filter_nil, List.append_nil] at h
        rw [h.2]
        rfl
    | cons entry rest ih =>
      intro first
      rw [List.foldlM_cons, bind_eq_ok, List.filterMap_cons]
      cases hparent : parentOf entry row columns with
      | none =>
        have hstep : lookUpParent inst db row columns first entry = .ok first := by
          rw [lookUpParent, hparent]
        dsimp only
        rw [← ih first, hstep]
        constructor
        · intro h
          obtain ⟨second, hsecond, hrest⟩ := h
          cases hsecond
          exact hrest
        · intro h
          exact ⟨first, rfl, h⟩
      | some parent =>
        dsimp only
        rw [List.forall_mem_cons]
        constructor
        · intro h
          obtain ⟨second, hsecond, hrest⟩ := h
          obtain ⟨hfirst, rfl⟩ := (lookUpParent_eq_ok hparent).mp hsecond
          obtain ⟨hall, rfl⟩ := (ih _).mp hrest
          exact ⟨⟨hfirst, hall⟩, by rw [List.append_assoc, ← List.filter_append,
            List.singleton_append]⟩
        · intro h
          obtain ⟨⟨hfirst, hall⟩, rfl⟩ := h
          refine ⟨_, (lookUpParent_eq_ok hparent).mpr ⟨hfirst, rfl⟩, (ih _).mpr ⟨hall, ?_⟩⟩
          rw [List.append_assoc, ← List.filter_append, List.singleton_append]
  exact hloop _ []

omit [DecidableEq V] in
theorem Archived.filter_archived (h : Archived inst start archived deletedAt rows)
    (hlost : ∀ row ∈ lost, row ∈ rows) {parents : List (RowId V)}
    (hparents : ∀ parent ∈ parents, (start.live parent).isSome ∨
      inst.mirrors parent.table = true ∧ start.archive parent = []) :
    (parents.filter fun parent => ((whileLost start archived lost).live parent).isNone &&
      !((whileLost start archived lost).archive parent).isEmpty) = lostOf lost parents := by
  refine List.filter_congr fun parent hparent => ?_
  rw [Bool.eq_iff_iff]
  simp only [Bool.and_eq_true, decide_eq_true_eq]
  by_cases hmem : parent ∈ lost
  · obtain ⟨-, -, entry, hentry⟩ := h.gone parent (hlost parent hmem)
    simp [whileLost_live_of_mem hmem, whileLost_archive_of_mem hmem, hentry.archive, hmem]
  · rw [whileLost_live_of_not_mem hmem, whileLost_archive_of_not_mem hmem]
    rcases hparents parent hparent with hlive | ⟨-, hempty⟩
    · simp [hmem, Option.isSome_iff_ne_none.mp hlive]
    · simp [hmem, hempty]

omit [DecidableEq V] in
theorem Mirrored.namedParents (h : Mirrored start archived deletedAt row entry) :
    namedParents inst start row =
      ((loadRegistryByChild inst row.table).filter RegistryEntry.holds).filterMap
        fun key => parentOf key row entry.columns := by
  rw [SoftDelete.namedParents, h.columns]
  rfl

section

variable (hstored : Stored inst start) (h : Mirrored start archived deletedAt row entry)
include hstored h

theorem Mirrored.findRestoreConflict :
    findRestoreConflict inst (whileLost start archived lost) row entry.columns = none := by
  have hnone := hstored.unique row entry.columns h.columns
  rw [SoftDelete.findRestoreConflict, List.find?_eq_none] at hnone ⊢
  intro constraint hconstraint hholds
  refine hnone constraint hconstraint ?_
  simp only [Bool.and_eq_true, List.any_eq_true, Option.any_eq_true] at hholds ⊢
  obtain ⟨hsome, other, hother, hne, columns, hlive, hsame⟩ := hholds
  exact ⟨hsome, other, hother, hne, columns, (whileLost_live_eq_some.mp hlive).2, hsame⟩

theorem Mirrored.lacksParent_eq_false :
    lacksParent inst (whileLost start archived lost) row entry.columns = false ↔
      ReferencesBack inst start lost row := by
  have hlive : (start.live row).isSome := by simp [h.columns]
  have hparents : ∀ key : ForeignKey, key.child = row.table →
      ((∃ parent ∈ inst.scan, parent.table = key.parent ∧
        ((parent = row ∧ key.fits row entry.columns row entry.columns = true) ∨
          ∃ columns, (whileLost start archived lost).live parent = some columns ∧
            key.fits row entry.columns parent columns = true)) ↔
      ∃ parent, key.references start row parent = true ∧ (parent = row ∨ parent ∉ lost)) := by
    intro key hchild
    constructor
    · intro hparent
      obtain ⟨parent, -, htable, hfits⟩ := hparent
      rcases hfits with ⟨rfl, hfits⟩ | ⟨columns, hcolumns, hfits⟩
      · exact ⟨parent, references_iff.mpr ⟨hchild.symm, htable, entry.columns, h.columns,
          entry.columns, h.columns, hfits⟩, .inl rfl⟩
      · obtain ⟨hmem, hstart⟩ := whileLost_live_eq_some.mp hcolumns
        exact ⟨parent, references_iff.mpr ⟨hchild.symm, htable, entry.columns, h.columns, columns,
          hstart, hfits⟩, .inr hmem⟩
    · intro hparent
      obtain ⟨parent, hreferences, hback⟩ := hparent
      obtain ⟨-, htable, columns, hcolumns, parentColumns, hparentColumns, hfits⟩ :=
        references_iff.mp hreferences
      obtain rfl := Option.some.inj (hcolumns.symm.trans h.columns)
      refine ⟨parent, hstored.scanned parent (by simp [hparentColumns]), htable, ?_⟩
      rcases hback with rfl | hmem
      · obtain rfl := Option.some.inj (hparentColumns.symm.trans h.columns)
        exact .inl ⟨rfl, hfits⟩
      · exact .inr ⟨parentColumns, whileLost_live_eq_some.mpr ⟨hmem, hparentColumns⟩, hfits⟩
  rw [lacksParent, List.any_eq_false]
  constructor
  · intro hnone key hkey hchild columns hcolumns hsome
    obtain rfl := Option.some.inj (hcolumns.symm.trans h.columns)
    rw [← hparents key hchild]
    by_contra hlacks
    refine hnone key hkey ?_
    simp only [Bool.and_eq_true, decide_eq_true_eq, List.all_eq_true, Bool.not_eq_true',
      List.any_eq_false, Bool.or_eq_true, Option.any_eq_true]
    refine ⟨⟨hchild, hsome⟩, ?_⟩
    intro parent hparent hholds
    exact hlacks ⟨parent, hparent, hholds⟩
  · intro hback key hkey hlacks
    simp only [Bool.and_eq_true, decide_eq_true_eq, List.all_eq_true, Bool.not_eq_true',
      List.any_eq_false, Bool.or_eq_true, Option.any_eq_true] at hlacks
    obtain ⟨⟨hchild, hsome⟩, hnone⟩ := hlacks
    obtain ⟨parent, hparent, hholds⟩ :=
      (hparents key hchild).mpr (hback key hkey hchild entry.columns h.columns hsome)
    exact hnone parent hparent hholds

theorem Mirrored.insertRestored_eq_ok {back : Db V} :
    insertRestored inst (whileLost start archived lost) row entry = .ok back ↔
      (row ∈ lost → ReferencesBack inst start lost row) ∧
        back = whileLost start archived (lost \ {row}) := by
  rw [SoftDelete.insertRestored_eq_ok, h.lacksParent_eq_false hstored]
  have hother : ∀ {other : RowId V}, other ≠ row → (other ∈ lost \ {row} ↔ other ∈ lost) := by
    intro other hne
    exact and_iff_left hne
  by_cases hrow : row ∈ lost
  · have hput : putBack (whileLost start archived lost) row entry =
        whileLost start archived (lost \ {row}) := by
      have hself : row ∉ lost \ {row} := fun hmem => hmem.2 rfl
      refine Db.ext (funext fun other => ?_) (funext fun other => ?_) rfl
      · by_cases heq : other = row
        · subst heq
          rw [putBack_live_self, whileLost_live_of_not_mem hself, h.columns]
        · rw [putBack_live_of_ne entry heq, (whileLost_congr (hother heq)).1]
      · by_cases heq : other = row
        · subst heq
          rw [putBack_archive_self, whileLost_archive_of_mem hrow, h.archive,
            whileLost_archive_of_not_mem hself, List.filter_cons_of_neg (by simp),
            List.filter_eq_self]
          exact fun older holder => decide_eq_true (h.fresh older holder)
        · rw [putBack_archive_of_ne entry heq, (whileLost_congr (hother heq)).2]
    rw [hput, whileLost_archive_of_mem hrow, whileLost_live_of_mem hrow, h.archive]
    simp [hrow]
  · have hsame : lost \ {row} = lost := by
      ext other
      exact and_iff_left_of_imp fun hmem heq => hrow (heq ▸ hmem)
    rw [hsame, whileLost_archive_of_not_mem hrow]
    constructor
    · intro hinsert
      rcases hinsert with ⟨⟨older, holder, hid⟩, -⟩ | ⟨-, rfl⟩
      · exact absurd hid (h.fresh older holder)
      · exact ⟨fun hmem => absurd hmem hrow, rfl⟩
    · intro hback
      exact .inr ⟨h.fresh, hback.2⟩

end

theorem Archived.archivedChildren_eq (h : Archived inst start archived deletedAt rows)
    (hearlier : ∀ row, ∀ older ∈ start.archive row, older.deletedAt ≠ deletedAt)
    (hlost : ∀ row ∈ lost, row ∈ rows) (entry : RegistryEntry) (id : V) :
    archivedChildren inst (whileLost start archived lost) entry id deletedAt =
      lostOf lost (listChildIds inst start entry id) := by
  have holder : ∀ child : RowId V, (start.archive child).filter (fun older =>
      child.column older.columns entry.childColumn = some id && older.deletedAt = deletedAt) = [] := by
    intro child
    rw [List.filter_eq_nil_iff]
    intro older hmem hholds
    simp only [Bool.and_eq_true, decide_eq_true_eq] at hholds
    exact hearlier child older hmem hholds.2
  rw [archivedChildren, listChildIds, childRows, lostOf, List.filter_filter]
  induction inst.scan with
  | nil => rfl
  | cons child rest ih =>
    rw [List.flatMap_cons, ih]
    by_cases hmem : child ∈ lost
    · obtain ⟨-, -, archivedEntry, hmirrored⟩ := h.gone child (hlost child hmem)
      rw [whileLost_archive_of_mem hmem, hmirrored.archive, List.filter_cons, holder]
      by_cases htable : child.table = entry.child
      · by_cases hvalue : child.column archivedEntry.columns entry.childColumn = some id
        · simp [hmem, htable, hvalue, hmirrored.columns, hmirrored.deletedAt]
        · simp [hmem, htable, hvalue, hmirrored.columns, hmirrored.deletedAt]
      · simp [hmem, htable]
    · rw [whileLost_archive_of_not_mem hmem, holder]
      simp [hmem]

end

variable {inst : Instance V} {start archived : Db V} {deletedAt : Int} {rows lost : Set (RowId V)}
  {row : RowId V} {db : Db V}

/-- The recovery of archived rows along the keys. -/
abbrev Rejoins (inst : Instance V) (start : Db V) :
    Set (RowId V) → Goal (RowId V) → Set (RowId V) → Prop :=
  Recovers (namedParents inst start) (childLists inst start) (Fits inst start)

/-- Nothing is live that was not live before the soft delete. -/
def NothingNew (start db : Db V) : Prop :=
  ∀ row, (db.live row).isSome → (start.live row).isSome

def RestoreRecovers (inst : Instance V) (start archived : Db V) (rows : Set (RowId V))
    (fuel : Nat) : Prop :=
  ∀ (lost : Set (RowId V)) (row : RowId V) (db : Db V), (∀ other ∈ lost, other ∈ rows) →
    NothingNew start db →
    restoreByReference inst fuel none true (whileLost start archived lost) row = .ok db →
    ∃ lost', Rejoins inst start lost (.node row) lost' ∧ db = whileLost start archived lost'

theorem RestoreRecovers.nodes {fuel : Nat} (h : RestoreRecovers inst start archived rows fuel)
    {list : List (RowId V)} (hlost : ∀ other ∈ lost, other ∈ rows) (hnew : NothingNew start db)
    (hrun : list.foldlM (restoreByReference inst fuel none true) (whileLost start archived lost) =
      .ok db) :
    ∃ lost', Rejoins inst start lost (.nodes list) lost' ∧ db = whileLost start archived lost' := by
  induction list generalizing lost with
  | nil =>
    cases hrun
    exact ⟨lost, .nil lost, rfl⟩
  | cons row rest ih =>
    rw [List.foldlM_cons] at hrun
    obtain ⟨middle, hmiddle, hrest⟩ := bind_eq_ok.mp hrun
    have hafter := (restoreAll_restores hrest).1
    obtain ⟨lost', hnode, rfl⟩ := h lost row middle hlost
      (fun other hother => hnew other (hafter.isSome hother)) hmiddle
    obtain ⟨lost'', hnodes, hdb⟩ := ih (fun other hother => hlost other (hnode.subset other hother))
      hrest
    exact ⟨lost'', .cons hnode hnodes, hdb⟩

theorem RestoreRecovers.lists {fuel : Nat} (h : RestoreRecovers inst start archived rows fuel)
    (harchived : Archived inst start archived deletedAt rows)
    (hearlier : ∀ row, ∀ older ∈ start.archive row, older.deletedAt ≠ deletedAt)
    {entries : List RegistryEntry} (hlost : ∀ other ∈ lost, other ∈ rows)
    (hnew : NothingNew start db)
    (hrun : entries.foldlM (restoreEntry inst fuel row deletedAt) (whileLost start archived lost) =
      .ok db) :
    (∀ entry ∈ entries, inst.mirrors entry.child = true) ∧
      ∃ lost', Rejoins inst start lost
        (.lists (entries.map fun entry => listChildIds inst start entry row.id)) lost' ∧
        db = whileLost start archived lost' := by
  induction entries generalizing lost with
  | nil =>
    cases hrun
    exact ⟨fun _ hentry => absurd hentry List.not_mem_nil, lost, .none lost, rfl⟩
  | cons entry rest ih =>
    rw [List.foldlM_cons] at hrun
    obtain ⟨middle, hmiddle, hrest⟩ := bind_eq_ok.mp hrun
    rw [restoreEntry] at hmiddle
    split at hmiddle
    · cases hmiddle
    · rename_i hmirror
      rw [harchived.archivedChildren_eq hearlier hlost] at hmiddle
      have hafter := restoreEntries_restores hrest
      obtain ⟨lost', hnodes, rfl⟩ := h.nodes hlost
        (fun other hother => hnew other (hafter.isSome hother)) hmiddle
      obtain ⟨hmirrors, lost'', hlists, hdb⟩ := ih
        (fun other hother => hlost other (hnodes.subset other hother)) hrest
      refine ⟨?_, lost'', .list hnodes hlists, hdb⟩
      intro other hother
      rcases List.mem_cons.mp hother with rfl | hother
      · simpa using hmirror
      · exact hmirrors other hother

/-- Whatever a restore puts back, it recovers along the keys. -/
theorem Archived.restoreRecovers (h : Archived inst start archived deletedAt rows)
    (hstored : Stored inst start)
    (hearlier : ∀ row, ∀ older ∈ start.archive row, older.deletedAt ≠ deletedAt)
    (hlast : ∀ row ∈ rows, ∀ older ∈ start.archive row, older.deletedAt < deletedAt) (fuel : Nat) :
    RestoreRecovers inst start archived rows fuel := by
  induction fuel with
  | zero =>
    intro lost row db _ _ hrun
    cases hrun
  | succ fuel ih =>
    intro lost row db hlost hnew hrun
    obtain ⟨-, hnone, hsome⟩ := restoreByReference_restores hrun
    obtain ⟨-, entry', hload, parents, hparents, above, habove, -, back, hback, hchildren⟩ :=
      restoreByReference_eq_ok.mp hrun
    have hrow : row ∈ lost := by
      by_contra hmem
      rw [whileLost_live_of_not_mem hmem] at hnone
      have hstart := hnew row hsome
      rw [hnone] at hstart
      cases hstart
    obtain ⟨-, -, entry, hentry⟩ := h.gone row (hlost row hrow)
    rw [hentry.loadArchivedRow (hlast row (hlost row hrow)) hrow] at hload
    obtain rfl := Option.some.inj hload
    have hnewBack : NothingNew start back := fun other hother =>
      hnew other ((restoreEntries_restores hchildren).isSome hother)
    have hnewAbove : NothingNew start above := fun other hother =>
      hnewBack other (insertRestored_isSome hback hother)
    -- a parent that is not lost and was not live has no mirror row, else it would be live now
    obtain ⟨hmirrors, hlist⟩ := findArchivedParents_eq_ok.mp hparents
    rw [← hentry.namedParents] at hmirrors hlist
    have hnamed : ∀ parent ∈ namedParents inst start row, (start.live parent).isSome ∨
        inst.mirrors parent.table = true ∧ start.archive parent = [] := by
      intro parent hparent
      by_cases hlive : (start.live parent).isSome
      · exact .inl hlive
      · have hmem : parent ∉ lost := by
          intro hmem
          obtain ⟨-, -, other, hother⟩ := h.gone parent (hlost parent hmem)
          rw [hother.columns] at hlive
          exact hlive rfl
        have hnotLive : (whileLost start archived lost).live parent = none := by
          rw [whileLost_live_of_not_mem hmem]
          simpa using hlive
        refine .inr ⟨(hmirrors parent hparent).resolve_left (by simp [hnotLive]), ?_⟩
        by_contra hold
        have hfound : parent ∈ parents := by
          rw [hlist, List.mem_filter]
          refine ⟨hparent, ?_⟩
          rw [hnotLive, whileLost_archive_of_not_mem hmem]
          simpa using hold
        exact hlive (hnewAbove parent ((restoreAll_restores habove).2 parent hfound))
    rw [h.filter_archived hlost hnamed] at hlist
    subst hlist
    obtain ⟨lost', hups, rfl⟩ := ih.nodes hlost hnewAbove habove
    obtain ⟨hreferences, rfl⟩ := (hentry.insertRestored_eq_ok hstored).mp hback
    have hlost' : ∀ other ∈ lost' \ {row}, other ∈ rows := fun other hother =>
      hlost other (hups.subset other hother.1)
    rw [hentry.deletedAt] at hchildren
    obtain ⟨hchildMirrors, lost'', hdowns, hdb⟩ := ih.lists h hearlier hlost' hnew hchildren
    exact ⟨lost'', .node hrow hups ⟨hnamed, hreferences, hchildMirrors⟩ hdowns, hdb⟩

/-- The restore carries a goal out, at every depth from some one on. -/
def Carries (inst : Instance V) (start archived : Db V) (deletedAt : Int) (lost : Set (RowId V)) :
    Goal (RowId V) → Set (RowId V) → Prop
  | .node row, lost' => ∃ fuel, ∀ more,
    restoreByReference inst (fuel + more) none true (whileLost start archived lost) row =
      .ok (whileLost start archived lost')
  | .nodes list, lost' => ∃ fuel, ∀ more,
    list.foldlM (restoreByReference inst (fuel + more) none true) (whileLost start archived lost) =
      .ok (whileLost start archived lost')
  | .lists lists, lost' => ∀ (row : RowId V) (entries : List RegistryEntry),
    lists = entries.map (fun entry => listChildIds inst start entry row.id) →
    (∀ entry ∈ entries, inst.mirrors entry.child = true) → ∃ fuel, ∀ more,
      entries.foldlM (restoreEntry inst (fuel + more) row deletedAt)
        (whileLost start archived lost) = .ok (whileLost start archived lost')

/-- Whatever can be recovered along the keys, a restore puts back. -/
theorem Archived.carries (h : Archived inst start archived deletedAt rows)
    (hstored : Stored inst start)
    (hearlier : ∀ row, ∀ older ∈ start.archive row, older.deletedAt ≠ deletedAt)
    (hlast : ∀ row ∈ rows, ∀ older ∈ start.archive row, older.deletedAt < deletedAt)
    {goal : Goal (RowId V)} {lost' : Set (RowId V)} (hrecovers : Rejoins inst start lost goal lost')
    (hlost : ∀ row ∈ lost, row ∈ rows) : Carries inst start archived deletedAt lost goal lost' := by
  induction hrecovers with
  | @node lost above below row hrow habove hfits hbelow ihAbove ihBelow =>
    obtain ⟨fuelAbove, hups⟩ := ihAbove hlost
    have habove' : ∀ other ∈ above \ {row}, other ∈ rows := fun other hother =>
      hlost other (habove.subset other hother.1)
    obtain ⟨fuelBelow, hdowns⟩ := ihBelow habove' row _ rfl hfits.children
    obtain ⟨-, hmirror, entry, hentry⟩ := h.gone row (hlost row hrow)
    refine ⟨fuelAbove + fuelBelow + 1, fun more => ?_⟩
    rw [show fuelAbove + fuelBelow + 1 + more = (fuelAbove + (fuelBelow + more)) + 1 by omega]
    refine restoreByReference_eq_ok.mpr ⟨hmirror, entry,
      hentry.loadArchivedRow (hlast row (hlost row hrow)) hrow, lostOf lost (namedParents inst start row),
      ?_, whileLost start archived above, hups _, hentry.findRestoreConflict hstored,
      whileLost start archived (above \ {row}),
      (hentry.insertRestored_eq_ok hstored).mpr ⟨hfits.references, rfl⟩, ?_⟩
    · rw [findArchivedParents_eq_ok, ← hentry.namedParents, h.filter_archived hlost hfits.parents]
      refine ⟨?_, rfl⟩
      intro parent hparent
      by_cases hmem : parent ∈ lost
      · exact .inr (h.gone parent (hlost parent hmem)).2.1
      · rw [whileLost_live_of_not_mem hmem]
        exact (hfits.parents parent hparent).imp_right fun hnever => hnever.1
    · rw [hentry.deletedAt, show fuelAbove + (fuelBelow + more) = fuelBelow + (fuelAbove + more) by omega]
      exact hdowns _
  | nil => exact ⟨0, fun _ => rfl⟩
  | @cons lost lost' lost'' row rest hnode _ ihNode ihRest =>
    obtain ⟨fuelNode, hfirst⟩ := ihNode hlost
    obtain ⟨fuelRest, hrest⟩ := ihRest fun other hother => hlost other (hnode.subset other hother)
    refine ⟨fuelNode + fuelRest, fun more => ?_⟩
    rw [List.foldlM_cons]
    refine bind_eq_ok.mpr ⟨whileLost start archived lost', ?_, ?_⟩
    · rw [Nat.add_assoc]
      exact hfirst _
    · rw [Nat.add_comm fuelNode, Nat.add_assoc]
      exact hrest _
  | none =>
    intro row entries hentries _
    rw [List.map_eq_nil_iff.mp hentries.symm]
    exact ⟨0, fun _ => rfl⟩
  | @list lost lost' lost'' nodes lists hnodes _ ihNodes ihRest =>
    intro row entries hentries hmirrors
    obtain ⟨entry, rest, rfl, rfl, rfl⟩ := List.map_eq_cons_iff.mp hentries.symm
    obtain ⟨fuelNodes, hfirst⟩ := ihNodes hlost
    obtain ⟨fuelRest, hrest⟩ := ihRest (fun other hother => hlost other (hnodes.subset other hother))
      row rest rfl fun other hother => hmirrors other (.tail _ hother)
    refine ⟨fuelNodes + fuelRest, fun more => ?_⟩
    rw [List.foldlM_cons]
    refine bind_eq_ok.mpr ⟨whileLost start archived lost', ?_, ?_⟩
    · rw [restoreEntry, if_neg (by simp [hmirrors entry List.mem_cons_self]),
        h.archivedChildren_eq hearlier hlost, Nat.add_assoc]
      exact hfirst _
    · rw [Nat.add_comm fuelNodes, Nat.add_assoc]
      exact hrest _

omit [DecidableEq V] in
theorem Restores.older_lt {db' : Db V} {entry : ArchiveEntry V} (h : Restores archived db')
    (hentry : Mirrored start archived deletedAt row entry)
    (hearlier : ∀ older ∈ start.archive row, older.deletedAt ≠ deletedAt)
    (hback : db'.archive row = start.archive row) :
    ∀ older ∈ start.archive row, older.deletedAt < deletedAt := by
  have hgone : entry ∉ db'.archive row := by
    intro hmem
    rw [hback] at hmem
    exact hearlier entry hmem hentry.deletedAt
  have hmem : entry ∈ archived.archive row := by
    rw [hentry.archive]
    exact .head _
  obtain ⟨-, latest, hlatest, hid, hmax⟩ := h.removed row entry hmem hgone
  have hsame : latest = entry := by
    rw [hentry.archive] at hlatest
    rcases List.mem_cons.mp hlatest with heq | hold
    · exact heq
    · exact absurd hid (hentry.fresh latest hold)
  intro older holder
  have hle := hmax older (hback ▸ holder)
  have hne := hearlier older holder
  rw [hsame, hentry.deletedAt] at hle
  omega

omit [DecidableEq V] in
theorem whileLost_nothing (hnothing : ∀ row, row ∉ lost) :
    (whileLost start archived lost).live = start.live ∧
      (whileLost start archived lost).archive = start.archive :=
  ⟨funext fun row => whileLost_live_of_not_mem (hnothing row),
    funext fun row => whileLost_archive_of_not_mem (hnothing row)⟩

theorem reach_of_mem_cascadeSet {root : RowId V} (h : row ∈ cascadeSet inst start root) :
    Reach (namedParents inst start) (childLists inst start) (cascadeSet inst start root) root row := by
  induction h with
  | refl => exact .refl
  | tail hbefore hlast ih =>
    refine ih.tail ⟨hbefore.tail hlast, .inr ?_⟩
    obtain ⟨entry, hentry, hchild⟩ := List.mem_flatMap.mp hlast
    exact ⟨_, List.mem_map.mpr ⟨entry, hentry, rfl⟩, hchild⟩

/-- With single columns, a row fits once the lost parents that it names are back. -/
theorem fits_of_single {inst : Instance V} {start : Db V} (hintact : Intact inst start)
    (hkeys : ∀ key ∈ inst.registry, key.IsSingle ∧ key.behavior ≠ .hide) {row : RowId V}
    (hlive : (start.live row).isSome)
    (hmirrors : ∀ entry ∈ cascadeEntries inst row.table, inst.mirrors entry.child = true)
    {lost : Set (RowId V)} (hback : ∀ parent ∈ namedParents inst start row, parent ∉ lost) :
    Fits inst start lost row := by
  obtain ⟨columns, hcolumns⟩ := Option.isSome_iff_exists.mp hlive
  -- a reference is to the parent that the row names
  have hnamed : ∀ key ∈ inst.registry, row.table = key.child → ∀ parent,
      row.column columns key.first.1 = some parent.id → parent.table = key.parent →
      key.references start row parent = true := by
    intro key hkey hchild parent hvalue htable
    have hsome : ∀ pair ∈ key.columns, (row.column columns pair.1).isSome := by
      intro pair hpair
      rw [ForeignKey.columns, (hkeys key hkey).1.2, List.mem_singleton] at hpair
      rw [hpair, hvalue]
      rfl
    obtain ⟨other, hother⟩ := hintact.satisfied key hkey row columns hcolumns hchild hsome
    obtain ⟨-, hotherTable, columns', hcolumns', otherColumns, hotherColumns, hfits⟩ :=
      references_iff.mp hother
    have hfirst := ((hkeys key hkey).1.namesParent start).named other row otherColumns hotherColumns
      hother
    obtain rfl := Option.some.inj (hcolumns'.symm.trans hcolumns)
    rw [← (fits_iff.mp hfits key.first List.mem_cons_self).2, hvalue] at hfirst
    have hsame : other = parent := by
      cases other
      cases parent
      simp_all
    exact hsame ▸ hother
  refine ⟨?_, ?_, hmirrors⟩
  · intro parent hparent
    rw [namedParents, hcolumns, List.mem_filterMap] at hparent
    obtain ⟨entry, hentry, hvalue⟩ := hparent
    obtain ⟨key, hkey, rfl⟩ := List.mem_map.mp (List.mem_filter.mp hentry).1
    obtain ⟨hregistered, hchild⟩ := List.mem_filter.mp hkey
    obtain ⟨hfirst, htable⟩ := parentOf_eq_some.mp hvalue
    obtain ⟨-, -, -, -, parentColumns, hparentColumns, -⟩ := references_iff.mp
      (hnamed key hregistered (of_decide_eq_true hchild).symm parent hfirst htable)
    exact .inl (by simp [hparentColumns])
  · intro _ key hkey hchild columns' hcolumns' hsome
    obtain rfl := Option.some.inj (hcolumns'.symm.trans hcolumns)
    obtain ⟨id, hid⟩ := Option.isSome_iff_exists.mp (hsome key.first (.head _))
    refine ⟨⟨key.parent, id⟩, hnamed key hkey hchild.symm ⟨key.parent, id⟩ hid rfl, .inr ?_⟩
    refine hback _ ?_
    rw [namedParents, hcolumns, List.mem_filterMap]
    refine ⟨key.entry, ?_, parentOf_eq_some.mpr ⟨hid, rfl⟩⟩
    rw [List.mem_filter, loadRegistryByChild, List.mem_map]
    refine ⟨⟨key, List.mem_filter.mpr ⟨hkey, decide_eq_true hchild⟩, rfl⟩, ?_⟩
    cases hkind : key.behavior with
    | hide => exact absurd hkind (hkeys key hkey).2
    | cascade => simp [RegistryEntry.holds, ForeignKey.entry, hkind]
    | block => simp [RegistryEntry.holds, ForeignKey.entry, hkind]

/-- The restore of a soft delete without hide keys gives everything back if and only if no archived
row has a later older one in its mirror, each row fits when it comes back, and no row of a list is
reached from one before it. -/
theorem restore_undoes_soft_delete_iff {inst : Instance V} {start : Db V}
    (hstored : Stored inst start) (hkeys : ∀ key ∈ inst.registry, key.behavior ≠ .hide)
    {maxCascadeDepth maxCascadeRows : Nat} {deletedAt : Int} {root : RowId V}
    {state : SoftDeleteState V}
    (hdelete : softDelete inst maxCascadeDepth maxCascadeRows deletedAt start root = .ok state)
    (hearlier : ∀ row, ∀ older ∈ start.archive row, older.deletedAt ≠ deletedAt) :
    (∃ fuel db, restoreWithCascade inst fuel state.db root = .ok db ∧ db.live = start.live ∧
      db.archive = start.archive) ↔
    (∀ row ∈ cascadeSet inst start root, ∀ older ∈ start.archive row, older.deletedAt < deletedAt) ∧
    Clear (namedParents inst start) (childLists inst start) (Fits inst start)
      (cascadeSet inst start root) (.node root) := by
  have harchived := softDelete_archived hstored hkeys hdelete
  have hmirror : inst.mirrors root.table = true := (harchived.gone root .refl).2.1
  have hrestore : ∀ fuel, restoreWithCascade inst fuel state.db root =
      restoreByReference inst fuel none true
        (whileLost start state.db (cascadeSet inst start root)) root := by
    intro fuel
    rw [restoreWithCascade, if_neg (by simp [hmirror]), ← harchived.eq_whileLost]
  constructor
  · intro hundone
    obtain ⟨fuel, db, hrun, hlive, harchive⟩ := hundone
    rw [hrestore] at hrun
    have hlast : ∀ row ∈ cascadeSet inst start root, ∀ older ∈ start.archive row,
        older.deletedAt < deletedAt := by
      intro row hrow
      obtain ⟨-, -, entry, hentry⟩ := harchived.gone row hrow
      have hrestores := (restoreByReference_restores hrun).1
      rw [← harchived.eq_whileLost] at hrestores
      exact hrestores.older_lt hentry (hearlier row) (congrFun harchive row)
    refine ⟨hlast, recovers_iff_clear.mp ?_⟩
    obtain ⟨lost', hrecovers, -⟩ := harchived.restoreRecovers hstored hearlier hlast fuel _ root db
      (fun _ hrow => hrow) (fun row hrow => hlive ▸ hrow) hrun
    exact ⟨lost', hrecovers⟩
  · intro hconditions
    obtain ⟨hlast, hclear⟩ := hconditions
    obtain ⟨lost', hrecovers⟩ := recovers_iff_clear.mpr hclear
    obtain ⟨fuel, hrun⟩ := harchived.carries hstored hearlier hlast hrecovers fun _ hrow => hrow
    have hnothing : ∀ row, row ∉ lost' := by
      intro row hmem
      rw [hrecovers.eq_after] at hmem
      exact hmem.2 root (.head _) (reach_of_mem_cascadeSet hmem.1)
    exact ⟨fuel + 0, _, (hrestore _).trans (hrun 0), whileLost_nothing hnothing⟩

/-- The order is restored with its note. -/
theorem restore_undoes_soft_delete_notes :
    ∃ state, softDelete notesInstance 4 100 1000 notesDb ⟨orders, 1⟩ = .ok state ∧
      ∃ fuel db, restoreWithCascade notesInstance fuel state.db ⟨orders, 1⟩ = .ok db ∧
        db.live = notesDb.live ∧ db.archive = notesDb.archive := by
  have hstored : Stored notesInstance notesDb :=
    ⟨notesDb_intact, fun _ _ _ => rfl, fun _ _ hentry => absurd hentry List.not_mem_nil⟩
  obtain ⟨state, hdelete⟩ : ∃ state, softDelete notesInstance 4 100 1000 notesDb ⟨orders, 1⟩ =
      .ok state := ⟨_, rfl⟩
  have hsingle : ∀ key ∈ notesInstance.registry, key.IsSingle ∧ key.behavior ≠ .hide := by decide
  have hnamed : namedParents notesInstance notesDb ⟨orders, 1⟩ = [] := by decide
  have hnamed' : namedParents notesInstance notesDb ⟨notes, 2⟩ = [⟨orders, 1⟩] := by decide
  have hlists : childLists notesInstance notesDb ⟨orders, 1⟩ = [[⟨notes, 2⟩]] := by decide
  have hlists' : childLists notesInstance notesDb ⟨notes, 2⟩ = [] := by decide
  have horder : ∀ lost, Fits notesInstance notesDb lost ⟨orders, 1⟩ := fun lost =>
    fits_of_single notesDb_intact hsingle rfl (fun _ _ => rfl) (by simp [hnamed])
  have hnote : ∀ lost, ⟨orders, 1⟩ ∉ lost → Fits notesInstance notesDb lost ⟨notes, 2⟩ :=
    fun lost hlost => fits_of_single notesDb_intact hsingle rfl (fun _ _ => rfl)
      (by simpa [hnamed'] using hlost)
  refine ⟨state, hdelete, (restore_undoes_soft_delete_iff hstored (fun key hkey => (hsingle key hkey).2)
    hdelete fun _ _ hentry => absurd hentry List.not_mem_nil).mpr
      ⟨fun _ _ _ hentry => absurd hentry List.not_mem_nil, ?_⟩⟩
  refine .node .refl (by rw [hnamed]; exact .nil _) (horder _) ?_
  rw [hlists]
  refine .list (clear_single fun hlost => ?_) (.none _)
  refine .node hlost ?_ (hnote _ ?_) (by rw [hlists']; exact .none _)
  · rw [hnamed']
    exact clear_single fun hmem => absurd rfl hmem.2
  · exact fun hmem => hmem.1.2 rfl

/-- Two items of an order, the second below the first and listed before it. -/
def siblingsInstance : Instance Nat :=
  { itemsInstance with scan := [⟨orders, 1⟩, ⟨items, 3⟩, ⟨items, 2⟩] }

/-- The item brings the order back before its turn. -/
theorem sibling_restored_before_its_turn :
    Stored siblingsInstance itemsDb ∧
      (∀ key ∈ siblingsInstance.registry, key.IsSingle ∧ key.behavior = .cascade) ∧
      (∀ row, itemsDb.archive row = []) ∧
      ∃ state, softDelete siblingsInstance 4 100 1000 itemsDb ⟨orders, 1⟩ = .ok state ∧
        ∀ fuel db, restoreWithCascade siblingsInstance fuel state.db ⟨orders, 1⟩ ≠ .ok db := by
  refine ⟨⟨listDb_intact (by decide) (by decide), fun _ _ _ => rfl,
    fun _ _ hentry => absurd hentry List.not_mem_nil⟩, by decide, fun _ => rfl, ?_⟩
  obtain ⟨state, hdelete, hfails⟩ : ∃ state,
      softDelete siblingsInstance 4 100 1000 itemsDb ⟨orders, 1⟩ = .ok state ∧
        (∀ fuel, (restoreWithCascade siblingsInstance (fuel + 4) state.db ⟨orders, 1⟩).map
          (fun _ => ()) = .error (.archiveMirrorMissing items (some 2))) ∧
        ∀ fuel < 4, (restoreWithCascade siblingsInstance fuel state.db ⟨orders, 1⟩).map
          (fun _ => ()) = .error .outOfFuel := ⟨_, rfl, fun _ => rfl, by decide⟩
  refine ⟨state, hdelete, ?_⟩
  intro fuel db hrun
  by_cases hsmall : fuel < 4
  · have herror := hfails.2 fuel hsmall
    rw [hrun] at herror
    cases herror
  · have herror := hfails.1 (fuel - 4)
    rw [Nat.sub_add_cancel (Nat.le_of_not_lt hsmall), hrun] at herror
    cases herror

end Stynx.SoftDelete
