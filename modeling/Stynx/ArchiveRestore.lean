import Stynx.Recovery
import Stynx.SoftDeleteCascade

/-!
# Restoring what a soft delete has archived

A restore brings a row back with its family. It lists the archived parents of a
row before it restores them, and the children under a key before it restores
these; each restored row brings its own family back first.
-/

namespace Stynx.SoftDelete

open Relation (ReflTransGen)
open ExceptFolds

variable {V : Type} [DecidableEq V]

/-- What the database guarantees of unique values, and of the keys of the mirrors. -/
structure Stored (inst : Instance V) (db : Db V) : Prop extends Intact inst db where
  unique : ∀ row columns, db.live row = some columns → findRestoreConflict inst db row columns = none
  /-- Keys of a mirror come from its sequence. -/
  numbered : ∀ row, ∀ entry ∈ db.archive row, entry.archiveId < db.nextArchiveId row.table

def cascadeSet (inst : Instance V) (db : Db V) (root : RowId V) : Set (RowId V) :=
  { row | ReflTransGen (fun parent child => child ∈ cascadeChildren inst db parent) root row }

structure Mirrored (start archived : Db V) (deletedAt : Int) (row : RowId V)
    (entry : ArchiveEntry V) : Prop where
  columns : start.live row = some entry.columns
  archive : archived.archive row = entry :: start.archive row
  deletedAt : entry.deletedAt = deletedAt
  /-- The key is new. -/
  fresh : ∀ older ∈ start.archive row, older.archiveId ≠ entry.archiveId

/-- Some rows have been archived at an instant, and the others are as they were. -/
structure Archived (inst : Instance V) (start archived : Db V) (deletedAt : Int)
    (rows : Set (RowId V)) : Prop where
  gone : ∀ row ∈ rows, archived.live row = none ∧ inst.mirrors row.table = true ∧
    ∃ entry, Mirrored start archived deletedAt row entry
  others : ∀ row ∉ rows, archived.live row = start.live row ∧
    archived.archive row = start.archive row

section

variable {inst : Instance V} {maxCascadeDepth maxCascadeRows : Nat} {start : Db V}
  {deletedAt : Int} {state state' : SoftDeleteState V} {root row : RowId V}

omit [DecidableEq V] in
theorem not_isNulled (hkeys : ∀ key ∈ inst.registry, key.behavior ≠ .hide) (table : TableName)
    (name : String) : ¬IsNulled inst table name := by
  intro hnulled
  obtain ⟨key, hkey, hbehavior, -⟩ := hnulled
  exact hkeys key hkey hbehavior

theorem Moved.listChildIds_eq (hkeys : ∀ key ∈ inst.registry, key.behavior ≠ .hide)
    (h : Moved inst start deletedAt state) {entry : RegistryEntry}
    (hentry : entry ∈ cascadeEntries inst row.table) :
    listChildIds inst state.db entry row.id =
      (listChildIds inst start entry row.id).filter fun child => child ∉ state.cascaded := by
  obtain ⟨key, -, -, -, rfl⟩ := mem_cascadeEntries.mp hentry
  exact h.childRows_eq (not_isNulled hkeys _ _) row.id

/-- What a soft delete has done so far: the rows belong to the cascade, and have new keys. -/
structure Begun (inst : Instance V) (start : Db V) (deletedAt : Int) (root : RowId V)
    (state : SoftDeleteState V) : Prop extends Moved inst start deletedAt state where
  reached : ∀ row ∈ state.cascaded, row ∈ cascadeSet inst start root
  /-- Sequences go up. -/
  sequence : ∀ table, start.nextArchiveId table ≤ state.db.nextArchiveId table
  /-- The keys are new. -/
  fresh : ∀ row ∈ state.cascaded, ∀ entry older, state.db.archive row = entry :: older →
    start.nextArchiveId row.table ≤ entry.archiveId

theorem Begun.archiveRow (h : Begun inst start deletedAt root state)
    (hrow : row ∈ cascadeSet inst start root) (hmirror : inst.mirrors row.table = true)
    (harchive : archiveRow inst deletedAt row state = .ok state') :
    Begun inst start deletedAt root state' := by
  obtain ⟨-, -, columns, hlive, rfl⟩ := archiveRow_eq_ok.mp harchive
  have hmem : ∀ other ∈ state.cascaded ++ [row], other ≠ row → other ∈ state.cascaded := by
    intro other hother hne
    rcases List.mem_append.mp hother with hmem | hlast
    · exact hmem
    · exact absurd (List.mem_singleton.mp hlast) hne
  refine ⟨h.toMoved.archiveMove hlive hmirror, ?_, ?_, ?_⟩
  · intro other hother
    by_cases heq : other = row
    · exact heq ▸ hrow
    · exact h.reached other (hmem other hother heq)
  · intro table
    have hold := h.sequence table
    simp only [archiveMove]
    split <;> omega
  · intro other hother entry older hentry
    by_cases heq : other = row
    · subst heq
      simp only [archiveMove, if_true] at hentry
      rw [← (List.cons.inj hentry).1]
      exact h.sequence other.table
    · simp only [archiveMove, if_neg heq] at hentry
      exact h.fresh other (hmem other hother heq) entry older hentry

variable {remaining : Nat}

theorem softDeleteByReference_begun (hkeys : ∀ key ∈ inst.registry, key.behavior ≠ .hide)
    (hstate : Begun inst start deletedAt root state) (hrow : row ∈ cascadeSet inst start root)
    (h : softDeleteByReference inst maxCascadeDepth maxCascadeRows deletedAt remaining state row =
      .ok state') : Begun inst start deletedAt root state' := by
  refine softDeleteByReference_preserves (P := Begun inst start deletedAt root)
    (Q := fun row => row ∈ cascadeSet inst start root) ?_ ?_ hstate hrow h
  · intro state row hbegun hreached entry hentry child hchild
    rw [hbegun.toMoved.listChildIds_eq hkeys hentry] at hchild
    exact hreached.tail (List.mem_flatMap.mpr ⟨entry, hentry, (List.mem_filter.mp hchild).1⟩)
  · intro first last other hfirst hother hmirror harchive
    exact hfirst.archiveRow hother hmirror harchive

theorem softDeleteByReference_mono {other : RowId V} (hmem : other ∈ state.cascaded)
    (h : softDeleteByReference inst maxCascadeDepth maxCascadeRows deletedAt remaining state row =
      .ok state') : other ∈ state'.cascaded := by
  refine softDeleteByReference_preserves (P := fun state => other ∈ state.cascaded)
    (fun _ _ _ _ _ _ _ _ => trivial) ?_ hmem trivial h
  intro first last row hfirst _ _ harchive
  obtain ⟨-, -, columns, -, rfl⟩ := archiveRow_eq_ok.mp harchive
  exact List.mem_append_left _ hfirst

/-- With a row, its children have been archived. -/
structure Closed (inst : Instance V) (start : Db V) (deletedAt : Int)
    (state : SoftDeleteState V) : Prop extends Moved inst start deletedAt state where
  children : ∀ row ∈ state.cascaded, ∀ child ∈ cascadeChildren inst start row,
    child ∈ state.cascaded

theorem softDeleteByReference_closed (hkeys : ∀ key ∈ inst.registry, key.behavior ≠ .hide)
    (hstate : Closed inst start deletedAt state)
    (h : softDeleteByReference inst maxCascadeDepth maxCascadeRows deletedAt remaining state row =
      .ok state') : Closed inst start deletedAt state' ∧ row ∈ state'.cascaded := by
  induction remaining generalizing state state' row with
  | zero => cases h
  | succ remaining ih =>
    have hmoved := softDeleteByReference_moved hstate.toMoved h
    rw [softDeleteByReference] at h
    split at h
    · cases h
    · obtain ⟨loop, hloop, harchive⟩ := bind_eq_ok.mp h
      have hdone : Closed inst start deletedAt loop.1 ∧ ∀ entry ∈ cascadeEntries inst row.table,
          ∀ child ∈ listChildIds inst start entry row.id, child ∈ loop.1.cascaded := by
        refine foldlM_covers (P := fun loop : SoftDeleteState V × Nat =>
            Closed inst start deletedAt loop.1)
          (R := fun entry loop => ∀ child ∈ listChildIds inst start entry row.id,
            child ∈ loop.1.cascaded) ?_ ?_ hloop hstate
        · intro entry hentry first last hfirst hlast
          dsimp only at hlast
          split at hlast
          · cases hlast
          · obtain ⟨after, hchildren, hafter⟩ := bind_eq_ok.mp hlast
            cases hafter
            obtain ⟨hclosed, hlisted⟩ := foldlM_covers
              (P := Closed inst start deletedAt) (R := fun child state => child ∈ state.cascaded)
              (fun child _ middle middle' hP hmiddle => ih hP hmiddle)
              (fun child other _ middle middle' hmem _ hmiddle =>
                softDeleteByReference_mono hmem hmiddle) hchildren hfirst
            refine ⟨hclosed, ?_⟩
            intro child hchild
            by_cases hmem : child ∈ first.1.cascaded
            · exact foldlM_preserves (P := fun state => child ∈ state.cascaded)
                (fun _ _ _ _ hmem hmiddle => softDeleteByReference_mono hmem hmiddle) hchildren hmem
            · refine hlisted child ?_
              rw [hfirst.toMoved.listChildIds_eq hkeys hentry]
              exact List.mem_filter.mpr ⟨hchild, decide_eq_true hmem⟩
        · intro entry other _ first last hlisted _ hlast child hchild
          dsimp only at hlast
          split at hlast
          · cases hlast
          · obtain ⟨after, hchildren, hafter⟩ := bind_eq_ok.mp hlast
            cases hafter
            exact foldlM_preserves (P := fun state => child ∈ state.cascaded)
              (fun _ _ _ _ hmem hmiddle => softDeleteByReference_mono hmem hmiddle) hchildren
              (hlisted child hchild)
      obtain ⟨-, -, columns, -, rfl⟩ := archiveRow_eq_ok.mp harchive
      refine ⟨⟨hmoved, ?_⟩, by simp⟩
      intro other hother child hchild
      refine List.mem_append_left _ ?_
      rcases List.mem_append.mp hother with hmem | hlast
      · exact hdone.1.children other hmem child hchild
      · rw [List.mem_singleton.mp hlast] at hchild
        obtain ⟨entry, hentry, hchild⟩ := List.mem_flatMap.mp hchild
        exact hdone.2 entry hentry child hchild

theorem softDelete_archived (hstored : Stored inst start)
    (hkeys : ∀ key ∈ inst.registry, key.behavior ≠ .hide)
    (h : softDelete inst maxCascadeDepth maxCascadeRows deletedAt start root = .ok state) :
    Archived inst start state.db deletedAt (cascadeSet inst start root) := by
  obtain ⟨-, -, hrun⟩ := bind_eq_ok.mp h
  have hnothing := Moved.nothing inst start deletedAt
  have hbegun : Begun inst start deletedAt root state :=
    softDeleteByReference_begun hkeys ⟨hnothing, fun _ hrow => absurd hrow List.not_mem_nil,
      fun _ => le_rfl, fun _ hrow => absurd hrow List.not_mem_nil⟩ .refl hrun
  obtain ⟨hclosed, hroot⟩ := softDeleteByReference_closed hkeys
    ⟨hnothing, fun _ hrow => absurd hrow List.not_mem_nil⟩ hrun
  have hmem : ∀ row, row ∈ cascadeSet inst start root → row ∈ state.cascaded := by
    intro row hrow
    induction hrow with
    | refl => exact hroot
    | tail _ hlast ih => exact hclosed.children _ ih _ hlast
  have hsame : ∀ {table : TableName} {old new : Columns V}, SameRow inst table old new →
      new = old := fun hsame => funext fun name => hsame name (not_isNulled hkeys _ name)
  refine ⟨?_, ?_⟩
  · intro row hrow
    obtain ⟨hnone, hmirror, columns, hstart, entry, hat, hcolumns, harchive⟩ :=
      hbegun.archived row (hmem row hrow)
    have hfresh := hbegun.fresh row (hmem row hrow) entry _ harchive
    refine ⟨hnone, hmirror, entry, hstart.trans (congrArg some (hsame hcolumns).symm), harchive, hat,
      ?_⟩
    intro older holder
    have hbelow := hstored.numbered row older holder
    omega
  · intro row hrow
    obtain ⟨harchive, hnone, hsome⟩ := hbegun.kept row fun hin => hrow (hbegun.reached row hin)
    refine ⟨?_, harchive⟩
    cases hstart : start.live row with
    | none => exact hnone hstart
    | some columns =>
      obtain ⟨columns', hcolumns', heq⟩ := hsome columns hstart
      rw [hcolumns', hsame heq]

end

/-- Some rows have been restored: live rows stay, and of a mirror the latest rows go first. -/
structure Restores (db db' : Db V) : Prop where
  /-- Live rows stay, and so do their mirrors. -/
  live : ∀ row columns, db.live row = some columns →
    db'.live row = some columns ∧ db'.archive row = db.archive row
  archive : ∀ row, ∀ entry ∈ db'.archive row, entry ∈ db.archive row
  /-- What has gone from the mirror was the latest, and the row is live. -/
  removed : ∀ row, ∀ entry ∈ db.archive row, entry ∉ db'.archive row →
    (db'.live row).isSome ∧ ∃ latest ∈ db.archive row, latest.archiveId = entry.archiveId ∧
      ∀ other ∈ db'.archive row, other.deletedAt ≤ latest.deletedAt

section

variable {inst : Instance V} {db db' db'' : Db V} {row : RowId V}

omit [DecidableEq V] in
theorem Restores.refl (db : Db V) : Restores db db :=
  ⟨fun _ _ hlive => ⟨hlive, rfl⟩, fun _ _ hentry => hentry, fun _ _ hentry hgone =>
    absurd hentry hgone⟩

omit [DecidableEq V] in
theorem Restores.isSome (h : Restores db db') (hlive : (db.live row).isSome) :
    (db'.live row).isSome := by
  obtain ⟨columns, hcolumns⟩ := Option.isSome_iff_exists.mp hlive
  rw [(h.live row columns hcolumns).1]
  rfl

omit [DecidableEq V] in
theorem Restores.trans (h : Restores db db') (h' : Restores db' db'') : Restores db db'' where
  live row columns hlive := by
    obtain ⟨hlive', harchive⟩ := h.live row columns hlive
    obtain ⟨hlive'', harchive'⟩ := h'.live row columns hlive'
    exact ⟨hlive'', harchive'.trans harchive⟩
  archive row entry hentry := h.archive row entry (h'.archive row entry hentry)
  removed row entry hentry hgone := by
    by_cases hmiddle : entry ∈ db'.archive row
    · obtain ⟨hlive, latest, hlatest, hid, hmax⟩ := h'.removed row entry hmiddle hgone
      exact ⟨hlive, latest, h.archive row latest hlatest, hid, hmax⟩
    · obtain ⟨hlive, latest, hlatest, hid, hmax⟩ := h.removed row entry hentry hmiddle
      exact ⟨h'.isSome hlive, latest, hlatest, hid,
        fun other hother => hmax other (h'.archive row other hother)⟩

variable {archived : ArchiveEntry V} {other : RowId V} {fuel : Nat}

omit [DecidableEq V] in
theorem latest_eq_some {entries : List (ArchiveEntry V)} (h : latest entries = some archived) :
    archived ∈ entries ∧ ∀ other ∈ entries, other.deletedAt ≤ archived.deletedAt := by
  induction entries generalizing archived with
  | nil => cases h
  | cons entry rest ih =>
    rw [latest] at h
    cases hrest : latest rest with
    | none =>
      rw [hrest] at h
      obtain rfl := Option.some.inj h
      have hempty : rest = [] := by
        cases rest with
        | nil => rfl
        | cons first others =>
          rw [latest] at hrest
          split at hrest
          · cases hrest
          · split at hrest <;> cases hrest
      subst hempty
      exact ⟨List.mem_cons_self, fun other hother => by rw [List.mem_singleton.mp hother]⟩
    | some other =>
      obtain ⟨hmem, hmax⟩ := ih hrest
      rw [hrest] at h
      dsimp only at h
      split at h
      · rename_i hlt
        obtain rfl := Option.some.inj h
        refine ⟨.tail _ hmem, ?_⟩
        intro third hthird
        rcases List.mem_cons.mp hthird with rfl | hthird
        · omega
        · exact hmax third hthird
      · rename_i hle
        obtain rfl := Option.some.inj h
        refine ⟨(.head _), ?_⟩
        intro third hthird
        rcases List.mem_cons.mp hthird with rfl | hthird
        · exact Int.le_refl _
        · have hbelow := hmax third hthird
          omega

omit [DecidableEq V] in
theorem loadArchivedRow_eq_some (h : loadArchivedRow db row none = some archived) :
    archived ∈ db.archive row ∧ ∀ other ∈ db.archive row, other.deletedAt ≤ archived.deletedAt := by
  have hall : ((db.archive row).filter fun entry =>
      (none : Option Nat).all fun id => entry.archiveId = id) = db.archive row := by
    rw [List.filter_eq_self]
    exact fun _ _ => rfl
  rw [loadArchivedRow, hall] at h
  exact latest_eq_some h

/-- A row is live again, and has gone from the mirror. -/
def putBack (db : Db V) (row : RowId V) (archived : ArchiveEntry V) : Db V :=
  { db with
    live := fun other => if other = row then some archived.columns else db.live other
    archive := fun other =>
      if other = row then (db.archive row).filter fun entry => entry.archiveId ≠ archived.archiveId
      else db.archive other }

section

variable (archived : ArchiveEntry V)

@[simp] theorem putBack_live_self :
    (putBack db row archived).live row = some archived.columns := if_pos rfl

@[simp] theorem putBack_archive_self :
    (putBack db row archived).archive row =
      (db.archive row).filter fun entry => entry.archiveId ≠ archived.archiveId := if_pos rfl

theorem putBack_live_of_ne (h : other ≠ row) :
    (putBack db row archived).live other = db.live other := if_neg h

theorem putBack_archive_of_ne (h : other ≠ row) :
    (putBack db row archived).archive other = db.archive other := if_neg h

end

theorem putBack_restores (hlive : db.live row = none) (harchived : archived ∈ db.archive row)
    (hmax : ∀ other ∈ db.archive row, other.deletedAt ≤ archived.deletedAt) :
    Restores db (putBack db row archived) := by
  refine ⟨?_, ?_, ?_⟩
  · intro other columns hother
    have hne : other ≠ row := by
      intro heq
      rw [heq, hlive] at hother
      cases hother
    exact ⟨(putBack_live_of_ne archived hne).trans hother, putBack_archive_of_ne archived hne⟩
  · intro other entry hentry
    by_cases heq : other = row
    · subst heq
      rw [putBack_archive_self] at hentry
      exact (List.mem_filter.mp hentry).1
    · rwa [putBack_archive_of_ne archived heq] at hentry
  · intro other entry hentry hgone
    by_cases heq : other = row
    · subst heq
      have hid : archived.archiveId = entry.archiveId := by
        by_contra hne
        refine hgone ?_
        rw [putBack_archive_self]
        exact List.mem_filter.mpr ⟨hentry, decide_eq_true (Ne.symm hne)⟩
      refine ⟨by simp, archived, harchived, hid, ?_⟩
      intro latest hlatest
      rw [putBack_archive_self] at hlatest
      exact hmax latest (List.mem_filter.mp hlatest).1
    · rw [putBack_archive_of_ne archived heq] at hgone
      exact absurd hentry hgone

theorem insertRestored_eq_ok :
    insertRestored inst db row archived = .ok db' ↔
      ((∃ entry ∈ db.archive row, entry.archiveId = archived.archiveId) ∧ db.live row = none ∧
        lacksParent inst db row archived.columns = false ∧ db' = putBack db row archived) ∨
      (∀ entry ∈ db.archive row, entry.archiveId ≠ archived.archiveId) ∧ db' = db := by
  rw [insertRestored]
  split
  · rename_i hany
    have hsome : ∃ entry ∈ db.archive row, entry.archiveId = archived.archiveId := by
      simpa using hany
    have hnot : ¬∀ entry ∈ db.archive row, entry.archiveId ≠ archived.archiveId := by
      intro hall
      obtain ⟨entry, hentry, hid⟩ := hsome
      exact hall entry hentry hid
    cases hlive : db.live row with
    | some columns => simp [hnot]
    | none =>
      cases hlacks : lacksParent inst db row archived.columns with
      | true => simp [hnot]
      | false =>
        rw [if_neg (by simp), if_neg (by simp)]
        constructor
        · intro h
          cases h
          exact .inl ⟨hsome, rfl, rfl, rfl⟩
        · intro h
          rcases h with ⟨-, -, -, rfl⟩ | ⟨hall, -⟩
          · rfl
          · exact absurd hall hnot
  · rename_i hnone
    have hall : ∀ entry ∈ db.archive row, entry.archiveId ≠ archived.archiveId := by
      simpa using hnone
    constructor
    · intro h
      cases h
      exact .inr ⟨hall, rfl⟩
    · intro h
      rcases h with ⟨⟨entry, hentry, hid⟩, -⟩ | ⟨-, rfl⟩
      · exact absurd hid (hall entry hentry)
      · rfl

/-- The loop of a restore over the children under one key. -/
def restoreEntry (inst : Instance V) (fuel : Nat) (row : RowId V) (deletedAt : Int) (db : Db V)
    (entry : RegistryEntry) : Except (Failure V) (Db V) :=
  if !inst.mirrors entry.child then .error (.database "42P01")
  else (archivedChildren inst db entry row.id deletedAt).foldlM
    (restoreByReference inst fuel none true) db

theorem restoreByReference_eq_ok :
    restoreByReference inst (fuel + 1) none true db row = .ok db' ↔
      inst.mirrors row.table = true ∧ ∃ archived, loadArchivedRow db row none = some archived ∧
        ∃ parents, findArchivedParents inst db row archived.columns = .ok parents ∧
        ∃ above, parents.foldlM (restoreByReference inst fuel none true) db = .ok above ∧
        findRestoreConflict inst above row archived.columns = none ∧
        ∃ back, insertRestored inst above row archived = .ok back ∧
        (cascadeEntries inst row.table).foldlM (restoreEntry inst fuel row archived.deletedAt) back =
          .ok db' := by
  rw [restoreByReference]
  cases hmirror : inst.mirrors row.table with
  | false => simp
  | true =>
    rw [if_neg (by simp), and_iff_right rfl]
    cases hload : loadArchivedRow db row none with
    | none => simp
    | some archived =>
      constructor
      · intro h
        obtain ⟨parents, hparents, hrest⟩ := bind_eq_ok.mp h
        rw [if_neg (by simp)] at hrest
        obtain ⟨above, habove, hback⟩ := bind_eq_ok.mp hrest
        refine ⟨archived, rfl, parents, hparents, above, habove, ?_⟩
        cases hconflict : findRestoreConflict inst above row archived.columns with
        | some constraint =>
          rw [hconflict] at hback
          cases hback
        | none =>
          rw [hconflict] at hback
          exact ⟨rfl, bind_eq_ok.mp hback⟩
      · intro h
        obtain ⟨archived', hsame, parents, hparents, above, habove, hconflict, hback⟩ := h
        obtain rfl := Option.some.inj hsame
        refine bind_eq_ok.mpr ⟨parents, hparents, ?_⟩
        rw [if_neg (by simp)]
        refine bind_eq_ok.mpr ⟨above, habove, ?_⟩
        rw [hconflict]
        exact bind_eq_ok.mpr hback

theorem restoreByReference_restores (h : restoreByReference inst fuel none true db row = .ok db') :
    Restores db db' ∧ db.live row = none ∧ (db'.live row).isSome := by
  induction fuel generalizing db db' row with
  | zero => cases h
  | succ fuel ih =>
    obtain ⟨-, archived, hload, parents, -, above, habove, -, back, hback, hchildren⟩ :=
      restoreByReference_eq_ok.mp h
    have hrows : ∀ {rows : List (RowId V)} {first last : Db V},
        rows.foldlM (restoreByReference inst fuel none true) first = .ok last →
        Restores first last := fun hfold =>
      foldlM_relation Restores Restores.refl (fun _ _ _ => Restores.trans)
        (fun _ _ _ hstep => (ih hstep).1) hfold
    have hbelow : Restores back db' := by
      refine foldlM_relation Restores Restores.refl (fun _ _ _ => Restores.trans) ?_ hchildren
      intro first entry last hentry
      rw [restoreEntry] at hentry
      split at hentry
      · cases hentry
      · exact hrows hentry
    obtain ⟨hloaded, hmax⟩ := loadArchivedRow_eq_some hload
    have hfirst := hrows habove
    rcases insertRestored_eq_ok.mp hback with ⟨-, hnone, -, rfl⟩ | ⟨hgone, rfl⟩
    · have hstill : archived ∈ above.archive row := by
        by_contra hgone
        have hlive := (hfirst.removed row archived hloaded hgone).1
        rw [hnone] at hlive
        cases hlive
      have hput := putBack_restores hnone hstill
        fun other hother => hmax other (hfirst.archive row other hother)
      refine ⟨hfirst.trans (hput.trans hbelow), ?_, hbelow.isSome (by simp)⟩
      cases hlive : db.live row with
      | none => rfl
      | some columns =>
        rw [(hfirst.live row columns hlive).1] at hnone
        cases hnone
    · have hmoved : archived ∉ back.archive row := fun hmem => hgone archived hmem rfl
      refine ⟨hfirst.trans hbelow, ?_, hbelow.isSome (hfirst.removed row archived hloaded hmoved).1⟩
      cases hlive : db.live row with
      | none => rfl
      | some columns =>
        rw [(hfirst.live row columns hlive).2] at hmoved
        exact absurd hloaded hmoved

theorem restoreAll_restores {rows : List (RowId V)}
    (h : rows.foldlM (restoreByReference inst fuel none true) db = .ok db') :
    Restores db db' ∧ ∀ row ∈ rows, (db'.live row).isSome := by
  refine ⟨?_, (foldlM_covers (P := fun _ => True) (R := fun row db => (db.live row).isSome)
    ?_ ?_ h trivial).2⟩
  · exact foldlM_relation Restores Restores.refl (fun _ _ _ => Restores.trans)
      (fun _ _ _ hstep => (restoreByReference_restores hstep).1) h
  · exact fun row _ _ _ _ hstep => ⟨trivial, (restoreByReference_restores hstep).2.2⟩
  · exact fun row _ _ _ _ hlive _ hstep => (restoreByReference_restores hstep).1.isSome hlive

theorem restoreEntries_restores {deletedAt : Int} {entries : List RegistryEntry}
    (h : entries.foldlM (restoreEntry inst fuel row deletedAt) db = .ok db') : Restores db db' := by
  refine foldlM_relation Restores Restores.refl (fun _ _ _ => Restores.trans) ?_ h
  intro first entry last hentry
  rw [restoreEntry] at hentry
  split at hentry
  · cases hentry
  · exact (restoreAll_restores hentry).1

theorem insertRestored_isSome (h : insertRestored inst db row archived = .ok db')
    (hlive : (db.live other).isSome) : (db'.live other).isSome := by
  rcases insertRestored_eq_ok.mp h with ⟨-, -, -, rfl⟩ | ⟨-, rfl⟩
  · by_cases heq : other = row
    · rw [heq, putBack_live_self]
      rfl
    · rwa [putBack_live_of_ne archived heq]
  · exact hlive

end

end Stynx.SoftDelete
