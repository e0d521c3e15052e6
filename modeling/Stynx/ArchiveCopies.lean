import Stynx.ArchiveRestore

/-!
# Copies of rows

Soft deletes and restores move rows between the live tables and the mirrors. Whatever
calls succeed, a row has as many copies, live or archived, as at the start.
-/

namespace Stynx.SoftDelete

open ExceptFolds

variable {V : Type} [DecidableEq V]

/-- `restoreFromArchive`, of one entry of the mirror or of the latest. -/
def restoreFromArchive (inst : Instance V) (fuel : Nat) (archiveId : Option Nat) (cascade : Bool)
    (db : Db V) (row : RowId V) : Except (Failure V) (Db V) :=
  if !inst.mirrors row.table then .error (.archiveMirrorMissing row.table none)
  else restoreByReference inst fuel archiveId cascade db row

inductive Call (V : Type) where
  | softDelete (maxCascadeDepth maxCascadeRows : Nat) (deletedAt : Int) (row : RowId V)
  | restoreFromArchive (fuel : Nat) (archiveId : Option Nat) (cascade : Bool) (row : RowId V)

/-- A call in a transaction of its own, which an error rolls back. -/
def perform (inst : Instance V) (db : Db V) : Call V → Db V
  | .softDelete maxCascadeDepth maxCascadeRows deletedAt row =>
    ((softDelete inst maxCascadeDepth maxCascadeRows deletedAt db row).map
      SoftDeleteState.db).toOption.getD db
  | .restoreFromArchive fuel archiveId cascade row =>
    (restoreFromArchive inst fuel archiveId cascade db row).toOption.getD db

/-- The live row and its entries in the mirror. -/
def Db.copies (db : Db V) (row : RowId V) : Nat :=
  (db.live row).toList.length + (db.archive row).length

/-- The identifiers of a mirror come from its sequence. -/
def Numbered (db : Db V) (row : RowId V) : Prop :=
  (∀ entry ∈ db.archive row, entry.archiveId < db.nextArchiveId row.table) ∧
    ((db.archive row).map ArchiveEntry.archiveId).Nodup

def Conserves (start db : Db V) : Prop :=
  ∀ row, Numbered db row ∧ db.copies row = start.copies row

variable {inst : Instance V} {start db db' : Db V} {row : RowId V} {archived : ArchiveEntry V}

theorem Conserves.archiveMove (h : Conserves start db) {columns : Columns V} {deletedAt : Int}
    (hlive : db.live row = some columns) :
    Conserves start (archiveMove inst db row columns deletedAt) := by
  intro other
  obtain ⟨⟨hbelow, hdistinct⟩, hcopies⟩ := h other
  rw [← hcopies]
  by_cases heq : other = row
  · subst heq
    refine ⟨⟨?_, ?_⟩, ?_⟩
    · simpa [SoftDelete.archiveMove] using fun entry hentry =>
        (hbelow entry hentry).trans (Nat.lt_succ_self _)
    · simpa [SoftDelete.archiveMove, hdistinct] using fun entry hentry => (hbelow entry hentry).ne
    · simp [Db.copies, SoftDelete.archiveMove, hlive, Nat.add_comm]
  · have hnext : db.nextArchiveId other.table ≤
        (SoftDelete.archiveMove inst db row columns deletedAt).nextArchiveId other.table := by
      dsimp only [SoftDelete.archiveMove]
      split <;> omega
    refine ⟨⟨fun entry hentry => ?_, ?_⟩, ?_⟩
    · exact (hbelow entry (by simpa [SoftDelete.archiveMove, heq] using hentry)).trans_le hnext
    · simpa [SoftDelete.archiveMove, heq] using hdistinct
    · simp only [Db.copies, SoftDelete.archiveMove, heq, if_false]
      cases db.live other <;> rfl

theorem Conserves.putBack (h : Conserves start db) (hlive : db.live row = none)
    (hmem : ∃ entry ∈ db.archive row, entry.archiveId = archived.archiveId) :
    Conserves start (putBack db row archived) := by
  intro other
  obtain ⟨⟨hbelow, hdistinct⟩, hcopies⟩ := h other
  rw [← hcopies]
  by_cases heq : other = row
  · subst heq
    have hids : ((db.archive other).filter fun entry => entry.archiveId ≠ archived.archiveId).map
        ArchiveEntry.archiveId =
          ((db.archive other).map ArchiveEntry.archiveId).erase archived.archiveId := by
      rw [hdistinct.erase_eq_filter, List.filter_map]
      exact congrArg _ (List.filter_congr fun entry _ => by simp [bne, beq_eq_decide])
    have hlength := List.length_erase_add_one (List.mem_map.mpr hmem)
    rw [← hids, List.length_map, List.length_map] at hlength
    rw [Numbered, Db.copies, Db.copies, putBack_live_self, putBack_archive_self, hids, hlive]
    refine ⟨⟨fun entry hentry => hbelow entry (List.mem_filter.mp hentry).1, hdistinct.erase _⟩, ?_⟩
    rw [← hlength, Option.toList_some, Option.toList_none, List.length_singleton, List.length_nil]
    omega
  · rw [Numbered, Db.copies, Db.copies, putBack_live_of_ne archived heq,
      putBack_archive_of_ne archived heq]
    exact ⟨⟨hbelow, hdistinct⟩, rfl⟩

theorem restoreByReference_conserves {fuel : Nat} {archiveId : Option Nat} {cascade : Bool}
    (h : Conserves start db)
    (hrun : restoreByReference inst fuel archiveId cascade db row = .ok db') :
    Conserves start db' := by
  induction fuel generalizing db db' row archiveId cascade with
  | zero => cases hrun
  | succ fuel ih =>
    rw [restoreByReference] at hrun
    split at hrun
    case isTrue => cases hrun
    split at hrun
    case h_1 => cases hrun
    case h_2 archived _ =>
      obtain ⟨parents, -, hparents⟩ := bind_eq_ok.mp hrun
      split at hparents
      case isTrue => cases hparents
      obtain ⟨above, habove, hrest⟩ := bind_eq_ok.mp hparents
      have hrows : ∀ {rows : List (RowId V)} {first last : Db V},
          rows.foldlM (restoreByReference inst fuel none true) first = .ok last →
          Conserves start first → Conserves start last := fun hfold =>
        foldlM_preserves (fun _ _ _ _ hfirst hstep => ih hfirst hstep) hfold
      have hbegun := hrows habove h
      split at hrest
      case h_1 => cases hrest
      case h_2 =>
        obtain ⟨back, hback, hchildren⟩ := bind_eq_ok.mp hrest
        have hrestored : Conserves start back := by
          rcases insertRestored_eq_ok.mp hback with ⟨hsome, hnone, -, rfl⟩ | ⟨-, rfl⟩
          · exact hbegun.putBack hnone hsome
          · exact hbegun
        split_ifs at hchildren
        · refine foldlM_preserves ?_ hchildren hrestored
          intro entry _ first last hfirst hentry
          split_ifs at hentry
          exact hrows hentry hfirst
        · cases hchildren
          exact hrestored

theorem Conserves.perform (h : Conserves start db) (call : Call V) :
    Conserves start (perform inst db call) := by
  cases call with
  | softDelete maxCascadeDepth maxCascadeRows deletedAt row =>
    dsimp only [SoftDelete.perform]
    cases hrun : softDelete inst maxCascadeDepth maxCascadeRows deletedAt db row with
    | error => exact h
    | ok state =>
      obtain ⟨plan, -, hdelete⟩ := bind_eq_ok.mp hrun
      refine softDeleteByReference_preserves (P := fun state => Conserves start state.db)
        (fun _ _ _ _ _ _ _ _ => trivial) ?_ h trivial hdelete
      intro first last other hfirst _ _ harchive
      obtain ⟨-, -, columns, hlive, rfl⟩ := archiveRow_eq_ok.mp harchive
      exact hfirst.archiveMove hlive
  | restoreFromArchive fuel archiveId cascade row =>
    dsimp only [SoftDelete.perform]
    cases hrun : restoreFromArchive inst fuel archiveId cascade db row with
    | error => exact h
    | ok last =>
      rw [restoreFromArchive] at hrun
      split_ifs at hrun
      exact restoreByReference_conserves h hrun

/-- Soft deletes and restores, in any order and of any rows, lose no row and double none. -/
theorem copies_conserved (inst : Instance V) (hstart : ∀ row, Numbered start row)
    (calls : List (Call V)) (row : RowId V) :
    (calls.foldl (perform inst) start).copies row = start.copies row := by
  have hrun : ∀ db, Conserves start db → Conserves start (calls.foldl (perform inst) db) := by
    induction calls with
    | nil => exact fun db h => h
    | cons call rest ih => exact fun db h => ih _ (h.perform call)
  exact (hrun start (fun row => ⟨hstart row, rfl⟩) row).2

/-- An order with its note is deleted, restored and deleted again. -/
theorem copies_conserved_notes :
    ([Call.softDelete 4 100 1000 ⟨orders, 1⟩, .restoreFromArchive 4 none true ⟨orders, 1⟩,
      .softDelete 4 100 2000 ⟨orders, 1⟩].foldl (perform notesInstance) notesDb).copies ⟨notes, 2⟩ =
        1 :=
  copies_conserved notesInstance
    (fun _ => ⟨fun _ hentry => absurd hentry List.not_mem_nil, by simp [notesDb, listDb]⟩) _ _

end Stynx.SoftDelete
