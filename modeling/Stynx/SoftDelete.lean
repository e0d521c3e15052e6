import Mathlib.Logic.Basic

/-!
# Soft delete and restore

A soft delete moves a row, and the rows that reference it by cascade keys, from the live tables
to their archive mirrors. The registry names the foreign keys; the code follows the first column
of each. A restore brings a row back, the archived rows that it references before it, and the
rows of the same soft delete that reference it after it.

Rows are named by table and id, which is not empty; null is `none`. A query returns the rows in any
one order. The database refuses to delete a row that is referenced by a cascade or block key, and
sets hide keys to null.
-/

namespace Stynx.SoftDelete

structure TableName where
  schema : String
  table : String
  deriving DecidableEq

/-- What happens to the children of an archived row. -/
inductive Behavior where
  | hide
  | cascade
  | block
  deriving DecidableEq

/-- A registered foreign key. Each column of the child is paired with a column of the parent. -/
structure ForeignKey where
  parent : TableName
  child : TableName
  fkConstraint : String
  behavior : Behavior
  first : String × String
  more : List (String × String)

def ForeignKey.columns (key : ForeignKey) : List (String × String) := key.first :: key.more

/-- A row of the registry query. -/
structure RegistryEntry where
  parent : TableName
  child : TableName
  fkConstraint : String
  behavior : Behavior
  childColumn : String

def ForeignKey.entry (key : ForeignKey) : RegistryEntry :=
  ⟨key.parent, key.child, key.fkConstraint, key.behavior, key.first.1⟩

structure UniqueConstraint where
  table : TableName
  name : String
  columns : List String

structure RowId (V : Type) where
  table : TableName
  id : V
  deriving DecidableEq

/-- The columns of a row, but for the id. -/
abbrev Columns (V : Type) := String → Option V

/-- A row of an archive mirror. -/
structure ArchiveEntry (V : Type) where
  archiveId : Nat
  columns : Columns V
  deletedAt : Int

/-- Schema and registry. -/
structure Instance (V : Type) where
  registry : List ForeignKey
  /-- Unique constraints, but for the primary keys. -/
  uniques : List UniqueConstraint
  mirrors : TableName → Bool
  /-- The order in which queries return rows. -/
  scan : List (RowId V)

/-- Live tables and archive mirrors. -/
@[ext]
structure Db (V : Type) where
  live : RowId V → Option (Columns V)
  archive : RowId V → List (ArchiveEntry V)
  nextArchiveId : TableName → Nat

/-- Some children of a row. -/
structure BlockingChildren (V : Type) where
  table : TableName
  count : Nat
  sampleIds : List V
  deriving DecidableEq

inductive Failure (V : Type) where
  | cascadeTooDeep (attempted maxDepth : Nat) (parent : RowId V)
  | cascadeTooLarge (maxRows : Nat) (parent : RowId V)
  | softDeleteBlocked (parent : RowId V) (blockingChildren : List (BlockingChildren V))
  | archiveMirrorMissing (table : TableName) (id : Option V)
  | parentsArchived (archivedParents : List (RowId V))
  | restoreConflict (conflictingConstraint : String) (id : V)
  | database (code : String)
  /-- The recursion is not deep enough. -/
  | outOfFuel
  deriving DecidableEq

variable {V : Type} [DecidableEq V]

def RowId.column (row : RowId V) (columns : Columns V) (name : String) : Option V :=
  if name = "id" then some row.id else columns name

/-- The columns of the child are those of the parent, and none is null. -/
def ForeignKey.fits (key : ForeignKey) (child : RowId V) (childColumns : Columns V)
    (parent : RowId V) (parentColumns : Columns V) : Bool :=
  key.columns.all fun pair =>
    (child.column childColumns pair.1).isSome &&
      child.column childColumns pair.1 = parent.column parentColumns pair.2

def ForeignKey.references (key : ForeignKey) (db : Db V) (child parent : RowId V) : Bool :=
  child.table = key.child && parent.table = key.parent &&
    (db.live child).any fun childColumns =>
      (db.live parent).any fun parentColumns => key.fits child childColumns parent parentColumns

section

variable (inst : Instance V)

def loadRegistryByParent (parent : TableName) : List RegistryEntry :=
  (inst.registry.filter fun key => key.parent = parent).map ForeignKey.entry

def loadRegistryByChild (child : TableName) : List RegistryEntry :=
  (inst.registry.filter fun key => key.child = child).map ForeignKey.entry

def childRows (db : Db V) (entry : RegistryEntry) (parentId : V) : List (RowId V) :=
  inst.scan.filter fun row =>
    row.table = entry.child &&
      (db.live row).any fun columns => row.column columns entry.childColumn = some parentId

def listChildIds (db : Db V) (entry : RegistryEntry) (parentId : V) : List (RowId V) :=
  childRows inst db entry parentId

def describeBlockingChildren (db : Db V) (row : RowId V) : List (BlockingChildren V) :=
  ((loadRegistryByParent inst row.table).filter fun entry => entry.behavior = .block).filterMap
    fun entry =>
      let children : List (RowId V) := childRows inst db entry row.id
      if children.length = 0 then none
      else some ⟨entry.child, children.length, (children.take 10).map RowId.id⟩

/-- The parent that `findArchivedParents` looks up for an entry. -/
def parentOf (entry : RegistryEntry) (row : RowId V) (columns : Columns V) : Option (RowId V) :=
  (row.column columns entry.childColumn).map fun id => ⟨entry.parent, id⟩

/-- An entry by which `findArchivedParents` and the cascade relate rows. -/
def RegistryEntry.holds (entry : RegistryEntry) : Bool :=
  entry.behavior = .block || entry.behavior = .cascade

def findArchivedParents (db : Db V) (row : RowId V) (columns : Columns V) :
    Except (Failure V) (List (RowId V)) :=
  ((loadRegistryByChild inst row.table).filter RegistryEntry.holds).foldlM
    (fun parents entry =>
      match parentOf entry row columns with
      | none => .ok parents
      | some parent =>
        if (db.live parent).isSome then .ok parents
        else if !inst.mirrors parent.table then .error (.database "42P01")
        else if (db.archive parent).isEmpty then .ok parents
        else .ok (parents ++ [parent])) []

end

section

variable (inst : Instance V) (maxCascadeDepth maxCascadeRows : Nat)

structure CascadeStep where
  table : TableName
  rowCount : Nat
  deriving DecidableEq

/-- `CascadePlan`, for a plan within the limits. -/
structure CascadePlan where
  steps : List CascadeStep
  totalRows : Nat
  maxDepth : Nat
  deriving DecidableEq

def cascadeEntries (table : TableName) : List RegistryEntry :=
  (loadRegistryByParent inst table).filter fun entry => entry.behavior = .cascade

def buildCascadePlan (db : Db V) : Nat → RowId V → Except (Failure V) CascadePlan
  | 0, row => .error (.cascadeTooDeep (maxCascadeDepth + 1) maxCascadeDepth row)
  | remaining + 1, row => do
    let plan ← (cascadeEntries inst row.table).foldlM
      (fun (plan : CascadePlan) entry =>
        let children := listChildIds inst db entry row.id
        if children.length = 0 then .ok plan
        else
          children.foldlM
            (fun (plan : CascadePlan) child => do
              let childPlan ← buildCascadePlan db remaining child
              .ok ⟨plan.steps ++ childPlan.steps, plan.totalRows + (childPlan.totalRows - 1),
                max plan.maxDepth childPlan.maxDepth⟩)
            ⟨plan.steps ++ [⟨entry.child, children.length⟩], plan.totalRows + children.length,
              plan.maxDepth⟩)
      ⟨[], 1, maxCascadeDepth - remaining⟩
    if maxCascadeRows < plan.totalRows then .error (.cascadeTooLarge maxCascadeRows row)
    else .ok plan

def softDeleteDryRun (db : Db V) (row : RowId V) : Except (Failure V) CascadePlan :=
  if !inst.mirrors row.table then .error (.archiveMirrorMissing row.table none)
  else buildCascadePlan inst maxCascadeDepth maxCascadeRows db (maxCascadeDepth + 1) row

/-- The database during a soft delete, and the rows that have been archived. -/
structure SoftDeleteState (V : Type) where
  db : Db V
  cascaded : List (RowId V)

def setNull (db : Db V) (deleted row : RowId V) (columns : Columns V) : Columns V := fun name =>
  if inst.registry.any fun key => key.behavior = .hide && key.references db row deleted &&
      key.columns.any fun pair => pair.1 = name
  then none else columns name

/-- A cascade or block key of another live row references the row. -/
def isReferenced (db : Db V) (row : RowId V) : Bool :=
  inst.registry.any fun key => key.behavior ≠ .hide &&
    inst.scan.any fun child => child ≠ row && key.references db child row

/-- `insert into` the mirror, and `delete from` the live table. -/
def archiveMove (db : Db V) (row : RowId V) (columns : Columns V) (deletedAt : Int) : Db V where
  live other := if other = row then none else (db.live other).map (setNull inst db row other)
  archive other :=
    if other = row then ⟨db.nextArchiveId row.table, columns, deletedAt⟩ :: db.archive row
    else db.archive other
  nextArchiveId table :=
    if table = row.table then db.nextArchiveId table + 1 else db.nextArchiveId table

def archiveRow (deletedAt : Int) (row : RowId V) (state : SoftDeleteState V) :
    Except (Failure V) (SoftDeleteState V) :=
  let blockingChildren := describeBlockingChildren inst state.db row
  if blockingChildren.length > 0 then .error (.softDeleteBlocked row blockingChildren)
  else
    match state.db.live row with
    | none => .error (.archiveMirrorMissing row.table (some row.id))
    | some columns =>
      if isReferenced inst state.db row then .error (.softDeleteBlocked row blockingChildren)
      else .ok ⟨archiveMove inst state.db row columns deletedAt, state.cascaded ++ [row]⟩

def softDeleteByReference (deletedAt : Int) :
    Nat → SoftDeleteState V → RowId V → Except (Failure V) (SoftDeleteState V)
  | 0, _, row => .error (.cascadeTooDeep (maxCascadeDepth + 1) maxCascadeDepth row)
  | remaining + 1, state, row =>
    if !inst.mirrors row.table then .error (.archiveMirrorMissing row.table none)
    else do
      let loop ← (cascadeEntries inst row.table).foldlM
        (fun (loop : SoftDeleteState V × Nat) entry =>
          let children := listChildIds inst loop.1.db entry row.id
          let totalRows := loop.2 + children.length
          if maxCascadeRows < totalRows then .error (.cascadeTooLarge maxCascadeRows row)
          else do
            let state ← children.foldlM (softDeleteByReference deletedAt remaining) loop.1
            .ok (state, totalRows))
        (state, 1)
      archiveRow inst deletedAt row loop.1

/-- `softDelete`: the plan is made first, and again row by row. -/
def softDelete (deletedAt : Int) (db : Db V) (row : RowId V) :
    Except (Failure V) (SoftDeleteState V) := do
  let _plan ← softDeleteDryRun inst maxCascadeDepth maxCascadeRows db row
  softDeleteByReference inst maxCascadeDepth maxCascadeRows deletedAt (maxCascadeDepth + 1) ⟨db, []⟩
    row

end

variable (inst : Instance V)

/-- `order by deleted_at desc limit 1`. -/
def latest : List (ArchiveEntry V) → Option (ArchiveEntry V)
  | [] => none
  | entry :: rest =>
    match latest rest with
    | none => some entry
    | some other => if entry.deletedAt < other.deletedAt then some other else some entry

def loadArchivedRow (db : Db V) (row : RowId V) (archiveId : Option Nat) :
    Option (ArchiveEntry V) :=
  latest ((db.archive row).filter fun entry => archiveId.all fun id => entry.archiveId = id)

def findRestoreConflict (db : Db V) (row : RowId V) (columns : Columns V) :
    Option UniqueConstraint :=
  inst.uniques.find? fun constraint =>
    constraint.table = row.table &&
      (constraint.columns.all fun name => (row.column columns name).isSome) &&
      inst.scan.any fun other =>
        other ≠ row && other.table = row.table &&
          (db.live other).any fun otherColumns =>
            constraint.columns.all fun name =>
              other.column otherColumns name = row.column columns name

def lacksParent (db : Db V) (row : RowId V) (columns : Columns V) : Bool :=
  inst.registry.any fun key =>
    key.child = row.table && (key.columns.all fun pair => (row.column columns pair.1).isSome) &&
      !inst.scan.any fun parent =>
        parent.table = key.parent &&
          ((parent = row && key.fits row columns row columns) ||
            (db.live parent).any fun parentColumns => key.fits row columns parent parentColumns)

/-- `insert into` the live table from the mirror, and `delete from` the mirror. -/
def insertRestored (db : Db V) (row : RowId V) (archived : ArchiveEntry V) :
    Except (Failure V) (Db V) :=
  if (db.archive row).any fun entry => entry.archiveId = archived.archiveId then
    if (db.live row).isSome then .error (.restoreConflict "unique_violation" row.id)
    else if lacksParent inst db row archived.columns then .error (.database "23503")
    else
      .ok
        { db with
          live := fun other => if other = row then some archived.columns else db.live other
          archive := fun other =>
            if other = row then
              (db.archive row).filter fun entry => entry.archiveId ≠ archived.archiveId
            else db.archive other }
  else .ok db

def archivedChildren (db : Db V) (entry : RegistryEntry) (parentId : V) (deletedAt : Int) :
    List (RowId V) :=
  inst.scan.flatMap fun row =>
    if row.table = entry.child then
      ((db.archive row).filter fun archived =>
        row.column archived.columns entry.childColumn = some parentId &&
          archived.deletedAt = deletedAt).map fun _ => row
    else []

def restoreByReference : Nat → Option Nat → Bool → Db V → RowId V → Except (Failure V) (Db V)
  | 0, _, _, _, _ => .error .outOfFuel
  | fuel + 1, archiveId, cascade, db, row =>
    if !inst.mirrors row.table then .error (.database "42P01")
    else
      match loadArchivedRow db row archiveId with
      | none => .error (.archiveMirrorMissing row.table (some row.id))
      | some archived => do
        let archivedParents ← findArchivedParents inst db row archived.columns
        if archivedParents.length > 0 && !cascade then .error (.parentsArchived archivedParents)
        else do
          let db ← archivedParents.foldlM (restoreByReference fuel none true) db
          match findRestoreConflict inst db row archived.columns with
          | some constraint => .error (.restoreConflict constraint.name row.id)
          | none => do
            let db ← insertRestored inst db row archived
            if cascade then
              (cascadeEntries inst row.table).foldlM
                (fun db entry =>
                  if !inst.mirrors entry.child then .error (.database "42P01")
                  else
                    (archivedChildren inst db entry row.id archived.deletedAt).foldlM
                      (restoreByReference fuel none true) db)
                db
            else .ok db

def restoreWithCascade (fuel : Nat) (db : Db V) (row : RowId V) : Except (Failure V) (Db V) :=
  if !inst.mirrors row.table then .error (.archiveMirrorMissing row.table none)
  else restoreByReference inst fuel none true db row

end Stynx.SoftDelete
