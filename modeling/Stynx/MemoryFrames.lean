import Mathlib.Data.List.Sort
import Stynx.VersionChains

/-!
# Nested transaction frames of the in-memory store

`mutateTenant` opens a root frame and `ownedFrame` a frame inside another one. A write adds a
version to the chain of its key and an undo record to its frame; a frame that ends well hands its
records to its parent, and one that fails undoes them, with those of the frames still open inside
it. Claims keep frames that are not nested off the same key, and the past of a key is cut with
its last claim.

A key here is a map of the store together with a key in it. Frames and versions are numbered. A
dereference of a missing version sets `missing`.
-/

namespace Stynx.MemoryFrames

open VersionChains

universe u v

variable {κ : Type u} {ν : Type v}

/-- `MemoryProjectionChange`: which version to undo. -/
structure Change (κ : Type u) where
  order : Nat
  key : κ
  version : Nat

/-- `MemoryMutationFrame`. -/
structure Frame (κ : Type u) where
  parent : Option Nat
  active : Bool
  ended : Bool
  /-- Frames inside it that have not ended. -/
  children : List Nat
  changes : List (Change κ)
  claims : List κ

/-- A frame that was never opened. -/
def Frame.unopened : Frame κ := ⟨none, false, true, [], [], []⟩

/-- The map and the frames on it. -/
structure Memory (κ : Type u) (ν : Type v) where
  frames : Nat → Frame κ
  frameCount : Nat
  heap : Nat → Version κ ν
  heapCount : Nat
  /-- `projectionVersions`: the top of the chain of a key. -/
  versions : κ → Option Nat
  /-- `projectionClaims`: the frames that claim a key. -/
  owners : κ → List Nat
  map : κ → Option ν
  projectionSequence : Nat
  /-- Whether a missing version was dereferenced. -/
  missing : Bool

/-- A frame and the frames around it, innermost first. -/
def lineage (parent : Nat → Option Nat) : Nat → Nat → List Nat
  | 0, frame => [frame]
  | fuel + 1, frame =>
    frame ::
      match parent frame with
      | some outer => lineage parent fuel outer
      | none => []

namespace Memory

/-- The loop `for (current = frame; current; current = current.parent)`. -/
def chain (mem : Memory κ ν) (frame : Nat) : List Nat :=
  lineage (fun g => (mem.frames g).parent) frame frame

def frameIsActive (mem : Memory κ ν) (frame : Nat) : Bool :=
  (mem.chain frame).all fun g => (mem.frames g).active

def isAncestor (mem : Memory κ ν) (ancestor frame : Nat) : Bool :=
  (mem.chain frame).contains ancestor

def isComplete (mem : Memory κ ν) (frame : Nat) : Bool :=
  mem.frameIsActive frame && (mem.frames frame).children.isEmpty

def mapFrames (mem : Memory κ ν) (f : Nat → Frame κ → Frame κ) : Memory κ ν :=
  { mem with frames := fun g => f g (mem.frames g) }

def onFrame (mem : Memory κ ν) (frame : Nat) (f : Frame κ → Frame κ) : Memory κ ν :=
  mem.mapFrames fun g record => if g = frame then f record else record

section

variable [DecidableEq κ]

/-- `assertProjectionClaim`. -/
def mayClaim (mem : Memory κ ν) (frame : Nat) (key : κ) : Bool :=
  mem.frameIsActive frame &&
    (mem.owners key).all fun owner => mem.isAncestor owner frame || mem.isAncestor frame owner

/-- Put a version on top of the chain of a key. -/
def setVersion (mem : Memory κ ν) (key : κ) (version : Nat) : Memory κ ν :=
  { mem with versions := fun k => if k = key then some version else mem.versions k }

def allocate (mem : Memory κ ν) (version : Version κ ν) : Memory κ ν :=
  { mem with
    heap := fun v => if v = mem.heapCount then version else mem.heap v
    heapCount := mem.heapCount + 1 }

def claimChain (mem : Memory κ ν) (frame : Nat) (key : κ) : Memory κ ν :=
  let chain := mem.chain frame
  { mem.mapFrames fun g record =>
      if chain.contains g then { record with claims := record.claims.insert key } else record with
    owners := fun k => if k = key then mem.owners k ∪ chain else mem.owners k }

/-- `claimProjection` after its check; a key without a chain gets its first version. -/
def claimProjection (mem : Memory κ ν) (frame : Nat) (key : κ) : Memory κ ν :=
  let claimed := mem.claimChain frame key
  match mem.versions key with
  | some _ => claimed
  | none => (claimed.allocate ⟨key, none, mem.map key, false⟩).setVersion key mem.heapCount

/-- The new version, the undo record and the map entry of `writeProjection`. -/
def pushVersion (mem : Memory κ ν) (frame : Nat) (key : κ) (value : ν) : Memory κ ν :=
  let version := mem.heapCount
  let order := mem.projectionSequence + 1
  let written := (mem.allocate ⟨key, mem.versions key, some value, false⟩).setVersion key version
  let recorded := written.onFrame frame fun record =>
    { record with changes := record.changes ++ [⟨order, key, version⟩] }
  { recorded with
    projectionSequence := order
    map := fun k => if k = key then some value else mem.map k }

/-- `writeProjection` after its check. -/
def writeProjection (mem : Memory κ ν) (frame : Nat) (key : κ) (value : ν) : Memory κ ν :=
  (mem.claimProjection frame key).pushVersion frame key value

/-- The `undo` closure of a projection write. -/
def undo (mem : Memory κ ν) (change : Change κ) : Memory κ ν :=
  if mem.versions change.key = some change.version then
    match (mem.heap change.version).previous with
    | none => { mem with missing := true }
    | some below =>
      match prior mem.heap below below with
      | none => { mem with missing := true }
      | some found =>
        { mem.setVersion change.key found with
          map := fun k => if k = change.key then (mem.heap found).content else mem.map k }
  else mem

/-- The loop body of `releaseClaims`. -/
def releaseClaim (frame : Nat) (mem : Memory κ ν) (key : κ) : Memory κ ν :=
  let owners := (mem.owners key).filter (· ≠ frame)
  let released := { mem with owners := fun k => if k = key then owners else mem.owners k }
  if owners.isEmpty then
    match mem.versions key with
    | none => { released with missing := true }
    | some version =>
      { released with
        heap := fun v =>
          if v = version then { mem.heap v with previous := none } else mem.heap v }
  else released

def releaseClaims (mem : Memory κ ν) (frame : Nat) : Memory κ ν :=
  ((mem.frames frame).claims.foldl (releaseClaim frame) mem).onFrame frame fun record =>
    { record with claims := [] }

/-- The frames that `close` visits. -/
def subtree (frames : Nat → Frame κ) : Nat → Nat → List Nat
  | 0, frame => [frame]
  | fuel + 1, frame => frame :: (frames frame).children.flatMap (subtree frames fuel)

/-- `close`: the frames cannot write any more, and their records are taken away. -/
def close (mem : Memory κ ν) (frames : List Nat) : Memory κ ν :=
  mem.mapFrames fun g record =>
    if frames.contains g then { record with active := false, changes := [] } else record

/-- Flag the versions of undone writes. -/
def flag (mem : Memory κ ν) (changes : List (Change κ)) : Memory κ ν :=
  { mem with
    heap := fun v =>
      if changes.any (fun change => change.version = v) then
        { mem.heap v with rolledBack := true }
      else mem.heap v }

def rollbackFrame (mem : Memory κ ν) (frame : Nat) : Memory κ ν :=
  let frames := subtree mem.frames mem.frameCount frame
  let changes := frames.flatMap fun g => (mem.frames g).changes
  let flagged := (mem.close frames).flag changes
  let undone := (changes.insertionSort fun left right => right.order ≤ left.order).foldl undo flagged
  frames.foldl releaseClaims undone

def handOver (mem : Memory κ ν) (frame outer : Nat) : Memory κ ν :=
  mem.onFrame outer fun record =>
    { record with changes := record.changes ++ (mem.frames frame).changes }

/-- A frame can write no more and leaves the frame around it. -/
def detach (mem : Memory κ ν) (frame : Nat) : Memory κ ν :=
  let closed := mem.onFrame frame fun record =>
    { record with active := false, ended := true, changes := [] }
  match (mem.frames frame).parent with
  | some outer => closed.onFrame outer fun record =>
      { record with children := record.children.filter (· ≠ frame) }
  | none => closed

/-- The `finally` block of `mutateTenant` and `ownedFrame`. -/
def leave (mem : Memory κ ν) (frame : Nat) : Memory κ ν :=
  (mem.detach frame).releaseClaims frame

/-- A frame ends well. -/
def commitFrame (mem : Memory κ ν) (frame : Nat) : Memory κ ν :=
  match (mem.frames frame).parent with
  | some outer => (mem.handOver frame outer).leave frame
  | none => mem.leave frame

def openFrame (mem : Memory κ ν) (parent : Option Nat) : Memory κ ν :=
  let opened :=
    { mem.onFrame mem.frameCount fun _ => ⟨parent, true, false, [], [], []⟩ with
      frameCount := mem.frameCount + 1 }
  match parent with
  | some outer => opened.onFrame outer fun record =>
      { record with children := record.children ++ [mem.frameCount] }
  | none => opened

end

end Memory

/-- What code running inside frames does. -/
inductive Action (κ : Type u) (ν : Type v) where
  | openRoot
  | openChild (parent : Nat)
  | claim (frame : Nat) (key : κ)
  | write (frame : Nat) (key : κ) (value : ν)
  | finish (frame : Nat) (resolved : Bool)
  | forget (frame : Nat)

/-- What happened to the writes. -/
inductive Event (κ : Type u) (ν : Type v) where
  | opened (parent : Option Nat)
  | claimed
  | wrote (frame : Nat) (key : κ) (value : ν)
  | committed (frame : Nat)
  | rolledBack (frame : Nat)
  | kept (frame : Nat)

/-- One action; `forget` is the assignment `changes = []` after a stored batch item. -/
def perform [DecidableEq κ] (mem : Memory κ ν) : Action κ ν → Option (Memory κ ν × Event κ ν)
  | .openRoot => some (mem.openFrame none, .opened none)
  | .openChild parent =>
    if parent < mem.frameCount ∧ mem.frameIsActive parent = true then
      some (mem.openFrame (some parent), .opened (some parent))
    else none
  | .claim frame key =>
    if frame < mem.frameCount ∧ mem.mayClaim frame key = true then
      some (mem.claimProjection frame key, .claimed)
    else none
  | .write frame key value =>
    if frame < mem.frameCount ∧ mem.mayClaim frame key = true then
      some (mem.writeProjection frame key value, .wrote frame key value)
    else none
  | .finish frame resolved =>
    if (mem.frames frame).ended then none
    else if resolved && mem.isComplete frame then some (mem.commitFrame frame, .committed frame)
    else some ((mem.rollbackFrame frame).leave frame, .rolledBack frame)
  | .forget frame =>
    if (mem.frames frame).ended then none
    else some (mem.onFrame frame fun record => { record with changes := [] }, .kept frame)

def Memory.start (map : κ → Option ν) (anyKey : κ) : Memory κ ν :=
  { frames := fun _ => .unopened
    frameCount := 0
    heap := fun _ => ⟨anyKey, none, none, false⟩
    heapCount := 0
    versions := fun _ => none
    owners := fun _ => []
    map := map
    projectionSequence := 0
    missing := false }

/-- The writes that survive, oldest first, each with the frame whose rollback still undoes it. -/
structure Journal (κ : Type u) (ν : Type v) where
  /-- The value of each key before all frames. -/
  initial : κ → Option ν
  parent : Nat → Option Nat
  frameCount : Nat
  log : List (Entry κ ν)

namespace Journal

/-- No frame and no write. -/
def start (map : κ → Option ν) : Journal κ ν := ⟨map, fun _ => none, 0, []⟩

/-- What a commit makes of a holder: the frame around it takes over. -/
def handedTo (outer : Option Nat) (frame : Nat) (holder : Option Nat) : Option (Option Nat) :=
  some (if holder = some frame then outer else holder)

/-- What a rollback makes of a holder: nothing, if it is the frame or inside it. -/
def undoneIn (parent : Nat → Option Nat) (frame : Nat) : Option Nat → Option (Option Nat)
  | none => some none
  | some holder => if frame ∈ lineage parent holder holder then none else some (some holder)

def settle (journal : Journal κ ν) (fate : Option Nat → Option (Option Nat)) : Journal κ ν :=
  { journal with log := journal.log.filterMap (Entry.settle fate) }

def record (journal : Journal κ ν) : Event κ ν → Journal κ ν
  | .opened parent =>
    { journal with
      parent := fun g => if g = journal.frameCount then parent else journal.parent g
      frameCount := journal.frameCount + 1 }
  | .claimed => journal
  | .wrote frame key value => { journal with log := journal.log ++ [⟨key, value, some frame⟩] }
  | .committed frame => journal.settle (handedTo (journal.parent frame) frame)
  | .rolledBack frame => journal.settle (undoneIn journal.parent frame)
  | .kept frame => journal.settle (handedTo none frame)

section

variable [DecidableEq κ]

/-- The surviving writes to a key, newest first. -/
def writesTo (journal : Journal κ ν) (key : κ) : List (Entry κ ν) :=
  (journal.log.filter fun entry => entry.key = key).reverse

/-- The value of the last surviving write, or the value before all frames. -/
def value (journal : Journal κ ν) (key : κ) : Option ν :=
  read (journal.initial key) (journal.writesTo key)

end

end Journal

/-- The map with its frames, beside the journal of what happened. -/
structure System (κ : Type u) (ν : Type v) where
  memory : Memory κ ν
  journal : Journal κ ν

def step [DecidableEq κ] (s : System κ ν) (a : Action κ ν) : Option (System κ ν) :=
  (perform s.memory a).map fun p => ⟨p.1, s.journal.record p.2⟩

end Stynx.MemoryFrames
