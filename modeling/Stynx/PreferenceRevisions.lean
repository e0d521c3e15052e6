import Stynx.CallTables
import Stynx.OrderedMap
import Stynx.TransitionRuns

/-!
# Revisions of a subject's preferences

`packages/preferences/src/preferences.service.ts`. `patchPreferences`, `reset` and
`patchProfile` compute the new document from a read of their own; the revision that
the caller expects is compared with a second read in `mutate` and by `compareAndSet`,
which is atomic.
-/

namespace Stynx.PreferenceRevisions

open TransitionRuns CallTables OrderedMap

inductive PreferenceCategory where
  | locale
  | theme
  | accessibility
  | notificationDelivery
  deriving DecidableEq

def categories : List PreferenceCategory := [.locale, .theme, .accessibility, .notificationDelivery]

/-- The overrides of a category, as JSON texts. -/
abbrev CategoryOverrides := OrderedMap String String

abbrev PreferenceOverrides := OrderedMap PreferenceCategory CategoryOverrides

/-- What is undefined in a patch does not occur, and what is null is `none`. -/
abbrev PreferencePatch := PreferenceCategory → Option (Option (List (String × Option String)))

/-- `StoredSubjectPreferences`; a subject without a row has an empty one of revision zero. -/
structure Document where
  displayName : Option String
  avatarDocumentId : Option String
  overrides : PreferenceOverrides

def Document.empty : Document := ⟨none, none, .empty⟩

inductive Op where
  | put (overrides : PreferenceOverrides)
  | patch (changes : PreferencePatch)
  | reset (category : Option PreferenceCategory)
  /-- `patchProfile`; what is not given does not change. -/
  | profile (displayName avatarDocumentId : Option (Option String))

/-- The loop over the leaves of a category in `applyPatch`. -/
def patchLeaves (target : CategoryOverrides) (leaves : List (String × Option String)) :
    CategoryOverrides :=
  leaves.foldl (fun next leaf => match leaf.2 with
    | none => next.delete leaf.1
    | some value => next.set leaf.1 value) target

/-- The turn of `applyPatch` for one category. -/
def patchCategory (patch : PreferencePatch) (target : PreferenceOverrides)
    (category : PreferenceCategory) : PreferenceOverrides :=
  match patch category with
  | none => target
  | some none => target.delete category
  | some (some leaves) =>
    let next := patchLeaves ((target.get? category).getD .empty) leaves
    if next.entries = [] then target.delete category else target.set category next

/-- The document that a call makes of the one that it has read. -/
def Op.apply (document : Document) : Op → Document
  | .put overrides => { document with overrides := overrides }
  | .patch changes =>
    { document with overrides := categories.foldl (patchCategory changes) document.overrides }
  | .reset category =>
    { document with
      overrides := (category.elim categories ([·])).foldl OrderedMap.delete document.overrides }
  | .profile displayName avatarDocumentId =>
    { document with
      displayName := displayName.getD document.displayName
      avatarDocumentId := avatarDocumentId.getD document.avatarDocumentId }

/-- `JSON.stringify` of overrides, as a tree. -/
def stringify (overrides : PreferenceOverrides) :
    List (PreferenceCategory × List (String × String)) :=
  overrides.entries.map fun entry => (entry.1, entry.2.entries)

/-- What a call does next. -/
inductive Phase where
  | reading
  | mutating (overrides : PreferenceOverrides)
  | writing (next : Document)
  | ended

structure Call where
  op : Op
  expectedRevision : Int
  phase : Phase

/-- A call that succeeds, and the revision under which it leaves the document. -/
structure Success where
  op : Op
  expectedRevision : Int
  revision : Nat

structure State where
  document : Document := .empty
  revision : Nat := 0
  calls : List Call := []
  /-- The operations of the writes, in their order. -/
  commits : List Op := []
  successes : List Success := []

inductive Label where
  | start (op : Op) (expectedRevision : Int)
  /-- A call goes on with its next call of the store. -/
  | turn (index : Nat)
  /-- A check or the store throws. -/
  | throws (index : Nat)

/-- A call before its first call of the store. -/
def Call.initial (op : Op) (expectedRevision : Int) : Call where
  op := op
  expectedRevision := expectedRevision
  phase := match op with
    | .put overrides => .mutating overrides
    | _ => .reading

/-- What a call goes on with after a read of its own. -/
def Op.afterRead (op : Op) (document : Document) : Phase :=
  match op with
  | .profile _ _ => .writing (op.apply document)
  | _ => .mutating (op.apply document).overrides

def State.to (s : State) (index : Nat) (call : Call) (phase : Phase) : State :=
  { s with calls := s.calls.set index { call with phase := phase } }

def State.succeed (s : State) (call : Call) : State :=
  { s with successes := s.successes ++ [⟨call.op, call.expectedRevision, s.revision⟩] }

def turn (s : State) (index : Nat) (call : Call) : Option State :=
  match call.phase with
  | .reading => some (s.to index call (call.op.afterRead s.document))
  | .mutating overrides =>
    if s.revision ≠ call.expectedRevision then some (s.to index call .ended)
    else if stringify s.document.overrides = stringify overrides then
      some ((s.to index call .ended).succeed call)
    else some (s.to index call (.writing { s.document with overrides := overrides }))
  | .writing next =>
    if s.revision ≠ call.expectedRevision then some (s.to index call .ended)
    else some ({ s.to index call .ended with
      document := next
      revision := s.revision + 1
      commits := s.commits ++ [call.op] }.succeed call)
  | .ended => none

def step (s : State) : Label → Option State
  | .start op expectedRevision =>
    some { s with calls := s.calls ++ [.initial op expectedRevision] }
  | .turn index => s.calls[index]?.bind (turn s index)
  | .throws index => s.calls[index]?.map fun call => s.to index call .ended

/-- The document of a revision: all writes up to it, one after the other. -/
def documentAt (commits : List Op) (revision : Nat) : Document :=
  (commits.take revision).foldl Op.apply .empty

/-- A call that succeeds has applied its operation to the document of the revision that it expects.
-/
def Success.Lawful (commits : List Op) (success : Success) : Prop :=
  ∃ expected : Nat, success.expectedRevision = expected ∧ expected ≤ commits.length ∧
    (success.revision = expected + 1 ∧ commits[expected]? = some success.op ∨
      success.revision = expected ∧
        success.op.apply (documentAt commits expected) = documentAt commits expected)

/-- The stored document has all writes, and every call that succeeds keeps the law. -/
def Lawful (s : State) : Prop :=
  s.commits.length = s.revision ∧ s.document = documentAt s.commits s.revision ∧
    ∀ success ∈ s.successes, success.Lawful s.commits

inductive Field where
  | displayName
  | avatarDocumentId
  | preference (category : PreferenceCategory) (key : String)

def Document.get (document : Document) : Field → Option String
  | .displayName => document.displayName
  | .avatarDocumentId => document.avatarDocumentId
  | .preference category key => (document.overrides.get? category).bind (·.get? key)

def Op.Sets : Op → Field → Prop
  | .put _, .preference _ _ => True
  | .patch changes, .preference category key => ∃ leaves, changes category = some leaves ∧
      ∀ given, leaves = some given → key ∈ given.map Prod.fst
  | .reset category, .preference category' _ => ∀ c, category = some c → c = category'
  | .profile displayName _, .displayName => displayName ≠ none
  | .profile _ avatarDocumentId, .avatarDocumentId => avatarDocumentId ≠ none
  | _, _ => False

/-- A call does not read before the revision that it expects. -/
def Careful (s : State) : Label → Prop
  | .turn index => ∀ call ∈ s.calls[index]?, call.phase = .reading →
      call.expectedRevision ≤ s.revision
  | _ => True

/-- What a call has in hand is about the document of the revision that it expects. -/
def Current (revision : Nat) (document : Document) (call : Call) : Prop :=
  match call.phase with
  | .mutating overrides =>
    (∀ found, call.op.apply found = { found with overrides := overrides }) ∨
      call.expectedRevision ≤ revision ∧ (call.expectedRevision = revision →
        call.op.apply document = { document with overrides := overrides })
  | .writing next => call.expectedRevision ≤ revision ∧
      (call.expectedRevision = revision → call.op.apply document = next)
  | _ => True

structure Sound (s : State) : Prop where
  lawful : Lawful s
  current : ∀ (i : Nat) call, s.calls[i]? = some call → Current s.revision s.document call

variable {s t : State} {call : Call} {index : Nat}

theorem stringify_injective {one two : PreferenceOverrides} (h : stringify one = stringify two) :
    one = two := by
  refine OrderedMap.ext (List.map_injective_iff.mpr (fun entry entry' heq => ?_) h)
  obtain ⟨hcategory, hentries⟩ := Prod.mk.inj heq
  exact Prod.ext hcategory (OrderedMap.ext hentries)

theorem Op.apply_eq {op : Op} (h : ∀ name avatar, op ≠ .profile name avatar) (found : Document) :
    op.apply found = { found with overrides := (op.apply found).overrides } := by
  cases op with
  | profile name avatar => exact absurd rfl (h name avatar)
  | put | patch | reset => rfl

theorem documentAt_concat (commits : List Op) (op : Op) :
    documentAt (commits ++ [op]) (commits.length + 1) =
      op.apply (documentAt commits commits.length) := by
  rw [documentAt, documentAt, List.take_length, List.take_of_length_le (by simp), List.foldl_append]
  rfl

theorem Success.Lawful.concat {commits : List Op} {success : Success} (h : success.Lawful commits)
    (op : Op) : success.Lawful (commits ++ [op]) := by
  obtain ⟨expected, heq, hle, hkept⟩ := h
  refine ⟨expected, heq, by rw [List.length_append]; omega, hkept.imp (fun hwrite => ?_) ?_⟩
  · refine ⟨hwrite.1, ?_⟩
    rw [List.getElem?_append_left (List.getElem?_eq_some_iff.mp hwrite.2).1]
    exact hwrite.2
  · rw [documentAt, documentAt, List.take_append_of_le_length hle]
    exact id

theorem Sound.to (h : Sound s) {phase : Phase}
    (hcurrent : Current s.revision s.document { call with phase := phase }) :
    Sound (s.to index call phase) where
  lawful := h.lawful
  current := by
    intro i found hfound
    rcases getElem?_set_cases hfound with ⟨-, rfl⟩ | hold
    · exact hcurrent
    · exact h.current i found hold.2

theorem Sound.unchanged (h : Sound s) (hexpected : s.revision = call.expectedRevision)
    (hsame : call.op.apply s.document = s.document) : Sound (s.succeed call) where
  lawful := by
    obtain ⟨hlength, hdocument, hsuccesses⟩ := h.lawful
    refine ⟨hlength, hdocument, fun success hsuccess => ?_⟩
    rcases mem_concat_iff.mp hsuccess with hold | rfl
    · exact hsuccesses success hold
    · exact ⟨s.revision, hexpected.symm, hlength.ge, .inr ⟨rfl, hdocument ▸ hsame⟩⟩
  current := h.current

theorem Sound.commit (h : Sound s) (hexpected : s.revision = call.expectedRevision) :
    Sound ({ s with
      document := call.op.apply s.document
      revision := s.revision + 1
      commits := s.commits ++ [call.op] }.succeed call) where
  lawful := by
    obtain ⟨hlength, hdocument, hsuccesses⟩ := h.lawful
    refine ⟨by rw [← hlength]; exact List.length_append, ?_, fun success hsuccess => ?_⟩
    · rw [hdocument, ← hlength]
      exact (documentAt_concat s.commits call.op).symm
    · rcases mem_concat_iff.mp hsuccess with hold | rfl
      · exact (hsuccesses success hold).concat call.op
      · refine ⟨s.revision, hexpected.symm, ?_, .inl ⟨rfl, ?_⟩⟩
        · exact hlength ▸ List.length_append ▸ Nat.le_succ _
        · exact hlength ▸ List.getElem?_concat_length
  current := by
    intro i found hfound
    have hlater : found.expectedRevision ≤ s.revision →
        found.expectedRevision ≤ (s.revision + 1 : Nat) ∧
          found.expectedRevision ≠ (s.revision + 1 : Nat) := fun hle => by omega
    have hcurrent := h.current i found hfound
    unfold Current at hcurrent ⊢
    split at hcurrent
    · exact hcurrent.imp id fun hread =>
        ⟨(hlater hread.1).1, fun heq => absurd heq (hlater hread.1).2⟩
    · exact ⟨(hlater hcurrent.1).1, fun heq => absurd heq (hlater hcurrent.1).2⟩
    · trivial

theorem Sound.turn (h : Sound s) (hcall : s.calls[index]? = some call)
    (hcareful : call.phase = .reading → call.expectedRevision ≤ s.revision)
    (hturn : turn s index call = some t) : Sound t := by
  have hcurrent := h.current index call hcall
  have hended : Sound (s.to index call .ended) := h.to trivial
  unfold PreferenceRevisions.turn at hturn
  unfold Current at hcurrent
  split at hturn
  case h_1 hphase =>
    cases hturn
    refine h.to ?_
    unfold Op.afterRead
    split
    case h_1 => exact ⟨hcareful hphase, fun _ => rfl⟩
    case h_2 hother => exact .inr ⟨hcareful hphase, fun _ => Op.apply_eq hother _⟩
  case h_2 overrides hphase =>
    rw [hphase] at hcurrent
    split_ifs at hturn with hrevision hsame
    · cases hturn
      exact hended
    all_goals
      cases hturn
      rw [not_not] at hrevision
      have hread : call.op.apply s.document = { s.document with overrides := overrides } :=
        hcurrent.elim (fun hall => hall _) fun hlater => hlater.2 hrevision.symm
    · refine hended.unchanged hrevision (hread.trans ?_)
      rw [← stringify_injective hsame]
      rfl
    · exact h.to ⟨hrevision.ge, fun _ => hread⟩
  case h_3 next hphase =>
    rw [hphase] at hcurrent
    split_ifs at hturn with hrevision
    · cases hturn
      exact hended
    · cases hturn
      rw [not_not] at hrevision
      obtain rfl := hcurrent.2 hrevision.symm
      exact hended.commit hrevision
  case h_4 => cases hturn

theorem Sound.step {label : Label} (h : Sound s) (hcareful : Careful s label)
    (hstep : step s label = some t) : Sound t := by
  cases label with
  | start op expectedRevision =>
    cases hstep
    refine ⟨h.lawful, fun i found hfound => ?_⟩
    rcases getElem?_concat_cases hfound with ⟨-, rfl⟩ | ⟨-, hold⟩
    · cases op with
      | put overrides => exact .inl fun _ => rfl
      | patch | reset | profile => trivial
    · exact h.current i found hold
  | turn index =>
    obtain ⟨call, hcall, hturn⟩ := Option.bind_eq_some_iff.mp hstep
    exact h.turn hcall (hcareful call hcall) hturn
  | throws index =>
    obtain ⟨call, -, rfl⟩ := Option.map_eq_some_iff.mp hstep
    exact h.to trivial

theorem get?_patchLeaves {leaves : List (String × Option String)} {key : String}
    (h : key ∉ leaves.map Prod.fst) (target : CategoryOverrides) :
    (patchLeaves target leaves).get? key = target.get? key := by
  induction leaves generalizing target with
  | nil => rfl
  | cons leaf rest ih =>
    rw [List.map_cons, List.mem_cons, not_or] at h
    refine (ih h.2 _).trans ?_
    dsimp only
    split
    · rw [get?_delete, if_neg (Ne.symm h.1)]
    · exact get?_set_of_ne _ _ (Ne.symm h.1)

theorem get_patchCategory {changes : PreferencePatch} {category : PreferenceCategory} {key : String}
    (h : ¬ (Op.patch changes).Sets (.preference category key)) (target : PreferenceOverrides)
    (turn : PreferenceCategory) :
    ((patchCategory changes target turn).get? category).bind (·.get? key) =
      (target.get? category).bind (·.get? key) := by
  by_cases hturn : turn = category
  · subst hturn
    rw [patchCategory]
    split
    case h_1 => rfl
    case h_2 hnull => exact absurd ⟨none, hnull, fun given hgiven => by cases hgiven⟩ h
    case h_3 leaves hleaves =>
      have hkey : key ∉ leaves.map Prod.fst := fun hkey =>
        h ⟨some leaves, hleaves, fun given hgiven => Option.some.inj hgiven ▸ hkey⟩
      have hnext : (patchLeaves ((target.get? turn).getD .empty) leaves).get? key =
          (target.get? turn).bind (·.get? key) := by
        rw [get?_patchLeaves hkey]
        cases target.get? turn <;> rfl
      rw [← hnext]
      dsimp only
      split
      case isTrue hempty => rw [get?_delete, if_pos rfl, OrderedMap.get?, hempty]; rfl
      case isFalse => rw [get?_set_self]; rfl
  · have hset : ∀ next, (target.set turn next).get? category = target.get? category :=
      fun next => get?_set_of_ne _ _ hturn
    have hdelete : (target.delete turn).get? category = target.get? category := by
      rw [get?_delete, if_neg hturn]
    rw [patchCategory]
    split
    case h_1 => rfl
    case h_2 => rw [hdelete]
    case h_3 => dsimp only; split <;> simp only [hset, hdelete]

theorem Op.get_apply {op : Op} {field : Field} (h : ¬ op.Sets field) (document : Document) :
    (op.apply document).get field = document.get field := by
  cases op with
  | put overrides =>
    cases field with
    | preference => exact absurd trivial h
    | displayName | avatarDocumentId => rfl
  | patch changes =>
    cases field with
    | preference category key =>
      have hturns : ∀ (turns : List PreferenceCategory) target,
          ((turns.foldl (patchCategory changes) target).get? category).bind (·.get? key) =
            (target.get? category).bind (·.get? key) := by
        intro turns
        induction turns with
        | nil => exact fun _ => rfl
        | cons turn rest ih => exact fun target => (ih _).trans (get_patchCategory h target turn)
      exact hturns categories document.overrides
    | displayName | avatarDocumentId => rfl
  | reset category =>
    cases field with
    | preference category' key =>
      cases category with
      | none => exact absurd (fun _ hsome => by cases hsome) h
      | some category =>
        have hother : category ≠ category' := fun heq => h fun _ hsome => by cases hsome; exact heq
        simp only [Op.apply, Document.get, Option.elim, List.foldl_cons, List.foldl_nil]
        rw [get?_delete, if_neg hother]
    | displayName | avatarDocumentId => rfl
  | profile displayName avatarDocumentId =>
    cases field with
    | preference => rfl
    | displayName =>
      obtain rfl : displayName = none := not_not.mp h
      rfl
    | avatarDocumentId =>
      obtain rfl : avatarDocumentId = none := not_not.mp h
      rfl

/-- While no call reads before the revision that it expects, each call that succeeds leaves what its
operation makes of the document of that revision, the stored document has the writes of all, and an
operation sets no other field than its own. -/
theorem revisions_lawful (labels : List Label) (s : State) (hcareful : RunMeets step Careful {} labels)
    (hrun : run step {} labels = some s) :
    Lawful s ∧ ∀ op ∈ s.commits, ∀ field, ¬ op.Sets field → ∀ document : Document,
      (op.apply document).get field = document.get field := by
  have hstart : Sound {} :=
    ⟨⟨rfl, rfl, fun _ hsuccess => by cases hsuccess⟩, fun i call hcall => by cases hcall⟩
  have hsound : Sound s := run_invariant_of_meets
    (fun _ _ _ hs hok hstep => hs.step hok hstep) hstart hcareful hrun
  exact ⟨hsound.lawful, fun op _ field hfield document => Op.get_apply hfield document⟩

/-- Two changes of the name, one after the other. -/
def renamings : List Label :=
  [.start (.profile (some (some "Ada")) none) 0, .turn 0, .turn 0,
    .start (.profile (some (some "Ida")) none) 1, .turn 1, .turn 1]

theorem revisions_lawful_run : ∃ s, run step {} renamings = some s ∧ Lawful s := by
  refine ⟨_, rfl, (revisions_lawful renamings _ ⟨trivial, ?_, ?_, trivial, ?_, ?_, trivial⟩ rfl).1⟩
  all_goals
    intro call hcall _
    cases hcall
    exact le_rfl

/-- A call puts back the name that another one has changed since its read. -/
theorem update_lost : ¬ ∀ labels s, run step {} labels = some s → Lawful s := by
  intro h
  obtain ⟨-, hdocument, -⟩ := h [.start (.profile none (some (some "p1"))) 1, .turn 0,
    .start (.profile (some (some "Ada")) none) 0, .turn 1, .turn 1, .turn 0] _ rfl
  cases congrArg Document.displayName hdocument

def Success.writes (success : Success) : Bool := success.revision = success.expectedRevision + 1

/-- The successes that write have the revisions from 1 on, in order. -/
def Numbered (s : State) : Prop :=
  s.commits.length = s.revision ∧
    (s.successes.filter Success.writes).map (fun success => (success.op, success.revision)) =
      s.commits.zipIdx 1

theorem Numbered.turn (h : Numbered s) (hturn : turn s index call = some t) : Numbered t := by
  unfold PreferenceRevisions.turn at hturn
  split at hturn
  case h_1 =>
    cases hturn
    exact h
  case h_2 overrides hphase =>
    split_ifs at hturn with hrevision hsame
    all_goals cases hturn
    · exact h
    · -- it has found what it was to write, so the revision is the expected one
      have hkept : s.revision ≠ call.expectedRevision + 1 := by omega
      have hfilter : (s.succeed call).successes.filter Success.writes =
          s.successes.filter Success.writes := by
        simp [State.succeed, Success.writes, hkept]
      exact ⟨h.1, (congrArg _ hfilter).trans h.2⟩
    · exact h
  case h_3 next hphase =>
    split_ifs at hturn with hrevision
    all_goals cases hturn
    · exact h
    · have hfilter : ({ s with revision := s.revision + 1 }.succeed call).successes.filter
          Success.writes = s.successes.filter Success.writes ++
            [⟨call.op, call.expectedRevision, s.revision + 1⟩] := by
        simp [State.succeed, Success.writes, ← not_not.mp hrevision]
      refine ⟨List.length_append.trans (congrArg (· + 1) h.1), (congrArg _ hfilter).trans ?_⟩
      rw [List.map_append, h.2, List.map_singleton, ← h.1, Nat.add_comm]
      exact (List.zipIdx_append : (s.commits ++ [call.op]).zipIdx 1 = _).symm
  case h_4 => cases hturn

/-- Whatever the calls have read, and in any interleaving, each revision is written by one call, which
has expected the revision before it: no two calls write for one expected revision. -/
theorem one_write_for_each_revision (labels : List Label) (s : State)
    (hrun : run step {} labels = some s) : Numbered s := by
  refine run_invariant ?_ ⟨rfl, rfl⟩ hrun
  intro s label t hs hstep
  cases label with
  | start op expectedRevision =>
    cases hstep
    exact hs
  | turn index =>
    obtain ⟨call, -, hturn⟩ := Option.bind_eq_some_iff.mp hstep
    exact hs.turn hturn
  | throws index =>
    obtain ⟨call, -, rfl⟩ := Option.map_eq_some_iff.mp hstep
    exact hs

theorem one_write_for_each_revision_renamings : ∃ s, run step {} renamings = some s ∧ Numbered s :=
  ⟨_, rfl, one_write_for_each_revision renamings _ rfl⟩

end Stynx.PreferenceRevisions
