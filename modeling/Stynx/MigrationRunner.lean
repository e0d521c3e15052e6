import Mathlib.Data.List.Sort
import Stynx.ReadCommitted

/-!
# Runs of the platform migrations

A run reads the ledger once, and then goes through the files of the directory in the order of
their names. Each file that was not in the ledger has a transaction: the SQL is executed, and the
file is recorded unless it is already there. An error ends the run.

A database is its ledger and the files whose SQL has been committed, in order.
-/

namespace Stynx.MigrationRunner

open ReadCommitted
open TransitionRuns
open scoped List

def utf16Units (char : Char) : List Nat :=
  if char.toNat < 0x10000 then [char.toNat]
  else [0xd800 + (char.toNat - 0x10000) / 0x400, 0xdc00 + (char.toNat - 0x10000) % 0x400]

/-- The order of `Array.prototype.sort` without a comparison. -/
def filenameOrder (first second : String) : Prop :=
  ¬List.Lex (fun a b : Nat => a < b) (second.toList.flatMap utf16Units)
    (first.toList.flatMap utf16Units)

instance (first second : String) : Decidable (filenameOrder first second) :=
  inferInstanceAs (Decidable (¬List.Lex (fun a b : Nat => a < b) _ _))

instance : Std.Total filenameOrder where
  total first second :=
    List.le_total (first.toList.flatMap utf16Units) (second.toList.flatMap utf16Units)

instance : IsTrans String filenameOrder where
  trans first second third h h' :=
    @List.le_trans Nat _ _ _ _ (first.toList.flatMap utf16Units)
      (second.toList.flatMap utf16Units) (third.toList.flatMap utf16Units) h h'

/-- The files that a run goes through. -/
def migrationFiles (entries : List String) : List String :=
  (entries.filter fun entry => ".sql".toList.isSuffixOf entry.toList).insertionSort filenameOrder

theorem migrationFiles_sorted (entries : List String) :
    (migrationFiles entries).Pairwise filenameOrder := List.pairwise_insertionSort _ _

theorem migrationFiles_nodup {entries : List String} (h : entries.Nodup) :
    (migrationFiles entries).Nodup :=
  (List.perm_insertionSort _ _).nodup_iff.mpr (h.filter _)

/-- The ledger, and what has been executed. -/
structure Db where
  /-- `core.schema_migrations`. -/
  ledger : List String
  /-- The files whose SQL was executed and committed, in order. -/
  executed : List String
  deriving DecidableEq

/-- What the transaction of a file does. -/
inductive MigrationWrite where
  | execute (filename : String)
  /-- Its row in the ledger. -/
  | record (filename : String)

/-- The effect on the database. -/
def MigrationWrite.apply (db : Db) : MigrationWrite → Db
  | .execute filename => { db with executed := db.executed ++ [filename] }
  | .record filename => { db with ledger := db.ledger ++ [filename] }

/-- The primary key of the ledger. -/
def MigrationWrite.guard : MigrationWrite → Option String
  | .execute _ => none
  | .record filename => some filename

inductive RunnerPhase where
  /-- Outside runs. -/
  | idle
  /-- Before the ledger is read. -/
  | connected
  /-- In the loop; `rest` is still ahead. -/
  | looping (appliedIds rest : List String)
  /-- The transaction of a file is open. -/
  | begun (appliedIds : List String) (filename : String) (rest : List String)
  /-- The SQL has been executed. -/
  | migrated (appliedIds : List String) (filename : String) (rest : List String)
  | recorded (appliedIds : List String) (filename : String) (rest : List String)

/-- `runPlatformMigrations`, one statement after the other. -/
def runPlatformMigrations (entries : List String) :
    Program Db String MigrationWrite RunnerPhase Unit where
  apply := MigrationWrite.apply
  guard := MigrationWrite.guard
  idle := .idle
  turn db _ phase _ :=
    match phase with
    | .idle => some (.go .connected)
    | .connected => some (.go (.looping db.ledger (migrationFiles entries)))
    | .looping _ [] => some (.go .idle)
    | .looping appliedIds (filename :: rest) =>
      if filename ∈ appliedIds then some (.go (.looping appliedIds rest))
      else some (.go (.begun appliedIds filename rest))
    | .begun appliedIds filename rest =>
      some (.write (.execute filename) (.migrated appliedIds filename rest))
    | .migrated appliedIds filename rest =>
      -- `on conflict (id) do nothing`; a row that is not committed yet is waited for
      if filename ∈ db.ledger then some (.go (.recorded appliedIds filename rest))
      else some (.write (.record filename) (.recorded appliedIds filename rest))
    | .recorded appliedIds _ rest => some (.commit (.looping appliedIds rest))

/-- When a file's transaction commits, nobody has recorded it since the run read the ledger. -/
def NotRecorded (s : State Db String MigrationWrite RunnerPhase) : Label Unit → Prop
  | .act i _ =>
    match (s.sessions i).phase with
    | .recorded _ filename _ => filename ∉ s.committed.ledger
    | _ => True
  | .rollback _ => True

variable {entries initial : List String}

/-- How far a run has come: the files that it has passed are in the ledger. -/
structure Progress (entries initial : List String) (db : Db) (appliedIds rest : List String) :
    Prop where
  /-- What was there at the start is skipped. -/
  initial : initial ⊆ appliedIds
  skipped : appliedIds ⊆ db.ledger
  passed : ∃ done, migrationFiles entries = done ++ rest ∧ done ⊆ db.ledger

/-- What a run may assert at its statements. -/
def Asserted (entries initial : List String) (db : Db) (_held : String → Prop)
    (session : Session MigrationWrite RunnerPhase) : Prop :=
  match session.phase with
  | .idle | .connected => session.writes = []
  | .looping appliedIds rest =>
    session.writes = [] ∧ Progress entries initial db appliedIds rest
  | .begun appliedIds filename rest =>
    session.writes = [] ∧ Progress entries initial db appliedIds (filename :: rest) ∧
      filename ∉ appliedIds
  | .migrated appliedIds filename rest =>
    session.writes = [.execute filename] ∧
      Progress entries initial db appliedIds (filename :: rest) ∧ filename ∉ appliedIds
  | .recorded appliedIds filename rest =>
    (session.writes = [.execute filename] ∧ filename ∈ db.ledger ∨
        session.writes = [.execute filename, .record filename]) ∧
      Progress entries initial db appliedIds (filename :: rest) ∧ filename ∉ appliedIds

/-- What holds of the committed rows. -/
structure Recorded (entries initial : List String) (db : Db) : Prop where
  recorded : db.executed ⊆ db.ledger
  /-- It was not there at the start. -/
  fresh : ∀ filename ∈ db.executed, filename ∉ initial
  /-- The ledger is what was there at the start and what was executed. -/
  ledger : db.ledger ⊆ initial ++ db.executed
  /-- The start is kept. -/
  initial : initial ⊆ db.ledger
  files : db.executed ⊆ migrationFiles entries
  /-- The files before an executed file are in the ledger. -/
  earlier : ∀ filename ∈ db.executed, ∀ done rest,
    migrationFiles entries = done ++ filename :: rest → done ⊆ db.ledger

variable {db next : Db} {appliedIds rest : List String} {filename : String}

theorem Progress.mono (h : Progress entries initial db appliedIds rest)
    (hgrows : db.ledger ⊆ next.ledger) :
    Progress entries initial next appliedIds rest := by
  obtain ⟨done, hfiles, hdone⟩ := h.passed
  exact ⟨h.initial, fun _ hid => hgrows (h.skipped hid), done, hfiles,
    fun _ hid => hgrows (hdone hid)⟩

theorem Progress.pass (h : Progress entries initial db appliedIds (filename :: rest))
    (hrecorded : filename ∈ db.ledger) : Progress entries initial db appliedIds rest := by
  obtain ⟨done, hfiles, hdone⟩ := h.passed
  refine ⟨h.initial, h.skipped, done ++ [filename], by simp [hfiles], ?_⟩
  intro id hid
  rcases TransitionRuns.mem_concat_iff.mp hid with hid | rfl
  · exact hdone hid
  · exact hrecorded

/-- The commit of the transaction of a file. -/
structure Commit (entries initial : List String) (db next : Db) (appliedIds : List String)
    (filename : String) (rest : List String) : Prop where
  executed : next.executed = db.executed ++ [filename]
  ledger : ∀ id, id ∈ next.ledger ↔ id ∈ db.ledger ∨ id = filename
  progress : Progress entries initial db appliedIds (filename :: rest)
  absent : filename ∉ appliedIds

theorem recorded_of_commit {free : String → Bool} {phase next : RunnerPhase}
    (h : (runPlatformMigrations entries).turn db free phase () = some (.commit next)) :
    ∃ appliedIds filename rest, phase = .recorded appliedIds filename rest ∧
      next = .looping appliedIds rest := by
  cases phase with
  | idle | connected | begun => cases h
  | looping appliedIds rest =>
    cases rest with
    | nil => cases h
    | cons filename rest =>
      simp only [runPlatformMigrations] at h
      split at h <;> cases h
  | migrated appliedIds filename rest =>
    simp only [runPlatformMigrations] at h
    split at h <;> cases h
  | recorded appliedIds filename rest =>
    cases h
    exact ⟨appliedIds, filename, rest, rfl, rfl⟩

theorem Asserted.commit {held : String → Prop} {session : Session MigrationWrite RunnerPhase}
    (h : Asserted entries initial db held session)
    (hphase : session.phase = .recorded appliedIds filename rest) :
    Commit entries initial db (session.view (runPlatformMigrations entries) db) appliedIds
      filename rest := by
  rw [Asserted, hphase] at h
  obtain ⟨hwrites, hprogress, habsent⟩ := h
  rw [Session.view]
  rcases hwrites with ⟨hwrites, hmem⟩ | hwrites
  · refine ⟨by rw [hwrites]; rfl, ?_, hprogress, habsent⟩
    intro id
    rw [hwrites]
    constructor
    · exact .inl
    · intro hid
      rcases hid with hid | rfl
      · exact hid
      · exact hmem
  · refine ⟨by rw [hwrites]; rfl, ?_, hprogress, habsent⟩
    intro id
    rw [hwrites]
    simp [runPlatformMigrations, MigrationWrite.apply]

theorem Recorded.commit (hentries : entries.Nodup) (hdb : Recorded entries initial db)
    (h : Commit entries initial db next appliedIds filename rest) :
    Recorded entries initial next := by
  obtain ⟨done, hfiles, hdone⟩ := h.progress.passed
  have hgrows : db.ledger ⊆ next.ledger := fun id hid => (h.ledger id).mpr (.inl hid)
  have hself : filename ∈ next.ledger := (h.ledger filename).mpr (.inr rfl)
  have hnodup := migrationFiles_nodup hentries
  refine ⟨?_, ?_, ?_, fun id hid => hgrows (hdb.initial hid), ?_, ?_⟩
  · rw [h.executed]
    intro id hid
    rcases TransitionRuns.mem_concat_iff.mp hid with hold | rfl
    · exact hgrows (hdb.recorded hold)
    · exact hself
  · rw [h.executed]
    intro id hid
    rcases TransitionRuns.mem_concat_iff.mp hid with hold | rfl
    · exact hdb.fresh id hold
    · exact fun hinitial => h.absent (h.progress.initial hinitial)
  · rw [h.executed, ← List.append_assoc]
    intro id hid
    rcases (h.ledger id).mp hid with hold | rfl
    · exact List.mem_append_left _ (hdb.ledger hold)
    · exact List.mem_concat_self
  · rw [h.executed]
    intro id hid
    rcases TransitionRuns.mem_concat_iff.mp hid with hold | rfl
    · exact hdb.files hold
    · rw [hfiles]
      simp
  · rw [h.executed]
    intro id hid done' rest' hfiles'
    rcases TransitionRuns.mem_concat_iff.mp hid with hold | hnew
    · exact fun other hother => hgrows (hdb.earlier id hold done' rest' hfiles' hother)
    · rw [hnew, hfiles] at hfiles'
      rw [hfiles, List.nodup_append] at hnodup
      have hdone' : filename ∉ done := fun hmem =>
        hnodup.2.2 filename hmem filename (.head _) rfl
      have hrest' : filename ∉ rest := (List.nodup_cons.mp hnodup.2.1).1
      obtain ⟨rfl, -, -⟩ := (List.append_cons_inj_of_notMem hdone' hrest').mp hfiles'
      exact fun other hother => hgrows (hdone hother)

theorem runPlatformMigrations_outline (hentries : entries.Nodup) (initial : List String) :
    Outline (runPlatformMigrations entries) (Recorded entries initial)
      (Asserted entries initial) where
  idle _ := rfl
  turn := by
    intro db held free session action turn h hturn
    obtain ⟨hinv, hlocked, hgood⟩ := h
    obtain ⟨writes, phase⟩ := session
    cases phase with
    | idle =>
      cases hturn
      exact hgood
    | connected =>
      obtain rfl : writes = [] := hgood
      cases hturn
      exact ⟨rfl, hinv.initial, List.Subset.refl _, [], rfl, List.nil_subset _⟩
    | looping appliedIds rest =>
      cases rest with
      | nil =>
        cases hturn
        exact hgood.1
      | cons filename rest =>
        obtain ⟨hwrites, hprogress⟩ := hgood
        simp only [runPlatformMigrations] at hturn
        split at hturn
        · rename_i happlied
          cases hturn
          exact ⟨hwrites, hprogress.pass (hprogress.skipped happlied)⟩
        · rename_i habsent
          cases hturn
          exact ⟨hwrites, hprogress, habsent⟩
    | begun appliedIds filename rest =>
      obtain ⟨rfl, hprogress⟩ := hgood
      cases hturn
      exact ⟨rfl, hprogress⟩
    | migrated appliedIds filename rest =>
      obtain ⟨rfl, hprogress⟩ := hgood
      simp only [runPlatformMigrations] at hturn
      split at hturn
      · rename_i hledger
        cases hturn
        exact ⟨.inl ⟨rfl, hledger⟩, hprogress⟩
      · cases hturn
        exact ⟨.inr rfl, hprogress⟩
    | recorded appliedIds filename rest =>
      cases hturn
      have hcommit := Asserted.commit hgood rfl
      refine ⟨hinv.commit hentries hcommit, rfl, ?_⟩
      have hgrows : Progress entries initial _ appliedIds (filename :: rest) :=
        hcommit.progress.mono fun id hid => (hcommit.ledger id).mpr (.inl hid)
      exact hgrows.pass ((hcommit.ledger filename).mpr (.inr rfl))
  stable := by
    intro db held held' free session session' action next h h' hapart hturn
    obtain ⟨appliedIds', filename', rest', hphase, -⟩ := recorded_of_commit hturn
    have hcommit := Asserted.commit h'.good hphase
    have hgrows : db.ledger ⊆ (session'.view (runPlatformMigrations entries) db).ledger :=
      fun id hid => (hcommit.ledger id).mpr (.inl hid)
    have hgood := h.good
    obtain ⟨writes, phase⟩ := session
    cases phase with
    | idle | connected => exact hgood
    | looping appliedIds rest => exact ⟨hgood.1, hgood.2.mono hgrows⟩
    | begun appliedIds filename rest | migrated appliedIds filename rest =>
      exact ⟨hgood.1, hgood.2.1.mono hgrows, hgood.2.2⟩
    | recorded appliedIds filename rest =>
      exact ⟨hgood.1.imp_left fun hrow => ⟨hrow.1, hgrows hrow.2⟩, hgood.2.1.mono hgrows, hgood.2.2⟩

/-- Files have been executed at most once, not when the ledger had them, and in the order of names.
-/
def OnceInOrder (initial executed : List String) : Prop :=
  executed.Nodup ∧ (∀ filename ∈ executed, filename ∉ initial) ∧ executed.Pairwise filenameOrder

theorem Recorded.onceInOrder_commit (hdb : Recorded entries initial db)
    (h : Commit entries initial db next appliedIds filename rest) :
    OnceInOrder initial next.executed ↔ OnceInOrder initial db.executed ∧ filename ∉ db.ledger := by
  have habsent : filename ∉ initial := fun hmem => h.absent (h.progress.initial hmem)
  rw [OnceInOrder, h.executed]
  constructor
  · intro hnext
    obtain ⟨hnodup, hfresh, hsorted⟩ := hnext
    rw [List.nodup_append] at hnodup
    refine ⟨⟨hnodup.1, hdb.fresh, (List.pairwise_append.mp hsorted).1⟩, ?_⟩
    intro hledger
    rcases List.mem_append.mp (hdb.ledger hledger) with hinitial | hexecuted
    · exact habsent hinitial
    · exact hnodup.2.2 filename hexecuted filename (.head _) rfl
  · intro hbefore
    obtain ⟨⟨hnodup, hfresh, hsorted⟩, hledger⟩ := hbefore
    refine ⟨?_, ?_, ?_⟩
    · rw [List.nodup_append]
      refine ⟨hnodup, List.nodup_singleton _, ?_⟩
      intro id hid other hother hsame
      rw [List.mem_singleton.mp hother] at hsame
      exact hledger (hdb.recorded (hsame ▸ hid))
    · intro id hid
      rcases TransitionRuns.mem_concat_iff.mp hid with hold | rfl
      · exact hfresh id hold
      · exact habsent
    · rw [List.pairwise_append]
      refine ⟨hsorted, List.pairwise_singleton _ _, ?_⟩
      intro id hid other hother
      rw [List.mem_singleton.mp hother]
      obtain ⟨done, hfiles, -⟩ := h.progress.passed
      have hpairs := migrationFiles_sorted entries
      have hfile := hdb.files hid
      rw [hfiles, List.mem_append, List.mem_cons] at hfile
      rcases hfile with hdone | rfl | hrest
      · rw [hfiles, List.pairwise_append] at hpairs
        exact hpairs.2.2 id hdone filename (.head _)
      · exact absurd (hdb.recorded hid) hledger
      · -- a later file has been executed, so this one is in the ledger
        obtain ⟨between, after, rfl⟩ := List.append_of_mem hrest
        have hearlier := hdb.earlier id hid (done ++ filename :: between) after (by simp [hfiles])
        exact absurd (hearlier (by simp)) hledger

theorem onceInOrder_step {s t : State Db String MigrationWrite RunnerPhase} {label : Label Unit}
    (hs : Holds (runPlatformMigrations entries) (Recorded entries initial)
      (Asserted entries initial) s)
    (hstep : step (runPlatformMigrations entries) s label = some t) :
    OnceInOrder initial t.committed.executed ↔
      OnceInOrder initial s.committed.executed ∧ NotRecorded s label := by
  rcases step_committed hstep with ⟨hsame, hother⟩ | ⟨i, ⟨action, next, rfl, hturn⟩, hnew⟩
  · have hmeets : NotRecorded s label := by
      cases label with
      | rollback i => trivial
      | act i action =>
        rw [NotRecorded]
        split
        · rename_i appliedIds filename rest hphase
          exact absurd ⟨action, .looping appliedIds rest, rfl, by rw [hphase]; rfl⟩ (hother i)
        · trivial
    rw [hsame]
    exact (and_iff_left hmeets).symm
  · obtain ⟨appliedIds, filename, rest, hphase, -⟩ := recorded_of_commit hturn
    rw [hnew, hs.inv.onceInOrder_commit (Asserted.commit (hs.good i) hphase), NotRecorded, hphase]

/-- In any interleaving of runs, from any ledger, each file is committed at most once and in the
order of names if and only if no file is committed that somebody has recorded since its run read the
ledger. -/
theorem migrations_once_in_order_iff (hentries : entries.Nodup) {labels : List (Label Unit)}
    {s : State Db String MigrationWrite RunnerPhase}
    (hrun : run (step (runPlatformMigrations entries))
      (State.start (runPlatformMigrations entries) ⟨initial, []⟩) labels = some s) :
    OnceInOrder initial s.committed.executed ↔
      RunMeets (step (runPlatformMigrations entries)) NotRecorded
        (State.start (runPlatformMigrations entries) ⟨initial, []⟩) labels := by
  have houtline := runPlatformMigrations_outline hentries initial
  have hrecorded : Recorded entries initial ⟨initial, []⟩ :=
    ⟨List.nil_subset _, fun _ hnone => absurd hnone List.not_mem_nil, by simp,
      List.Subset.refl _, List.nil_subset _, fun _ hnone => absurd hnone List.not_mem_nil⟩
  have hiff : OnceInOrder initial s.committed.executed ↔ _ :=
    @run_iff_meets _ _ _ _ _ _ _ (fun s => OnceInOrder initial s.committed.executed)
      (fun _ _ _ hs hstep => houtline.step hs hstep)
      (fun _ _ _ hs hstep => onceInOrder_step hs hstep) _ (houtline.start hrecorded) hrun
  have hnothing : OnceInOrder initial [] :=
    ⟨List.nodup_nil, fun _ hnone => absurd hnone List.not_mem_nil, List.Pairwise.nil⟩
  exact hiff.trans (and_iff_right hnothing)

/-- In any interleaving, overlapping or rolled back: the ledger is what it was and what has been
executed, nothing else; and a file is executed only when all files before it are recorded. -/
theorem ledger_follows_executed (hentries : entries.Nodup) {labels : List (Label Unit)}
    {s : State Db String MigrationWrite RunnerPhase}
    (hrun : run (step (runPlatformMigrations entries))
      (State.start (runPlatformMigrations entries) ⟨initial, []⟩) labels = some s) :
    (∀ filename, filename ∈ s.committed.ledger ↔
      filename ∈ initial ∨ filename ∈ s.committed.executed) ∧
    ∀ filename ∈ s.committed.executed, filename ∉ initial ∧ ∃ done rest,
      migrationFiles entries = done ++ filename :: rest ∧ done ⊆ s.committed.ledger := by
  have houtline := runPlatformMigrations_outline hentries initial
  have hstart : Recorded entries initial ⟨initial, []⟩ :=
    ⟨List.nil_subset _, by simp, by simp, List.Subset.refl _, List.nil_subset _, by simp⟩
  have hdb := (houtline.run (houtline.start hstart) hrun).inv
  refine ⟨fun filename => ⟨fun hmem => List.mem_append.mp (hdb.ledger hmem), ?_⟩, ?_⟩
  · exact fun hmem => hmem.elim (fun h => hdb.initial h) fun h => hdb.recorded h
  · intro filename hmem
    obtain ⟨done, rest, hfiles⟩ := List.append_of_mem (hdb.files hmem)
    exact ⟨hdb.fresh filename hmem, done, rest, hfiles, hdb.earlier filename hmem done rest hfiles⟩

def runnerGoesOn (session turns : Nat) : List (Label Unit) := List.replicate turns (.act session ())

/-- The first files of the platform, and what else is in the directory. -/
def firstEntries : List String := ["0002_extensions.sql", "README.md", "0001_roles.sql"]

def successiveStarts : List (Label Unit) := runnerGoesOn 0 11 ++ runnerGoesOn 1 5

/-- The second service finds both files in the ledger. -/
theorem migrations_once_in_order_successive :
    RunMeets (step (runPlatformMigrations firstEntries)) NotRecorded
      (State.start (runPlatformMigrations firstEntries) ⟨[], []⟩) successiveStarts := by
  have hprobe : (run (step (runPlatformMigrations firstEntries))
      (State.start (runPlatformMigrations firstEntries) ⟨[], []⟩) successiveStarts).map
        (fun s => s.committed.executed) = some ["0001_roles.sql", "0002_extensions.sql"] := by
    decide
  obtain ⟨s, hs, hexecuted⟩ := Option.map_eq_some_iff.mp hprobe
  refine (migrations_once_in_order_iff (by decide) hs).mp ?_
  rw [hexecuted]
  exact ⟨by decide, by simp, by simp; decide⟩

/-- Two services start together, and read the ledger before either of them has recorded a file. -/
def simultaneousStarts : List (Label Unit) :=
  runnerGoesOn 0 2 ++ runnerGoesOn 1 2 ++ runnerGoesOn 0 4 ++ runnerGoesOn 1 4

theorem ledger_follows_executed_simultaneous :
    ∃ s, run (step (runPlatformMigrations firstEntries))
        (State.start (runPlatformMigrations firstEntries) ⟨[], []⟩) simultaneousStarts = some s ∧
      ∀ filename, filename ∈ s.committed.ledger ↔ filename ∈ [] ∨ filename ∈ s.committed.executed := by
  obtain ⟨s, hs⟩ := Option.isSome_iff_exists.mp
    (by decide : (run (step (runPlatformMigrations firstEntries))
      (State.start (runPlatformMigrations firstEntries) ⟨[], []⟩) simultaneousStarts).isSome = true)
  exact ⟨s, hs, (ledger_follows_executed (by decide) hs).1⟩

/-- The roles are then created twice. -/
theorem roles_executed_twice :
    ∃ s, run (step (runPlatformMigrations firstEntries))
        (State.start (runPlatformMigrations firstEntries) ⟨[], []⟩) simultaneousStarts = some s ∧
      s.committed.ledger = ["0001_roles.sql"] ∧
      s.committed.executed = ["0001_roles.sql", "0001_roles.sql"] ∧
      ¬OnceInOrder [] s.committed.executed := by
  have hprobe : (run (step (runPlatformMigrations firstEntries))
      (State.start (runPlatformMigrations firstEntries) ⟨[], []⟩) simultaneousStarts).map
        (fun s => s.committed) =
      some ⟨["0001_roles.sql"], ["0001_roles.sql", "0001_roles.sql"]⟩ := by
    decide
  obtain ⟨s, hs, hcommitted⟩ := Option.map_eq_some_iff.mp hprobe
  refine ⟨s, hs, by rw [hcommitted], by rw [hcommitted], ?_⟩
  rw [hcommitted]
  exact fun h => absurd h.1 (by decide)

end Stynx.MigrationRunner
