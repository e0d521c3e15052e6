import Stynx.SoftDelete

/-!
# What the code takes for references

Cascade, blocking check and restore compare the first column of a key with the id
of the parent. This is the reference itself when the key is a single column that
references the id.
-/

namespace Stynx.SoftDelete

variable {V : Type} [DecidableEq V]

/-- What the database guarantees of the live rows. -/
structure Intact (inst : Instance V) (db : Db V) : Prop where
  /-- Queries see every live row. -/
  scanned : ∀ row, (db.live row).isSome → row ∈ inst.scan
  /-- Values of a key without nulls are those of a live parent. -/
  satisfied : ∀ key ∈ inst.registry, ∀ child columns, db.live child = some columns →
    child.table = key.child → (∀ pair ∈ key.columns, (child.column columns pair.1).isSome) →
    ∃ parent, key.references db child parent = true

/-- What a consumer of the registry relates to a live parent are the rows that reference it. -/
structure RelatesReferences (inst : Instance V) (db : Db V) (key : ForeignKey)
    (parent child : RowId V) : Prop where
  cascade : key.behavior = .cascade →
    (child ∈ listChildIds inst db key.entry parent.id ↔ key.references db child parent = true)
  block : key.behavior = .block →
    (child ∈ childRows inst db key.entry parent.id ↔ key.references db child parent = true)
  restore : key.entry.holds = true → child.table = key.child →
    ∀ columns, db.live child = some columns →
      (parentOf key.entry child columns = some parent ↔ key.references db child parent = true)

/-- The first column of a key names the parent, and nulls of the other columns are nulls of it. -/
structure NamesParent (db : Db V) (key : ForeignKey) : Prop where
  /-- A referenced row has its id in the column that the first column references. -/
  named : ∀ parent child columns, db.live parent = some columns →
    key.references db child parent = true →
    parent.column columns key.first.2 = some parent.id
  /-- A row that names a live parent leaves no column of the key null. -/
  complete : ∀ parent child columns, child.table = key.child → db.live child = some columns →
    parent.table = key.parent → (db.live parent).isSome →
    child.column columns key.first.1 = some parent.id →
    ∀ pair ∈ key.more, (child.column columns pair.1).isSome

variable {inst : Instance V} {db : Db V} {key : ForeignKey} {parent child : RowId V}

theorem references_iff : key.references db child parent = true ↔
    child.table = key.child ∧ parent.table = key.parent ∧
      ∃ childColumns, db.live child = some childColumns ∧
        ∃ parentColumns, db.live parent = some parentColumns ∧
          key.fits child childColumns parent parentColumns = true := by
  simp [ForeignKey.references, Option.any_eq_true, and_assoc]

theorem fits_iff {childColumns parentColumns : Columns V} :
    key.fits child childColumns parent parentColumns = true ↔
      ∀ pair ∈ key.columns, (child.column childColumns pair.1).isSome ∧
        child.column childColumns pair.1 = parent.column parentColumns pair.2 := by
  simp [ForeignKey.fits]

theorem mem_childRows {entry : RegistryEntry} {parentId : V} :
    child ∈ childRows inst db entry parentId ↔
      child ∈ inst.scan ∧ child.table = entry.child ∧
        ∃ columns, db.live child = some columns ∧
          child.column columns entry.childColumn = some parentId := by
  simp [childRows, Option.any_eq_true]

omit [DecidableEq V] in
theorem parentOf_eq_some {entry : RegistryEntry} {columns : Columns V} :
    parentOf entry child columns = some parent ↔
      child.column columns entry.childColumn = some parent.id ∧ parent.table = entry.parent := by
  rw [parentOf, Option.map_eq_some_iff]
  constructor
  · intro h
    obtain ⟨id, hid, hparent⟩ := h
    rw [← hparent]
    exact ⟨hid, rfl⟩
  · intro h
    refine ⟨parent.id, h.1, ?_⟩
    rw [← h.2]

theorem relatesReferences_iff (hintact : Intact inst db) (htable : parent.table = key.parent) :
    RelatesReferences inst db key parent child ↔
      (key.entry.holds = true → child.table = key.child → ∀ columns, db.live child = some columns →
        (child.column columns key.first.1 = some parent.id ↔
          key.references db child parent = true)) := by
  have hparent : ∀ columns, (parentOf key.entry child columns = some parent ↔
      child.column columns key.first.1 = some parent.id) := by
    intro columns
    rw [parentOf_eq_some]
    exact and_iff_left htable
  constructor
  · intro h hholds hchild columns hcolumns
    rw [← hparent columns]
    exact h.restore hholds hchild columns hcolumns
  · intro h
    have hrows : key.entry.holds = true →
        (child ∈ childRows inst db key.entry parent.id ↔ key.references db child parent = true) := by
      intro hholds
      rw [mem_childRows]
      constructor
      · intro hrow
        obtain ⟨-, hchild, columns, hcolumns, hfirst⟩ := hrow
        exact (h hholds hchild columns hcolumns).mp hfirst
      · intro hreferences
        obtain ⟨hchild, -, columns, hcolumns, -⟩ := references_iff.mp hreferences
        refine ⟨hintact.scanned child (by simp [hcolumns]), hchild, columns, hcolumns, ?_⟩
        exact (h hholds hchild columns hcolumns).mpr hreferences
    refine ⟨?_, ?_, ?_⟩
    · intro hcascade
      exact hrows (by simp [RegistryEntry.holds, ForeignKey.entry, hcascade])
    · intro hblock
      exact hrows (by simp [RegistryEntry.holds, ForeignKey.entry, hblock])
    · intro hholds hchild columns hcolumns
      rw [hparent columns]
      exact h hholds hchild columns hcolumns

theorem NamesParent.first_iff (hintact : Intact inst db) (hkey : key ∈ inst.registry)
    (h : NamesParent db key) (htable : parent.table = key.parent) (hlive : (db.live parent).isSome)
    (hchild : child.table = key.child) {columns : Columns V} (hcolumns : db.live child = some columns) :
    child.column columns key.first.1 = some parent.id ↔ key.references db child parent = true := by
  constructor
  · intro hfirst
    have hsome : ∀ pair ∈ key.columns, (child.column columns pair.1).isSome := by
      intro pair hpair
      rcases List.mem_cons.mp hpair with rfl | hmore
      · simp [hfirst]
      · exact h.complete parent child columns hchild hcolumns htable hlive hfirst pair hmore
    obtain ⟨other, hother⟩ := hintact.satisfied key hkey child columns hcolumns hchild hsome
    obtain ⟨-, hotherTable, columns', hcolumns', otherColumns, hotherColumns, hfits⟩ :=
      references_iff.mp hother
    obtain rfl : columns' = columns := Option.some.inj (hcolumns'.symm.trans hcolumns)
    have hpair := (fits_iff.mp hfits key.first (.head _)).2
    rw [hfirst, h.named other child otherColumns hotherColumns hother] at hpair
    have hsame : other = parent := by
      cases other
      cases parent
      simp_all
    rw [← hsame]
    exact hother
  · intro hreferences
    obtain ⟨-, -, columns', hcolumns', parentColumns, hparentColumns, hfits⟩ :=
      references_iff.mp hreferences
    obtain rfl : columns' = columns := Option.some.inj (hcolumns'.symm.trans hcolumns)
    rw [(fits_iff.mp hfits key.first List.mem_cons_self).2]
    exact h.named parent child parentColumns hparentColumns hreferences

/-- A single column that references the id of the parent. -/
def ForeignKey.IsSingle (key : ForeignKey) : Prop := key.first.2 = "id" ∧ key.more = []

instance (key : ForeignKey) : Decidable key.IsSingle := inferInstanceAs (Decidable (_ ∧ _))

theorem ForeignKey.IsSingle.namesParent (h : key.IsSingle) (db : Db V) : NamesParent db key where
  named parent child columns _ _ := by rw [RowId.column, if_pos h.1]
  complete parent child columns _ _ _ _ _ pair hpair := by
    rw [h.2] at hpair
    cases hpair

/-- Cascade, blocking check and restore relate to each live parent exactly the rows that reference
it if and only if the first column of the key names the parent. -/
theorem relations_exact_iff {inst : Instance V} {db : Db V} (hintact : Intact inst db)
    {key : ForeignKey} (hkey : key ∈ inst.registry) :
    (∀ parent child, parent.table = key.parent → (db.live parent).isSome = true →
      RelatesReferences inst db key parent child) ↔
    (key.behavior ≠ .hide → NamesParent db key) := by
  have hholds : key.entry.holds = true ↔ key.behavior ≠ .hide := by
    cases hbehavior : key.behavior <;> simp [RegistryEntry.holds, ForeignKey.entry, hbehavior]
  constructor
  · intro h hfollowed
    have hfirst : ∀ parent child columns, parent.table = key.parent → (db.live parent).isSome →
        child.table = key.child → db.live child = some columns →
        (child.column columns key.first.1 = some parent.id ↔
          key.references db child parent = true) := by
      intro parent child columns htable hlive hchild hcolumns
      exact (relatesReferences_iff hintact htable).mp (h parent child htable hlive)
        (hholds.mpr hfollowed) hchild columns hcolumns
    refine ⟨?_, ?_⟩
    · intro parent child parentColumns hparentColumns hreferences
      obtain ⟨hchild, htable, columns, hcolumns, parentColumns', hparentColumns', hfits⟩ :=
        references_iff.mp hreferences
      obtain rfl : parentColumns' = parentColumns :=
        Option.some.inj (hparentColumns'.symm.trans hparentColumns)
      rw [← (fits_iff.mp hfits key.first List.mem_cons_self).2]
      exact (hfirst parent child columns htable (by simp [hparentColumns]) hchild hcolumns).mpr
        hreferences
    · intro parent child columns hchild hcolumns htable hlive hnamed pair hpair
      have hreferences := (hfirst parent child columns htable hlive hchild hcolumns).mp hnamed
      obtain ⟨-, -, columns', hcolumns', parentColumns, -, hfits⟩ := references_iff.mp hreferences
      obtain rfl : columns' = columns := Option.some.inj (hcolumns'.symm.trans hcolumns)
      exact (fits_iff.mp hfits pair (.tail _ hpair)).1
  · intro h parent child htable hlive
    rw [relatesReferences_iff hintact htable]
    intro hfollowed hchild columns hcolumns
    exact (h (hholds.mp hfollowed)).first_iff hintact hkey htable hlive hchild hcolumns

/-- The given live rows, with the columns that are not null. -/
def listDb (rows : List (RowId Nat × List (String × Nat))) : Db Nat where
  live row :=
    (rows.find? fun entry => entry.1 = row).map fun entry name =>
      (entry.2.find? fun column => column.1 = name).map Prod.snd
  archive _ := []
  nextArchiveId _ := 1

theorem listDb_intact {inst : Instance Nat} {rows : List (RowId Nat × List (String × Nat))}
    (hscan : ∀ entry ∈ rows, entry.1 ∈ inst.scan)
    (hkeys : ∀ key ∈ inst.registry, ∀ entry ∈ rows, entry.1.table = key.child →
      (((listDb rows).live entry.1).any fun columns =>
        key.columns.all fun pair => (entry.1.column columns pair.1).isSome) = true →
      ∃ parent ∈ inst.scan, key.references (listDb rows) entry.1 parent = true) :
    Intact inst (listDb rows) := by
  have hlisted : ∀ row columns, (listDb rows).live row = some columns →
      ∃ entry ∈ rows, entry.1 = row := by
    intro row columns hlive
    obtain ⟨entry, hfind, -⟩ := Option.map_eq_some_iff.mp hlive
    exact ⟨entry, List.mem_of_find?_eq_some hfind, by simpa using List.find?_some hfind⟩
  refine ⟨?_, ?_⟩
  · intro row hlive
    obtain ⟨columns, hcolumns⟩ := Option.isSome_iff_exists.mp hlive
    obtain ⟨entry, hentry, hrow⟩ := hlisted row columns hcolumns
    rw [← hrow]
    exact hscan entry hentry
  · intro key hkey child columns hcolumns htable hsome
    obtain ⟨entry, hentry, hrow⟩ := hlisted child columns hcolumns
    subst hrow
    have hany : (((listDb rows).live entry.1).any fun columns =>
        key.columns.all fun pair => (entry.1.column columns pair.1).isSome) = true := by
      rw [hcolumns]
      exact List.all_eq_true.mpr hsome
    obtain ⟨parent, -, hparent⟩ := hkeys key hkey entry hentry htable hany
    exact ⟨parent, hparent⟩

def orders : TableName := ⟨"sample", "orders"⟩

def notes : TableName := ⟨"sample", "notes"⟩

/-- The key of notes: a single column. -/
def notesKey : ForeignKey :=
  ⟨orders, notes, "notes_order_id_fkey", .cascade, ("order_id", "id"), []⟩

def notesInstance : Instance Nat :=
  ⟨[notesKey], [], fun _ => true, [⟨orders, 1⟩, ⟨notes, 2⟩]⟩

def notesDb : Db Nat := listDb [(⟨orders, 1⟩, []), (⟨notes, 2⟩, [("order_id", 1)])]

theorem notesDb_intact : Intact notesInstance notesDb := listDb_intact (by decide) (by decide)

/-- The note is what the cascade finds. -/
theorem relations_exact_notes :
    RelatesReferences notesInstance notesDb notesKey ⟨orders, 1⟩ ⟨notes, 2⟩ :=
  (relations_exact_iff notesDb_intact (.head _)).mpr
    (fun _ => ForeignKey.IsSingle.namesParent (by decide) notesDb) ⟨orders, 1⟩ ⟨notes, 2⟩ rfl rfl

def graphs : TableName := ⟨"flow", "graphs"⟩

def nodes : TableName := ⟨"flow", "nodes"⟩

def nodesKey : ForeignKey :=
  ⟨graphs, nodes, "nodes_graph_id_fkey", .cascade, ("tenant_id", "tenant_id"), [("graph_id", "id")]⟩

def flowInstance : Instance Nat :=
  ⟨[nodesKey], [], fun _ => true, [⟨graphs, 1⟩, ⟨nodes, 2⟩]⟩

def flowDb : Db Nat :=
  listDb [(⟨graphs, 1⟩, [("tenant_id", 9)]), (⟨nodes, 2⟩, [("tenant_id", 9), ("graph_id", 1)])]

/-- The cascade does not find the node, and the restore looks for a graph with the tenant's id. -/
theorem node_not_related :
    Intact flowInstance flowDb ∧
      nodesKey.references flowDb ⟨nodes, 2⟩ ⟨graphs, 1⟩ = true ∧
      listChildIds flowInstance flowDb nodesKey.entry 1 = [] ∧
      (∀ columns, flowDb.live ⟨nodes, 2⟩ = some columns →
        parentOf nodesKey.entry ⟨nodes, 2⟩ columns = some ⟨graphs, 9⟩) ∧
      ¬RelatesReferences flowInstance flowDb nodesKey ⟨graphs, 1⟩ ⟨nodes, 2⟩ := by
  have hreferences : nodesKey.references flowDb ⟨nodes, 2⟩ ⟨graphs, 1⟩ = true := by decide
  have hnothing : listChildIds flowInstance flowDb nodesKey.entry 1 = [] := by decide
  refine ⟨listDb_intact (by decide) (by decide), hreferences, hnothing, ?_, ?_⟩
  · intro columns hcolumns
    cases hcolumns
    decide
  · intro h
    have hmem := (h.cascade rfl).mpr hreferences
    rw [hnothing] at hmem
    cases hmem

end Stynx.SoftDelete
