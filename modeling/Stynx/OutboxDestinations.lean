import Mathlib.Data.List.Pairwise
import Stynx.ExceptFolds
import Stynx.OrderedMap

/-!
# Destinations of outbox events

`sharedEntity` and `destinationRegistry` of `packages/outbox/src/outbox.service.ts`.
A selector lists entities and prefixes of entities. Two selectors share an entity
exactly when one of their patterns meets one of the other.
-/

namespace Stynx.OutboxDestinations

open ExceptFolds OrderedMap

abbrev Text := List UInt16

structure OutboxEntitySelector where
  entities : Option (List Text)
  entityPrefixes : Option (List Text)

structure EntityMatcher where
  entities : List Text
  prefixes : List Text

structure OutboxDestination (π : Type) where
  name : Text
  selector : OutboxEntitySelector
  dispatcher : Option π

structure Destination (π : Type) where
  name : Text
  matcher : EntityMatcher
  dispatcher : Option π

inductive SelectorName where
  | dispatchableEntities
  | destination (index : Nat)

inductive RangeError where
  /-- `<selector>.<field> must be a list of non-empty strings` -/
  | notNonEmptyStrings (selector : SelectorName) (field : String)
  /-- `<selector> must list at least one entity or entity prefix` -/
  | nothingListed (selector : SelectorName)
  /-- `destinations[<index>].name must be a non-empty string` -/
  | nameEmpty (index : Nat)
  /-- `destinations[<index>].name "<name>" is already registered` -/
  | nameRegistered (index : Nat) (name : Text)
  | bothMatch (other name entity : Text)
  /-- `destinations "<name>" names entity "<entity>", which dispatchableEntities does not cover` -/
  | entityNotCovered (name entity : Text)
  /-- `destinations "<name>" names entity prefix "<entityPrefix>", which dispatchableEntities does
  not cover` -/
  | prefixNotCovered (name entityPrefix : Text)

def startsWith (text start : Text) : Bool := start.isPrefixOf text

def entityList (selector : SelectorName) (items : Option (List Text)) (field : String) :
    Except RangeError (List Text) :=
  match items with
  | none => .ok []
  | some items =>
    if items.any List.isEmpty then .error (.notNonEmptyStrings selector field) else .ok items

def entityMatcher (value : Option OutboxEntitySelector) (name : SelectorName) (allowEmpty : Bool) :
    Except RangeError (Option EntityMatcher) :=
  match value with
  | none => .ok none
  | some selector => do
    let entities ← entityList name selector.entities "entities"
    let prefixes ← entityList name selector.entityPrefixes "entityPrefixes"
    if !allowEmpty && entities.length + prefixes.length = 0 then
      .error (.nothingListed name)
    else .ok (some ⟨entities, prefixes⟩)

def matchesEntity (matcher : EntityMatcher) (entity : Text) : Bool :=
  matcher.entities.contains entity || matcher.prefixes.any fun start => startsWith entity start

/-- The loop of `sharedEntity` over the prefixes. -/
def sharedPrefix (left right : List Text) : Option Text :=
  left.findSome? fun start =>
    (right.find? fun candidate => startsWith candidate start || startsWith start candidate).map
      fun other => if start.length ≤ other.length then other else start

def sharedEntity (left right : EntityMatcher) : Option Text :=
  match (left.entities.find? (matchesEntity right)).or
      (right.entities.find? (matchesEntity left)) with
  | some exact => some exact
  | none => sharedPrefix left.prefixes right.prefixes

/-- What `assertCovered` throws. -/
def uncovered {π : Type} (destination : Destination π) (dispatchable : EntityMatcher) :
    Option RangeError :=
  ((destination.matcher.entities.find? fun entity => !matchesEntity dispatchable entity).map
      (.entityNotCovered destination.name)).or
    ((destination.matcher.prefixes.find? fun start =>
        !dispatchable.prefixes.any fun covering => startsWith start covering).map
      (.prefixNotCovered destination.name))

/-- What the comparison with the destinations that are registered throws. -/
def overlapping {π : Type} (registered : List (Destination π)) (name : Text)
    (matcher : EntityMatcher) : Option RangeError :=
  registered.findSome? fun other =>
    (sharedEntity other.matcher matcher).map fun entity => .bothMatch other.name name entity

/-- Ends with an error when there is one. -/
def refuse : Option RangeError → Except RangeError Unit
  | some error => .error error
  | none => .ok ()

def register {π : Type} (dispatchable : Option EntityMatcher) (index : Nat)
    (registry : OrderedMap Text (Destination π)) (entry : OutboxDestination π) :
    Except RangeError (OrderedMap Text (Destination π)) := do
  refuse (if entry.name = [] then some (.nameEmpty index) else none)
  refuse (if registry.has entry.name then some (.nameRegistered index entry.name) else none)
  let matcher ← entityMatcher (some entry.selector) (.destination index) false
  let destination : Destination π := ⟨entry.name, matcher.getD ⟨[], []⟩, entry.dispatcher⟩
  refuse (overlapping registry.values entry.name destination.matcher)
  refuse (dispatchable.bind (uncovered destination))
  .ok (registry.set entry.name destination)

def registerFrom {π : Type} (dispatchable : Option EntityMatcher) :
    Nat → OrderedMap Text (Destination π) → List (OutboxDestination π) →
      Except RangeError (OrderedMap Text (Destination π))
  | _, registry, [] => .ok registry
  | index, registry, entry :: rest => do
    let registry ← register dispatchable index registry entry
    registerFrom dispatchable (index + 1) registry rest

def destinationRegistry {π : Type} (value : Option (List (OutboxDestination π)))
    (dispatchable : Option EntityMatcher) : Except RangeError (OrderedMap Text (Destination π)) :=
  registerFrom dispatchable 0 .empty (value.getD [])

/-- Whether appended events of an entity get a delivery row. -/
def dispatches (dispatchable : Option EntityMatcher) (entity : Text) : Bool :=
  dispatchable.all fun declared => matchesEntity declared entity

def portFor {π : Type} (destinations : OrderedMap Text (Destination π)) (dispatcher : Option π)
    (entity : Text) : Option π :=
  match destinations.values.find? fun destination => matchesEntity destination.matcher entity with
  | some destination => destination.dispatcher.or dispatcher
  | none => dispatcher

variable {π : Type}

theorem startsWith_iff {text start : Text} : startsWith text start = true ↔ start <+: text :=
  List.isPrefixOf_iff_prefix

variable {entity : Text} {left right : EntityMatcher} {registry : OrderedMap Text (Destination π)}
  {dispatchable : Option EntityMatcher}

theorem matchesEntity_iff {matcher : EntityMatcher} :
    matchesEntity matcher entity = true ↔
      entity ∈ matcher.entities ∨ ∃ start ∈ matcher.prefixes, start <+: entity := by
  simp only [matchesEntity, Bool.or_eq_true, List.contains_iff_mem, List.any_eq_true,
    startsWith_iff]

theorem sharedPrefix_extends {left right : List Text} (h : sharedPrefix left right = some entity) :
    (∃ start ∈ left, start <+: entity) ∧ ∃ start ∈ right, start <+: entity := by
  obtain ⟨start, hstart, hfound⟩ := List.exists_of_findSome?_eq_some h
  obtain ⟨other, hother, heq⟩ := Option.map_eq_some_iff.mp hfound
  have hmem := List.mem_of_find?_eq_some hother
  have hmeet := List.find?_some hother
  simp only [Bool.or_eq_true, startsWith_iff] at hmeet
  rw [← heq]
  split_ifs with hlength
  · refine ⟨⟨start, hstart, ?_⟩, other, hmem, List.prefix_rfl⟩
    rcases hmeet with hmeet | hmeet
    · exact hmeet
    · have hsame := hmeet.eq_of_length_le hlength
      exact hsame ▸ List.prefix_rfl
  · refine ⟨⟨start, hstart, List.prefix_rfl⟩, other, hmem, ?_⟩
    rcases hmeet with hmeet | hmeet
    · exact absurd hmeet.length_le hlength
    · exact hmeet

theorem sharedPrefix_isSome {left right : List Text} {a b : Text} (ha : a ∈ left) (hb : b ∈ right)
    (hae : a <+: entity) (hbe : b <+: entity) :
    (sharedPrefix left right).isSome = true := by
  have hmeet : (startsWith b a || startsWith a b) = true := by
    simp only [Bool.or_eq_true, startsWith_iff]
    exact List.prefix_or_prefix_of_prefix hae hbe
  have hfound : (right.find? fun candidate =>
      startsWith candidate a || startsWith a candidate).isSome = true :=
    List.find?_isSome.mpr ⟨b, hb, hmeet⟩
  refine List.findSome?_isSome_iff.mpr ⟨a, ha, ?_⟩
  rw [Option.isSome_map]
  exact hfound

theorem matchesEntity_of_sharedEntity (h : sharedEntity left right = some entity) :
    matchesEntity left entity = true ∧ matchesEntity right entity = true := by
  unfold sharedEntity at h
  split at h
  · next exact hexact =>
    obtain rfl := Option.some.inj h
    rcases Option.or_eq_some_iff.mp hexact with hleft | ⟨-, hright⟩
    · exact ⟨matchesEntity_iff.mpr (.inl (List.mem_of_find?_eq_some hleft)),
        List.find?_some hleft⟩
    · exact ⟨List.find?_some hright,
        matchesEntity_iff.mpr (.inl (List.mem_of_find?_eq_some hright))⟩
  · obtain ⟨hleft, hright⟩ := sharedPrefix_extends h
    exact ⟨matchesEntity_iff.mpr (.inr hleft), matchesEntity_iff.mpr (.inr hright)⟩

theorem sharedEntity_isSome (hleft : matchesEntity left entity = true)
    (hright : matchesEntity right entity = true) :
    (sharedEntity left right).isSome = true := by
  unfold sharedEntity
  split
  · rfl
  · next hnone =>
    obtain ⟨hnotLeft, hnotRight⟩ := Option.or_eq_none_iff.mp hnone
    rcases matchesEntity_iff.mp hleft with hmem | ⟨a, ha, hae⟩
    · exact absurd hright (List.find?_eq_none.mp hnotLeft entity hmem)
    · rcases matchesEntity_iff.mp hright with hmem | ⟨b, hb, hbe⟩
      · exact absurd hleft (List.find?_eq_none.mp hnotRight entity hmem)
      · exact sharedPrefix_isSome ha hb hae hbe

theorem sharedEntity_eq_none_iff :
    sharedEntity left right = none ↔
      ∀ entity, ¬ (matchesEntity left entity = true ∧ matchesEntity right entity = true) := by
  constructor
  · intro hnone entity hboth
    have hsome := sharedEntity_isSome hboth.1 hboth.2
    rw [hnone] at hsome
    cases hsome
  · intro hdisjoint
    cases hshared : sharedEntity left right with
    | none => rfl
    | some entity => exact absurd (matchesEntity_of_sharedEntity hshared) (hdisjoint entity)

def OutboxEntitySelector.matcher (selector : OutboxEntitySelector) : EntityMatcher :=
  ⟨selector.entities.getD [], selector.entityPrefixes.getD []⟩

def OutboxDestination.destination (entry : OutboxDestination π) : Destination π :=
  ⟨entry.name, entry.selector.matcher, entry.dispatcher⟩

/-- What an entry needs on its own. -/
structure Proper (dispatchable : Option EntityMatcher) (entry : OutboxDestination π) : Prop where
  name : entry.name ≠ []
  selector : ∀ index, entityMatcher (some entry.selector) (.destination index) false =
    .ok (some entry.selector.matcher)
  /-- It names only what is dispatchable. -/
  covered : dispatchable.bind (uncovered entry.destination) = none

/-- What two destinations need of each other. -/
def Apart (a b : Destination π) : Prop :=
  a.name ≠ b.name ∧ sharedEntity a.matcher b.matcher = none

theorem Apart.symm {a b : Destination π} (h : Apart a b) : Apart b a := by
  refine ⟨h.1.symm, sharedEntity_eq_none_iff.mpr fun entity hboth => ?_⟩
  exact sharedEntity_eq_none_iff.mp h.2 entity ⟨hboth.2, hboth.1⟩

instance : Std.Symm (Apart (π := π)) := ⟨fun _ _ => Apart.symm⟩

theorem refuse_eq_ok_iff {error : Option RangeError} {u : Unit} :
    refuse error = .ok u ↔ error = none := by
  cases error with
  | none => exact ⟨fun _ => rfl, fun _ => rfl⟩
  | some error =>
    constructor
    · intro h
      cases h
    · intro h
      cases h

variable {selector : SelectorName} {items : Option (List Text)} {field : String} {list : List Text}
  {name : Text} {index : Nat} {last : OrderedMap Text (Destination π)} {entry : OutboxDestination π}
  {entries : List (OutboxDestination π)}

theorem entityList_eq_ok (h : entityList selector items field = .ok list) :
    list = items.getD [] := by
  unfold entityList at h
  split at h
  · cases h
    rfl
  · split_ifs at h
    cases h
    rfl

theorem entityList_name {other : SelectorName} (h : entityList selector items field = .ok list) :
    entityList other items field = .ok list := by
  unfold entityList at h ⊢
  split at h
  · exact h
  · split_ifs at h ⊢
    exact h

theorem entityMatcher_eq_ok {selector : OutboxEntitySelector} {name : SelectorName}
    {matcher : Option EntityMatcher} (h : entityMatcher (some selector) name false = .ok matcher) :
    matcher = some selector.matcher ∧
      ∀ other, entityMatcher (some selector) other false = .ok (some selector.matcher) := by
  unfold entityMatcher at h
  obtain ⟨entities, hentities, hrest⟩ := bind_eq_ok.mp h
  obtain ⟨prefixes, hprefixes, hlast⟩ := bind_eq_ok.mp hrest
  split_ifs at hlast with hlisted
  have hsame : (⟨entities, prefixes⟩ : EntityMatcher) = selector.matcher := by
    rw [OutboxEntitySelector.matcher, entityList_eq_ok hentities, entityList_eq_ok hprefixes]
  refine ⟨?_, fun other => ?_⟩
  · rw [← hsame]
    exact (Except.ok.inj hlast).symm
  · unfold entityMatcher
    refine bind_eq_ok.mpr ⟨entities, entityList_name hentities, ?_⟩
    refine bind_eq_ok.mpr ⟨prefixes, entityList_name hprefixes, ?_⟩
    rw [if_neg hlisted, hsame]

theorem overlapping_eq_none_iff {registered : List (Destination π)} {matcher : EntityMatcher} :
    overlapping registered name matcher = none ↔
      ∀ other ∈ registered, sharedEntity other.matcher matcher = none := by
  simp only [overlapping, List.findSome?_eq_none_iff, Option.map_eq_none_iff]

/-- Registered destinations stand under their names. -/
def Named (registry : OrderedMap Text (Destination π)) : Prop :=
  ∀ name destination, (name, destination) ∈ registry.entries → name = destination.name

theorem Named.has_eq_false_iff (h : Named registry) :
    registry.has name = false ↔ ∀ other ∈ registry.values, other.name ≠ name := by
  constructor
  · intro hfree other hother hname
    obtain ⟨key, hkey⟩ := mem_values_iff.mp hother
    have hsame := h key other (mem_entries_iff.mpr hkey)
    rw [OrderedMap.has, ← hname, ← hsame, hkey] at hfree
    cases hfree
  · intro hfree
    cases hhas : registry.get? name with
    | none => rw [OrderedMap.has, hhas, Option.isSome_none]
    | some other =>
      have hsame := h name other (mem_entries_iff.mpr hhas)
      exact absurd hsame.symm (hfree other (mem_values_iff.mpr ⟨name, hhas⟩))

theorem register_eq_ok_iff (hnamed : Named registry) :
    register dispatchable index registry entry = .ok last ↔
      Proper dispatchable entry ∧ (∀ other ∈ registry.values, Apart other entry.destination) ∧
        last = registry.set entry.name entry.destination := by
  simp only [register, bind_eq_ok, refuse_eq_ok_iff, exists_const, ite_eq_right_iff,
    reduceCtorEq, imp_false, Bool.not_eq_true, hnamed.has_eq_false_iff, overlapping_eq_none_iff]
  constructor
  · rintro ⟨hname, hfree, matcher, hmatcher, hoverlap, hcovered, hlast⟩
    obtain ⟨rfl, hselector⟩ := entityMatcher_eq_ok hmatcher
    exact ⟨⟨hname, fun index => hselector _, hcovered⟩,
      fun other hother => ⟨hfree other hother, hoverlap other hother⟩,
      (Except.ok.inj hlast).symm⟩
  · rintro ⟨hproper, hapart, rfl⟩
    exact ⟨hproper.name, fun other hother => (hapart other hother).1, some entry.selector.matcher,
      hproper.selector index, fun other hother => (hapart other hother).2, hproper.covered, rfl⟩

theorem entries_set_of_apart (hnamed : Named registry)
    (hapart : ∀ other ∈ registry.values, Apart other entry.destination) :
    (registry.set entry.name entry.destination).entries =
      registry.entries ++ [(entry.name, entry.destination)] := by
  apply OrderedMap.setEntry_of_not_mem
  intro hmem
  obtain ⟨⟨name, other⟩, hother, hsame⟩ := List.mem_map.mp hmem
  have hname := hnamed name other hother
  have hvalue : other ∈ registry.values := List.mem_map_of_mem (f := Prod.snd) hother
  exact (hapart other hvalue).1 (hname.symm.trans hsame)

/-- The entries that are accepted: each proper, any two apart. -/
structure Accepted (dispatchable : Option EntityMatcher) (entries : List (OutboxDestination π)) :
    Prop where
  proper : ∀ entry ∈ entries, Proper dispatchable entry
  /-- Each with the ones before it. -/
  apart : (entries.map OutboxDestination.destination).Pairwise Apart

theorem registerFrom_eq_ok_iff (hnamed : Named registry) :
    registerFrom dispatchable index registry entries = .ok last ↔
      Accepted dispatchable entries ∧
      (∀ other ∈ registry.values, ∀ entry ∈ entries, Apart other entry.destination) ∧
      last.entries =
        registry.entries ++ entries.map fun entry => (entry.name, entry.destination) := by
  induction entries generalizing index registry with
  | nil =>
    constructor
    · intro h
      cases h
      exact ⟨⟨by simp, .nil⟩, by simp, (List.append_nil _).symm⟩
    · rintro ⟨-, -, hlast⟩
      have hsame : last = registry := OrderedMap.ext (by rw [hlast, List.map_nil, List.append_nil])
      rw [hsame]
      rfl
  | cons entry rest ih =>
    have hstays : (∀ other ∈ registry.values, Apart other entry.destination) →
        Named (registry.set entry.name entry.destination) := by
      intro hapart name destination hmem
      rw [entries_set_of_apart hnamed hapart, List.mem_append, List.mem_singleton] at hmem
      rcases hmem with hmem | hmem
      · exact hnamed name destination hmem
      · cases hmem
        rfl
    have hvalues : (∀ other ∈ registry.values, Apart other entry.destination) →
        (registry.set entry.name entry.destination).values =
          registry.values ++ [entry.destination] := by
      intro hapart
      rw [OrderedMap.values, entries_set_of_apart hnamed hapart, List.map_append]
      rfl
    rw [registerFrom, bind_eq_ok]
    constructor
    · rintro ⟨middle, hfirst, hrest⟩
      obtain ⟨hproper, hapart, rfl⟩ := (register_eq_ok_iff hnamed).mp hfirst
      obtain ⟨haccepted, hothers, hlast⟩ := (ih (hstays hapart)).mp hrest
      rw [hvalues hapart] at hothers
      rw [entries_set_of_apart hnamed hapart, List.append_assoc] at hlast
      refine ⟨⟨?_, ?_⟩, ?_, hlast⟩
      · exact List.forall_mem_cons.mpr ⟨hproper, haccepted.proper⟩
      · refine List.pairwise_cons.mpr ⟨?_, haccepted.apart⟩
        intro other hother
        obtain ⟨entry', hentry', rfl⟩ := List.mem_map.mp hother
        exact hothers _ (List.mem_concat_self) entry' hentry'
      · intro other hother
        exact List.forall_mem_cons.mpr ⟨hapart other hother,
          hothers other (List.mem_append_left _ hother)⟩
    · rintro ⟨haccepted, hothers, hlast⟩
      have hapart : ∀ other ∈ registry.values, Apart other entry.destination :=
        fun other hother => hothers other hother entry (.head _)
      obtain ⟨hfirst, hlater⟩ := List.pairwise_cons.mp haccepted.apart
      refine ⟨registry.set entry.name entry.destination,
        (register_eq_ok_iff hnamed).mpr ⟨haccepted.proper entry (.head _), hapart, rfl⟩, ?_⟩
      refine (ih (hstays hapart)).mpr ⟨⟨?_, hlater⟩, ?_, ?_⟩
      · exact fun other hother => haccepted.proper other (.tail entry hother)
      · rw [hvalues hapart]
        intro other hother entry' hentry'
        rcases List.mem_append.mp hother with hother | hother
        · exact hothers other hother entry' (.tail entry hentry')
        · rw [List.mem_singleton.mp hother]
          exact hfirst _ (List.mem_map_of_mem hentry')
      · rw [hlast, entries_set_of_apart hnamed hapart, List.append_assoc]
        rfl

theorem destinationRegistry_eq_ok_iff :
    destinationRegistry (some entries) dispatchable = .ok registry ↔
      Accepted dispatchable entries ∧
        registry.entries = entries.map fun entry => (entry.name, entry.destination) := by
  have hnamed : Named (OrderedMap.empty : OrderedMap Text (Destination π)) := by
    intro name destination hmem
    cases hmem
  rw [destinationRegistry, Option.getD_some, registerFrom_eq_ok_iff hnamed]
  constructor
  · rintro ⟨haccepted, -, hentries⟩
    exact ⟨haccepted, hentries⟩
  · rintro ⟨haccepted, hentries⟩
    refine ⟨haccepted, ?_, hentries⟩
    intro other hother
    cases hother

variable {dispatchable : Option EntityMatcher} {entries : List (OutboxDestination π)}

variable {others : List (OutboxDestination π)} {a : Destination π}

theorem Accepted.perm (h : Accepted dispatchable entries) (hperm : others.Perm entries) :
    Accepted dispatchable others where
  proper entry hentry := h.proper entry (hperm.mem_iff.mp hentry)
  apart := (hperm.map OutboxDestination.destination).pairwise_iff Apart.symm |>.mpr h.apart

theorem Accepted.exists_registry (h : Accepted dispatchable entries) :
    ∃ registry, destinationRegistry (some entries) dispatchable = .ok registry := by
  have hnames : ((entries.map fun entry => (entry.name, entry.destination)).map Prod.fst).Nodup := by
    have hapart : (entries.map OutboxDestination.destination).Pairwise
        fun a b => a.name ≠ b.name := h.apart.imp fun hab => hab.1
    rw [List.map_map]
    exact List.pairwise_map.mpr ((List.pairwise_map.mp hapart).imp fun hab => hab)
  exact ⟨⟨_, hnames⟩, destinationRegistry_eq_ok_iff.mpr ⟨h, rfl⟩⟩

theorem values_of_accepted {registry : OrderedMap Text (Destination π)}
    (h : destinationRegistry (some entries) dispatchable = .ok registry) :
    registry.values = entries.map OutboxDestination.destination := by
  rw [OrderedMap.values, (destinationRegistry_eq_ok_iff.mp h).2, List.map_map]
  rfl

variable {entity : Text}

theorem Accepted.unique (h : Accepted dispatchable entries) {b : Destination π}
    (ha : a ∈ entries.map OutboxDestination.destination)
    (hb : b ∈ entries.map OutboxDestination.destination)
    (hmatchA : matchesEntity a.matcher entity = true)
    (hmatchB : matchesEntity b.matcher entity = true) : a = b := by
  by_contra hne
  have hapart : Apart a b := h.apart.forall ha hb hne
  exact sharedEntity_eq_none_iff.mp hapart.2 entity ⟨hmatchA, hmatchB⟩

theorem matchesEntity_of_covered {destination : Destination π} {declared : EntityMatcher}
    (h : uncovered destination declared = none)
    (hmatch : matchesEntity destination.matcher entity = true) :
    matchesEntity declared entity = true := by
  obtain ⟨hentities, hprefixes⟩ := Option.or_eq_none_iff.mp h
  rw [Option.map_eq_none_iff, List.find?_eq_none] at hentities hprefixes
  rcases matchesEntity_iff.mp hmatch with hmem | ⟨start, hmem, hstart⟩
  · simpa using hentities entity hmem
  · have hcovering := hprefixes start hmem
    simp only [Bool.not_eq_true, Bool.not_eq_false', List.any_eq_true, startsWith_iff] at hcovering
    obtain ⟨covering, hlisted, hextends⟩ := hcovering
    exact matchesEntity_iff.mpr (.inr ⟨covering, hlisted, hextends.trans hstart⟩)

theorem Accepted.dispatches (h : Accepted dispatchable entries)
    (ha : a ∈ entries.map OutboxDestination.destination)
    (hmatch : matchesEntity a.matcher entity = true) : dispatches dispatchable entity = true := by
  obtain ⟨entry, hentry, rfl⟩ := List.mem_map.mp ha
  have hcovered := (h.proper entry hentry).covered
  cases dispatchable with
  | none => rfl
  | some declared => exact matchesEntity_of_covered hcovered hmatch

theorem find?_eq_of_perm {α : Type} {p : α → Bool} {l l' : List α} (hperm : l.Perm l')
    (hunique : ∀ a ∈ l, ∀ b ∈ l, p a = true → p b = true → a = b) : l.find? p = l'.find? p := by
  cases hfind : l'.find? p with
  | none =>
    refine List.find?_eq_none.mpr fun a ha => ?_
    exact List.find?_eq_none.mp hfind a (hperm.mem_iff.mp ha)
  | some b =>
    have hb : b ∈ l := hperm.mem_iff.mpr (List.mem_of_find?_eq_some hfind)
    cases hfirst : l.find? p with
    | none => exact absurd (List.find?_some hfind) (List.find?_eq_none.mp hfirst b hb)
    | some a =>
      rw [hunique a (List.mem_of_find?_eq_some hfirst) b hb (List.find?_some hfirst)
        (List.find?_some hfind)]

theorem portFor_eq_of_perm (hperm : others.Perm entries)
    {registry registry' : OrderedMap Text (Destination π)}
    (h : destinationRegistry (some entries) dispatchable = .ok registry)
    (h' : destinationRegistry (some others) dispatchable = .ok registry') (dispatcher : Option π)
    (entity : Text) : portFor registry' dispatcher entity = portFor registry dispatcher entity := by
  have haccepted := (destinationRegistry_eq_ok_iff.mp h').1
  unfold portFor
  rw [values_of_accepted h, values_of_accepted h']
  rw [find?_eq_of_perm (hperm.map OutboxDestination.destination)
    fun a ha b hb hmatchA hmatchB => haccepted.unique ha hb hmatchA hmatchB]

/-- `sharedEntity` finds an entity that both match exactly when there is one. A registry that is
accepted has one destination at most for every entity, is accepted in every order, and all that it
matches is dispatchable. -/
theorem destinations_disjoint :
    (∀ left right : EntityMatcher,
      (∀ entity, sharedEntity left right = some entity →
        matchesEntity left entity = true ∧ matchesEntity right entity = true) ∧
      (sharedEntity left right = none ↔
        ∀ entity, ¬ (matchesEntity left entity = true ∧ matchesEntity right entity = true))) ∧
    ∀ (π : Type) (entries : List (OutboxDestination π)) (dispatchable : Option EntityMatcher)
      (registry : OrderedMap Text (Destination π)),
      destinationRegistry (some entries) dispatchable = .ok registry →
      (∀ entity, ∀ a ∈ registry.values, ∀ b ∈ registry.values,
        matchesEntity a.matcher entity = true → matchesEntity b.matcher entity = true → a = b) ∧
      (∀ others : List (OutboxDestination π), others.Perm entries →
        ∃ registry', destinationRegistry (some others) dispatchable = .ok registry' ∧
          registry'.values.Perm registry.values ∧
          ∀ dispatcher entity,
            portFor registry' dispatcher entity = portFor registry dispatcher entity) ∧
      ∀ entity, ∀ a ∈ registry.values, matchesEntity a.matcher entity = true →
        dispatches dispatchable entity = true := by
  refine ⟨fun left right =>
    ⟨fun entity h => matchesEntity_of_sharedEntity h, sharedEntity_eq_none_iff⟩, ?_⟩
  intro π entries dispatchable registry h
  have haccepted := (destinationRegistry_eq_ok_iff.mp h).1
  have hvalues := values_of_accepted h
  refine ⟨?_, ?_, ?_⟩
  · rw [hvalues]
    exact fun entity a ha b hb hmatchA hmatchB => haccepted.unique ha hb hmatchA hmatchB
  · intro others hperm
    obtain ⟨registry', h'⟩ := (haccepted.perm hperm).exists_registry
    refine ⟨registry', h', ?_, portFor_eq_of_perm hperm h h'⟩
    rw [hvalues, values_of_accepted h']
    exact hperm.map _
  · rw [hvalues]
    exact fun entity a ha hmatch => haccepted.dispatches ha hmatch

/-- Orders and invoices, in either order. -/
theorem orders_and_invoices_disjoint :
    ∀ entity, ∀ a ∈ [(⟨[1], ⟨[[7]], [[8, 9]]⟩, some 1⟩ : Destination Nat),
        ⟨[2], ⟨[], [[8, 7], [9]]⟩, none⟩],
      ∀ b ∈ [(⟨[1], ⟨[[7]], [[8, 9]]⟩, some 1⟩ : Destination Nat), ⟨[2], ⟨[], [[8, 7], [9]]⟩, none⟩],
      matchesEntity a.matcher entity = true → matchesEntity b.matcher entity = true → a = b :=
  (destinations_disjoint.2 Nat
    [⟨[1], ⟨some [[7]], some [[8, 9]]⟩, some 1⟩, ⟨[2], ⟨none, some [[8, 7], [9]]⟩, none⟩]
    none ⟨[([1], ⟨[1], ⟨[[7]], [[8, 9]]⟩, some 1⟩), ([2], ⟨[2], ⟨[], [[8, 7], [9]]⟩, none⟩)],
      by decide⟩ rfl).1

end Stynx.OutboxDestinations
