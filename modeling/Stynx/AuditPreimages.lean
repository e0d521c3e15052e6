import Stynx.AuditChainRuns
import Stynx.JsonTokens
import Stynx.SeparatedLists

/-!
# The text that is hashed

`audit.compute_event_hash` joins the texts of its fields with a separator that
entity, entity id and operation may contain, and writes null as a text that a
field may have. Where no text does so, the hashed text determines every field.
-/

namespace Stynx.AuditChain

/-- The argument of `digest`. -/
def hashPreimage (f : Functions) (event : Event) : String :=
  String.intercalate "|"
    [toString event.eventId, f.formatHashTimestamp event.occurredAt,
      (event.tenancyId.map toString).getD "", (event.actorId.map toString).getD "",
      event.entity, event.entityId.getD "", event.operation,
      (event.oldData.map f.jsonText).getD "", (event.newData.map f.jsonText).getD "",
      event.previousHash.getD "GENESIS"]

/-- The first instant of the year 1, in microseconds. -/
def commonEra : Int := -62135596800000000

/-- What the texts of the database are like. -/
structure Textual (f : Functions) : Prop where
  instant_free : ∀ instant, '|' ∉ (f.formatHashTimestamp instant).toList
  /-- The format does not show the era. -/
  instant_injective : Set.InjOn f.formatHashTimestamp {instant | commonEra ≤ instant}
  json_first : ∀ value, ∃ c rest, (f.jsonText value).toList = c :: rest ∧ c ≠ '|'
  /-- A JSON value is not followed by a separator in the middle of another one. -/
  json_ends : ∀ value other rest more, f.jsonText value ++ "|" ++ rest =
    f.jsonText other ++ "|" ++ more → f.jsonText value = f.jsonText other

/-- No text of the event is read in two ways. -/
structure Delimited (event : Event) : Prop where
  instant : commonEra ≤ event.occurredAt
  entity : '|' ∉ event.entity.toList
  entityId : ∀ id ∈ event.entityId, id ≠ "" ∧ '|' ∉ id.toList
  operation : '|' ∉ event.operation.toList
  previousHash : event.previousHash ≠ some "GENESIS"

/-- The hashed fields are the same; data are compared by their JSON texts. -/
structure SameHashed (f : Functions) (first second : Event) : Prop where
  eventId : first.eventId = second.eventId
  occurredAt : first.occurredAt = second.occurredAt
  tenancyId : first.tenancyId = second.tenancyId
  actorId : first.actorId = second.actorId
  entity : first.entity = second.entity
  entityId : first.entityId = second.entityId
  operation : first.operation = second.operation
  oldData : first.oldData.map f.jsonText = second.oldData.map f.jsonText
  newData : first.newData.map f.jsonText = second.newData.map f.jsonText
  previousHash : first.previousHash = second.previousHash

variable {f : Functions} {first second : Event} {a b rest more : String}

theorem field_inj (ha : '|' ∉ a.toList) (hb : '|' ∉ b.toList)
    (h : a ++ "|" ++ rest = b ++ "|" ++ more) : a = b ∧ rest = more := by
  have hlist := congrArg String.toList h
  simp only [String.toList_append, List.append_assoc] at hlist
  obtain ⟨hfield, hrest⟩ := SeparatedLists.eq_of_notMem_left ha hb hlist
  exact ⟨String.toList_inj.mp hfield, String.toList_inj.mp hrest⟩

theorem toString_free (n : Nat) : '|' ∉ (toString n).toList := by
  rw [Nat.toString_eq_repr, Nat.toList_repr]
  intro hmem
  exact absurd (JsonTokens.isDigit_toDigits hmem) (by decide)

theorem toString_inj {m n : Nat} (h : toString m = toString n) : m = n := by
  rw [Nat.toString_eq_repr, Nat.toString_eq_repr] at h
  have hlist := congrArg String.toList h
  rw [Nat.toList_repr, Nat.toList_repr] at hlist
  exact JsonTokens.toDigits_injective hlist

theorem toString_ne_empty (n : Nat) : toString n ≠ "" := by
  intro h
  have hlist := congrArg String.toList h
  rw [Nat.toString_eq_repr, Nat.toList_repr] at hlist
  exact Nat.toDigits_ne_nil hlist

theorem option_inj {x y : Option String} (hx : x ≠ some a) (hy : y ≠ some a)
    (h : x.getD a = y.getD a) : x = y := by
  cases x with
  | none =>
    cases y with
    | none => rfl
    | some u => exact absurd (congrArg some h.symm) hy
  | some t =>
    cases y with
    | none => exact absurd (congrArg some h) hx
    | some u => exact congrArg some h

theorem id_inj {x y : Option Nat}
    (h : (x.map toString).getD "" ++ "|" ++ rest = (y.map toString).getD "" ++ "|" ++ more) :
    x = y ∧ rest = more := by
  have hfree : ∀ z : Option Nat, '|' ∉ ((z.map toString).getD "").toList := by
    rintro (_ | n)
    · exact List.not_mem_nil
    · exact toString_free n
  have hne : ∀ z : Option Nat, z.map toString ≠ some "" := by
    rintro (_ | n) hz
    · cases hz
    · exact toString_ne_empty n (Option.some.inj hz)
  obtain ⟨htext, hrest⟩ := field_inj (hfree x) (hfree y) h
  exact ⟨Option.map_injective (fun _ _ => toString_inj) (option_inj (hne x) (hne y) htext), hrest⟩

theorem json_inj (hf : Textual f) {x y : Option Json}
    (h : (x.map f.jsonText).getD "" ++ "|" ++ rest = (y.map f.jsonText).getD "" ++ "|" ++ more) :
    x.map f.jsonText = y.map f.jsonText ∧ rest = more := by
  have hfirst : ∀ (value : Json) (rest more : String),
      "" ++ "|" ++ rest ≠ f.jsonText value ++ "|" ++ more := by
    intro value rest more h
    obtain ⟨c, cs, hc, hne⟩ := hf.json_first value
    have hlist := congrArg String.toList h
    simp only [String.toList_append, hc] at hlist
    exact hne (List.cons.inj hlist).1.symm
  have htext : x.map f.jsonText = y.map f.jsonText := by
    cases x with
    | none =>
      cases y with
      | none => rfl
      | some w => exact absurd h (hfirst w _ _)
    | some v =>
      cases y with
      | none => exact absurd h.symm (hfirst v _ _)
      | some w => exact congrArg some (hf.json_ends v w _ _ h)
  rw [htext] at h
  refine ⟨htext, ?_⟩
  have hlist := congrArg String.toList h
  simp only [String.toList_append, List.append_assoc] at hlist
  exact String.toList_inj.mp (List.cons.inj (List.append_cancel_left hlist)).2

/-- Two events whose texts are not read in two ways have one hashed text only if their hashed fields
are the same. -/
theorem sameHashed_of_preimage (hf : Textual f) (hfirst : Delimited first)
    (hsecond : Delimited second) (h : hashPreimage f first = hashPreimage f second) :
    SameHashed f first second := by
  have hid : ∀ event, Delimited event → '|' ∉ (event.entityId.getD "").toList := by
    intro event hevent
    cases hentityId : event.entityId with
    | none => exact List.not_mem_nil
    | some id => exact (hevent.entityId id hentityId).2
  have hne : ∀ event, Delimited event → event.entityId ≠ some "" :=
    fun event hevent hempty => (hevent.entityId "" hempty).1 rfl
  simp only [hashPreimage, String.intercalate_cons_cons, String.intercalate_singleton] at h
  obtain ⟨heventId, h⟩ := field_inj (toString_free _) (toString_free _) h
  obtain ⟨hinstant, h⟩ := field_inj (hf.instant_free _) (hf.instant_free _) h
  obtain ⟨htenancyId, h⟩ := id_inj h
  obtain ⟨hactorId, h⟩ := id_inj h
  obtain ⟨hentity, h⟩ := field_inj hfirst.entity hsecond.entity h
  obtain ⟨hentityId, h⟩ := field_inj (hid first hfirst) (hid second hsecond) h
  obtain ⟨hoperation, h⟩ := field_inj hfirst.operation hsecond.operation h
  obtain ⟨holdData, h⟩ := json_inj hf h
  obtain ⟨hnewData, hprevious⟩ := json_inj hf h
  exact ⟨toString_inj heventId, hf.instant_injective hfirst.instant hsecond.instant hinstant,
    htenancyId, hactorId, hentity, option_inj (hne first hfirst) (hne second hsecond) hentityId,
    hoperation, holdData, hnewData,
    option_inj hfirst.previousHash hsecond.previousHash hprevious⟩

/-- A change of an order, as it is hashed. -/
def sampleEvent (entity entityId : String) : Event where
  tenancyId := some 7
  actorId := none
  actorRole := none
  operation := "UPDATE"
  entity := entity
  entityId := some entityId
  pk := none
  metadata := .tags []
  ipAddress := none
  requestId := none
  oldData := none
  newData := none
  eventId := 1
  occurredAt := 0
  previousHash := none
  rowHash := ""
  epochId := 1

/-- Functions that format the first instant of 1970 as the database does. -/
def epochFunctions : Functions :=
  { plainFunctions with
    formatHashTimestamp := fun instant =>
      if instant = 0 then "1970-01-01 00:00:00.000000+00"
      else String.ofList (List.replicate (instant - commonEra).toNat 'x') }

theorem toList_epochFunctions {instant : Int} (h : instant ≠ 0) :
    (epochFunctions.formatHashTimestamp instant).toList =
      List.replicate (instant - commonEra).toNat 'x' := by
  change (if instant = 0 then _ else _ : String).toList = _
  rw [if_neg h, String.toList_ofList]

theorem textual_epochFunctions : Textual epochFunctions where
  instant_free instant := by
    by_cases hzero : instant = 0
    · subst hzero
      decide
    · rw [toList_epochFunctions hzero]
      intro hmem
      exact absurd (List.eq_of_mem_replicate hmem) (by decide)
  instant_injective := by
    -- the text of 1970 has a digit, and the others have the length of their distance
    have hdigit : '1' ∈ (epochFunctions.formatHashTimestamp 0).toList := by decide
    have hzero : ∀ instant, epochFunctions.formatHashTimestamp 0 =
        epochFunctions.formatHashTimestamp instant → instant = 0 := by
      intro instant h
      by_contra hne
      rw [h, toList_epochFunctions hne] at hdigit
      exact absurd (List.eq_of_mem_replicate hdigit) (by decide)
    intro first hfirst second hsecond h
    by_cases hz : first = 0
    · subst hz
      exact (hzero second h).symm
    · by_cases hz' : second = 0
      · subst hz'
        exact hzero first h.symm
      · have hlength := congrArg (fun text : String => text.toList.length) h
        simp only [toList_epochFunctions hz, toList_epochFunctions hz', List.length_replicate]
          at hlength
        change commonEra ≤ first at hfirst
        change commonEra ≤ second at hsecond
        omega
  json_first _ := ⟨'j', "son".toList, (by decide : "json".toList = _), by decide⟩
  json_ends _ _ _ _ _ := rfl

/-- Events of two orders have different texts. -/
theorem orders_hashed_apart :
    hashPreimage epochFunctions (sampleEvent "shop.orders" "1") ≠
      hashPreimage epochFunctions (sampleEvent "shop.orders" "2") := by
  have hdelimited : ∀ id : String, id ≠ "" ∧ '|' ∉ id.toList →
      Delimited (sampleEvent "shop.orders" id) := by
    intro id hid
    refine ⟨(by decide : commonEra ≤ 0), (by decide : '|' ∉ "shop.orders".toList), ?_,
      (by decide : '|' ∉ "UPDATE".toList), nofun⟩
    rintro _ ⟨rfl⟩
    exact hid
  intro h
  exact absurd (sameHashed_of_preimage textual_epochFunctions (hdelimited "1" (by decide))
    (hdelimited "2" (by decide)) h).entityId (by decide)

/-- Text is moved from the id to the entity, and the hashed text is the same. -/
theorem moved_text_hashed_alike :
    hashPreimage plainFunctions (sampleEvent "shop.orders" "a|b") =
        hashPreimage plainFunctions (sampleEvent "shop.orders|a" "b") ∧
      (sampleEvent "shop.orders" "a|b").entity ≠ (sampleEvent "shop.orders|a" "b").entity := by
  decide

end Stynx.AuditChain
