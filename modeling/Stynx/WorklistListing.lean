import Stynx.WorklistEvents

/-!
# Listing the events of the worklist

`listEvents` selects by an instant and by an id, each on its own, and orders by
both. What is returned as an instant is a date. Instants of the table are in
microseconds.
-/

namespace Stynx.Worklist

/-- `eventListQuerySchema`; instants of a query are in microseconds. -/
structure EventListQuery where
  page : Nat := 1
  pageSize : Nat := 50
  itemId : Option Nat := none
  after : Option Int := none
  afterId : Option Nat := none

def EventListQuery.selects (query : EventListQuery) (event : ItemEvent) : Bool :=
  query.itemId.all (event.itemId = ·) && query.after.all (· < event.createdAt) &&
    query.afterId.all (· < event.id)

/-- `mapEventRow`: the instant becomes a date. -/
def mapEventRow (event : ItemEvent) : ItemEvent :=
  { event with createdAt := event.createdAt / 1000 * 1000 }

structure WorklistPage (α : Type) where
  data : List α
  page : Nat
  pageSize : Nat
  total : Nat

/-- `listEvents` over the events of the tenant. -/
def listEvents (events : List ItemEvent) (query : EventListQuery) : WorklistPage ItemEvent where
  data := ((((events.insertionSort eventOrder).filter query.selects).drop
    ((query.page - 1) * query.pageSize)).take query.pageSize).map mapEventRow
  page := query.page
  pageSize := query.pageSize
  total := (events.filter query.selects).length

def cursorQuery (itemId : Option Nat) (pageSize : Nat) (cursor : Option (Int × Nat)) :
    EventListQuery :=
  { pageSize, itemId, after := cursor.map Prod.fst, afterId := cursor.map Prod.snd }

/-- The cursor that is read off a returned event. -/
def cursorOf (event : ItemEvent) : Int × Nat := (event.createdAt, event.id)

/-- Pages read one after the other, each from the last event received, until one is empty. -/
def readEvents (events : List ItemEvent) (itemId : Option Nat) (pageSize : Nat) :
    Nat → Option (Int × Nat) → List ItemEvent
  | 0, _ => []
  | calls + 1, cursor =>
    let page := (listEvents events (cursorQuery itemId pageSize cursor)).data
    match page.getLast? with
    | none => []
    | some last => page ++ readEvents events itemId pageSize calls (some (cursorOf last))

section

variable {events rest : List ItemEvent} {itemId : Option Nat} {pageSize calls : Nat}
  {start sent : Option (Int × Nat)} {event last : ItemEvent}

def comesAfter (start : Option (Int × Nat)) (event : ItemEvent) : Bool :=
  start.all fun place => place.1 < event.createdAt ∨ place.1 = event.createdAt ∧ place.2 < event.id

def eventsAfter (events : List ItemEvent) (itemId : Option Nat) (start : Option (Int × Nat)) :
    List ItemEvent :=
  (events.insertionSort eventOrder).filter fun event =>
    itemId.all (event.itemId = ·) && comesAfter start event

/-- The last event of some page, when a list is cut into pages. -/
inductive EndsPage (pageSize : Nat) : List ItemEvent → ItemEvent → Prop
  | here (rest : List ItemEvent) (last : ItemEvent) (h : (rest.take pageSize).getLast? = some last) :
      EndsPage pageSize rest last
  | later (rest : List ItemEvent) (last : ItemEvent)
      (h : EndsPage pageSize (rest.drop pageSize) last) : EndsPage pageSize rest last

/-- Among the events of the item, a cursor selects those after a place. -/
def Continues (events : List ItemEvent) (itemId : Option Nat) (start sent : Option (Int × Nat)) :
    Prop :=
  ∀ event ∈ events, itemId.all (event.itemId = ·) = true →
    ((cursorQuery itemId 1 sent).selects event = true ↔ comesAfter start event = true)

theorem not_endsPage_nil : ¬EndsPage pageSize [] last := by
  intro h
  generalize hnil : ([] : List ItemEvent) = rest at h
  induction h with
  | here rest last h =>
    subst hnil
    cases pageSize <;> cases h
  | later rest last h ih => exact ih (by rw [← hnil, List.drop_nil])

theorem endsPage_iff : EndsPage pageSize rest event ↔
    (rest.take pageSize).getLast? = some event ∨ EndsPage pageSize (rest.drop pageSize) event := by
  constructor
  · rintro (⟨_, _, h⟩ | ⟨_, _, h⟩)
    · exact .inl h
    · exact .inr h
  · rintro (h | h)
    · exact .here rest event h
    · exact .later rest event h

theorem sorted_events (hids : (events.map ItemEvent.id).Nodup) :
    (events.insertionSort eventOrder).Pairwise fun first second =>
      comesAfter (some (first.createdAt, first.id)) second = true := by
  have hordered := List.pairwise_insertionSort eventOrder events
  have hdistinct : (events.insertionSort eventOrder).Pairwise fun a b => a.id ≠ b.id := by
    rw [← List.pairwise_map]
    exact ((List.perm_insertionSort eventOrder events).map ItemEvent.id).nodup_iff.mpr hids
  refine (hordered.and hdistinct).imp ?_
  rintro a b ⟨hle, hne⟩
  unfold eventOrder at hle
  simp only [comesAfter, Option.all_some, decide_eq_true_eq]
  omega

theorem eventsAfter_append (hids : (events.map ItemEvent.id).Nodup) {page : List ItemEvent}
    (h : eventsAfter events itemId start = page ++ rest) (hlast : page.getLast? = some last) :
    eventsAfter events itemId (some (last.createdAt, last.id)) = rest := by
  have hsorted := (sorted_events hids).filter fun event =>
    itemId.all (event.itemId = ·) && comesAfter start event
  have hall : eventsAfter events itemId (some (last.createdAt, last.id)) =
      (eventsAfter events itemId start).filter (comesAfter (some (last.createdAt, last.id))) := by
    have hmem : last ∈ eventsAfter events itemId start := by
      rw [h]
      exact List.mem_append_left _ (List.mem_of_getLast? hlast)
    have hlater := (Bool.and_eq_true _ _ ▸ (List.mem_filter.mp hmem).2).2
    rw [eventsAfter, eventsAfter, List.filter_filter]
    refine List.filter_congr fun event _ => ?_
    cases hafter : comesAfter (some (last.createdAt, last.id)) event with
    | false => rw [Bool.and_false, Bool.false_and]
    | true =>
      have hstart : comesAfter start event = true := by
        cases start with
        | none => rfl
        | some place =>
          simp only [comesAfter, Option.all_some, decide_eq_true_eq] at hlater hafter ⊢
          omega
      rw [hstart, Bool.and_true, Bool.true_and]
  obtain ⟨init, rfl⟩ := List.getLast?_eq_some_iff.mp hlast
  rw [hall, h, List.filter_append]
  change (eventsAfter events itemId start).Pairwise _ at hsorted
  rw [h, List.pairwise_append] at hsorted
  have hnone : (init ++ [last]).filter (comesAfter (some (last.createdAt, last.id))) = [] := by
    rw [List.filter_eq_nil_iff]
    intro event hevent hafter
    simp only [comesAfter, Option.all_some, decide_eq_true_eq] at hafter
    rcases TransitionRuns.mem_concat_iff.mp hevent with hinit | rfl
    · have hbefore := (List.pairwise_append.mp hsorted.1).2.2 event hinit last (by simp)
      simp only [comesAfter, Option.all_some, decide_eq_true_eq] at hbefore
      omega
    · omega
  have hkept : rest.filter (comesAfter (some (last.createdAt, last.id))) = rest := by
    rw [List.filter_eq_self]
    exact fun event hevent => hsorted.2.2 last (by simp) event hevent
  rw [hnone, hkept, List.nil_append]

end

variable {events rest : List ItemEvent} {itemId : Option Nat} {pageSize calls : Nat}
  {start sent : Option (Int × Nat)} {event last : ItemEvent}

def selected (events : List ItemEvent) (itemId : Option Nat) (sent : Option (Int × Nat)) :
    List ItemEvent :=
  (events.insertionSort eventOrder).filter (cursorQuery itemId 1 sent).selects

theorem listEvents_cursor : (listEvents events (cursorQuery itemId pageSize sent)).data =
    ((selected events itemId sent).take pageSize).map mapEventRow := by
  simp only [listEvents, cursorQuery, Nat.sub_self, Nat.zero_mul, List.drop_zero]
  rfl

theorem selected_eq_iff :
    selected events itemId sent = eventsAfter events itemId start ↔
      Continues events itemId start sent := by
  have hfilter : selected events itemId sent = eventsAfter events itemId start ↔
      ∀ event ∈ events.insertionSort eventOrder, (cursorQuery itemId 1 sent).selects event =
        (itemId.all (event.itemId = ·) && comesAfter start event) := by
    constructor
    · intro h event hevent
      rw [Bool.eq_iff_iff]
      have hmem := congrArg (event ∈ ·) h
      simpa only [selected, eventsAfter, List.mem_filter, hevent, true_and, eq_iff_iff] using hmem
    · exact fun h => List.filter_congr h
  rw [hfilter]
  refine forall_congr' fun event => ?_
  rw [List.mem_insertionSort]
  refine imp_congr_right fun _ => ?_
  cases hitem : itemId.all (event.itemId = ·) with
  | false => simp [EventListQuery.selects, cursorQuery, hitem]
  | true => rw [Bool.true_and, Bool.eq_iff_iff, forall_prop_of_true (p := true = true) rfl]

theorem id_lt_of_mem_readEvents {cursor : Int × Nat}
    (h : event ∈ readEvents events itemId pageSize calls (some cursor)) : cursor.2 < event.id := by
  induction calls generalizing cursor with
  | zero => cases h
  | succ calls ih =>
    have hpage : ∀ row ∈ (listEvents events (cursorQuery itemId pageSize (some cursor))).data,
        cursor.2 < row.id := by
      intro row hrow
      rw [listEvents_cursor] at hrow
      obtain ⟨old, hold, rfl⟩ := List.mem_map.mp hrow
      have hselects := (List.mem_filter.mp (List.mem_of_mem_take hold)).2
      simp only [EventListQuery.selects, cursorQuery, Option.map_some, Option.all_some,
        Bool.and_eq_true, decide_eq_true_eq] at hselects
      exact hselects.2
    rw [readEvents] at h
    split at h
    case h_1 => cases h
    case h_2 last hlast =>
      rcases List.mem_append.mp h with h | h
      · exact hpage event h
      · exact (hpage last (List.mem_of_getLast? hlast)).trans (ih h)

theorem readEvents_of_nil (h : selected events itemId sent = []) :
    readEvents events itemId pageSize calls sent = [] := by
  cases calls with
  | zero => rfl
  | succ calls =>
    rw [readEvents, listEvents_cursor, h, List.take_nil]
    rfl

theorem readEvents_succ
    (hlast : ((selected events itemId sent).take pageSize).getLast? = some last) :
    readEvents events itemId pageSize (calls + 1) sent =
      ((selected events itemId sent).take pageSize).map mapEventRow ++
        readEvents events itemId pageSize calls (some (cursorOf (mapEventRow last))) := by
  rw [readEvents, listEvents_cursor, List.getLast?_map, hlast]
  rfl

theorem eq_of_map_eq (hids : (events.map ItemEvent.id).Nodup) {first second : List ItemEvent}
    (hfirst : first ⊆ events) (hsecond : second ⊆ events)
    (h : first.map mapEventRow = second.map mapEventRow) : first = second := by
  induction first generalizing second with
  | nil => exact (List.map_eq_nil_iff.mp h.symm).symm
  | cons row first ih =>
    cases second with
    | nil => cases h
    | cons other second =>
      rw [List.map_cons, List.map_cons, List.cons.injEq] at h
      rw [List.cons_subset] at hfirst hsecond
      have hrow : row = other :=
        List.inj_on_of_nodup_map hids hfirst.1 hsecond.1 (by injection h.1)
      rw [hrow, ih hfirst.2 hsecond.2 h.2]

/-- A reader who receives the events after a place has sent a cursor that selects them. -/
theorem selected_of_readEvents (hids : (events.map ItemEvent.id).Nodup) (hsize : 0 < pageSize)
    (h : readEvents events itemId pageSize (calls + 1) sent =
      (eventsAfter events itemId start).map mapEventRow) :
    selected events itemId sent = eventsAfter events itemId start := by
  cases hsel : selected events itemId sent with
  | nil =>
    rw [readEvents_of_nil hsel] at h
    exact (List.map_eq_nil_iff.mp h.symm).symm
  | cons head tail =>
    have hpage : (head :: tail).take pageSize ≠ [] := by
      rw [Ne, List.take_eq_nil_iff]
      simp [hsize.ne']
    obtain ⟨last, hlast⟩ : ∃ last, _ = some last := ⟨_, List.getLast?_eq_some_getLast hpage⟩
    rw [← hsel] at hlast ⊢
    rw [readEvents_succ hlast] at h
    obtain ⟨front, back, hsplit, hfront, hback⟩ := List.map_eq_append_iff.mp h.symm
    have hpageEq : front = (selected events itemId sent).take pageSize := by
      refine eq_of_map_eq hids ?_ ?_ hfront
      · refine List.Subset.trans (hsplit ▸ List.subset_append_left front back) ?_
        exact fun row hrow => (List.mem_insertionSort _).mp (List.mem_filter.mp hrow).1
      · exact fun row hrow =>
          (List.mem_insertionSort _).mp (List.mem_filter.mp (List.mem_of_mem_take hrow)).1
    have hinside : last ∈ front := hpageEq ▸ List.mem_of_getLast? hlast
    refine selected_eq_iff.mpr fun event hevent hitem => ⟨fun hselects => ?_, fun hafter => ?_⟩
    · -- the first selected event comes after the place, and so do the others
      have hhead : head ∈ eventsAfter events itemId start := by
        rw [hsplit, hpageEq, hsel]
        cases pageSize with
        | zero => omega
        | succ size => exact List.mem_append_left _ (.head _)
      have hplace := (Bool.and_eq_true _ _ ▸ (List.mem_filter.mp hhead).2).2
      have hmem : event ∈ head :: tail := by
        rw [← hsel]
        exact List.mem_filter.mpr ⟨(List.mem_insertionSort _).mpr hevent, hselects⟩
      have hsorted := (sorted_events hids).filter (cursorQuery itemId 1 sent).selects
      change (selected events itemId sent).Pairwise _ at hsorted
      rw [hsel, List.pairwise_cons] at hsorted
      rcases List.mem_cons.mp hmem with rfl | htail
      · exact hplace
      · have hlater := hsorted.1 event htail
        cases start with
        | none => rfl
        | some place =>
          simp only [comesAfter, Option.all_some, decide_eq_true_eq] at hplace hlater ⊢
          omega
    · have hmem : event ∈ front ++ back := by
        rw [← hsplit]
        refine List.mem_filter.mpr ⟨(List.mem_insertionSort _).mpr hevent, ?_⟩
        rw [hitem, hafter, Bool.and_self]
      rcases List.mem_append.mp hmem with hmem | hmem
      · rw [hpageEq] at hmem
        exact (List.mem_filter.mp (List.mem_of_mem_take hmem)).2
      · have hid := id_lt_of_mem_readEvents (hback ▸ List.mem_map_of_mem hmem)
        have hsorted := (sorted_events hids).filter fun event =>
          itemId.all (event.itemId = ·) && comesAfter start event
        change (eventsAfter events itemId start).Pairwise _ at hsorted
        rw [hsplit, List.pairwise_append] at hsorted
        have hlater := hsorted.2.2 last hinside event hmem
        have hselects := (List.mem_filter.mp (List.mem_of_mem_take (hpageEq ▸ hinside))).2
        change last.id < event.id at hid
        simp only [comesAfter, Option.all_some, decide_eq_true_eq] at hlater
        cases sent with
        | none => simp [EventListQuery.selects, cursorQuery, hitem]
        | some cursor =>
          simp only [EventListQuery.selects, cursorQuery, hitem, Option.map_some, Option.all_some,
            Bool.true_and, Bool.and_eq_true, decide_eq_true_eq] at hselects ⊢
          omega

/-- A reader receives the events after a place if and only if the cursor goes on from there, and so
does that of the last event of every page. -/
theorem readEvents_eq_iff (hids : (events.map ItemEvent.id).Nodup) (hsize : 0 < pageSize)
    (hcalls : (eventsAfter events itemId start).length < calls) :
    readEvents events itemId pageSize calls sent =
        (eventsAfter events itemId start).map mapEventRow ↔
      Continues events itemId start sent ∧
        ∀ last, EndsPage pageSize (eventsAfter events itemId start) last →
          Continues events itemId (some (last.createdAt, last.id))
            (some (cursorOf (mapEventRow last))) := by
  induction calls generalizing start sent with
  | zero => omega
  | succ calls ih =>
    by_cases hsel : selected events itemId sent = eventsAfter events itemId start
    case neg =>
      rw [selected_eq_iff] at hsel
      exact iff_of_false (fun h => hsel (selected_eq_iff.mp (selected_of_readEvents hids hsize h)))
        fun h => hsel h.1
    case pos =>
      rw [and_iff_right (selected_eq_iff.mp hsel)]
      by_cases hnil : eventsAfter events itemId start = []
      · rw [readEvents_of_nil (hsel.trans hnil), hnil]
        exact iff_of_true rfl fun last hends => absurd hends not_endsPage_nil
      · have hpage : (eventsAfter events itemId start).take pageSize ≠ [] := by
          rw [Ne, List.take_eq_nil_iff]
          simp [hsize.ne', hnil]
        obtain ⟨last, hlast⟩ : ∃ last, _ = some last := ⟨_, List.getLast?_eq_some_getLast hpage⟩
        have hrest := eventsAfter_append hids (List.take_append_drop _ _).symm hlast
        have hlength : (eventsAfter events itemId (some (last.createdAt, last.id))).length <
            calls := by
          have hpositive := List.length_pos_of_ne_nil hnil
          rw [hrest, List.length_drop]
          omega
        have hrow : (eventsAfter events itemId start).map mapEventRow =
            ((eventsAfter events itemId start).take pageSize).map mapEventRow ++
              ((eventsAfter events itemId start).drop pageSize).map mapEventRow := by
          rw [← List.map_append, List.take_append_drop]
        rw [readEvents_succ (hsel ▸ hlast), hsel, hrow, List.append_cancel_left_eq, ← hrest,
          ih hlength]
        constructor
        · rintro ⟨hnow, hlater⟩ event hends
          rcases endsPage_iff.mp hends with hhere | hdrop
          · obtain rfl := Option.some.inj (hlast.symm.trans hhere)
            exact hnow
          · exact hlater event (hrest ▸ hdrop)
        · intro h
          refine ⟨h last (.here _ _ hlast), fun event hends => h event (.later _ _ ?_)⟩
          rw [← hrest]
          exact hends

def sampleEvent (id : Nat) (createdAt : Int) : ItemEvent :=
  ⟨id, 1, .enqueue, none, none, none, none, .empty, createdAt⟩

/-- Two events with growing instants and ids are read one by one. -/
theorem growing_events_continue :
    Continues [sampleEvent 2 2000, sampleEvent 1 1000] none none none ∧
      ∀ last, EndsPage 1 (eventsAfter [sampleEvent 2 2000, sampleEvent 1 1000] none none) last →
        Continues [sampleEvent 2 2000, sampleEvent 1 1000] none
          (some (last.createdAt, last.id)) (some (cursorOf (mapEventRow last))) :=
  (readEvents_eq_iff (by decide) (by decide) (show _ < 3 by decide)).mp (by decide)

/-- The second of two events of one instant is lost. -/
theorem same_instant_is_lost :
    readEvents [sampleEvent 1 1000, sampleEvent 2 1000] none 1 9 none ≠
      (eventsAfter [sampleEvent 1 1000, sampleEvent 2 1000] none none).map mapEventRow := by
  decide

end Stynx.Worklist
