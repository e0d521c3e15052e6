import Stynx.MobileQueue

/-!
# Submissions that fail

`submitPendingQueue` of `packages/mobile-runtime/src/runtime.ts` marks the pending
items one by one before the backend is called, and puts them one by one afterwards:
as pending again if the call has failed, else with their state in the answer. Only
the call itself stands in a `try`.
-/

namespace Stynx.MobileSubmissions

open MobileNumbering MobileQueue OrderedMap

/-- How a put of the store ends. -/
inductive Put where
  | done
  /-- It throws and has stored nothing. -/
  | lost
  /-- It throws after the item was stored. -/
  | late
  deriving DecidableEq

/-- What the ports do in one run; the puts of each loop are numbered from zero. -/
structure Ports where
  /-- The session; without one, or without a list of the queue, the run throws at once. -/
  session : Option MobileSessionContext
  now : String
  marks : Nat → Put
  /-- The items in conflict, unless the backend throws. -/
  answer : Option (List String)
  settles : Nat → Put

structure SyncQueue where
  items : OrderedMap String MobileSyncQueueItem
  keyed : ∀ id item, items.get? id = some item → item.queueItemId = id

def SyncQueue.put (queue : SyncQueue) (item : MobileSyncQueueItem) : SyncQueue where
  items := queue.items.set item.queueItemId item
  keyed := by
    intro id stored hget
    rcases get?_set_eq_some.mp hget with ⟨rfl, rfl⟩ | ⟨-, hold⟩
    · rfl
    · exact queue.keyed id stored hold

/-- The items that a run selects. -/
def SyncQueue.pending (queue : SyncQueue) : List MobileSyncQueueItem :=
  queue.items.values.filter fun item => item.status = .pending

/-- The loop of puts, and whether it has come to its end. -/
def putAll (puts : Nat → Put) : List MobileSyncQueueItem → SyncQueue → Bool × SyncQueue
  | [], queue => (true, queue)
  | item :: rest, queue =>
    match puts 0 with
    | .done => putAll (fun n => puts (n + 1)) rest (queue.put item)
    | .lost => (false, queue)
    | .late => (false, queue.put item)

/-- `submitPendingQueue`: whether it returns, and the queue that it leaves. -/
def submitPendingQueue (ports : Ports) (queue : SyncQueue) : Bool × SyncQueue :=
  match ports.session with
  | none => (false, queue)
  | some _ =>
    if queue.pending = [] then (true, queue)
    else
      let marked := queue.pending.map (markSent ports.now)
      match putAll ports.marks marked queue with
      | (false, stored) => (false, stored)
      | (true, sent) =>
        match putAll ports.settles (marked.map (settle ports.answer)) sent with
        | (all, stored) => (all && ports.answer.isSome, stored)

/-- If the run throws, each item that it selected is pending again or has the state that the answer
gave it. -/
def NoneStranded (ports : Ports) (queue : SyncQueue) : Prop :=
  (submitPendingQueue ports queue).1 = false → ∀ item ∈ queue.pending, ∃ stored,
    (submitPendingQueue ports queue).2.items.get? item.queueItemId = some stored ∧
      (stored ∈ (submitPendingQueue ports queue).2.pending ∨
        ports.answer.isSome = true ∧ stored = settle ports.answer (markSent ports.now item))

/-- The put with this number is made, and its item is stored. -/
def Writes (puts : Nat → Put) (i : Nat) : Prop := (∀ j < i, puts j = .done) ∧ puts i ≠ .lost

instance (puts : Nat → Put) (i : Nat) : Decidable (Writes puts i) :=
  inferInstanceAs (Decidable (_ ∧ _))

variable {ports : Ports} {queue : SyncQueue} {puts : Nat → Put} {items : List MobileSyncQueueItem}

theorem writes_succ {i : Nat} :
    Writes puts (i + 1) ↔ puts 0 = .done ∧ Writes (fun n => puts (n + 1)) i := by
  constructor
  · intro h
    exact ⟨h.1 0 (by omega), fun j hj => h.1 (j + 1) (by omega), h.2⟩
  · intro h
    refine ⟨fun j hj => ?_, h.2.2⟩
    cases j with
    | zero => exact h.1
    | succ j => exact h.2.1 j (by omega)

theorem putAll_done_iff :
    (putAll puts items queue).1 = true ↔ ∀ i < items.length, puts i = .done := by
  induction items generalizing puts queue with
  | nil => simp [putAll]
  | cons item rest ih =>
    have hsplit : (∀ i < (item :: rest).length, puts i = .done) ↔
        puts 0 = .done ∧ ∀ i < rest.length, puts (i + 1) = .done := by
      rw [List.length_cons, Nat.forall_lt_succ_left]
    rw [hsplit, putAll]
    cases hput : puts 0 with
    | done => simpa using ih
    | lost => simp
    | late => simp

section

variable (f : MobileSyncQueueItem → MobileSyncQueueItem)
variable (hf : ∀ item, (f item).queueItemId = item.queueItemId)
include hf

theorem get?_putAll_of_not_mem {id : String} (h : id ∉ items.map MobileSyncQueueItem.queueItemId) :
    (putAll puts (items.map f) queue).2.items.get? id = queue.items.get? id := by
  induction items generalizing puts queue with
  | nil => rfl
  | cons item rest ih =>
    rw [List.map_cons, List.mem_cons, not_or, ← hf item] at h
    have hput : (queue.put (f item)).items.get? id = queue.items.get? id :=
      get?_set_of_ne _ _ (Ne.symm h.1)
    rw [List.map_cons, putAll]
    split
    · exact (ih h.2).trans hput
    · rfl
    · exact hput

theorem get?_putAll (puts : Nat → Put) (queue : SyncQueue)
    (hids : (items.map MobileSyncQueueItem.queueItemId).Nodup) {i : Nat} (hi : i < items.length) :
    (putAll puts (items.map f) queue).2.items.get? items[i].queueItemId =
      if Writes puts i then some (f items[i]) else queue.items.get? items[i].queueItemId := by
  induction items generalizing puts queue i with
  | nil => cases hi
  | cons item rest ih =>
    obtain ⟨hhead, htail⟩ := List.nodup_cons.mp hids
    have hself : (queue.put (f item)).items.get? item.queueItemId = some (f item) :=
      hf item ▸ get?_set_self _ _ _
    cases i with
    | zero =>
      have hwrites : Writes puts 0 ↔ puts 0 ≠ .lost :=
        and_iff_right fun j hj => absurd hj (Nat.not_lt_zero j)
      simp only [List.getElem_cons_zero, hwrites, List.map_cons, putAll]
      cases puts 0 with
      | done => exact (get?_putAll_of_not_mem f hf hhead).trans hself
      | lost => rfl
      | late => exact hself
    | succ i =>
      have hi : i < rest.length := Nat.lt_of_succ_lt_succ hi
      have hne : (f item).queueItemId ≠ rest[i].queueItemId := fun heq =>
        hhead (hf item ▸ heq ▸ List.mem_map_of_mem (List.getElem_mem hi))
      have hother : (queue.put (f item)).items.get? rest[i].queueItemId =
          queue.items.get? rest[i].queueItemId := get?_set_of_ne _ _ hne
      simp only [List.getElem_cons_succ, writes_succ, List.map_cons, putAll]
      cases puts 0 with
      | done => rw [ih _ _ htail hi, hother]; simp
      | lost => simp
      | late => simpa using hother

end

theorem nodup_pending (queue : SyncQueue) :
    (queue.pending.map MobileSyncQueueItem.queueItemId).Nodup := by
  have hkeys : queue.items.values.map MobileSyncQueueItem.queueItemId =
      queue.items.entries.map Prod.fst := by
    rw [OrderedMap.values, List.map_map]
    refine List.map_congr_left fun entry hentry => ?_
    exact queue.keyed entry.1 entry.2 (mem_entries_iff.mp hentry)
  exact (hkeys ▸ queue.items.nodup).sublist (List.filter_sublist.map _)

theorem mem_pending {item : MobileSyncQueueItem} :
    item ∈ queue.pending ↔
      queue.items.get? item.queueItemId = some item ∧ item.status = .pending := by
  rw [SyncQueue.pending, List.mem_filter, mem_values_iff, decide_eq_true_eq]
  refine and_congr_left fun _ => ⟨?_, fun h => ⟨_, h⟩⟩
  rintro ⟨id, hget⟩
  rwa [queue.keyed id item hget]

theorem settle_not_sent (answer : Option (List String)) (item : MobileSyncQueueItem) :
    (settle answer item).status ≠ .sent := by
  cases answer with
  | none => simp [settle]
  | some conflicts => simp only [settle]; split <;> simp

theorem not_noneStranded {i : Nat} (hi : i < queue.pending.length)
    (hthrows : (submitPendingQueue ports queue).1 = false)
    (hsent : (submitPendingQueue ports queue).2.items.get? queue.pending[i].queueItemId =
      some (markSent ports.now queue.pending[i])) : ¬ NoneStranded ports queue := by
  intro hnone
  obtain ⟨stored, hstored, hpending | ⟨-, hanswer⟩⟩ := hnone hthrows _ (List.getElem_mem hi)
  · rw [hsent] at hstored
    cases hstored
    cases (mem_pending.mp hpending).2
  · rw [hsent, hanswer] at hstored
    exact settle_not_sent ports.answer _
      (congrArg MobileSyncQueueItem.status (Option.some.inj hstored)).symm

section

variable (hsession : ports.session ≠ none) (hselected : queue.pending ≠ [])
include hsession hselected

theorem submit_of_unmarked (hall : ¬ ∀ i < queue.pending.length, ports.marks i = .done) :
    (submitPendingQueue ports queue).1 = false ∧ ∀ (i : Nat) (hi : i < queue.pending.length),
      (submitPendingQueue ports queue).2.items.get? queue.pending[i].queueItemId = some
        (if Writes ports.marks i then markSent ports.now queue.pending[i] else queue.pending[i]) := by
  obtain ⟨session, hsome⟩ := Option.ne_none_iff_exists'.mp hsession
  have hstops : ¬ (putAll ports.marks (queue.pending.map (markSent ports.now)) queue).1 = true := by
    rw [putAll_done_iff, List.length_map]
    exact hall
  have hget := fun i (hi : i < queue.pending.length) =>
    get?_putAll (markSent ports.now) (fun _ => rfl) ports.marks queue (nodup_pending queue) hi
  simp only [submitPendingQueue, hsome, if_neg hselected]
  generalize putAll ports.marks _ queue = result at hstops hget ⊢
  obtain ⟨_ | _, stored⟩ := result
  · refine ⟨rfl, fun i hi => ?_⟩
    rw [hget i hi, (mem_pending.mp (List.getElem_mem hi)).1, apply_ite some]
  · exact absurd rfl hstops

theorem submit_of_marked (hall : ∀ i < queue.pending.length, ports.marks i = .done) :
    ((submitPendingQueue ports queue).1 = true →
        ∀ i < queue.pending.length, ports.settles i = .done) ∧
      ∀ (i : Nat) (hi : i < queue.pending.length),
        (submitPendingQueue ports queue).2.items.get? queue.pending[i].queueItemId = some
          (if Writes ports.settles i then settle ports.answer (markSent ports.now queue.pending[i])
          else markSent ports.now queue.pending[i]) := by
  obtain ⟨session, hsome⟩ := Option.ne_none_iff_exists'.mp hsession
  have hends : (putAll ports.marks (queue.pending.map (markSent ports.now)) queue).1 = true := by
    rw [putAll_done_iff, List.length_map]
    exact hall
  have hget := fun i (hi : i < queue.pending.length) =>
    get?_putAll (markSent ports.now) (fun _ => rfl) ports.marks queue (nodup_pending queue) hi
  simp only [submitPendingQueue, hsome, if_neg hselected]
  generalize putAll ports.marks _ queue = result at hends hget ⊢
  obtain ⟨_, sent⟩ := result
  cases hends
  simp only [List.map_map, Bool.and_eq_true]
  refine ⟨fun hsettled => ?_, fun i hi => ?_⟩
  · simpa [putAll_done_iff] using hsettled.1
  · have hwrites : Writes ports.marks i :=
      ⟨fun j hj => hall j (hj.trans hi), by rw [hall i hi]; decide⟩
    rw [get?_putAll (settle ports.answer ∘ markSent ports.now) (fun _ => rfl) _ _
      (nodup_pending queue) hi, hget i hi, if_pos hwrites, apply_ite some]
    rfl

theorem none_stranded_of_unmarked (hall : ¬ ∀ i < queue.pending.length, ports.marks i = .done) :
    NoneStranded ports queue ↔ ports.marks 0 = .lost := by
  obtain ⟨hthrows, hstored⟩ := submit_of_unmarked hsession hselected hall
  have hpos : 0 < queue.pending.length := List.length_pos_iff.mpr hselected
  constructor
  · intro hnone
    by_contra hmade
    have hwrites : Writes ports.marks 0 := ⟨fun j hj => absurd hj (Nat.not_lt_zero j), hmade⟩
    exact not_noneStranded hpos hthrows (by rw [hstored 0 hpos, if_pos hwrites]) hnone
  · intro hlost _ item hitem
    obtain ⟨i, hi, rfl⟩ := List.getElem_of_mem hitem
    have hunmade : ¬ Writes ports.marks i := by
      intro hwrites
      rcases Nat.eq_zero_or_pos i with rfl | hlater
      · exact hwrites.2 hlost
      · cases hlost.symm.trans (hwrites.1 0 hlater)
    have hsame := hstored i hi
    rw [if_neg hunmade] at hsame
    exact ⟨_, hsame, .inl (mem_pending.mpr ⟨hsame, (mem_pending.mp hitem).2⟩)⟩

theorem none_stranded_of_marked (hall : ∀ i < queue.pending.length, ports.marks i = .done) :
    NoneStranded ports queue ↔ Writes ports.settles (queue.pending.length - 1) := by
  obtain ⟨hreturns, hstored⟩ := submit_of_marked hsession hselected hall
  have hpos : 0 < queue.pending.length := List.length_pos_iff.mpr hselected
  have hlast : queue.pending.length - 1 < queue.pending.length := by omega
  constructor
  · intro hnone
    by_contra hwrites
    have hthrows : (submitPendingQueue ports queue).1 = false := by
      refine Bool.eq_false_iff.mpr fun hends => hwrites ⟨fun j hj => ?_, ?_⟩
      · exact hreturns hends j (by omega)
      · rw [hreturns hends _ hlast]
        decide
    exact not_noneStranded hlast hthrows (by rw [hstored _ hlast, if_neg hwrites]) hnone
  · intro hwrites _ item hitem
    obtain ⟨i, hi, rfl⟩ := List.getElem_of_mem hitem
    have hearlier : Writes ports.settles i := by
      rcases Nat.lt_or_ge i (queue.pending.length - 1) with hlt | hge
      · exact ⟨fun j hj => hwrites.1 j (by omega), by rw [hwrites.1 i hlt]; decide⟩
      · rwa [show i = queue.pending.length - 1 by omega]
    have hsettled := hstored i hi
    rw [if_pos hearlier] at hsettled
    refine ⟨_, hsettled, ?_⟩
    cases hanswer : ports.answer with
    | none => exact .inl (mem_pending.mpr ⟨hanswer ▸ hsettled, rfl⟩)
    | some conflicts => exact .inr ⟨rfl, rfl⟩

end

/-- A run that throws leaves no item as sent exactly when it selects none, when its first put is
lost, or when it marks all items and the last put after the answer stores its item. -/
theorem none_stranded_iff (ports : Ports) (queue : SyncQueue) : NoneStranded ports queue ↔
    ports.session = none ∨ queue.pending = [] ∨ ports.marks 0 = .lost ∨
      (∀ i < queue.pending.length, ports.marks i = .done) ∧
        Writes ports.settles (queue.pending.length - 1) := by
  by_cases hsession : ports.session = none
  · refine iff_of_true (fun _ item hitem => ?_) (.inl hsession)
    rw [submitPendingQueue, hsession]
    exact ⟨item, (mem_pending.mp hitem).1, .inl hitem⟩
  by_cases hselected : queue.pending = []
  · exact iff_of_true (fun _ item hitem => by rw [hselected] at hitem; cases hitem)
      (.inr (.inl hselected))
  rw [or_iff_right hsession, or_iff_right hselected]
  by_cases hall : ∀ i < queue.pending.length, ports.marks i = .done
  · have hfirst : ports.marks 0 ≠ .lost := by
      rw [hall 0 (List.length_pos_iff.mpr hselected)]
      decide
    rw [none_stranded_of_marked hsession hselected hall, or_iff_right hfirst, and_iff_right hall]
  · rw [none_stranded_of_unmarked hsession hselected hall]
    exact (or_iff_left fun h => hall h.1).symm

def twoPending : SyncQueue :=
  (SyncQueue.mk .empty fun _ _ hget => by cases hget).put (draftItem "q1") |>.put (draftItem "q2")

/-- The second item is not marked, and the first one stays sent. -/
theorem first_item_stranded : ¬ ∀ ports queue, NoneStranded ports queue := by
  intro h
  obtain ⟨stored, hstored, hpending | ⟨hanswer, -⟩⟩ :=
    h ⟨some agent, "2026-05-20T12:02:00.000Z", fun i => if i = 0 then .done else .lost, none,
      fun _ => .done⟩ twoPending rfl (draftItem "q1") (by decide)
  · cases hstored
    cases (mem_pending.mp hpending).2
  · cases hanswer

end Stynx.MobileSubmissions
