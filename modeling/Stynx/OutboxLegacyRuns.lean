import Stynx.OutboxTables
import Stynx.TransitionRuns

/-!
# Acknowledged legacy messages

Runs of the legacy outbox: messages are enqueued, dispatchers claim the due ones
and hand them to the port one after the other, failures are recorded, and
acknowledgements arrive at any time and more than once. A failure leaves an
acknowledged message alone, an `ERROR` does not.
-/

namespace Stynx.OutboxLegacyRuns

open OutboxTables TransitionRuns OrderedMap

/-- A transaction of the legacy outbox, or a call of the port; a claim names the message and its
attempts. -/
inductive Label where
  | enqueue (tenantId : String) (envelope : Envelope) (uuid : String) (now : Int)
  | claimDue (limit : Nat) (locked : List String) (now : Int)
  | send (claim : String × Nat)
  | recordDispatchFailure (claim : String × Nat) (text : String) (now : Int)
  | ack (input : AckInput) (now : Int)

/-- The tables and what the dispatchers hold. -/
structure State where
  db : Db
  claimed : List (String × Nat)
  handed : List (String × Nat)

def step (policy : Policy) (s : State) : Label → Option State
  | .enqueue tenantId envelope uuid now =>
    some { s with db := (enqueue s.db tenantId envelope uuid now).1 }
  | .claimDue limit locked now =>
    some { s with
      db := (claimDue s.db limit locked now).1
      claimed := s.claimed ++ (claimDue s.db limit locked now).2 }
  | .send claim =>
    if claim ∈ s.claimed then
      some { s with claimed := s.claimed.erase claim, handed := s.handed ++ [claim] }
    else none
  | .recordDispatchFailure claim text now =>
    if claim ∈ s.handed then
      some { s with
        db := (recordDispatchFailure policy s.db claim.1 claim.2 text now).1
        handed := s.handed.erase claim }
    else none
  | .ack input now => some { s with db := (OutboxTables.ack policy s.db input now).1 }

def Acked (id : String) (s : State) : Prop :=
  (s.db.messages.get? id).map Message.status = some .acked

/-- No dispatcher holds a claim of the message that it has not sent. -/
def Unclaimed (id : String) (s : State) : Prop := id ∉ s.claimed.map Prod.fst

/-- The step claims or sends the message. -/
def Dispatches (id : String) (s : State) : Label → Prop
  | .claimDue limit locked now => id ∈ (claimDue s.db limit locked now).2.map Prod.fst
  | .send claim => claim.1 = id
  | _ => False

/-- The step is a negative acknowledgement of the message. -/
def Revokes (id : String) (s : State) : Label → Prop
  | .ack input _ => input.status = .error ∧ ∃ message, ackTargets s.db input = [(id, message)]
  | _ => False

variable {policy : Policy} {id : String} {s t : State}

theorem messages_rerouteFailure (db : Db) (id : String) (message : Message) (attempts : Nat)
    (text : String) (next now : Int) :
    (rerouteFailure db id message attempts text next now).messages = db.messages := by
  unfold rerouteFailure
  cases message.migratedEventId <;> rfl

theorem messages_rerouteAck (db : Db) (message : Message) (status : AckStatus) (next : Option Int)
    (now : Int) : (rerouteAck db message status next now).messages = db.messages := by
  unfold rerouteAck
  cases message.migratedEventId <;> rfl

theorem status_set_of_ne {messages : OrderedMap String Message} {other : String} (h : other ≠ id)
    (message : Message) : ((messages.set other message).get? id).map Message.status =
      (messages.get? id).map Message.status := by
  rw [get?_set_of_ne _ _ h]

variable {db : Db} {input : AckInput} {label : Label}

section

variable (h : (db.messages.get? id).map Message.status = some .acked)
include h

theorem acked_enqueue (tenantId : String) (envelope : Envelope) (uuid : String) (now : Int) :
    ((enqueue db tenantId envelope uuid now).1.messages.get? id).map Message.status =
      some .acked := by
  unfold enqueue
  dsimp only
  split
  · exact h
  · split
    · next other message hfound =>
      split
      · exact h
      · by_cases hsame : other = id
        · subst hsame
          have hmem := List.mem_of_find?_eq_some hfound
          rw [mem_entries_iff.mp hmem, Option.map_some] at h
          rw [get?_set_self]
          exact h
        · rw [status_set_of_ne hsame]
          exact h
    · split
      · exact h
      · next hclash =>
        have hne : uuid ≠ id := by
          intro hsame
          rw [not_or, OrderedMap.has, hsame] at hclash
          cases hget : db.messages.get? id with
          | none =>
            rw [hget] at h
            cases h
          | some message =>
            rw [hget] at hclash
            exact hclash.2 rfl
        rw [status_set_of_ne hne]
        exact h

theorem not_mem_legacyDueIds (limit : Nat) (locked : List String) (now : Int) :
    id ∉ legacyDueIds db limit locked now := by
  intro hmem
  obtain ⟨⟨key, message⟩, hentry, rfl⟩ := List.mem_map.mp (List.mem_of_mem_take hmem)
  rw [List.mem_insertionSort, List.mem_filter] at hentry
  obtain ⟨hstored, hdue⟩ := hentry
  rw [mem_entries_iff.mp hstored, Option.map_some, Option.some.injEq] at h
  simp only [isLegacyDue, h, Bool.and_eq_true] at hdue
  exact absurd hdue.1.1.1.1 (by decide)

theorem acked_claimDue (limit : Nat) (locked : List String) (now : Int) :
    ((claimDue db limit locked now).1.messages.get? id).map Message.status = some .acked ∧
      id ∉ (claimDue db limit locked now).2.map Prod.fst := by
  have hdue := not_mem_legacyDueIds h limit locked now
  constructor
  · have hnot : (legacyDueIds db limit locked now).contains id = false := by
      rw [← Bool.not_eq_true, List.contains_iff_mem]
      exact hdue
    unfold claimDue
    dsimp only
    rw [get?_mapValues]
    cases hget : db.messages.get? id with
    | none =>
      rw [hget] at h
      cases h
    | some message =>
      rw [hget] at h
      rw [Option.map_some, hnot]
      exact h
  · intro hmem
    obtain ⟨claim, hclaim, rfl⟩ := List.mem_map.mp hmem
    obtain ⟨key, hkey, hget⟩ := List.mem_filterMap.mp hclaim
    obtain ⟨message, -, rfl⟩ := Option.map_eq_some_iff.mp hget
    exact hdue hkey

theorem acked_recordDispatchFailure (other : String) (attempts : Nat) (text : String) (now : Int) :
    ((recordDispatchFailure policy db other attempts text now).1.messages.get? id).map
      Message.status = some .acked := by
  unfold recordDispatchFailure
  cases hget : db.messages.get? other with
  | none => exact h
  | some message =>
    dsimp only
    rw [messages_rerouteFailure]
    split_ifs with hacked
    · exact h
    · have hne : other ≠ id := by
        intro hsame
        rw [hsame] at hget
        rw [hget, Option.map_some] at h
        exact hacked (Option.some.inj h)
      rw [status_set_of_ne hne]
      exact h

end

theorem status_ack_of_target {message : Message} (h : ackTargets db input = [(id, message)])
    (now : Int) :
    ((OutboxTables.ack policy db input now).1.messages.get? id).map Message.status =
      some input.status.message := by
  unfold OutboxTables.ack
  rw [h]
  dsimp only
  rw [messages_rerouteAck, get?_set_self]
  rfl

theorem acked_ack (h : (db.messages.get? id).map Message.status = some .acked)
    (hpositive : ∀ message, ackTargets db input = [(id, message)] → input.status ≠ .error)
    (now : Int) :
    ((OutboxTables.ack policy db input now).1.messages.get? id).map Message.status =
      some .acked := by
  cases htargets : ackTargets db input with
  | nil =>
    rw [OutboxTables.ack, htargets]
    exact h
  | cons target rest =>
    cases rest with
    | cons second rest =>
      rw [OutboxTables.ack, htargets]
      exact h
    | nil =>
      obtain ⟨other, message⟩ := target
      by_cases hsame : other = id
      · rw [hsame] at htargets
        rw [status_ack_of_target htargets]
        cases hstatus : input.status with
        | acked => rfl
        | error => exact absurd hstatus (hpositive message htargets)
      · rw [OutboxTables.ack, htargets]
        dsimp only
        rw [messages_rerouteAck, status_set_of_ne hsame]
        exact h

theorem step_keeps_acked (hacked : Acked id s) (hfree : Unclaimed id s) (hno : ¬ Revokes id s label)
    (hstep : step policy s label = some t) :
    (Acked id t ∧ Unclaimed id t) ∧ ¬ Dispatches id s label := by
  cases label with
  | enqueue tenantId envelope uuid now =>
    cases hstep
    exact ⟨⟨acked_enqueue hacked tenantId envelope uuid now, hfree⟩, not_false⟩
  | claimDue limit locked now =>
    cases hstep
    obtain ⟨hstays, hnot⟩ := acked_claimDue hacked limit locked now
    refine ⟨⟨hstays, ?_⟩, hnot⟩
    rw [Unclaimed, List.map_append, List.mem_append, not_or]
    exact ⟨hfree, hnot⟩
  | send claim =>
    dsimp only [step] at hstep
    split_ifs at hstep with hheld
    cases hstep
    refine ⟨⟨hacked, ?_⟩, ?_⟩
    · intro hmem
      obtain ⟨other, hother, rfl⟩ := List.mem_map.mp hmem
      exact hfree (List.mem_map_of_mem (List.mem_of_mem_erase hother))
    · intro hsame
      exact hfree (List.mem_map.mpr ⟨claim, hheld, hsame⟩)
  | recordDispatchFailure claim text now =>
    dsimp only [step] at hstep
    split_ifs at hstep with hheld
    cases hstep
    exact ⟨⟨acked_recordDispatchFailure hacked claim.1 claim.2 text now, hfree⟩, not_false⟩
  | ack input now =>
    cases hstep
    have hpositive : ∀ message, ackTargets s.db input = [(id, message)] → input.status ≠ .error :=
      fun message htarget herror => hno ⟨herror, message, htarget⟩
    exact ⟨⟨acked_ack hacked hpositive now, hfree⟩, not_false⟩

theorem not_acked_of_revokes (h : Revokes id s label) (hstep : step policy s label = some t) :
    ¬ Acked id t := by
  cases label with
  | ack input now =>
    obtain ⟨herror, message, htarget⟩ := h
    cases hstep
    intro hacked
    rw [Acked, status_ack_of_target htarget, herror] at hacked
    cases hacked
  | _ => exact h.elim

theorem first_of_run {P : State → Prop} {D : State → Label → Prop} {labels : List Label}
    (hD : ∀ s label, D s label → P s) (hmeets : RunMeets (step policy) D s labels)
    (hrun : run (step policy) s labels = some t) (hlast : P t) : P s := by
  cases labels with
  | nil =>
    cases hrun
    exact hlast
  | cons label rest => exact hD s label (runMeets_cons.mp hmeets).1

/-- An acknowledged message that no dispatcher holds stays so and is never dispatched again exactly
when no negative acknowledgement of it arrives. -/
theorem acked_stays_iff {labels : List Label} (hacked : Acked id s) (hfree : Unclaimed id s)
    (hrun : run (step policy) s labels = some t) :
    (RunMeets (step policy) (fun s label => Acked id s ∧ ¬ Dispatches id s label) s labels ∧
        Acked id t) ↔
      RunMeets (step policy) (fun s label => ¬ Revokes id s label) s labels := by
  constructor
  · rintro ⟨hmeets, hlast⟩
    clear hfree hacked
    induction labels generalizing s with
    | nil => trivial
    | cons label rest ih =>
      obtain ⟨m, hm, hrest⟩ := run_cons_eq_some.mp hrun
      have hlater := (runMeets_cons.mp hmeets).2 m hm
      have hnext : Acked id m := first_of_run (fun s label h => h.1) hlater hrest hlast
      refine (runMeets_of_some hm).mpr ⟨?_, ih hrest hlater⟩
      intro hrevokes
      exact not_acked_of_revokes hrevokes hm hnext
  · intro hmeets
    have hsteps := runMeets_of_steps (D := fun s label => Acked id s ∧ ¬ Dispatches id s label)
      (I := fun s => Acked id s ∧ Unclaimed id s)
      (fun s label t hs hno hstep => by
        obtain ⟨hkept, hnot⟩ := step_keeps_acked hs.1 hs.2 hno hstep
        exact ⟨hkept, hs.1, hnot⟩)
      ⟨hacked, hfree⟩ hmeets hrun
    exact ⟨hsteps.1, hsteps.2.1⟩

/-- Retries back off by a second for every attempt. -/
def linear : Policy := ⟨fun attempts now => now + 1000 * attempts, 30000, fun _ => true⟩

/-- An order that was sent once and acknowledged. -/
def acknowledged : State where
  db := { Db.empty with
    messages := OrderedMap.empty.set "m"
      { tenantId := "t", entity := "order", entityId := "7", payload := "\x7b\x7d", metadata := none
        status := .acked, attempts := 1, lastError := none, nextAttemptAt := none
        idempotencyKey := "order:7", ackTime := some 5, createdAt := 0, updatedAt := 5
        migratedEventId := none, cutoverGeneration := none } }
  claimed := []
  handed := [("m", 1)]

/-- A failure that is recorded late and a second positive acknowledgement change nothing. -/
theorem acked_stays_after_late_failure :
    ∃ t, RunMeets (step linear) (fun s label => Acked "m" s ∧ ¬ Dispatches "m" s label) acknowledged
        [.recordDispatchFailure ("m", 1) "timeout" 6, .ack ⟨"order", "7", .acked, none, none⟩ 7,
          .claimDue 10 [] 9000] ∧ Acked "m" t :=
  ⟨_, (acked_stays_iff (show Acked "m" acknowledged from rfl) List.not_mem_nil
    (show run (step linear) acknowledged [.recordDispatchFailure ("m", 1) "timeout" 6,
      .ack ⟨"order", "7", .acked, none, none⟩ 7, .claimDue 10 [] 9000] = some _ from rfl)).mpr
    ⟨not_false, (fun h => nomatch h.1), not_false, trivial⟩⟩

/-- After a late negative acknowledgement the message is claimed and sent a second time. -/
theorem late_error_ack_redispatches :
    Acked "m" acknowledged ∧ Unclaimed "m" acknowledged ∧
      ∃ t, run (step linear) acknowledged [.ack ⟨"order", "7", .error, none, none⟩ 10,
          .claimDue 10 [] 5000, .send ("m", 2)] = some t ∧
        ¬ Acked "m" t ∧ ("m", 2) ∈ t.handed := by
  refine ⟨rfl, List.not_mem_nil, _, rfl, ?_, ?_⟩
  · intro hacked
    cases hacked
  · exact .tail _ (.head _)

end Stynx.OutboxLegacyRuns
