import Stynx.ExceptFolds
import Stynx.OfflineSyncBatches
import Stynx.OfflineSyncNumberingRuns

/-!
# The applier runs to an end at most once

A key is done when its receipt has an application instant, or when the older interface brought
the item. Every part of every command keeps what is done. The gate of an item lets an attempt
through only when the key is not done, and only the write at the end of an attempt makes a key
done. Any numbering operation may happen between two commands.
-/

namespace Stynx.OfflineSyncBatchRuns

open OrderedMap

open OfflineSyncNumbering hiding Store
open OfflineSyncQueue OfflineSyncBatches TransitionRuns ExceptFolds

def IsApplied (entry : ReceiptEntry) : Prop :=
  (entry.receipt.stynx.bind StynxContext.appliedAt).isSome = true

/-- The key will not be applied again. -/
def Done (s : Store) (itemKey : String) : Prop :=
  s.e6Items.has itemKey = true ∨ ∃ entry, s.itemReceipts.get? itemKey = some entry ∧ IsApplied entry

/-- An applied receipt has one of two statuses. -/
def Sound (s : Store) : Prop :=
  ∀ itemKey entry, s.itemReceipts.get? itemKey = some entry → IsApplied entry →
    entry.receipt.status = .applied ∨ entry.receipt.status = .conflict

structure SameBatches (s t : Store) : Prop where
  batches : t.batches = s.batches
  transport : t.transport = s.transport

/-- The maps that decide about the applier, and those of the batches, are the same. -/
structure Untouched (s t : Store) : Prop where
  itemReceipts : t.itemReceipts = s.itemReceipts
  /-- The items of the older interface. -/
  e6Items : t.e6Items = s.e6Items
  frame : SameBatches s t

/-- What every part of a command respects, up to the batch's own record. -/
structure Keeps (s t : Store) : Prop where
  /-- Applied receipts keep their statuses. -/
  sound : Sound s → Sound t
  done : ∀ itemKey, Done s itemKey → Done t itemKey
  frame : SameBatches s t

variable {s m t : Store}

theorem SameBatches.trans (hsm : SameBatches s m) (hmt : SameBatches m t) : SameBatches s t :=
  ⟨hmt.batches.trans hsm.batches, hmt.transport.trans hsm.transport⟩

theorem Keeps.refl (s : Store) : Keeps s s := ⟨id, fun _ h => h, rfl, rfl⟩

theorem Keeps.trans (hsm : Keeps s m) (hmt : Keeps m t) : Keeps s t :=
  ⟨fun h => hmt.sound (hsm.sound h), fun itemKey h => hmt.done itemKey (hsm.done itemKey h),
    hsm.frame.trans hmt.frame⟩

theorem sound_of_eq (hreceipts : t.itemReceipts = s.itemReceipts) (h : Sound s) : Sound t := by
  rw [Sound, hreceipts]
  exact h

variable {itemKey : String} {platform : Platform}

theorem done_of_eq (hreceipts : t.itemReceipts = s.itemReceipts) (he6 : t.e6Items = s.e6Items)
    (h : Done s itemKey) : Done t itemKey := by
  rw [Done, hreceipts, he6]
  exact h

theorem Untouched.keeps (h : Untouched s t) : Keeps s t :=
  ⟨sound_of_eq h.itemReceipts, fun _ => done_of_eq h.itemReceipts h.e6Items, h.frame⟩

theorem Keeps.set {entry : ReceiptEntry}
    (hreceipts : t.itemReceipts = s.itemReceipts.set itemKey entry) (he6 : t.e6Items = s.e6Items)
    (hframe : SameBatches s t)
    (hstatus : IsApplied entry → entry.receipt.status = .applied ∨ entry.receipt.status = .conflict)
    (happlied : Done s itemKey → Done t itemKey) : Keeps s t := by
  refine ⟨fun h => ?_, fun other h => ?_, hframe⟩
  · intro other found hfound hinstant
    rw [hreceipts] at hfound
    rcases get?_set_eq_some.mp hfound with ⟨-, rfl⟩ | ⟨-, hold⟩
    · exact hstatus hinstant
    · exact h other found hold hinstant
  · by_cases hkey : itemKey = other
    · rw [← hkey] at h ⊢
      exact happlied h
    · rcases h with h | ⟨found, hfound, hinstant⟩
      · exact .inl (by rw [he6]; exact h)
      · refine .inr ⟨found, ?_, hinstant⟩
        rw [hreceipts, get?_set_of_ne _ _ hkey]
        exact hfound

theorem Keeps.saveConflict (h : Keeps s t) (conflict : Conflict)
    (allowedActions : Option (List Strategy)) : Keeps s (saveConflict t conflict allowedActions) :=
  h.trans (Untouched.keeps ⟨rfl, rfl, rfl, rfl⟩)

theorem isSome_appliedAt_merge {base patch : StynxContext} (h : base.appliedAt.isSome = true) :
    (base.merge patch).appliedAt.isSome = true := by
  dsimp only [StynxContext.merge]
  cases patch.appliedAt with
  | none => exact h
  | some instant => rfl

section

variable {batch : Batch}

variable {affected : String} {s : Store}

variable {conflictId : String} {evidence : Context} {allowedActions : List Strategy}
  {conflictStynx : StynxContext} {next : Store × PairNotes}

theorem keeps_markReceipt {entry : String × ReceiptEntry}
    (hentry : s.itemReceipts.get? entry.1 = some entry.2) :
    Keeps s (batch.markReceipt affected conflictId evidence allowedActions conflictStynx s entry) ∧
      ∀ other, other ≠ entry.1 → (batch.markReceipt affected conflictId evidence allowedActions
        conflictStynx s entry).itemReceipts.get? other = s.itemReceipts.get? other := by
  rw [Batch.markReceipt]
  dsimp only
  split_ifs with haffected
  · refine ⟨Keeps.set rfl rfl ⟨rfl, rfl⟩ (fun _ => .inr rfl) ?_, ?_⟩
    · rintro (he6 | ⟨old, hold, happlied⟩)
      · exact .inl he6
      · obtain rfl := Option.some.inj (hentry.symm.trans hold)
        refine .inr ⟨_, get?_set_self _ _ _, ?_⟩
        cases hstynx : entry.2.receipt.stynx with
        | none =>
          rw [IsApplied, hstynx] at happlied
          cases happlied
        | some stynx =>
          rw [IsApplied, hstynx] at happlied
          exact isSome_appliedAt_merge happlied
    · intro other hother
      exact get?_set_of_ne _ _ (Ne.symm hother)
  · exact ⟨.refl s, fun _ _ => rfl⟩

theorem keeps_foldl_markReceipt (entries : List (String × ReceiptEntry))
    (hnodup : (entries.map Prod.fst).Nodup)
    (hentries : ∀ entry ∈ entries, s.itemReceipts.get? entry.1 = some entry.2) :
    Keeps s (entries.foldl
      (batch.markReceipt affected conflictId evidence allowedActions conflictStynx) s) := by
  induction entries generalizing s with
  | nil => exact .refl s
  | cons entry rest ih =>
    rw [List.map_cons, List.nodup_cons] at hnodup
    obtain ⟨hkeeps, hothers⟩ := keeps_markReceipt (hentries entry (.head _))
    refine hkeeps.trans (ih hnodup.2 fun later hlater => ?_)
    rw [hothers later.1 ?_]
    · exact hentries later (.tail entry hlater)
    · intro hsame
      exact hnodup.1 (List.mem_map.mpr ⟨later, hlater, hsame⟩)

variable {target : Target} {context : ItemContext}

theorem keeps_recordAffected {pair : Pair} {round : Nat} {state : Store × PairNotes}
    (h : batch.recordAffected target context pair round state affected = .ok next) :
    Keeps state.1 next.1 := by
  rw [Batch.recordAffected] at h
  obtain ⟨answer, -, h⟩ := bind_eq_ok.mp h
  have hmarked : ∀ conflictId evidence allowedActions conflictStynx,
      Keeps state.1 (state.1.itemReceipts.entries.foldl
        (batch.markReceipt affected conflictId evidence allowedActions conflictStynx) state.1) :=
    fun _ _ _ _ => keeps_foldl_markReceipt state.1.itemReceipts.entries state.1.itemReceipts.nodup
      fun entry hentry => mem_entries_iff.mp hentry
  dsimp only at h
  by_cases hself : affected = target.queueItemId
  · rw [if_pos hself] at h
    cases h
    dsimp only
    exact (hmarked _ _ _ _).saveConflict _ _
  · rw [if_neg hself] at h
    cases h
    exact hmarked _ _ _ _

theorem keeps_recordPairs {pairs : List Pair}
    (h : batch.recordPairs target context s pairs = .ok next) : Keeps s next.1 := by
  refine foldlM_relation (fun a b : Store × PairNotes => Keeps a.1 b.1)
    (fun state => .refl state.1) (fun _ _ _ hab hbc => hab.trans hbc) ?_ h
  intro state entry last hlast
  obtain ⟨middle, hmiddle, hlast⟩ := bind_eq_ok.mp hlast
  exact (keeps_recordAffected hmiddle).trans (keeps_recordAffected hlast)

end

section

variable {batch : Batch} {target : Target}

/-- An attempt with an application instant has one of two statuses. -/
def AttemptSound (attempt : Attempt) : Prop :=
  (attempt.stynx.bind StynxContext.appliedAt).isSome = true →
    attempt.status = .applied ∨ attempt.status = .conflict

variable {s : Store} {next : Store × Attempt}

variable {prepared : Prepared}

theorem keeps_deferItem (h : batch.deferItem target s prepared = .ok next) :
    Keeps s next.1 ∧ AttemptSound next.2 := by
  obtain ⟨⟨t, notes⟩, hpairs, h⟩ := bind_eq_ok.mp h
  cases h
  exact ⟨keeps_recordPairs hpairs, fun _ => .inr rfl⟩

theorem keeps_finishApply {covering : Option String} {applied : Applied}
    (h : batch.finishApply target s prepared covering applied = .ok next) :
    Keeps s next.1 ∧ AttemptSound next.2 := by
  obtain ⟨attributes, -, h⟩ := bind_eq_ok.mp h
  obtain ⟨pairs, -, h⟩ := bind_eq_ok.mp h
  obtain ⟨⟨t, notes⟩, hpairs, h⟩ := bind_eq_ok.mp h
  dsimp only at h
  cases hport : batch.execution.ports.eventPort with
  | none =>
    rw [hport] at h
    cases h
  | some append =>
    rw [hport] at h
    obtain ⟨-, -, h⟩ := bind_eq_ok.mp h
    cases h
    refine ⟨keeps_recordPairs hpairs, fun _ => ?_⟩
    dsimp only
    split_ifs
    · exact .inr rfl
    · exact .inl rfl

theorem endFrame_eq_ok {context : ItemContext} {result : Except Thrown (Store × Attempt)}
    (h : batch.endFrame target context result = .ok next) :
    result = .ok next := by
  cases result with
  | error error => cases h
  | ok value =>
    rw [Batch.endFrame] at h
    cases hframe : assertFrameComplete (batch.execution.ports.applyUnfinished target.item) with
    | error error =>
      rw [hframe] at h
      cases h
    | ok _ =>
      rw [hframe] at h
      cases h
      rfl

theorem keeps_applyItem (h : (batch.applyItem target s).ending = .ok next) :
    Keeps s next.1 ∧ AttemptSound next.2 := by
  rw [Batch.applyItem] at h
  split at h
  · cases h
  · rename_i prepared _
    split at h
    · exact keeps_deferItem (endFrame_eq_ok h)
    · split at h
      · cases h
      · split at h
        · dsimp only at h
          cases endFrame_eq_ok h
          exact ⟨.refl s, fun hnone => by cases hnone⟩
        · obtain ⟨applied, -, hfinish⟩ := bind_eq_ok.mp (endFrame_eq_ok h)
          exact keeps_finishApply hfinish

theorem keeps_failItem {failed : Failed} {next : Store × Attempt × Bool}
    (h : batch.failItem target s failed = .ok next) :
    Keeps s next.1 ∧ AttemptSound next.2.1 := by
  rw [Batch.failItem] at h
  by_cases hconfiguration : failed.error.kind = .configuration
  · rw [if_pos hconfiguration] at h
    cases h
  · rw [if_neg hconfiguration] at h
    split at h
    · cases h
    · dsimp only at h
      cases hconflict : failureConflict failed.error (classifyDomainOutcome batch.execution.ports
          failed.error target.portItem failed.context) with
      | none =>
        rw [hconflict] at h
        cases h
        exact ⟨.refl s, fun hinstant => by cases hinstant⟩
      | some opened =>
        rw [hconflict] at h
        obtain ⟨answer, -, h⟩ := bind_eq_ok.mp h
        cases h
        exact ⟨Untouched.keeps ⟨rfl, rfl, rfl, rfl⟩, fun hinstant => by cases hinstant⟩

theorem keeps_attemptItem {next : Store × Attempt × Bool}
    (h : (batch.attemptItem target s).2 = .ok next) :
    Keeps s next.1 ∧ AttemptSound next.2.1 := by
  rw [Batch.attemptItem] at h
  split at h
  · cases h
    exact ⟨.refl s, fun hnone => by cases hnone⟩
  · dsimp only at h
    split at h
    · rename_i t attempt hending
      cases h
      exact keeps_applyItem hending
    · exact keeps_failItem h

theorem truthy_of_called (h : (batch.attemptItem target s).1 = true) :
    (truthy target.item.idempotencyKey).isSome = true := by
  rw [Batch.attemptItem] at h
  split at h
  · cases h
  · rename_i given hgiven
    rw [hgiven]
    rfl

theorem recordItem_eq_ok {progress : Progress} {attempt : Attempt} {retryable : Bool}
    {next : Store × Progress} (h : batch.recordItem target s progress attempt retryable = .ok next) :
    next.1.itemReceipts = s.itemReceipts.set (key batch.tenantId target.receiptKey)
        (batch.storedReceipt target attempt) ∧
      next.1.e6Items = s.e6Items ∧ SameBatches s next.1 := by
  obtain ⟨-, -, h⟩ := bind_eq_ok.mp h
  dsimp only at h
  split at h
  · cases h
  · cases h
    exact ⟨rfl, rfl, rfl, rfl⟩

end

section

variable {batch : Batch} {s : Store} {item : ItemInput} {receiptKey : String}

variable {original : Option StoredItem} {progress : Progress} {next : Store × Progress}

theorem integrityConflict_frame {next : Store × StynxContext}
    (h : batch.integrityConflict s item receiptKey original = .ok next) : Untouched s next.1 := by
  have hsaved : ∀ rejectionKey,
      Untouched s (batch.saveRejection s rejectionKey item receiptKey original) := by
    intro rejectionKey
    rw [Batch.saveRejection]
    split <;> exact ⟨rfl, rfl, rfl, rfl⟩
  unfold Batch.integrityConflict at h
  dsimp only at h
  split at h
  · obtain ⟨answer, -, h⟩ := bind_eq_ok.mp h
    obtain ⟨context, -, h⟩ := bind_eq_ok.mp h
    cases h
    have hrejected := hsaved (key batch.tenantId
      (jsonTexts [batch.input.deviceId, batch.input.deviceBatchId, item.queueItemId]))
    exact ⟨hrejected.itemReceipts, hrejected.e6Items, hrejected.frame.batches,
      hrejected.frame.transport⟩
  · obtain ⟨context, -, h⟩ := bind_eq_ok.mp h
    cases h
    exact hsaved _

theorem keeps_rejectIntegrity {answer : StoredItem}
    (h : batch.rejectIntegrity s progress item receiptKey original answer = .ok next) :
    Keeps s next.1 := by
  obtain ⟨⟨t, stynx⟩, hconflict, h⟩ := bind_eq_ok.mp h
  have hframe := integrityConflict_frame hconflict
  cases h
  exact hframe.keeps

theorem conflictE6_frame {legacy : StoredItem} {next : Store × Option StynxContext}
    (h : batch.conflictE6 s item receiptKey legacy = .ok next) : Untouched s next.1 := by
  rw [Batch.conflictE6] at h
  split_ifs at h
  · cases h
    exact ⟨rfl, rfl, rfl, rfl⟩
  · obtain ⟨⟨t, stynx⟩, hconflict, h⟩ := bind_eq_ok.mp h
    have hframe := integrityConflict_frame hconflict
    cases h
    exact hframe

theorem keeps_answerE6 {e6 : E6Item}
    (he6 : s.e6Items.get? (key batch.tenantId receiptKey) = some e6)
    (h : batch.answerE6 s progress item receiptKey e6 = .ok next) : Keeps s next.1 := by
  rw [Batch.answerE6] at h
  split at h
  · obtain ⟨⟨t, stynx⟩, hconflict, h⟩ := bind_eq_ok.mp h
    have hframe := conflictE6_frame hconflict
    have hsame := hframe.e6Items
    cases h
    refine hframe.keeps.trans
      (Keeps.set rfl rfl ⟨rfl, rfl⟩ (fun hnone => by cases hnone) fun _ => .inl ?_)
    dsimp only at hsame ⊢
    rw [hsame, OrderedMap.has, he6]
    rfl
  · cases h

end

def Allows (earlier later : ApplierEvent) : Prop :=
  earlier.mark = .committed → later.itemKey ≠ earlier.itemKey

/-- From one store to another, with what happened to the applier on the way. -/
structure Advances (s : Store) (events : List ApplierEvent) (t : Store) : Prop where
  /-- Applied receipts keep their statuses. -/
  sound : Sound t
  done : ∀ itemKey, Done s itemKey → Done t itemKey
  /-- The applier is called only for keys that are not done. -/
  fresh : ∀ e ∈ events, ¬ Done s e.itemKey
  /-- Nothing follows a committed item. -/
  ordered : events.Pairwise Allows
  committed : ∀ e ∈ events, e.mark = .committed → Done t e.itemKey

theorem Keeps.advances (h : Keeps s t) (hs : Sound s) : Advances s [] t :=
  ⟨h.sound hs, h.done, (fun _ he => by cases he), List.Pairwise.nil, (fun _ he => by cases he)⟩

theorem Advances.of_eq (hreceipts : t.itemReceipts = s.itemReceipts) (he6 : t.e6Items = s.e6Items)
    (hs : Sound s) : Advances s [] t :=
  ⟨sound_of_eq hreceipts hs, fun _ => done_of_eq hreceipts he6, (fun _ he => by cases he),
    List.Pairwise.nil, (fun _ he => by cases he)⟩

theorem Advances.append {before after : List ApplierEvent} (hsm : Advances s before m)
    (hmt : Advances m after t) : Advances s (before ++ after) t := by
  refine ⟨hmt.sound, fun itemKey h => hmt.done itemKey (hsm.done itemKey h), ?_, ?_, ?_⟩
  · intro e he
    rcases List.mem_append.mp he with he | he
    · exact hsm.fresh e he
    · exact fun h => hmt.fresh e he (hsm.done e.itemKey h)
  · refine List.pairwise_append.mpr ⟨hsm.ordered, hmt.ordered, ?_⟩
    intro earlier hearlier later hlater hmark hsame
    refine hmt.fresh later hlater ?_
    rw [hsame]
    exact hsm.committed earlier hearlier hmark
  · intro e he hmark
    rcases List.mem_append.mp he with he | he
    · exact hmt.done e.itemKey (hsm.committed e he hmark)
    · exact hmt.committed e he hmark

theorem Advances.congr {events : List ApplierEvent} (hsm : Advances s events m)
    (hreceipts : t.itemReceipts = m.itemReceipts) (he6 : t.e6Items = m.e6Items) :
    Advances s events t := by
  have h := hsm.append (Advances.of_eq hreceipts he6 hsm.sound)
  rw [List.append_nil] at h
  exact h

section

variable {batch : Batch} {s : Store} {progress : Progress} {item : ItemInput}

theorem initialStatus_cases (item : ItemInput) :
    batch.initialStatus item = .pending ∨ batch.initialStatus item = .received := by
  rw [Batch.initialStatus]
  split_ifs
  · exact .inl rfl
  · exact .inr rfl

theorem status_of_gate {previous : ReceiptEntry} (hgate : batch.gate item previous = .attempt) :
    previous.receipt.status = .pending ∨ previous.receipt.status = .received := by
  rw [Batch.gate] at hgate
  split_ifs at hgate with hreapplies hrepeated htampered
  · rw [Batch.reapplies] at hreapplies
    simp only [Bool.and_eq_true, decide_eq_true_eq] at hreapplies
    exact .inl hreapplies.1.1.1.1.2
  · have hhash : previous.hash = item.payloadHash := not_not.mp htampered
    have hinitial : previous.receipt.status = batch.initialStatus item := by
      by_contra hne
      exact hrepeated ⟨hhash, .inr (.inl hne)⟩
    rw [hinitial]
    exact initialStatus_cases item

variable {previous : Option ReceiptEntry} {t : Store} {receiptKey : String} {e : ApplierEvent}

theorem not_done_of_gate {itemKey : String} (hs : Sound s) (he6 : s.e6Items.get? itemKey = none)
    (hprevious : s.itemReceipts.get? itemKey = previous)
    (hgate : ∀ entry, previous = some entry → batch.gate item entry = .attempt) :
    ¬ Done s itemKey := by
  rintro (hhas | ⟨entry, hentry, happlied⟩)
  · rw [OrderedMap.has, he6] at hhas
    cases hhas
  · have hsettled := hs itemKey entry hentry happlied
    rcases status_of_gate (hgate entry (hprevious.symm.trans hentry)) with hstatus | hstatus <;>
      rw [hstatus] at hsettled <;> rcases hsettled with h | h <;> cases h

def About (batch : Batch) (item : ItemInput) (receiptKey : String) (e : ApplierEvent) : Prop :=
  e = batch.event e.mark item receiptKey ∧ (truthy item.idempotencyKey).isSome = true

/-- What the frame of an item leaves behind: the maps it wrote, or the maps before it. -/
def ItemRun.left (run : ItemRun) (s : Store) : Store :=
  match run.ending with
  | .ok (t, _) => t
  | .error _ => s

theorem advances_called (called : Bool) (hs : Sound t)
    (hdone : ∀ itemKey, Done s itemKey → Done t itemKey)
    (hopen : ¬ Done s (key batch.tenantId receiptKey)) :
    Advances s (if called then [batch.event .called item receiptKey] else []) t := by
  cases called with
  | false => exact ⟨hs, hdone, (fun _ he => by cases he), .nil, (fun _ he => by cases he)⟩
  | true =>
    refine ⟨hs, hdone, ?_, List.pairwise_singleton _ _, ?_⟩
    · intro e he
      rw [List.mem_singleton.mp he]
      exact hopen
    · intro e he hmark
      rw [List.mem_singleton.mp he] at hmark
      cases hmark

theorem recorded_item {target : Target} {attempt : Attempt} {retryable : Bool}
    {next : Store × Progress} (hs : Sound s) (hkeeps : Keeps s t) (hsound : AttemptSound attempt)
    (hopen : ¬ Done s (key batch.tenantId target.receiptKey))
    (h : batch.recordItem target t progress attempt retryable = .ok next) :
    Sound next.1 ∧ (∀ itemKey, Done s itemKey → Done next.1 itemKey) ∧
      ((attempt.stynx.bind StynxContext.appliedAt).isSome = true →
        Done next.1 (key batch.tenantId target.receiptKey)) := by
  obtain ⟨hreceipts, he6, -⟩ := recordItem_eq_ok h
  refine ⟨?_, ?_, ?_⟩
  · intro itemKey entry hentry happlied
    rw [hreceipts] at hentry
    rcases get?_set_eq_some.mp hentry with ⟨-, rfl⟩ | ⟨-, hold⟩
    · exact hsound happlied
    · exact hkeeps.sound hs itemKey entry hold happlied
  · intro itemKey hdone
    have hne : key batch.tenantId target.receiptKey ≠ itemKey := by
      rintro rfl
      exact hopen hdone
    rcases hkeeps.done itemKey hdone with hhas | ⟨entry, hentry, happlied⟩
    · exact .inl (by rw [he6]; exact hhas)
    · refine .inr ⟨entry, ?_, happlied⟩
      rw [hreceipts, get?_set_of_ne _ _ hne]
      exact hentry
  · intro happlied
    refine .inr ⟨batch.storedReceipt target attempt, ?_, happlied⟩
    rw [hreceipts]
    exact get?_set_self _ _ _

theorem advances_committed (hs : Sound t) (hdone : ∀ itemKey, Done s itemKey → Done t itemKey)
    (hopen : ¬ Done s (key batch.tenantId receiptKey))
    (hcommitted : Done t (key batch.tenantId receiptKey)) :
    Advances s [batch.event .called item receiptKey, batch.event .committed item receiptKey] t := by
  have hkey : ∀ e ∈ [batch.event .called item receiptKey, batch.event .committed item receiptKey],
      e.itemKey = key batch.tenantId receiptKey := by
    intro e he
    rcases List.mem_cons.mp he with rfl | he
    · rfl
    · rw [List.mem_singleton.mp he]
      rfl
  refine ⟨hs, hdone, ?_, ?_, ?_⟩
  · intro e he
    rw [hkey e he]
    exact hopen
  · refine List.pairwise_pair.mpr fun hmark => ?_
    cases hmark
  · intro e he _
    rw [hkey e he]
    exact hcommitted

theorem advances_processAttempt (hs : Sound s) (hopen : ¬ Done s (key batch.tenantId receiptKey)) :
    Advances s (batch.processAttempt s progress item receiptKey previous).events
        (ItemRun.left (batch.processAttempt s progress item receiptKey previous) s) := by
  rw [Batch.processAttempt]
  split
  · exact advances_called _ hs (fun _ h => h) hopen
  · rename_i t attempt retryable hattempt
    obtain ⟨hkeeps, hsound⟩ := keeps_attemptItem hattempt
    split
    · exact advances_called _ hs (fun _ h => h) hopen
    · rename_i ending hrecord
      obtain ⟨hsound', hdone, hcommitted⟩ := recorded_item hs hkeeps hsound hopen hrecord
      by_cases hcommit : (batch.attemptItem (batch.target item receiptKey previous) s).1 = true ∧
          (attempt.stynx.bind StynxContext.appliedAt).isSome = true
      · rw [if_pos hcommit, if_pos hcommit.1]
        exact advances_committed hsound' hdone hopen (hcommitted hcommit.2)
      · rw [if_neg hcommit, List.append_nil]
        exact advances_called _ hsound' hdone hopen

theorem about_processAttempt
    (he : e ∈ (batch.processAttempt s progress item receiptKey previous).events) :
    About batch item receiptKey e := by
  have hcalled : e ∈ (if (batch.attemptItem (batch.target item receiptKey previous) s).1 = true
      then [batch.event .called item receiptKey] else []) → About batch item receiptKey e := by
    intro he
    split_ifs at he with hcall
    · rw [List.mem_singleton.mp he]
      exact ⟨rfl, truthy_of_called hcall⟩
    · cases he
  rw [Batch.processAttempt] at he
  split at he
  · exact hcalled he
  · split at he
    · exact hcalled he
    · rcases List.mem_append.mp he with he | he
      · exact hcalled he
      · split_ifs at he with hcommit
        · rw [List.mem_singleton.mp he]
          exact ⟨rfl, truthy_of_called hcommit.1⟩
        · cases he

theorem processItem_cases (batch : Batch) (s : Store) (progress : Progress) (item : ItemInput) :
    (∃ ending, batch.processItem s progress item = ⟨[], ending⟩ ∧
      ∀ next, ending = .ok next → Keeps s next.1) ∨
    ∃ receiptKey previous, batch.itemKeys.get? item.queueItemId = some receiptKey ∧
      s.e6Items.get? (key batch.tenantId receiptKey) = none ∧
      s.itemReceipts.get? (key batch.tenantId receiptKey) = previous ∧
      (∀ entry, previous = some entry → batch.gate item entry = .attempt) ∧
      batch.processItem s progress item =
        batch.processAttempt s progress item receiptKey previous := by
  rw [Batch.processItem]
  split
  · exact .inl ⟨_, rfl, fun next h => by cases h⟩
  · rename_i receiptKey hkey
    split
    · exact .inl ⟨_, rfl, fun next h => by cases h⟩
    · exact .inl ⟨_, rfl, fun next h => keeps_rejectIntegrity h⟩
    · rw [Batch.processVerified]
      split_ifs
      · exact .inl ⟨_, rfl, fun next h => by cases h; exact .refl s⟩
      · split
        · rename_i e6 he6
          exact .inl ⟨_, rfl, fun next h => keeps_answerE6 he6 h⟩
        · rename_i he6
          split
          · rename_i hprevious
            refine .inr ⟨receiptKey, none, hkey, he6, hprevious, ?_, rfl⟩
            intro entry hentry
            cases hentry
          · rename_i previous hprevious
            split
            · rename_i hgate
              refine .inr ⟨receiptKey, some previous, hkey, he6, hprevious, ?_, rfl⟩
              intro entry hentry
              obtain rfl := Option.some.inj hentry
              exact hgate
            · exact .inl ⟨_, rfl, fun next h => by cases h; exact .refl s⟩
            · exact .inl ⟨_, rfl, fun next h => keeps_rejectIntegrity h⟩

theorem advances_processItem (hs : Sound s) :
    Advances s (batch.processItem s progress item).events
      (ItemRun.left (batch.processItem s progress item) s) := by
  rcases processItem_cases batch s progress item with
    ⟨ending, heq, hkeeps⟩ | ⟨receiptKey, previous, -, he6, hprevious, hgate, heq⟩
  · rw [heq]
    cases ending with
    | error error => exact (Keeps.refl s).advances hs
    | ok next => exact (hkeeps next rfl).advances hs
  · rw [heq]
    exact advances_processAttempt hs (not_done_of_gate hs he6 hprevious hgate)

theorem about_processItem (he : e ∈ (batch.processItem s progress item).events) :
    ∃ receiptKey, batch.itemKeys.get? item.queueItemId = some receiptKey ∧
      About batch item receiptKey e := by
  rcases processItem_cases batch s progress item with
    ⟨ending, heq, -⟩ | ⟨receiptKey, previous, hkey, -, -, -, heq⟩
  · rw [heq] at he
    cases he
  · rw [heq] at he
    exact ⟨receiptKey, hkey, about_processAttempt he⟩

theorem advances_processItems (items : List ItemInput) {s : Store} {progress : Progress}
    (hs : Sound s) :
    Advances s (batch.processItems s progress items).1
      (batch.processItems s progress items).2.1 := by
  induction items generalizing s progress with
  | nil => exact (Keeps.refl s).advances hs
  | cons item rest ih =>
    have hitem : Advances s (batch.processItem s progress item).events
        (ItemRun.left (batch.processItem s progress item) s) := advances_processItem hs
    rw [Batch.processItems]
    cases hending : (batch.processItem s progress item).ending with
    | error error =>
      rw [ItemRun.left, hending] at hitem
      exact hitem
    | ok next =>
      rw [ItemRun.left, hending] at hitem
      exact hitem.append (ih hitem.sound)

theorem about_processItems (items : List ItemInput) {s : Store} {progress : Progress}
    (he : e ∈ (batch.processItems s progress items).1) :
    ∃ item ∈ items, ∃ receiptKey, batch.itemKeys.get? item.queueItemId = some receiptKey ∧
      About batch item receiptKey e := by
  induction items generalizing s progress with
  | nil => cases he
  | cons item rest ih =>
    rw [Batch.processItems] at he
    cases hending : (batch.processItem s progress item).ending with
    | error error =>
      rw [hending] at he
      exact ⟨item, (.head _), about_processItem he⟩
    | ok next =>
      rw [hending] at he
      rcases List.mem_append.mp he with he | he
      · exact ⟨item, (.head _), about_processItem he⟩
      · obtain ⟨later, hlater, habout⟩ := ih he
        exact ⟨later, .tail item hlater, habout⟩

end

section

variable {platform : Platform} {scope : Scope} {input : BatchInput} {ports : Ports}

theorem truthy_eq_some {value : Option String} {text : String} (h : truthy value = some text) :
    value = some text :=
  (Option.filter_eq_some_iff.mp h).1

theorem declaredKey_of_truthy {item : ItemInput} {given receiptKey : String}
    (hgiven : truthy item.idempotencyKey = some given)
    (h : declaredKey platform scope input ports item = .ok receiptKey) : receiptKey = given := by
  rw [declaredKey] at h
  split_ifs at h
  · rw [hgiven] at h
    cases h
    rfl

theorem itemKeys_of_nodup (items : List ItemInput)
    (hnodup : (items.map ItemInput.queueItemId).Nodup)
    {found last : OrderedMap String String × List String}
    (h : items.foldlM (declareKey platform scope input ports) found = .ok last) :
    (∀ id, id ∉ items.map ItemInput.queueItemId → last.1.get? id = found.1.get? id) ∧
      ∀ item ∈ items, ∃ receiptKey, declaredKey platform scope input ports item = .ok receiptKey ∧
        last.1.get? item.queueItemId = some receiptKey := by
  induction items generalizing found with
  | nil =>
    cases h
    exact ⟨fun _ _ => rfl, fun _ hitem => by cases hitem⟩
  | cons item rest ih =>
    rw [List.map_cons, List.nodup_cons] at hnodup
    rw [List.foldlM_cons] at h
    obtain ⟨next, hnext, hrest⟩ := bind_eq_ok.mp h
    obtain ⟨receiptKey, hkey, hnext⟩ := bind_eq_ok.mp hnext
    obtain ⟨hothers, hmine⟩ := ih hnodup.2 hrest
    have hset : next.1 = found.1.set item.queueItemId receiptKey := by
      split_ifs at hnext
      cases hnext
      rfl
    refine ⟨?_, ?_⟩
    · intro id hid
      rw [List.map_cons, List.mem_cons, not_or] at hid
      rw [hothers id hid.2, hset, get?_set_of_ne _ _ (Ne.symm hid.1)]
    · intro other hother
      rcases List.mem_cons.mp hother with rfl | hother
      · refine ⟨receiptKey, hkey, ?_⟩
        rw [hothers _ hnodup.1, hset, get?_set_self]
      · exact hmine other hother

end

section

variable {platform : Platform} {s : Store} {scope : Scope} {input : BatchInput}
  {execution : Execution} {now : String}

theorem advances_runBatch {batch : Batch} {record : BatchRecord} (hs : Sound s) :
    Advances s (runBatch s batch record).events (runBatch s batch record).store := by
  rw [runBatch]
  split
  · exact advances_processItems batch.input.items hs
  · exact (advances_processItems batch.input.items hs).congr rfl rfl

theorem advances_submitDurableSyncBatch (hs : Sound s) :
    Advances s (submitDurableSyncBatch platform s scope input execution now).events
      (submitDurableSyncBatch platform s scope input execution now).store := by
  have hstart : ∀ transport batches,
      Advances s [] { s with transport := transport, batches := batches } :=
    fun transport batches => Advances.of_eq rfl rfl hs
  rw [submitDurableSyncBatch]
  split
  · exact (Keeps.refl s).advances hs
  · dsimp only
    split
    · exact Advances.of_eq rfl rfl hs
    · exact (hstart _ _).append (advances_runBatch (hstart _ _).sound)

theorem declared_of_checkSubmission {itemKeys : OrderedMap String String}
    (h : checkSubmission platform s scope input execution = .ok itemKeys) :
    ∃ declared, input.items.foldlM (declareKey platform scope input execution.ports)
      (.empty, []) = .ok declared ∧ declared.1 = itemKeys := by
  obtain ⟨declared, hdeclared, h⟩ := bind_eq_ok.mp h
  obtain ⟨-, -, h⟩ := bind_eq_ok.mp h
  obtain ⟨-, -, h⟩ := bind_eq_ok.mp h
  obtain ⟨-, -, h⟩ := bind_eq_ok.mp h
  exact ⟨declared, hdeclared, Except.ok.inj h⟩

theorem named_submitDurableSyncBatch (hnodup : (input.items.map ItemInput.queueItemId).Nodup)
    {e : ApplierEvent}
    (he : e ∈ (submitDurableSyncBatch platform s scope input execution now).events) :
    ∃ given, e.idempotencyKey = some given ∧ e.itemKey = key e.tenantId given := by
  rw [submitDurableSyncBatch] at he
  split at he
  · cases he
  · rename_i itemKeys hchecks
    dsimp only at he
    split at he
    · cases he
    · have hprocessed : ∃ item ∈ input.items, ∃ receiptKey,
          itemKeys.get? item.queueItemId = some receiptKey ∧
            ∃ batch : Batch, About batch item receiptKey e := by
        rw [runBatch] at he
        split at he
        · obtain ⟨item, hitem, receiptKey, hkey, habout⟩ := about_processItems input.items he
          exact ⟨item, hitem, receiptKey, hkey, _, habout⟩
        · obtain ⟨item, hitem, receiptKey, hkey, habout⟩ := about_processItems input.items he
          exact ⟨item, hitem, receiptKey, hkey, _, habout⟩
      obtain ⟨item, hitem, receiptKey, hkey, batch, hevent, htruthy⟩ := hprocessed
      obtain ⟨declared, hdeclared, rfl⟩ := declared_of_checkSubmission hchecks
      obtain ⟨own, hown, hfound⟩ := (itemKeys_of_nodup input.items hnodup hdeclared).2 item hitem
      obtain ⟨given, hgiven⟩ := Option.isSome_iff_exists.mp htruthy
      have hsame : receiptKey = given := by
        rw [← declaredKey_of_truthy hgiven hown]
        exact Option.some.inj (hkey.symm.trans hfound)
      refine ⟨given, ?_, ?_⟩
      · rw [hevent]
        exact truthy_eq_some hgiven
      · rw [hevent, hsame]
        rfl

end

variable {s : Store} {scope : Scope}

variable {next : Store × Conflict} {now : String}

variable {conflictId : String} {input : ResolveInput}

theorem keeps_openConflict {queueItemId conflictType description : String}
    (h : openConflict s scope queueItemId conflictType description conflictId = .ok next) :
    Keeps s next.1 := by
  rw [openConflict] at h
  split at h
  · cases h
  · cases h
    exact Untouched.keeps ⟨rfl, rfl, rfl, rfl⟩

theorem keeps_resolveConflict (h : resolveConflict s scope conflictId input now = .ok next) :
    Keeps s next.1 := by
  rw [resolveConflict] at h
  split at h
  · cases h
  · rename_i conflict _
    by_cases hopen : conflict.status ≠ .opened
    · rw [if_pos hopen] at h
      cases h
    · rw [if_neg hopen] at h
      dsimp only at h
      split at h
      · cases h
        exact Untouched.keeps ⟨rfl, rfl, rfl, rfl⟩
      · cases h
        exact Untouched.keeps ⟨rfl, rfl, rfl, rfl⟩

theorem keeps_returnToPending {tenantId conflictKey : String} {conflict : Conflict}
    {item : StoredItem} {t : Store}
    (h : returnToPending s tenantId conflictKey conflict item = .ok t) : Keeps s t := by
  rw [returnToPending] at h
  split at h
  · cases h
  · rename_i storedKey entry hfound
    split_ifs at h with hrefused
    cases h
    have hstored : s.itemReceipts.get? storedKey = some entry :=
      mem_entries_iff.mp (List.mem_of_find?_eq_some hfound)
    have hplain : ¬ IsApplied entry := fun happlied => hrefused (.inr (.inr (.inl happlied)))
    refine Keeps.set rfl rfl ⟨rfl, rfl⟩ (fun happlied => absurd happlied hplain) ?_
    rintro (hhas | ⟨found, hget, happlied⟩)
    · exact .inl hhas
    · obtain rfl := Option.some.inj (hstored.symm.trans hget)
      exact absurd happlied hplain

theorem keeps_resolveWithPort {id actionId : String} {ports : ResolverPorts}
    (h : resolveWithPort s scope id input now actionId ports = .ok next) : Keeps s next.1 := by
  rw [resolveWithPort] at h
  split at h
  · rename_i conflict _
    split_ifs at h
    split at h
    · rename_i item _
      obtain ⟨answer, -, h⟩ := bind_eq_ok.mp h
      split_ifs at h
      obtain ⟨resolved, -, h⟩ := bind_eq_ok.mp h
      split at h
      · obtain ⟨-, -, h⟩ := bind_eq_ok.mp h
        obtain ⟨t, ht, h⟩ := bind_eq_ok.mp h
        obtain ⟨-, -, h⟩ := bind_eq_ok.mp h
        obtain ⟨-, -, h⟩ := bind_eq_ok.mp h
        cases h
        have hcorrected : Keeps s t := by
          rw [correct] at ht
          split_ifs at ht
          · exact keeps_returnToPending ht
          · cases ht
            exact .refl s
        refine hcorrected.trans ?_
        dsimp only
        split_ifs
        · exact Untouched.keeps ⟨rfl, rfl, rfl, rfl⟩
        · exact .refl t
      · cases h
    · cases h
  · cases h

theorem keeps_submitSyncBatch {input : E6BatchInput} {t : Store}
    (h : submitSyncBatch s scope input now = .ok t) : Keeps s t := by
  refine foldlM_relation Keeps Keeps.refl (fun _ _ _ hab hbc => hab.trans hbc) ?_ h
  intro before entry after hafter
  rw [storeE6Item] at hafter
  dsimp only at hafter
  split at hafter
  · cases hafter
    exact .refl before
  · split_ifs at hafter
    cases hafter
    refine ⟨fun hs => hs, ?_, rfl, rfl⟩
    rintro itemKey (hhas | happlied)
    · refine .inl ?_
      dsimp only
      rw [OrderedMap.has, get?_set]
      split_ifs
      · rfl
      · exact hhas
    · exact .inr happlied

/-- A command that may be refused, and the numbering operations between two commands. -/
inductive Command where
  /-- `submitDurableSyncBatch`, with the ports of this call. -/
  | submitDurableSyncBatch (scope : Scope) (input : BatchInput) (execution : Execution)
      (now : String)
  | submitSyncBatch (scope : Scope) (input : E6BatchInput) (now : String)
  | openConflict (scope : Scope) (queueItemId conflictType description conflictId : String)
  | resolveConflict (scope : Scope) (conflictId : String) (input : ResolveInput) (now : String)
  | resolveWithPort (scope : Scope) (id : String) (input : ResolveInput) (now actionId : String)
      (ports : ResolverPorts)
  | renumber (numbering : OfflineSyncNumbering.Store)

/-- The maps that a command leaves; a command that throws leaves them as they were. -/
def kept {α : Type} (s : Store) (next : α → Store) : Except Thrown α → Store
  | .ok value => next value
  | .error _ => s

/-- The maps and the marks that a command leaves. -/
def Command.exec (platform : Platform) (s : Store) : Command → List ApplierEvent × Store
  | .submitDurableSyncBatch scope input execution now =>
    let submission := OfflineSyncBatches.submitDurableSyncBatch platform s scope input execution now
    (submission.events, submission.store)
  | .submitSyncBatch scope input now =>
    ([], kept s id (OfflineSyncQueue.submitSyncBatch s scope input now))
  | .openConflict scope queueItemId conflictType description conflictId =>
    ([], kept s Prod.fst
      (OfflineSyncQueue.openConflict s scope queueItemId conflictType description conflictId))
  | .resolveConflict scope conflictId input now =>
    ([], kept s Prod.fst (OfflineSyncQueue.resolveConflict s scope conflictId input now))
  | .resolveWithPort scope id input now actionId ports =>
    ([], kept s Prod.fst (OfflineSyncQueue.resolveWithPort s scope id input now actionId ports))
  | .renumber numbering => ([], { s with numbering := numbering })

/-- The store with everything that has happened to the applier. -/
structure System where
  store : Store
  /-- What happened to the applier, in order. -/
  trace : List ApplierEvent

/-- A new store. -/
def System.initial : System := ⟨.empty, []⟩

/-- One command after another; each is enabled in every state. -/
def step (platform : Platform) (sys : System) (command : Command) : Option System :=
  let done := command.exec platform sys.store
  some ⟨done.2, sys.trace ++ done.1⟩

theorem keeps_kept {α : Type} {next : α → Store} {result : Except Thrown α}
    (h : ∀ value, result = .ok value → Keeps s (next value)) : Keeps s (kept s next result) := by
  cases result with
  | ok value => exact h value rfl
  | error error => exact .refl s

theorem advances_exec (command : Command) (hs : Sound s) :
    Advances s (command.exec platform s).1 (command.exec platform s).2 := by
  cases command with
  | submitDurableSyncBatch scope input execution now => exact advances_submitDurableSyncBatch hs
  | submitSyncBatch scope input now =>
    exact (keeps_kept fun t h => keeps_submitSyncBatch h).advances hs
  | openConflict scope queueItemId conflictType description conflictId =>
    exact (keeps_kept fun next h => keeps_openConflict h).advances hs
  | resolveConflict scope conflictId input now =>
    exact (keeps_kept fun next h => keeps_resolveConflict h).advances hs
  | resolveWithPort scope id input now actionId ports =>
    exact (keeps_kept fun next h => keeps_resolveWithPort h).advances hs
  | renumber numbering =>
    have hkeeps : Keeps s { s with numbering := numbering } :=
      Untouched.keeps ⟨rfl, rfl, rfl, rfl⟩
    exact hkeeps.advances hs

/-- The queue items of a submitted batch are distinct, as the service checks. -/
def Command.DistinctQueueItems : Command → Prop
  | .submitDurableSyncBatch _ input _ _ => (input.items.map ItemInput.queueItemId).Nodup
  | _ => True

/-- The mark names the key of its receipt by tenant and identity. -/
def Named (e : ApplierEvent) : Prop :=
  ∃ given, e.idempotencyKey = some given ∧ e.itemKey = key e.tenantId given

theorem named_exec {command : Command} (hdistinct : command.DistinctQueueItems) {e : ApplierEvent}
    (he : e ∈ (command.exec platform s).1) : Named e := by
  cases command with
  | submitDurableSyncBatch scope input execution now =>
    exact named_submitDurableSyncBatch hdistinct he
  | submitSyncBatch scope input now => cases he
  | openConflict scope queueItemId conflictType description conflictId => cases he
  | resolveConflict scope conflictId input now => cases he
  | resolveWithPort scope id input now actionId ports => cases he
  | renumber numbering => cases he

/-- Everything that happened since the store was new. -/
def Invariant (sys : System) : Prop := Advances .empty sys.trace sys.store

theorem invariant_initial : Invariant .initial := by
  have hsound : Sound .empty := by
    intro itemKey entry hentry
    cases hentry
  exact (Keeps.refl .empty).advances hsound

theorem step_invariant (platform : Platform) (sys : System) (command : Command) (next : System)
    (hsys : Invariant sys) (h : step platform sys command = some next) : Invariant next := by
  cases h
  exact hsys.append (advances_exec command hsys.sound)

theorem step_named (platform : Platform) (sys : System) (command : Command) (next : System)
    (hsys : ∀ e ∈ sys.trace, Named e) (hdistinct : command.DistinctQueueItems)
    (h : step platform sys command = some next) : ∀ e ∈ next.trace, Named e := by
  cases h
  intro e he
  rcases List.mem_append.mp he with he | he
  · exact hsys e he
  · exact named_exec hdistinct he

/-- The applier commits at most once for each receipt, and is not called for it again; with distinct
queue items the same holds for each tenant and item identity. A committed item stays done. -/
theorem applier_commits_once (platform : Platform) (commands : List Command) (sys : System)
    (hrun : run (step platform) .initial commands = some sys) :
    (sys.trace.Pairwise fun earlier later =>
        earlier.mark = .committed → later.itemKey ≠ earlier.itemKey) ∧
      ((∀ command ∈ commands, command.DistinctQueueItems) →
        sys.trace.Pairwise fun earlier later => earlier.mark = .committed →
          (later.tenantId, later.idempotencyKey) ≠ (earlier.tenantId, earlier.idempotencyKey)) ∧
      ∀ e ∈ sys.trace, e.mark = .committed → Done sys.store e.itemKey := by
  have hsys : Invariant sys := run_invariant (step_invariant platform) invariant_initial hrun
  refine ⟨hsys.ordered, ?_, hsys.committed⟩
  intro hdistinct
  have hnamed : ∀ e ∈ sys.trace, Named e :=
    run_invariant_of_meets (step_named platform) (fun e he => by cases he)
      (runMeets_of_forall_mem hdistinct) hrun
  refine hsys.ordered.imp_of_mem ?_
  intro earlier later hearlier hlater hallows hmark hsame
  obtain ⟨first, hfirst, hfirstKey⟩ := hnamed earlier hearlier
  obtain ⟨second, hsecond, hsecondKey⟩ := hnamed later hlater
  obtain ⟨htenant, hidentity⟩ := Prod.mk.inj hsame
  have hgiven : second = first := by
    rw [hfirst, hsecond] at hidentity
    exact Option.some.inj hidentity
  refine hallows hmark ?_
  rw [hsecondKey, hfirstKey, htenant, hgiven]

/-- A platform for sample runs, with readable texts in place of digests. -/
def samplePlatform : Platform where
  host := OfflineSyncNumberingRuns.sampleHost
  sha256 text := text
  batchContextFingerprint input agentId :=
    "|".intercalate (input.orgUnitId :: agentId :: input.items.flatMap fun item =>
      [item.queueItemId, item.idempotencyKey.getD "null", item.payloadHash, item.payloadJson])
  transportFingerprint transport input := transport.path ++ "|" ++ input.deviceBatchId
  transportCompositeKey scope transport := scope.tenantId ++ "|" ++ transport.transportIdempotencyKey

def sampleHash : String := "sha256:" ++ String.ofList (List.replicate 64 'a')

/-- The ports of the sample runs, around one applier. A refused item becomes a conflict. -/
def samplePorts (itemApplier : ItemInput → ItemContext → Except Thrown Applied) : Ports where
  initialQueueStatus := some .pending
  payloadHash _ _ := .ok sampleHash
  legacyItemIdentityResolver := none
  preApplyDetector := none
  handoffPort := none
  itemApplier := some itemApplier
  concurrencyDetector := none
  allowedActions _ _ := .ok none
  eventPort := some fun _ => .ok ()
  domainOutcomeClassifier := some fun _ _ _ => .outcome ⟨.conflict, some (.domain, "refused")⟩
  policyResolver := true
  randomUUID receiptKey _ := "conflict of " ++ receiptKey
  applyUnfinished _ := false
  itemUnfinished _ := false

/-- A batch of one item, under the given name. -/
def sampleBatch (deviceBatchId : String)
    (itemApplier : ItemInput → ItemContext → Except Thrown Applied) : Command :=
  .submitDurableSyncBatch OfflineSyncNumberingRuns.sampleScope
    ⟨"unit", "d1", deviceBatchId, none, none,
      [⟨"q1", "order", "local", some "k1", sampleHash, "\x7b\x7d", "2026-01-01T00:00:00.000Z", none,
        none⟩]⟩
    ⟨"agent", ⟨none, none⟩, samplePorts itemApplier,
      ⟨"transport of " ++ deviceBatchId, "/offline-sync/sync-batches", none, none⟩⟩
    "2026-01-01T00:00:00.000Z"

/-- An item is refused, corrected, applied by another batch, and then sent once more. -/
def correctedRun : List Command :=
  [sampleBatch "b1" fun _ _ =>
      .error { kind := .http 409, code := some "ORDER_REFUSED", message := "refused" },
    .resolveWithPort OfflineSyncNumberingRuns.sampleScope "conflict of k1"
      ⟨.retry_after_correction, none⟩ "2026-01-01T00:00:00.000Z" "action"
      ⟨fun _ => .ok none, fun _ _ => .ok ⟨some .resolved, none⟩, fun _ => .ok (), false⟩,
    sampleBatch "b2" fun _ _ => .ok ⟨"entity", none⟩,
    sampleBatch "b3" fun _ _ => .ok ⟨"entity", none⟩]

theorem applier_commits_once_correctedRun :
    ∃ sys, run (step samplePlatform) .initial correctedRun = some sys ∧
      sys.trace.map ApplierEvent.mark = [.called, .called, .committed] ∧
      sys.trace.Pairwise fun earlier later =>
        earlier.mark = .committed → later.itemKey ≠ earlier.itemKey := by
  have htrace : (run (step samplePlatform) .initial correctedRun).map
      (fun sys => sys.trace.map ApplierEvent.mark) = some [.called, .called, .committed] := by
    decide +kernel
  obtain ⟨sys, hrun, hmarks⟩ := Option.map_eq_some_iff.mp htrace
  exact ⟨sys, hrun, hmarks, (applier_commits_once samplePlatform correctedRun sys hrun).1⟩

end Stynx.OfflineSyncBatchRuns
