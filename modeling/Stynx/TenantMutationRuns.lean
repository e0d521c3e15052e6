import Stynx.TenantMutationMachine
import Stynx.TransitionRuns

/-!
# Exclusive operations run alone

Every step keeps what the promises and the tables say of the calls. When the job of a call starts its
operation, all gates that it waits for are settled, and so the calls before it that it conflicts with
are committed or rolled back.
-/

namespace Stynx.TenantMutations

open CallTables Microtasks TransitionRuns

variable {s t : State} {next : Option Reaction}

def Reaction.call : Reaction → Nat
  | .element c _ _ => c
  | .run c _ => c
  | .resolveThenable c => c
  | .adopt c => c
  | .settleGate c => c
  | .finish c => c

variable {r : Reaction} {c k : Nat} {call : Call}

theorem Fine.exists_call (h : Fine s r) : ∃ call, s.calls[r.call]? = some call := by
  cases r with
  | element c k p => exact h.imp fun call hcall => hcall.1
  | run c p => exact h.imp fun call hcall => hcall.1
  | resolveThenable c => exact h.imp fun call hcall => hcall.1
  | adopt c => exact h.imp fun call hcall => hcall.1
  | settleGate c => exact h
  | finish c => exact h.imp fun call hcall => hcall.1

theorem Machine.not_present (h : Machine next s) (hr : r.call = s.calls.length) :
    ¬ s.tasks.Present r := by
  intro hpresent
  obtain ⟨call, hcall⟩ := (h.present r hpresent).exists_call
  have hlt := (List.getElem?_eq_some_iff.mp hcall).1
  omega

theorem enter_calls (s : Admissions) (tenantId : String) (exclusive : Bool) :
    ∃ entry : Call, (s.enter tenantId exclusive).calls = s.calls ++ [entry] ∧
      entry.phase = .waiting ∧ entry.exclusive = exclusive ∧ entry.sources =
        if exclusive then s.previous tenantId :: s.sharedGates tenantId
        else [s.previous tenantId] := by
  cases exclusive with
  | true => exact ⟨_, rfl, rfl, rfl, rfl⟩
  | false => exact ⟨_, rfl, rfl, rfl, rfl⟩

theorem previous_origin (s : Admissions) (tenantId : String) :
    s.previous tenantId = .resolved ∨ ∃ i, s.previous tenantId = .gate i := by
  unfold Admissions.previous
  split
  case h_1 last _ => exact .inr ⟨last, rfl⟩
  case h_2 => exact .inl rfl

theorem sharedGates_origin {s : Admissions} {tenantId : String} {p : PromiseId}
    (h : p ∈ s.sharedGates tenantId) : ∃ i, p = .gate i := by
  unfold Admissions.sharedGates at h
  split at h
  · obtain ⟨i, -, rfl⟩ := List.mem_map.mp h
    exact ⟨i, rfl⟩
  · cases h

/-- The state once the call is in the tables. -/
def entered (s : State) (tenantId : String) (exclusive : Bool) : State :=
  { s with
    toAdmissions := s.enter tenantId exclusive
    missing := Function.update s.missing s.calls.length
      (if exclusive then List.range (s.previous tenantId :: s.sharedGates tenantId).length else [])
    children := Function.update s.children s.calls.length 0 }

theorem Machine.enter (h : Machine next s) (tenantId : String) (exclusive : Bool) :
    Machine next (entered s tenantId exclusive) := by
  obtain ⟨entry, hcalls, hwaiting, hexclusive, hsources⟩ := enter_calls s.toAdmissions tenantId exclusive
  have hlt : ∀ (c : Nat) call, s.calls[c]? = some call → c < s.calls.length :=
    fun c call hcall => (List.getElem?_eq_some_iff.mp hcall).1
  have hkept : ∀ (c : Nat) call, s.calls[c]? = some call →
      (entered s tenantId exclusive).calls[c]? = some call := fun c call hcall => by
    rw [entered, hcalls, List.getElem?_append_left (hlt c call hcall), hcall]
  have hcases : ∀ (c : Nat) call, (entered s tenantId exclusive).calls[c]? = some call →
      c = s.calls.length ∧ call = entry ∨ c ≠ s.calls.length ∧ s.calls[c]? = some call := by
    intro c call hcall
    rw [entered, hcalls] at hcall
    exact getElem?_concat_cases hcall
  refine ⟨h.tidy, h.adjacent, fun r hr => (h.present r hr).mono hkept, fun p f hp => ?_, h.apart,
    fun c call p hcall hp => ?_, fun c call k p hcall hexcl hk hvalue => ?_⟩
  · refine (h.settled p f hp).mono hkept fun c hnone hfound => ?_
    obtain ⟨call, hcall⟩ := hfound
    exact (Function.update_of_ne (Nat.ne_of_lt (hlt c call hcall)) _ _).trans hnone
  · rcases hcases c call hcall with ⟨-, rfl⟩ | ⟨-, hold⟩
    · rw [hsources] at hp
      split at hp
      · rcases List.mem_cons.mp hp with rfl | hshared
        · exact previous_origin s.toAdmissions tenantId
        · exact .inr (sharedGates_origin hshared)
      · rw [List.mem_singleton.mp hp]
        exact previous_origin s.toAdmissions tenantId
    · exact h.origins c call p hold hp
  · rcases hcases c call hcall with ⟨rfl, rfl⟩ | ⟨hne, hold⟩
    · rw [hexclusive] at hexcl
      rw [entered] at hvalue
      dsimp only at hvalue
      rw [Function.update_self, if_pos hexcl, List.mem_range] at hvalue
      rw [hsources, if_pos hexcl] at hk
      exact absurd (List.getElem?_eq_some_iff.mp hk).1 hvalue
    · have hmissing : (entered s tenantId exclusive).missing c = s.missing c :=
        Function.update_of_ne hne _ _
      rw [hmissing] at hvalue
      exact h.values c call k p hold hexcl hk hvalue

theorem present_subscribeElements {tasks : Tasks PromiseId Reaction} {l : List PromiseId}
    (h : (subscribeElements tasks c k l).Present r) :
    tasks.Present r ∨ ∃ i p, r = .element c i p := by
  induction l generalizing tasks k with
  | nil => exact .inl h
  | cons source rest ih =>
    rcases ih h with hbefore | hlater
    · rcases hbefore.of_subscribe with rfl | hold
      · exact .inr ⟨k, source, rfl⟩
      · exact .inl hold
    · exact .inr hlater

theorem prefix_subscribeElements (tasks : Tasks PromiseId Reaction) (c k : Nat)
    (l : List PromiseId) : tasks.queue <+: (subscribeElements tasks c k l).queue := by
  induction l generalizing tasks k with
  | nil => exact List.prefix_rfl
  | cons source rest ih => exact Tasks.queue_prefix_subscribe.trans (ih _ _)

theorem Machine.subscribeElements (h : Machine next s) (hcall : s.calls[c]? = some call)
    (hexclusive : call.exclusive = true) {l : List PromiseId}
    (hl : ∀ (i : Nat) p, l[i]? = some p → call.sources[k + i]? = some p)
    (hnew : ∀ i p, k ≤ i → ¬ s.tasks.Present (.element c i p)) :
    Machine next { s with tasks := TenantMutations.subscribeElements s.tasks c k l } := by
  induction l generalizing s k with
  | nil => exact h
  | cons source rest ih =>
    have hfirst : Machine next { s with tasks := s.tasks.subscribe source (.element c k source) } :=
      h.subscribe rfl (hnew k source (Nat.le_refl k)) ⟨call, hcall, hexclusive, hl 0 source rfl⟩
        (fun i heq => by cases heq) fun i heq => by cases heq
    refine ih hfirst hcall (fun i p hi => ?_) fun i p hle hpresent => ?_
    · rw [Nat.add_right_comm]
      exact hl (i + 1) p hi
    · rcases hpresent.of_subscribe with heq | hold
      · cases heq
        omega
      · exact hnew i p (Nat.le_of_succ_le hle) hold

theorem Machine.subscribePair (h : Machine next s) (hcall : s.calls[c]? = some call)
    (hwaiting : call.phase = .waiting) (hgate : ¬ s.tasks.Present (.settleGate c))
    (hfinish : ¬ s.tasks.Present (.finish c)) :
    Machine next { s with
      tasks := (s.tasks.subscribe (.result c) (.settleGate c)).subscribe (.result c) (.finish c) } := by
  have hpresent : ∀ r, Tasks.Present ((s.tasks.subscribe (.result c) (.settleGate c)).subscribe
      (.result c) (.finish c)) r → r = .finish c ∨ r = .settleGate c ∨ s.tasks.Present r :=
    fun r hr => hr.of_subscribe.imp_right Tasks.Present.of_subscribe
  have hpending : ∃ reactions, s.tasks.promises (.result c) = .pending reactions := by
    cases hresult : s.tasks.promises (.result c) with
    | pending reactions => exact ⟨reactions, rfl⟩
    | settled f =>
      obtain ⟨found, hfound, hstarted⟩ := h.settled _ f hresult
      rw [hcall] at hfound
      cases hfound
      exact absurd hwaiting hstarted
  obtain ⟨reactions, hreactions⟩ := hpending
  refine ⟨?_, fun i => ?_, fun r hr => ?_, fun p f hp => ?_, fun i hthen hadopt => ?_, h.origins,
    fun i other k p hother hexclusive hk hvalue => ?_⟩
  · refine (h.tidy.subscribe rfl hgate).subscribe rfl fun hr => ?_
    exact hr.of_subscribe.elim (fun heq => by cases heq) hfinish
  · by_cases hi : i = c
    · subst hi
      exact Tasks.adjacent_subscribe hreactions hgate fun heq => by cases heq
    · refine ((h.adjacent i).subscribe fun heq => ?_).subscribe fun heq => (by cases heq)
      cases heq
      exact hi rfl
  · rcases hpresent r hr with rfl | rfl | hold
    · refine ⟨call, hcall, fun hfinished => ?_⟩
      exact hfinished.started hwaiting
    · exact ⟨call, hcall⟩
    · exact h.present r hold
  · exact h.settled p f (Tasks.subscribe_promises_iff.mp (Tasks.subscribe_promises_iff.mp hp))
  · have hold : ∀ r, Tasks.Present ((s.tasks.subscribe (.result c) (.settleGate c)).subscribe
        (.result c) (.finish c)) r → r ≠ .finish c → r ≠ .settleGate c → s.tasks.Present r :=
      fun r hr hne hne' => ((hpresent r hr).resolve_left hne).resolve_left hne'
    exact h.apart i (hold _ hthen (fun heq => by cases heq) fun heq => by cases heq)
      (hold _ hadopt (fun heq => by cases heq) fun heq => by cases heq)
  · exact Tasks.settled_subscribe_iff.mpr (Tasks.settled_subscribe_iff.mpr
      (h.values i other k p hother hexclusive hk hvalue))

theorem Machine.request (h : Machine s.upcoming s) (tenantId : String) (exclusive : Bool) :
    Machine (request s tenantId exclusive).upcoming (request s tenantId exclusive) := by
  obtain ⟨entry, hcalls, hwaiting, hexclusive, hsources⟩ := enter_calls s.toAdmissions tenantId exclusive
  have hentry : (entered s tenantId exclusive).calls[s.calls.length]? = some entry := by
    rw [entered, hcalls]
    exact List.getElem?_concat_length
  have hnew : ∀ r : Reaction, r.call = s.calls.length → ¬ s.tasks.Present r :=
    fun r hr => h.not_present hr
  have hentered := h.enter tenantId exclusive
  cases exclusive with
  | true =>
    rw [if_pos rfl] at hsources
    have helements := hentered.subscribeElements (k := 0) hentry hexclusive
      (l := s.previous tenantId :: s.sharedGates tenantId)
      (fun i p hi => by rw [hsources, Nat.zero_add, hi]) fun i p _ => hnew _ rfl
    have hold : ∀ r : Reaction, r.call = s.calls.length → (∀ i p, r ≠ .element s.calls.length i p) →
        ¬ (TenantMutations.subscribeElements s.tasks s.calls.length 0
          (s.previous tenantId :: s.sharedGates tenantId)).Present r := by
      intro r hr hne hpresent
      rcases present_subscribeElements hpresent with hbefore | ⟨i, p, heq⟩
      · exact hnew r hr hbefore
      · exact hne i p heq
    have hrun := helements.subscribe (p := .all s.calls.length) (r := .run s.calls.length _) rfl
      (hold _ rfl fun i p heq => by cases heq)
      ⟨entry, hentry, hwaiting, .inl ⟨hexclusive, rfl⟩⟩ (fun i heq => by cases heq)
      fun i heq => by cases heq
    have hpair := hrun.subscribePair hentry hwaiting
      (fun hr => hr.of_subscribe.elim (fun heq => by cases heq)
        (hold _ rfl fun i p heq => by cases heq))
      (fun hr => hr.of_subscribe.elim (fun heq => by cases heq)
        (hold _ rfl fun i p heq => by cases heq))
    refine Machine.grow hpair ?_
    exact (prefix_subscribeElements s.tasks s.calls.length 0 _).trans
      (Tasks.queue_prefix_subscribe.trans
        (Tasks.queue_prefix_subscribe.trans Tasks.queue_prefix_subscribe))
  | false =>
    rw [if_neg Bool.false_ne_true] at hsources
    have hrun := hentered.subscribe (p := s.previous tenantId) (r := .run s.calls.length _) rfl
      (hnew _ rfl) ⟨entry, hentry, hwaiting, .inr ⟨hexclusive, hsources⟩⟩
      (fun i heq => by cases heq) fun i heq => by cases heq
    have hpair := hrun.subscribePair hentry hwaiting
      (fun hr => hr.of_subscribe.elim (fun heq => by cases heq) (hnew _ rfl))
      (fun hr => hr.of_subscribe.elim (fun heq => by cases heq) (hnew _ rfl))
    refine Machine.grow hpair ?_
    exact Tasks.queue_prefix_subscribe.trans
      (Tasks.queue_prefix_subscribe.trans Tasks.queue_prefix_subscribe)

theorem Machine.value (h : Machine next s) {p : PromiseId} (hcall : s.calls[c]? = some call)
    (hk : call.sources[k]? = some p) (hp : s.tasks.Settled p) :
    Machine next { s with
      missing := Function.update s.missing c ((s.missing c).filter (· ≠ k)) } where
  tidy := h.tidy
  adjacent := h.adjacent
  present r hr := (h.present r hr).mono fun _ _ => id
  settled q g hq := by
    refine Sound.mono (s := s) (t := { s with
      missing := Function.update s.missing c ((s.missing c).filter (· ≠ k)) }) (fun _ _ => id)
      (fun i hnone _ => ?_) (h.settled q g hq)
    dsimp only
    by_cases hi : i = c
    · subst hi
      rw [Function.update_self, hnone]
      rfl
    · rw [Function.update_of_ne hi, hnone]
  apart := h.apart
  origins := h.origins
  values i other j q hother hexcl hj hmissing := by
    dsimp only at hmissing
    by_cases hi : i = c
    · subst hi
      rw [Function.update_self] at hmissing
      by_cases hjk : j = k
      · have hsame : other = call := Option.some.inj (hother.symm.trans hcall)
        rw [hsame, hjk, hk] at hj
        cases hj
        exact hp
      · refine h.values i other j q hother hexcl hj fun hmem => hmissing ?_
        exact List.mem_filter.mpr ⟨hmem, decide_eq_true hjk⟩
    · rw [Function.update_of_ne hi] at hmissing
      exact h.values i other j q hother hexcl hj hmissing

end Stynx.TenantMutations
