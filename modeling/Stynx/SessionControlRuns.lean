import Stynx.CallTables
import Stynx.SessionControl

/-!
# One execution of each operation

How often `execute` calls the provider for a target of an operation, and what the calls of
the operation return. The table of calls in flight admits one call of a key at a time; the
registry has the key once that call has saved.
-/

namespace Stynx.SessionControl

open TransitionRuns CallTables OrderedMap

variable {validateUuid : String → Bool} {key : String} {s t : Process} {index : Nat} {call : Call}
  {phase : Phase}

/-- Whether a call is the one in flight. -/
def Phase.running : Phase → Bool
  | .listing | .listed _ | .requested _ | .attempting _ _ _ | .revoking _ _ _ | .updating _ _ _
  | .updated _ _ | .saving _ | .saved _ | .reporting _ => true
  | _ => false

/-- What a call returns, once that is in the registry. -/
def Phase.outcome : Phase → Option SessionMutationResult
  | .found (some existing) => some existing.result
  | .saved result | .reporting result | .returned result => some result
  | _ => none

/-- The targets for which a call has still to ask the provider. -/
def Phase.ahead : Phase → Option (List String)
  | .requested chosen => some (chosen.map SessionRegistration.sid)
  | .attempting target rest _ => some (target.sid :: rest.map SessionRegistration.sid)
  | .revoking _ rest _ | .updating _ rest _ | .updated rest _ =>
    some (rest.map SessionRegistration.sid)
  | _ => none

/-- Whether a call has not chosen its targets. -/
def Phase.early : Phase → Bool
  | .listing | .listed _ | .requested _ => true
  | _ => false

/-- Whether the registry has answered a call that it does not have the key. -/
def Phase.unknown : Phase → Bool
  | .found none => true
  | _ => false

/-- The sessions for which the provider has been asked under a key. -/
def revokedFor (key : String) (s : Process) : List String :=
  (s.revocations.filter fun revocation => revocation.1 = key).map fun revocation =>
    revocation.2.registration.sid

/-- A call that was told that the registry does not have its key, and finds no call in flight, would
be told so again. The provider guarantees what the service takes. -/
def BeginsFirst (key : String) (s : Process) : Label → Prop
  | .continue_ index _ => ∀ call ∈ s.calls[index]?, call.key = key →
      call.phase.unknown = true → s.inFlight.get? key = none → s.operations.get? key = none
  | .answer index _ given => ∀ call ∈ s.calls[index]?, call.key = key →
      validGuarantee (given.getD outage).guarantee = true
  | _ => True

instance decidableBeginsFirst (key : String) (s : Process) (label : Label) :
    Decidable (BeginsFirst key s label) := by
  unfold BeginsFirst
  split <;> infer_instance

/-- The provider has been asked at most once for each session, and calls have returned the same. -/
def OnceAlike (key : String) (s : Process) : Prop :=
  (revokedFor key s).Nodup ∧
    ∀ (i j : Nat) one two result result', s.calls[i]? = some one → s.calls[j]? = some two →
      one.key = key → two.key = key → one.phase = .returned result →
      two.phase = .returned result' → result = result'

structure Fits (key : String) (s : Process) (i : Nat) (call : Call) : Prop where
  sole : call.phase.running = true → ∃ hash, s.inFlight.get? key = some ⟨hash, i⟩
  /-- What a call returns is in the registry. -/
  stored : ∀ result, call.phase.outcome = some result →
    ∃ operation, s.operations.get? key = some operation ∧ operation.result = result
  /-- Until then the registry does not have the key. -/
  unsaved : call.phase.running = true → call.phase.outcome = none → s.operations.get? key = none
  /-- A call waits for one with the same key. -/
  waits : ∀ owner, call.phase = .waiting owner →
    ∃ other, s.calls[owner]? = some other ∧ other.key = key
  /-- Before the targets have been chosen, the provider has not been asked. -/
  early : call.phase.early = true → revokedFor key s = []
  /-- Nor has it been asked for the targets that are ahead. -/
  ahead : ∀ rest, call.phase.ahead = some rest → (revokedFor key s ++ rest).Nodup
  /-- A list that is answered names no session twice. -/
  rows : ∀ all, call.phase = .listed all → (all.map SessionRegistration.sid).Nodup

structure Kept (key : String) (s : Process) : Prop where
  /-- The call in flight runs. -/
  owner : ∀ entry, s.inFlight.get? key = some entry →
    ∃ call, s.calls[entry.owner]? = some call ∧ call.key = key ∧ call.phase.running = true
  /-- When no call is in flight and the registry does not have the key, nothing was asked. -/
  idle : s.inFlight.get? key = none → s.operations.get? key = none → revokedFor key s = []
  /-- It has not been asked twice. -/
  once : (revokedFor key s).Nodup
  keyed : ∀ (i : Nat) (call : Call) (operation : Operation), s.calls[i]? = some call →
    call.phase = .saving operation → operation.key = call.key
  calls : ∀ i call, s.calls[i]? = some call → call.key = key → Fits key s i call

theorem kept_start (operations : SessionOperations.Memory SessionMutationResult) :
    Kept key (start operations) where
  owner entry h := by cases h
  idle _ _ := rfl
  once := List.nodup_nil
  keyed i call operation h := by cases h
  calls i call h := by cases h

theorem Kept.onceAlike (h : Kept key s) : OnceAlike key s := by
  refine ⟨h.once, ?_⟩
  intro i j one two result result' hone htwo hkey hkey' hphase hphase'
  obtain ⟨operation, hget, hresult⟩ := (h.calls i one hone hkey).stored result (by rw [hphase]; rfl)
  obtain ⟨operation', hget', hresult'⟩ := (h.calls j two htwo hkey').stored result'
    (by rw [hphase']; rfl)
  have hsame : operation = operation' := Option.some.inj (hget.symm.trans hget')
  rw [← hresult, ← hresult', hsame]

/-- Two processes agree on what a key has. -/
structure Alike (key : String) (s t : Process) : Prop where
  inFlight : t.inFlight.get? key = s.inFlight.get? key
  operations : t.operations.get? key = s.operations.get? key
  /-- What the provider has been asked for. -/
  revoked : revokedFor key t = revokedFor key s

def KeepsKeys (s t : Process) : Prop :=
  ∀ (i : Nat) call, s.calls[i]? = some call → ∃ call', t.calls[i]? = some call' ∧
    call'.key = call.key

theorem keepsKeys_of_set (hcall : s.calls[index]? = some call)
    (hcalls : t.calls = s.calls.set index (call.to phase)) : KeepsKeys s t := by
  intro i found hfound
  rw [hcalls, List.getElem?_set]
  by_cases hi : index = i
  · subst hi
    rw [if_pos rfl, if_pos (List.getElem?_eq_some_iff.mp hcall).1]
    rw [hcall] at hfound
    exact ⟨_, rfl, by cases hfound; rfl⟩
  · rw [if_neg hi]
    exact ⟨found, hfound, rfl⟩

variable {i now : Nat} {result : SessionMutationResult}

theorem Fits.alike (h : Fits key s i call) (halike : Alike key s t) (hkeys : KeepsKeys s t) :
    Fits key t i call where
  sole hrunning := by
    rw [halike.inFlight]
    exact h.sole hrunning
  stored result hresult := by
    rw [halike.operations]
    exact h.stored result hresult
  unsaved hrunning hnone := by
    rw [halike.operations]
    exact h.unsaved hrunning hnone
  waits owner hphase := by
    obtain ⟨other, hother, hkey⟩ := h.waits owner hphase
    obtain ⟨other', hother', hkey'⟩ := hkeys owner other hother
    exact ⟨other', hother', hkey'.trans hkey⟩
  early hearly := by
    rw [halike.revoked]
    exact h.early hearly
  ahead rest hrest := by
    rw [halike.revoked]
    exact h.ahead rest hrest
  rows := h.rows

theorem Fits.of_not_running (h : Fits key s i call) (hnot : call.phase.running = false)
    (hgrows : ∀ operation, s.operations.get? key = some operation →
      t.operations.get? key = some operation)
    (hkeys : KeepsKeys s t) : Fits key t i call where
  sole hrunning := by
    rw [hnot] at hrunning
    cases hrunning
  stored result hresult := by
    obtain ⟨operation, hget, heq⟩ := h.stored result hresult
    exact ⟨operation, hgrows operation hget, heq⟩
  unsaved hrunning _ := by
    rw [hnot] at hrunning
    cases hrunning
  waits owner hphase := by
    obtain ⟨other, hother, hkey⟩ := h.waits owner hphase
    obtain ⟨other', hother', hkey'⟩ := hkeys owner other hother
    exact ⟨other', hother', hkey'.trans hkey⟩
  early hearly := by
    cases hphase : call.phase <;> simp [hphase, Phase.early, Phase.running] at hearly hnot
  ahead rest hrest := by
    cases hphase : call.phase <;> simp [hphase, Phase.ahead, Phase.running] at hrest hnot
  rows := h.rows

theorem keyed_of_set (h : Kept key s) (hcalls : t.calls = s.calls.set index (call.to phase))
    (hkeyed : ∀ operation, phase = .saving operation → operation.key = call.key) :
    ∀ (i : Nat) (found : Call) (operation : Operation), t.calls[i]? = some found →
      found.phase = .saving operation → operation.key = found.key := by
  intro i found operation hfound hphase
  rw [hcalls] at hfound
  rcases getElem?_set_cases hfound with ⟨-, rfl⟩ | ⟨-, hold⟩
  · exact hkeyed operation hphase
  · exact h.keyed i found operation hold hphase

section

variable (h : Kept key s) (hcall : s.calls[index]? = some call)
include h hcall

theorem Kept.quiet (hcalls : t.calls = s.calls.set index (call.to phase)) (halike : Alike key s t)
    (hkeyed : ∀ operation, phase = .saving operation → operation.key = call.key)
    (hfits : call.key = key → phase.running = call.phase.running ∧ Fits key s index (call.to phase)) :
    Kept key t := by
  have hkeys := keepsKeys_of_set hcall hcalls
  refine ⟨?_, ?_, ?_, keyed_of_set h hcalls hkeyed, ?_⟩
  · intro entry hentry
    rw [halike.inFlight] at hentry
    obtain ⟨owner, howner, hkey, hrunning⟩ := h.owner entry hentry
    rw [hcalls, List.getElem?_set]
    by_cases hi : index = entry.owner
    · subst hi
      rw [hcall] at howner
      cases howner
      rw [if_pos rfl, if_pos (List.getElem?_eq_some_iff.mp hcall).1]
      exact ⟨_, rfl, hkey, (hfits hkey).1.trans hrunning⟩
    · rw [if_neg hi]
      exact ⟨owner, howner, hkey, hrunning⟩
  · rw [halike.inFlight, halike.operations, halike.revoked]
    exact h.idle
  · rw [halike.revoked]
    exact h.once
  · intro i found hfound hkey
    rw [hcalls] at hfound
    rcases getElem?_set_cases hfound with ⟨rfl, rfl⟩ | ⟨-, hold⟩
    · exact (hfits hkey).2.alike halike hkeys
    · exact (h.calls i found hold hkey).alike halike hkeys

theorem Kept.alone (hcalls : t.calls = s.calls.set index (call.to phase))
    (hothers : ∀ (i : Nat) other, i ≠ index → s.calls[i]? = some other → other.key = key → other.phase.running = false)
    (hgrows : ∀ operation, s.operations.get? key = some operation → t.operations.get? key = some operation)
    (hkey : call.key = key)
    (howner : ∀ entry, t.inFlight.get? key = some entry → entry.owner = index ∧ phase.running = true)
    (hidle : t.inFlight.get? key = none → t.operations.get? key = none → revokedFor key t = [])
    (honce : (revokedFor key t).Nodup)
    (hkeyed : ∀ operation, phase = .saving operation → operation.key = call.key)
    (hfits : Fits key t index (call.to phase)) : Kept key t := by
  have hkeys := keepsKeys_of_set hcall hcalls
  refine ⟨?_, hidle, honce, keyed_of_set h hcalls hkeyed, ?_⟩
  · intro entry hentry
    obtain ⟨hindex, hrunning⟩ := howner entry hentry
    rw [hcalls, hindex, List.getElem?_set_self (List.getElem?_eq_some_iff.mp hcall).1]
    exact ⟨_, rfl, hkey, hrunning⟩
  · intro i found hfound hsame
    rw [hcalls] at hfound
    rcases getElem?_set_cases hfound with ⟨rfl, rfl⟩ | ⟨hne, hold⟩
    · exact hfits
    · exact (h.calls i found hold hsame).of_not_running (hothers i found hne hold hsame) hgrows
        hkeys

theorem Kept.others (hkey : call.key = key) (hrunning : call.phase.running = true) (i : Nat)
    (other : Call) (hne : i ≠ index) (hother : s.calls[i]? = some other) (hsame : other.key = key) :
    other.phase.running = false := by
  cases hruns : other.phase.running with
  | false => rfl
  | true =>
    obtain ⟨hash, hentry⟩ := (h.calls index call hcall hkey).sole hrunning
    obtain ⟨hash', hentry'⟩ := (h.calls i other hother hsame).sole hruns
    rw [hentry] at hentry'
    cases hentry'
    exact absurd rfl hne

end

theorem Kept.execute (h : Kept key s) (hnew : call.phase = .looking ∨
    ∃ error, call.phase = .thrown error) : Kept key { s with calls := s.calls ++ [call] } := by
  have hkeys : KeepsKeys s { s with calls := s.calls ++ [call] } := by
    intro i found hfound
    refine ⟨found, ?_, rfl⟩
    rw [List.getElem?_append_left (List.getElem?_eq_some_iff.mp hfound).1]
    exact hfound
  refine ⟨?_, h.idle, h.once, ?_, ?_⟩
  · intro entry hentry
    obtain ⟨owner, howner, hkey, hrunning⟩ := h.owner entry hentry
    refine ⟨owner, ?_, hkey, hrunning⟩
    rw [List.getElem?_append_left (List.getElem?_eq_some_iff.mp howner).1]
    exact howner
  · intro i found operation hfound hphase
    rcases getElem?_concat_cases hfound with ⟨-, rfl⟩ | ⟨-, hold⟩
    · rcases hnew with hnew | ⟨error, hnew⟩ <;> rw [hnew] at hphase <;> cases hphase
    · exact h.keyed i found operation hold hphase
  · intro i found hfound hkey
    rcases getElem?_concat_cases hfound with ⟨-, rfl⟩ | ⟨-, hold⟩
    · rcases hnew with hnew | ⟨error, hnew⟩ <;>
        exact ⟨by simp [hnew, Phase.running], by simp [hnew, Phase.outcome],
          by simp [hnew, Phase.running], by simp [hnew], by simp [hnew, Phase.early],
          by simp [hnew, Phase.ahead], by simp [hnew]⟩
    · exact (h.calls i found hold hkey).alike ⟨rfl, rfl, rfl⟩ hkeys

variable {error : SessionControlError} {rest : List SessionRegistration}
  {results : List SessionItemResult} {request : ProviderRevocationRequest}

theorem fits_thrown : Fits key s i (call.to (.thrown error)) where
  sole h := by cases h
  stored _ h := by cases h
  unsaved h := by cases h
  waits _ h := by cases h
  early h := by cases h
  ahead _ h := by cases h
  rows _ h := by cases h

theorem fits_returned
    (h : ∃ operation, s.operations.get? key = some operation ∧ operation.result = result) :
    Fits key s i (call.to (.returned result)) where
  sole h := by cases h
  stored found hfound := by
    cases hfound
    exact h
  unsaved h := by cases h
  waits _ h := by cases h
  early h := by cases h
  ahead _ h := by cases h
  rows _ h := by cases h

theorem Kept.throws (h : Kept key s) (hcall : s.calls[index]? = some call)
    (hearly : call.key = key → call.phase.early = true) :
    Kept key (SessionControl.throws s index call error) := by
  by_cases hkey : call.key = key
  · have hrunning : call.phase.running = true := by
      have hthis := hearly hkey
      cases hphase : call.phase <;> simp [hphase, Phase.early] at hthis <;> rfl
    have hnone : (SessionControl.throws s index call error).inFlight.get? key = none := by
      rw [← hkey]
      exact (get?_delete s.inFlight call.key call.key).trans (if_pos rfl)
    refine h.alone hcall rfl (h.others hcall hkey hrunning) (fun _ hget => hget) hkey ?_ ?_ h.once
      (fun _ hphase => by cases hphase) fits_thrown
    · intro entry hentry
      rw [hnone] at hentry
      cases hentry
    · exact fun _ _ => (h.calls index call hcall hkey).early (hearly hkey)
  · refine h.quiet hcall rfl ⟨?_, rfl, rfl⟩ (fun _ hphase => by cases hphase)
      fun heq => absurd heq hkey
    exact (get?_delete s.inFlight call.key key).trans (if_neg hkey)

theorem Kept.lookedUp (h : Kept key s) {existing : Option Operation}
    (hcall : s.calls[index]? = some call) (hphase : call.phase = .found existing)
    (hfirst : call.key = key → existing = none → s.inFlight.get? key = none →
      s.operations.get? key = none) : Kept key (lookedUp s index call existing) := by
  have hnot : call.phase.running = false := by rw [hphase]; rfl
  unfold SessionControl.lookedUp
  split
  case h_1 existing =>
    split
    · exact h.quiet hcall rfl ⟨rfl, rfl, rfl⟩ (fun _ hsaving => by cases hsaving)
        fun _ => ⟨hnot.symm, fits_thrown⟩
    · refine h.quiet hcall rfl ⟨rfl, rfl, rfl⟩ (fun _ hsaving => by cases hsaving)
        fun hkey => ⟨hnot.symm, fits_returned ?_⟩
      exact (h.calls index call hcall hkey).stored _ (by rw [hphase]; rfl)
  case h_2 =>
    split
    case h_1 entry hentry =>
      split
      · exact h.quiet hcall rfl ⟨rfl, rfl, rfl⟩ (fun _ hsaving => by cases hsaving)
          fun _ => ⟨hnot.symm, fits_thrown⟩
      · refine h.quiet hcall rfl ⟨rfl, rfl, rfl⟩ (fun _ hsaving => by cases hsaving)
          fun hkey => ⟨hnot.symm, ?_⟩
        rw [hkey] at hentry
        obtain ⟨owner, howner, hsame, -⟩ := h.owner entry hentry
        refine ⟨by simp [Call.to, Phase.running], by simp [Call.to, Phase.outcome],
          by simp [Call.to, Phase.running], ?_, by simp [Call.to, Phase.early],
          by simp [Call.to, Phase.ahead], by simp [Call.to]⟩
        intro waited hwaited
        cases hwaited
        exact ⟨owner, howner, hsame⟩
    case h_2 hentry =>
      by_cases hkey : call.key = key
      · rw [hkey] at hentry
        -- the call begins: the registry has nothing, so nothing has been asked
        have hfree := hfirst hkey rfl hentry
        have hnothing := h.idle hentry hfree
        have hset : ∀ k, (s.inFlight.set call.key ⟨call.requestHash, index⟩).get? k =
            if call.key = k then some ⟨call.requestHash, index⟩ else s.inFlight.get? k :=
          fun k => get?_set s.inFlight call.key k _
        refine h.alone hcall rfl ?_ (fun _ hget => hget) hkey ?_ ?_ h.once
          (fun _ hsaving => by cases hsaving) ?_
        · intro i other hne hother hsame
          cases hruns : other.phase.running with
          | false => rfl
          | true =>
            obtain ⟨hash, hget⟩ := (h.calls i other hother hsame).sole hruns
            rw [hentry] at hget
            cases hget
        · intro entry hget
          rw [← hkey] at hget
          rw [hset, if_pos rfl] at hget
          cases hget
          exact ⟨rfl, rfl⟩
        · exact fun _ _ => hnothing
        · refine ⟨fun _ => ⟨call.requestHash, ?_⟩, by simp [Call.to, Phase.outcome],
            fun _ _ => hfree, by simp [Call.to], fun _ => hnothing,
            by simp [Call.to, Phase.ahead], by simp [Call.to]⟩
          rw [hset, if_pos hkey]
      · refine h.quiet hcall rfl ⟨?_, rfl, rfl⟩ (fun _ hsaving => by cases hsaving)
          fun heq => absurd heq hkey
        exact get?_set_of_ne s.inFlight _ hkey

theorem targets_sublist (all : List SessionRegistration) (current : String)
    (command : SessionControlCommand) : (targets all current command).Sublist all := by
  unfold targets
  split <;> exact List.filter_sublist

theorem Kept.choose (h : Kept key s) {all : List SessionRegistration}
    (hcall : s.calls[index]? = some call) (hphase : call.phase = .listed all) :
    Kept key (choose s index call all now) := by
  have hearly : call.phase.early = true := by rw [hphase]; rfl
  unfold SessionControl.choose
  simp only
  split
  · exact h.throws hcall fun _ => hearly
  · split
    · exact h.throws hcall fun _ => hearly
    · refine h.quiet hcall rfl ⟨rfl, rfl, rfl⟩ (fun _ hsaving => by cases hsaving)
        fun hkey => ⟨by rw [hphase]; rfl, ?_⟩
      have hfits := h.calls index call hcall hkey
      have hnothing := hfits.early hearly
      refine ⟨fun _ => hfits.sole (by rw [hphase]; rfl), by simp [Call.to, Phase.outcome],
        fun _ _ => hfits.unsaved (by rw [hphase]; rfl) (by rw [hphase]; rfl), by simp [Call.to],
        fun _ => hnothing, ?_, by simp [Call.to]⟩
      intro rest hrest
      cases hrest
      rw [hnothing, List.nil_append]
      exact (hfits.rows all hphase).sublist ((targets_sublist all _ _).map _)

theorem Kept.turn (h : Kept key s) (hcall : s.calls[index]? = some call)
    (hrunning : call.phase.running = true) (hnone : call.phase.outcome = none)
    (hahead : call.phase.ahead = some (rest.map SessionRegistration.sid)) :
    Kept key (turn s index call rest results now) := by
  unfold SessionControl.turn
  split
  · refine h.quiet hcall rfl ⟨rfl, rfl, rfl⟩ ?_ fun hkey => ⟨hrunning.symm, ?_⟩
    · intro operation hsaving
      cases hsaving
      rfl
    · have hfits := h.calls index call hcall hkey
      exact ⟨fun _ => hfits.sole hrunning, by simp [Call.to, Phase.outcome],
        fun _ _ => hfits.unsaved hrunning hnone, by simp [Call.to],
        by simp [Call.to, Phase.early], by simp [Call.to, Phase.ahead], by simp [Call.to]⟩
  case h_2 target rest =>
    split
    all_goals
      refine h.quiet hcall rfl ⟨rfl, rfl, rfl⟩ (fun _ hsaving => by cases hsaving)
        fun hkey => ⟨hrunning.symm, ?_⟩
      have hfits := h.calls index call hcall hkey
      refine ⟨fun _ => hfits.sole hrunning, by simp [Call.to, Phase.outcome],
        fun _ _ => hfits.unsaved hrunning hnone, by simp [Call.to],
        by simp [Call.to, Phase.early], ?_, by simp [Call.to]⟩
      intro left hleft
      cases hleft
    · exact hfits.ahead _ hahead
    · exact (hfits.ahead _ hahead).sublist (List.Sublist.append_left (List.sublist_cons_self _ _) _)

theorem revokedFor_concat {k : String} (h : t.revocations = s.revocations ++ [(k, request)]) :
    revokedFor key t =
      if k = key then revokedFor key s ++ [request.registration.sid] else revokedFor key s := by
  unfold revokedFor
  rw [h, List.filter_append, List.map_append]
  split
  case isTrue hkey => simp [hkey]
  case isFalse hkey => simp [hkey]

section

variable (h : Kept key s) (hcall : s.calls[index]? = some call)
include h hcall

theorem Kept.attempt {target : SessionRegistration}
    (hphase : call.phase = .attempting target rest results)
    (hrequest : request.registration = target)
    (hcalls : t.calls = s.calls.set index (call.to (.revoking target rest results)))
    (hflight : t.inFlight = s.inFlight) (hoperations : t.operations = s.operations)
    (hrevocations : t.revocations = s.revocations ++ [(call.key, request)]) : Kept key t := by
  have hrunning : call.phase.running = true := by rw [hphase]; rfl
  have hconcat := @revokedFor_concat key _ _ _ _ hrevocations
  by_cases hkey : call.key = key
  · rw [if_pos hkey, hrequest] at hconcat
    have hfits := h.calls index call hcall hkey
    obtain ⟨hash, hsole⟩ := hfits.sole hrunning
    have hahead : (revokedFor key s ++ (target.sid :: rest.map SessionRegistration.sid)).Nodup :=
      hfits.ahead _ (by rw [hphase]; rfl)
    have hasked : (revokedFor key t ++ rest.map SessionRegistration.sid).Nodup := by
      rw [hconcat, List.append_assoc]
      exact hahead
    refine h.alone hcall hcalls (h.others hcall hkey hrunning) ?_ hkey ?_ ?_ ?_
      (fun _ hsaving => by cases hsaving) ?_
    · rw [hoperations]
      exact fun _ hget => hget
    · intro entry hentry
      rw [hflight, hsole] at hentry
      cases hentry
      exact ⟨rfl, rfl⟩
    · intro hfree _
      rw [hflight, hsole] at hfree
      cases hfree
    · exact hasked.sublist (List.sublist_append_left _ _)
    · refine ⟨fun _ => ⟨hash, hflight ▸ hsole⟩, by simp [Call.to, Phase.outcome],
        fun _ _ => hoperations ▸ hfits.unsaved hrunning (by rw [hphase]; rfl), by simp [Call.to],
        by simp [Call.to, Phase.early], ?_, by simp [Call.to]⟩
      intro left hleft
      cases hleft
      exact hasked
  · rw [if_neg hkey] at hconcat
    exact h.quiet hcall hcalls ⟨by rw [hflight], by rw [hoperations], hconcat⟩
      (fun _ hsaving => by cases hsaving) fun heq => absurd heq hkey

theorem Kept.onward (hcalls : t.calls = s.calls.set index (call.to phase)) (halike : Alike key s t)
    (hrunning : call.phase.running = true) (hruns : phase.running = true)
    (houtcome : phase.outcome = call.phase.outcome) (hahead : phase.ahead = call.phase.ahead)
    (hwaits : ∀ owner, phase ≠ .waiting owner)
    (hlater : phase.early = false ∧ (∀ operation, phase ≠ .saving operation) ∧ ∀ all, phase ≠ .listed all) :
    Kept key t := by
  obtain ⟨hearly, hsaving, hlisted⟩ := hlater
  refine h.quiet hcall hcalls halike (fun operation heq => absurd heq (hsaving operation))
    fun hkey => ⟨hruns.trans hrunning.symm, ?_⟩
  have hfits := h.calls index call hcall hkey
  refine ⟨fun _ => hfits.sole hrunning, ?_, ?_, fun owner heq => absurd heq (hwaits owner), ?_, ?_,
    fun all heq => absurd heq (hlisted all)⟩
  · intro result hresult
    exact hfits.stored result (houtcome ▸ hresult)
  · intro _ hnone
    exact hfits.unsaved hrunning (houtcome ▸ hnone)
  · intro heq
    rw [show phase.early = true from heq] at hearly
    cases hearly
  · intro rest hrest
    exact hfits.ahead rest (hahead ▸ hrest)

theorem Kept.report (hphase : call.phase = .reporting result) :
    Kept key { callTo s index call (.returned result) with
      inFlight := s.inFlight.delete call.key } := by
  have hrunning : call.phase.running = true := by rw [hphase]; rfl
  by_cases hkey : call.key = key
  · have hstored := (h.calls index call hcall hkey).stored result (by rw [hphase]; rfl)
    refine h.alone hcall rfl (h.others hcall hkey hrunning) (fun _ hget => hget) hkey ?_ ?_ h.once
      (fun _ hsaving => by cases hsaving) (fits_returned hstored)
    · intro entry hentry
      rw [show (s.inFlight.delete call.key).get? key = none from hkey ▸
        (get?_delete s.inFlight call.key call.key).trans (if_pos rfl)] at hentry
      cases hentry
    · intro _ hfree
      obtain ⟨operation, hget, -⟩ := hstored
      rw [show s.operations.get? key = none from hfree] at hget
      cases hget
  · refine h.quiet hcall rfl ⟨?_, rfl, rfl⟩ (fun _ hsaving => by cases hsaving)
      fun heq => absurd heq hkey
    exact (get?_delete s.inFlight call.key key).trans (if_neg hkey)

theorem Kept.save {operation : Operation} (hphase : call.phase = .saving operation) :
    Kept key { callTo s index call (.saved operation.result) with
      operations := s.operations.saveOperation operation } := by
  have hrunning : call.phase.running = true := by rw [hphase]; rfl
  have hname := h.keyed index call operation hcall hphase
  by_cases hkey : call.key = key
  · have hfits := h.calls index call hcall hkey
    have hfree := hfits.unsaved hrunning (by rw [hphase]; rfl)
    obtain ⟨hash, hsole⟩ := hfits.sole hrunning
    have hsaved : (s.operations.saveOperation operation).get? key = some operation := by
      rw [← hkey, ← hname]
      exact get?_set_self s.operations operation.key operation
    refine h.alone hcall rfl (h.others hcall hkey hrunning) ?_ hkey ?_ ?_ h.once
      (fun _ hsaving => by cases hsaving) ?_
    · intro found hfound
      rw [hfree] at hfound
      cases hfound
    · intro entry hentry
      rw [show s.inFlight.get? key = some entry from hentry] at hsole
      cases hsole
      exact ⟨rfl, rfl⟩
    · intro hnone _
      rw [show s.inFlight.get? key = none from hnone] at hsole
      cases hsole
    · refine ⟨fun _ => ⟨hash, hsole⟩, ?_, by simp [Call.to, Phase.outcome], by simp [Call.to],
        by simp [Call.to, Phase.early], by simp [Call.to, Phase.ahead], by simp [Call.to]⟩
      intro result hresult
      cases hresult
      exact ⟨operation, hsaved, rfl⟩
  · refine h.quiet hcall rfl ⟨rfl, ?_, rfl⟩ (fun _ hsaving => by cases hsaving)
      fun heq => absurd heq hkey
    exact get?_set_of_ne s.operations operation (hname ▸ hkey)

theorem Kept.waited {owner : Nat} {other : Call} (hphase : call.phase = .waiting owner)
    (hother : s.calls[owner]? = some other) (hreturned : other.phase = .returned result) :
    Kept key (callTo s index call (.returned result)) := by
  refine h.quiet hcall rfl ⟨rfl, rfl, rfl⟩ (fun _ hsaving => by cases hsaving)
    fun hkey => ⟨by rw [hphase]; rfl, fits_returned ?_⟩
  obtain ⟨found, hfound, hsame⟩ := (h.calls index call hcall hkey).waits owner hphase
  rw [hother] at hfound
  cases hfound
  exact (h.calls owner other hother hsame).stored result (by rw [hreturned]; rfl)

theorem Kept.continueCall
    (hfirst : call.key = key → call.phase.unknown = true → s.inFlight.get? key = none → s.operations.get? key = none)
    (hstep : continueCall s index now call = some t) :
    Kept key t := by
  unfold SessionControl.continueCall at hstep
  split at hstep
  case h_1 existing hphase =>
    cases hstep
    refine h.lookedUp hcall hphase fun hkey hnone => hfirst hkey ?_
    rw [hphase, hnone]
    rfl
  case h_2 owner hphase =>
    split at hstep
    case h_1 result hother =>
      cases hstep
      obtain ⟨other, hget, hreturned⟩ := Option.map_eq_some_iff.mp hother
      exact h.waited hcall hphase hget hreturned
    case h_2 error hother =>
      cases hstep
      exact h.quiet hcall rfl ⟨rfl, rfl, rfl⟩ (fun _ hsaving => by cases hsaving)
        fun _ => ⟨by rw [hphase]; rfl, fits_thrown⟩
    case h_3 => cases hstep
  case h_3 all hphase =>
    cases hstep
    exact h.choose hcall hphase
  case h_4 chosen hphase =>
    cases hstep
    exact h.turn hcall (by rw [hphase]; rfl) (by rw [hphase]; rfl) (by rw [hphase]; rfl)
  case h_5 target rest results hphase =>
    cases hstep
    exact h.attempt hcall hphase rfl rfl rfl rfl rfl
  case h_6 rest results hphase =>
    cases hstep
    exact h.turn hcall (by rw [hphase]; rfl) (by rw [hphase]; rfl) (by rw [hphase]; rfl)
  case h_7 result hphase =>
    cases hstep
    exact h.onward hcall rfl ⟨rfl, rfl, rfl⟩ (by rw [hphase]; rfl) rfl (by rw [hphase]; rfl)
      (by rw [hphase]; rfl) (by simp) ⟨rfl, by simp, by simp⟩
  case h_8 result hphase =>
    cases hstep
    exact h.report hcall hphase
  case h_9 => cases hstep

theorem Kept.answer {given : Option ProviderRevocationResult}
    (hvalid : call.key = key → validGuarantee (given.getD outage).guarantee = true)
    (hstep : answer s index now call given = some t) : Kept key t := by
  unfold SessionControl.answer at hstep
  split at hstep
  case h_1 target rest results hphase =>
    simp only at hstep
    split at hstep
    case isTrue hinvalid =>
      cases hstep
      refine h.throws hcall fun hkey => ?_
      rw [hvalid hkey] at hinvalid
      cases hinvalid
    case isFalse =>
      cases hstep
      exact h.onward hcall rfl ⟨rfl, rfl, rfl⟩ (by rw [hphase]; rfl) rfl (by rw [hphase]; rfl)
        (by rw [hphase]; rfl) (by simp) ⟨rfl, by simp, by simp⟩
  case h_2 => cases hstep

theorem Kept.registry {rows : List SessionRegistration}
    (hstep : registry s index call rows = some t) :
    Kept key t := by
  unfold SessionControl.registry at hstep
  split at hstep
  case h_1 hphase =>
    cases hstep
    refine h.quiet hcall rfl ⟨rfl, rfl, rfl⟩ (fun _ hsaving => by cases hsaving)
      fun hkey => ⟨by rw [hphase]; rfl, ?_⟩
    refine ⟨by simp [Call.to, Phase.running], ?_, by simp [Call.to, Phase.running],
      by simp [Call.to], by simp [Call.to, Phase.early], by simp [Call.to, Phase.ahead],
      by simp [Call.to]⟩
    intro result hresult
    cases hget : s.operations.get? call.key with
    | none =>
      rw [hget] at hresult
      cases hresult
    | some operation =>
      rw [hget] at hresult
      cases hresult
      exact ⟨operation, hkey ▸ hget, rfl⟩
  case h_2 hphase =>
    split at hstep
    case isTrue hnodup =>
      cases hstep
      refine h.quiet hcall rfl ⟨rfl, rfl, rfl⟩ (fun _ hsaving => by cases hsaving)
        fun hkey => ⟨by rw [hphase]; rfl, ?_⟩
      have hfits := h.calls index call hcall hkey
      refine ⟨fun _ => hfits.sole (by rw [hphase]; rfl), by simp [Call.to, Phase.outcome],
        fun _ _ => hfits.unsaved (by rw [hphase]; rfl) (by rw [hphase]; rfl), by simp [Call.to],
        fun _ => hfits.early (by rw [hphase]; rfl), by simp [Call.to, Phase.ahead], ?_⟩
      intro all hall
      cases hall
      exact hnodup
    case isFalse => cases hstep
  case h_3 target rest results hphase =>
    cases hstep
    exact h.onward hcall rfl ⟨rfl, rfl, rfl⟩ (by rw [hphase]; rfl) rfl (by rw [hphase]; rfl)
      (by rw [hphase]; rfl) (by simp) ⟨rfl, by simp, by simp⟩
  case h_4 operation hphase =>
    cases hstep
    exact h.save hcall hphase
  case h_5 => cases hstep

end

theorem Kept.step (h : Kept key s) {label : Label} (hok : BeginsFirst key s label)
    (hstep : step validateUuid s label = some t) : Kept key t := by
  cases label with
  | execute context command requestHash =>
    cases hstep
    refine h.execute ?_
    simp only [firstPhase]
    split
    · exact .inr ⟨_, rfl⟩
    · split
      · exact .inr ⟨_, rfl⟩
      · exact .inl rfl
  | registry index rows =>
    obtain ⟨call, hcall, hmoved⟩ := Option.bind_eq_some_iff.mp hstep
    exact h.registry hcall hmoved
  | answer index now given =>
    obtain ⟨call, hcall, hmoved⟩ := Option.bind_eq_some_iff.mp hstep
    exact h.answer hcall (hok call hcall) hmoved
  | continue_ index now =>
    obtain ⟨call, hcall, hmoved⟩ := Option.bind_eq_some_iff.mp hstep
    exact h.continueCall hcall (hok call hcall) hmoved

/-- While each call begins first, and the provider guarantees what the service takes, it is asked at
most once for each target of an operation, and all calls return the same. -/
theorem executes_once (validateUuid : String → Bool) (key : String)
    (operations : SessionOperations.Memory SessionMutationResult) (labels : List Label)
    (last : Process) (hrun : run (step validateUuid) (start operations) labels = some last)
    (hmeets : RunMeets (step validateUuid) (BeginsFirst key) (start operations) labels) :
    OnceAlike key last :=
  (run_invariant_of_meets (fun _ _ _ hs hok hstep => hs.step hok hstep) (kept_start operations)
    hmeets hrun).onceAlike

def ownSession : SessionRegistration :=
  ⟨"s1", .active, ⟨[.tenant], true, true, true⟩, noGuarantee, none, false⟩

def operationId : String := "00000000-0000-4000-8000-000000000021"

def logout : Label :=
  .execute ⟨"actor", "actor", "tenant", "s1", [.self]⟩
    ⟨.logoutCurrent, operationId, none, none, none⟩ "hash"

def logoutKey : String := SessionOperations.Parts.key ⟨"tenant", "actor", "logout-current", operationId⟩

def confirmed : ProviderRevocationResult :=
  ⟨.revoked, ⟨.providerConfirmed, some "2026-07-13T00:00:00.000Z", none, none⟩, none⟩

/-- The provider guarantees an end within a minute. -/
def tooSlow : ProviderRevocationResult :=
  ⟨.revoked, ⟨.boundedLocal, some "2026-07-13T00:01:00.000Z", some 60, none⟩, none⟩

/-- A call from the answer of its lookup to the answer of the provider. -/
def asks (index : Nat) (given : Option ProviderRevocationResult) : List Label :=
  [.continue_ index 1, .registry index [ownSession], .continue_ index 1, .continue_ index 1,
    .continue_ index 1, .answer index 1 given]

def ends (index : Nat) : List Label :=
  [.registry index [], .continue_ index 1, .registry index [], .continue_ index 1,
    .continue_ index 1]

/-- For which sessions the provider has been asked, and what has been returned. -/
def afterRun (labels : List Label) : Option (List String × List MutationStatus) :=
  (run (step fun _ => true) (start .empty) labels).map fun s =>
    (revokedFor logoutKey s, s.calls.filterMap fun call =>
      match call.phase with
      | .returned result => some result.status
      | _ => none)

/-- Two calls are told that the registry does not have the key, and the second goes on after the
first; and a refused guarantee. -/
theorem late_lookup_asks_again :
    afterRun ([logout, logout, .registry 0 [], .registry 1 []] ++ asks 0 (some confirmed) ++
      ends 0 ++ asks 1 none ++ ends 1) = some (["s1", "s1"], [.revoked, .pending]) ∧
    afterRun ([logout, .registry 0 []] ++ asks 0 (some tooSlow) ++ [logout, .registry 1 []] ++
      asks 1 (some confirmed) ++ ends 1) = some (["s1", "s1"], [.revoked]) := by
  decide

/-- The second call comes while the first is in flight, a third one after it. -/
def waitsAndReplays : List Label :=
  [logout, logout, .registry 0 [], .registry 1 []] ++ asks 0 (some confirmed) ++
    [.continue_ 1 1] ++ ends 0 ++ [.continue_ 1 1, logout, .registry 2 [], .continue_ 2 1]

theorem executes_once_run : ∃ last,
    run (step fun _ => true) (start .empty) waitsAndReplays = some last ∧
      OnceAlike logoutKey last :=
  ⟨_, rfl, executes_once (fun _ => true) logoutKey .empty waitsAndReplays _ rfl (by decide)⟩

end Stynx.SessionControl
