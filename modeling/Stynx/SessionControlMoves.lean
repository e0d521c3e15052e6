import Stynx.SessionControl
import Stynx.CallTables

/-!
# Moves of a session control call

What a step of `execute` can do: a call begins, or one call goes to another place, and only a call that
saves writes an operation.
-/

namespace Stynx.SessionControl

open CallTables

variable {validateUuid : String → Bool} {s t : Process} {call : Call} {label : Label}

/-- Whether a call has no sessions in hand. -/
def Phase.idle : Phase → Bool
  | .looking | .found _ | .waiting _ | .listing | .saved _ | .reporting _ | .returned _
  | .thrown _ => true
  | _ => false

/-- The call that a step is about. -/
def Label.index : Label → Option Nat
  | .execute _ _ _ => none
  | .registry index _ | .answer index _ _ | .continue_ index _ => some index

/-- The targets to come and the items so far, at the start of a turn of the loop. -/
def Phase.turning : Phase → Option (List SessionRegistration × List SessionItemResult)
  | .requested chosen => some (chosen, [])
  | .updated rest results => some (rest, results)
  | _ => none

/-- A registration of which the provider cannot do what is asked. -/
def refused (target : SessionRegistration) (now : Nat) : SessionRegistration :=
  { target with state := .unsupported, terminalAt := some now }

/-- How a call goes from one place to the next. -/
inductive Goes (call : Call) : Label → Phase → Phase → Prop
  /-- It has nothing in hand any more, or yet. -/
  | idles {label phase next} (hidle : next.idle = true) : Goes call label phase next
  | lists {index rows} (hnodup : (rows.map SessionRegistration.sid).Nodup) :
    Goes call (.registry index rows) .listing (.listed rows)
  | chooses {label all} : Goes call label (.listed all)
    (.requested (targets all call.context.currentSessionId call.command))
  /-- It has tried all targets. -/
  | finishes {label phase results} (now : Nat) (hturn : phase.turning = some ([], results)) :
    Goes call label phase (.saving (operationOf call results now))
  | attempts {label phase target rest results} (hturn : phase.turning = some (target :: rest, results)) :
    Goes call label phase (.attempting target rest results)
  /-- A target cannot do what is asked. -/
  | refuses {label phase target rest results} (now : Nat) (item : SessionItemResult)
    (hturn : phase.turning = some (target :: rest, results)) (hsid : item.sid = target.sid) :
    Goes call label phase (.updating (refused target now) rest (results ++ [item]))
  | asks {label target rest results} :
    Goes call label (.attempting target rest results) (.revoking target rest results)
  | answered {label target rest results} (now : Nat) (provided : ProviderRevocationResult)
    (item : SessionItemResult) (hsid : item.sid = target.sid) :
    Goes call label (.revoking target rest results)
      (.updating (afterAnswer target provided now) rest (results ++ [item]))
  /-- The registry has written a registration. -/
  | updates {label target rest results} :
    Goes call label (.updating target rest results) (.updated rest results)

/-- The operations after a call has gone on. -/
def Phase.saves (operations : SessionOperations.Memory SessionMutationResult) :
    Phase → SessionOperations.Memory SessionMutationResult
  | .saving operation => operations.saveOperation operation
  | _ => operations

structure Move (s t : Process) (label : Label) (index : Nat) (call : Call) (next : Phase) : Prop where
  /-- It is the call of the step. -/
  ofLabel : label.index = some index
  found : s.calls[index]? = some call
  calls : t.calls = s.calls.set index (call.to next)
  goes : Goes call label call.phase next
  operations : t.operations = call.phase.saves s.operations

variable {index now : Nat}

section

variable (hcall : s.calls[index]? = some call) (hlabel : label.index = some index)
include hcall hlabel

theorem move_turn {rest : List SessionRegistration} {results : List SessionItemResult}
    (hturn : call.phase.turning = some (rest, results)) :
    ∃ next, Move s (turn s index call rest results now) label index call next := by
  have hsaves : call.phase.saves s.operations = s.operations := by
    cases hphase : call.phase with
    | saving operation =>
      rw [hphase] at hturn
      cases hturn
    | _ => rfl
  cases rest with
  | nil => exact ⟨_, hlabel, hcall, rfl, .finishes now hturn, hsaves.symm⟩
  | cons target rest =>
    rw [turn]
    split
    · exact ⟨_, hlabel, hcall, rfl, .attempts hturn, hsaves.symm⟩
    · exact ⟨_, hlabel, hcall, rfl, .refuses now _ hturn rfl, hsaves.symm⟩

theorem move_idle {next : Phase} (hidle : next.idle = true)
    (hcalls : t.calls = s.calls.set index (call.to next))
    (hoperations : t.operations = call.phase.saves s.operations) :
    ∃ next, Move s t label index call next :=
  ⟨next, hlabel, hcall, hcalls, .idles hidle, hoperations⟩

theorem move_lookedUp {existing : Option Operation} (hphase : call.phase = .found existing) :
    ∃ next, Move s (lookedUp s index call existing) label index call next := by
  have hsaves : call.phase.saves s.operations = s.operations := by rw [hphase]; rfl
  cases existing with
  | some existing =>
    rw [lookedUp]
    split
    · exact move_idle hcall hlabel rfl rfl hsaves.symm
    · exact move_idle hcall hlabel rfl rfl hsaves.symm
  | none =>
    rw [lookedUp]
    split
    · split
      · exact move_idle hcall hlabel rfl rfl hsaves.symm
      · exact move_idle hcall hlabel rfl rfl hsaves.symm
    · exact move_idle hcall hlabel rfl rfl hsaves.symm

theorem move_choose {all : List SessionRegistration} (hphase : call.phase = .listed all) :
    ∃ next, Move s (choose s index call all now) label index call next := by
  have hsaves : call.phase.saves s.operations = s.operations := by rw [hphase]; rfl
  rw [choose]
  dsimp only
  split
  · exact move_idle hcall hlabel rfl rfl hsaves.symm
  · split
    · exact move_idle hcall hlabel rfl rfl hsaves.symm
    · exact ⟨_, hlabel, hcall, rfl, hphase ▸ .chooses, hsaves.symm⟩

theorem move_continueCall (hstep : continueCall s index now call = some t) :
    ∃ next, Move s t label index call next := by
  unfold continueCall at hstep
  split at hstep
  case h_1 hphase =>
    cases hstep
    exact move_lookedUp hcall hlabel hphase
  case h_2 hphase =>
    split at hstep
    case h_1 =>
      cases hstep
      exact move_idle hcall hlabel rfl rfl (by rw [hphase]; rfl)
    case h_2 =>
      cases hstep
      exact move_idle hcall hlabel rfl rfl (by rw [hphase]; rfl)
    case h_3 => cases hstep
  case h_3 hphase =>
    cases hstep
    exact move_choose hcall hlabel hphase
  case h_4 chosen hphase =>
    cases hstep
    exact move_turn hcall hlabel (by rw [hphase]; rfl)
  case h_5 hphase =>
    cases hstep
    exact ⟨_, hlabel, hcall, rfl, hphase ▸ .asks, by rw [hphase]; rfl⟩
  case h_6 hphase =>
    cases hstep
    exact move_turn hcall hlabel (by rw [hphase]; rfl)
  case h_7 hphase =>
    cases hstep
    exact move_idle hcall hlabel rfl rfl (by rw [hphase]; rfl)
  case h_8 hphase =>
    cases hstep
    exact move_idle hcall hlabel rfl rfl (by rw [hphase]; rfl)
  case h_9 => cases hstep

theorem move_answer {given : Option ProviderRevocationResult}
    (hstep : answer s index now call given = some t) :
    ∃ next, Move s t label index call next := by
  unfold answer at hstep
  split at hstep
  case h_1 target rest results hphase =>
    have hsaves : call.phase.saves s.operations = s.operations := by rw [hphase]; rfl
    dsimp only at hstep
    split at hstep
    · cases hstep
      exact move_idle hcall hlabel rfl rfl hsaves.symm
    · cases hstep
      exact ⟨_, hlabel, hcall, rfl, hphase ▸ .answered now _ _ rfl, hsaves.symm⟩
  case h_2 => cases hstep

end

theorem move_registry {rows : List SessionRegistration} (hcall : s.calls[index]? = some call)
    (hstep : registry s index call rows = some t) :
    ∃ next, Move s t (.registry index rows) index call next := by
  unfold registry at hstep
  split at hstep
  case h_1 hphase =>
    cases hstep
    exact move_idle hcall rfl rfl rfl (by rw [hphase]; rfl)
  case h_2 hphase =>
    split at hstep
    case isTrue hnodup =>
      cases hstep
      exact ⟨_, rfl, hcall, rfl, hphase ▸ .lists hnodup, by rw [hphase]; rfl⟩
    case isFalse => cases hstep
  case h_3 hphase =>
    cases hstep
    exact ⟨_, rfl, hcall, rfl, hphase ▸ .updates, by rw [hphase]; rfl⟩
  case h_4 hphase =>
    cases hstep
    exact move_idle hcall rfl rfl rfl (by rw [hphase]; rfl)
  case h_5 => cases hstep

theorem firstPhase_idle (context : TrustedSessionContext) (command : SessionControlCommand) :
    (firstPhase validateUuid context command).idle = true := by
  unfold firstPhase
  split
  · rfl
  · split
    all_goals rfl

theorem step_cases (hstep : step validateUuid s label = some t) :
    (∃ call, label.index = none ∧ call.phase.idle = true ∧ t.calls = s.calls ++ [call] ∧
      t.operations = s.operations) ∨ ∃ index call next, Move s t label index call next := by
  cases label with
  | execute context command requestHash =>
    cases hstep
    exact .inl ⟨_, rfl, firstPhase_idle context command, rfl, rfl⟩
  | registry index rows =>
    obtain ⟨call, hcall, hmoved⟩ := Option.bind_eq_some_iff.mp hstep
    exact .inr ⟨index, call, move_registry hcall hmoved⟩
  | answer index now given =>
    obtain ⟨call, hcall, hmoved⟩ := Option.bind_eq_some_iff.mp hstep
    exact .inr ⟨index, call, move_answer hcall rfl hmoved⟩
  | continue_ index now =>
    obtain ⟨call, hcall, hmoved⟩ := Option.bind_eq_some_iff.mp hstep
    exact .inr ⟨index, call, move_continueCall hcall rfl hmoved⟩

end Stynx.SessionControl
