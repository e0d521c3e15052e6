import Stynx.IdempotencyInterceptorRuns

/-!
# A key that has expired

`lookup` does not see a row that has expired, but `reserve` conflicts with it, and
nothing else writes the row before the handler. In strict mode the key is refused
from then on; otherwise the handler runs over the old row.
-/

namespace Stynx.IdempotencyInterceptorRuns

open IdempotencyInterceptor TransitionRuns

/-- The phases up to the call of the handler. -/
def beforeHandler : Phase → Bool
  | .set _ _ _ | .persist _ _ _ | .clear _ _ | .releaseLock _ | .done _ => false
  | _ => true

/-- A request comes to its handler with the lock, under a pending reservation of its own that lasts.
-/
def TreatedAsFirst (options : Options) (row : DurableRow) (id : Nat) (fingerprint : String)
    (ttlMs : Nat) (now : Int) : Prop :=
  ∃ (replies : List Reply) (s : System) (request : Request) (expiresAt : Int),
    run (step options) (System.start (some row))
        (.arrive id fingerprint ttlMs :: replies.map (Label.reply id)) = some s ∧
      s.requests.get? id = some request ∧ request.phase = .handle true ∧
      s.shared.row = some ⟨some fingerprint, none, none, .pending, some expiresAt⟩ ∧
      now < expiresAt

variable {options : Options} {shared shared' : Shared} {id : Nat} {request : Request}
  {reply : Reply} {phase' : Phase} {row : DurableRow} {s t : System}

theorem row_kept_of_resume (hrow : beforeHandler request.phase = true → shared.row = some row)
    (h : resume options shared id request reply = some (shared', phase'))
    (hbefore : beforeHandler phase' = true) : shared'.row = some row := by
  cases reply with
  | entry entry =>
    simp only [resume] at h
    split at h
    · rename_i hphase
      cases h
      exact hrow (by rw [hphase]; rfl)
    · rename_i attempt hphase
      cases h
      exact hrow (by rw [hphase]; rfl)
    · cases h
  | granted granted =>
    simp only [resume] at h
    split at h
    · rename_i hphase
      split at h
      · cases h
        exact hrow (by rw [hphase]; rfl)
      · cases h
        exact hrow (by rw [hphase]; rfl)
    · rename_i attempt hphase
      split at h
      · cases h
        exact hrow (by rw [hphase]; rfl)
      · cases h
        exact hrow (by rw [hphase]; rfl)
    · cases h
  | settled =>
    simp only [resume] at h
    split at h
    · cases h
      cases hbefore
    · rename_i attempt hphase
      cases h
      exact hrow (by rw [hphase]; rfl)
    · cases h
      cases hbefore
    · cases h
      cases hbefore
    · cases h
  | store now =>
    simp only [resume] at h
    split at h
    · rename_i hphase
      cases h
      exact hrow (by rw [hphase]; rfl)
    · rename_i attempt hphase
      cases h
      exact hrow (by rw [hphase]; rfl)
    · -- the insert conflicts with the row
      rename_i hphase
      have hold : shared.row = some row := hrow (by rw [hphase]; rfl)
      simp only [hold, IdempotencyInterceptor.reserve] at h
      split at h
      · cases h
        cases hbefore
      · cases h
        rfl
    · rename_i locked outcome entry hphase
      cases h
      cases locked <;> cases hbefore
    · rename_i locked outcome hphase
      cases h
      cases locked <;> cases hbefore
    · cases h
  | handler outcome now =>
    simp only [resume] at h
    split at h
    · split at h
      · cases h
        cases hbefore
      · cases h
        cases hbefore
    · cases h
  | rejected =>
    simp only [resume] at h
    split at h
    · cases h
      cases hbefore
    · cases h

/-- A key whose expired row is still there is never reserved again, whatever the backend answers. -/
theorem expired_key_not_reserved {fingerprint : String} {ttlMs : Nat} {now expiredAt : Int}
    (hexpires : row.expiresAt = some expiredAt) (hexpired : expiredAt ≤ now) :
    ¬TreatedAsFirst options row id fingerprint ttlMs now := by
  rintro ⟨replies, s, request, expiresAt, hrun, hrequest, hphase, hreserved, hnow⟩
  obtain ⟨first, harrive, hrest⟩ := run_cons_eq_some.mp hrun
  have hstart : ∀ request, first.requests.get? id = some request →
      beforeHandler request.phase = true → first.shared.row = some row := by
    rw [step] at harrive
    split at harrive
    · cases harrive
    · cases harrive
      exact fun _ _ _ => rfl
  have hreplies : RunMeets (step options) (fun _ label => ∃ reply, label = .reply id reply) first
      (replies.map (Label.reply id)) := by
    refine runMeets_of_forall_mem fun label hlabel => ?_
    obtain ⟨reply, -, rfl⟩ := List.mem_map.mp hlabel
    exact ⟨reply, rfl⟩
  have hkept := run_invariant_of_meets
    (I := fun s : System => ∀ request, s.requests.get? id = some request →
      beforeHandler request.phase = true → s.shared.row = some row) ?_ hstart hreplies hrest
  · have hrow := hkept request hrequest (by rw [hphase]; rfl)
    rw [hreserved, Option.some.injEq] at hrow
    rw [← hrow] at hexpires
    have hsame := Option.some.inj hexpires
    omega
  · rintro s _ t hs ⟨reply, rfl⟩ hstep other hother hbefore
    rw [step] at hstep
    split at hstep
    · cases hstep
    · rename_i old hold
      split at hstep
      · cases hstep
      · rename_i shared' phase' hresume
        cases hstep
        rw [System.after, OrderedMap.get?_set_self] at hother
        cases hother
        exact row_kept_of_resume (hs old hold) hresume hbefore

def expiredRow : DurableRow := ⟨some "f", some (201, "\x7b\x7d"), some [], .completed, some 1⟩

theorem expiredRow_not_reserved : ¬TreatedAsFirst ⟨false, 12⟩ expiredRow 1 "f" 60000 2 :=
  expired_key_not_reserved (show expiredRow.expiresAt = some 1 from rfl) (by decide)

/-- In strict mode the next request with the lock is refused. -/
theorem expired_key_is_refused :
    ((run (step ⟨true, 12⟩) (System.start (some expiredRow))
      [.arrive 1 "f" 60000, .reply 1 (.entry none), .reply 1 (.store 2), .reply 1 (.granted true),
        .reply 1 (.store 2), .reply 1 .settled]).bind fun s =>
          (s.requests.get? 1).map Request.phase) = some (.done .unavailable) := by
  decide

end Stynx.IdempotencyInterceptorRuns
