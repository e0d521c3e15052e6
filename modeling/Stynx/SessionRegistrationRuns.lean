import Stynx.SessionReconcileRuns

/-!
# Revoked sessions

What a provider answers is written to a registration whatever state it is in, so a revoked session
that is taken up again loses that state.
-/

namespace Stynx.SessionReconcile

open SessionControl TransitionRuns CallTables

variable {validateUuid : String → Bool} {s t : System} {operation : Operation}
  {items : List SessionItemResult} {rows : List SessionRegistration} {others : List Operation}

section

variable {ι κ : Type} {held held' : ι → κ → Prop} {ended ended' : κ → Prop}

/-- No record that has ended is in anybody's hand, and none is in two. -/
structure Safe (held : ι → κ → Prop) (ended : κ → Prop) : Prop where
  unended : ∀ i k, held i k → ¬ ended k
  apart : ∀ i j k, held i k → held j k → i = j

theorem Safe.step (h : Safe held ended) (i : ι) (hothers : ∀ j k, j ≠ i → held' j k → held j k)
    (hown : ∀ k, held' i k → held i k ∨ ¬ ended k ∧ ∀ j, ¬ held j k)
    (hended : ∀ k, ended' k → ended k ∨ held i k ∧ ¬ held' i k) : Safe held' ended' where
  unended j k hheld hend := by
    by_cases hj : j = i
    · subst hj
      rcases hown k hheld with hold | ⟨hnot, hfree⟩
      · rcases hended k hend with hbefore | ⟨-, hgone⟩
        · exact h.unended j k hold hbefore
        · exact hgone hheld
      · rcases hended k hend with hbefore | ⟨hold, -⟩
        · exact hnot hbefore
        · exact hfree j hold
    · have hold := hothers j k hj hheld
      rcases hended k hend with hbefore | ⟨hhere, -⟩
      · exact h.unended j k hold hbefore
      · exact hj (h.apart j i k hold hhere)
  apart j l k hj hl := by
    by_cases hji : j = i
    · by_cases hli : l = i
      · exact hji.trans hli.symm
      · have holdl := hothers l k hli hl
        subst hji
        rcases hown k hj with holdj | ⟨-, hfree⟩
        · exact h.apart j l k holdj holdl
        · exact absurd holdl (hfree l)
    · have holdj := hothers j k hji hj
      by_cases hli : l = i
      · subst hli
        rcases hown k hl with holdl | ⟨-, hfree⟩
        · exact h.apart j l k holdj holdl
        · exact absurd holdj (hfree j)
      · exact h.apart j l k holdj (hothers l k hli hl)

end

/-- The sessions that a call of `execute` has in hand. -/
def held (call : Call) : List String :=
  match call.phase with
  | .listed all => (targets all call.context.currentSessionId call.command).map SessionRegistration.sid
  | .requested chosen => chosen.map SessionRegistration.sid
  | .attempting target rest _ | .revoking target rest _ | .updating target rest _ =>
    target.sid :: rest.map SessionRegistration.sid
  | .updated rest _ => rest.map SessionRegistration.sid
  | _ => []

def taken (rows : List SessionRegistration) (items : List SessionItemResult) : List String :=
  (items.filter fun item => item.status = .pending ∧ (registrationOf rows item).isSome).map
    SessionItemResult.sid

/-- The sessions that a reconciliation has in hand at a place. -/
def Phase.held : Phase → List String
  | .asking task item _ => item.sid :: taken task.rows (task.done ++ task.rest)
  | .updating task registration | .failing task registration =>
    registration.sid :: taken task.rows (task.done ++ task.rest)
  | .counting task => taken task.rows (task.done ++ task.rest)
  | _ => []

/-- A session is in no operation's hand. -/
def Free (s : System) (sid : String) : Prop :=
  (∀ call ∈ s.process.calls, sid ∉ held call) ∧ ∀ call ∈ s.reconciliations, sid ∉ call.phase.held

instance decidableFree (s : System) (sid : String) : Decidable (Free s sid) :=
  inferInstanceAs (Decidable (_ ∧ _))

/-- The sessions that a call takes up from what the registry lists. -/
def chosen (call : Call) (rows : List SessionRegistration) : List SessionRegistration :=
  match call.phase with
  | .listing => targets rows call.context.currentSessionId call.command
  | _ => []

/-- The sessions that a reconciliation takes up from what the registry lists. -/
def reclaimed (call : Reconciliation) (rows : List SessionRegistration) : List SessionRegistration :=
  match call.phase with
  | .listing operation _ => (operation.result.results.filter fun item => item.status = .pending).filterMap
      (registrationOf rows)
  | _ => []

/-- An operation takes up only sessions that are not revoked and that no operation has in hand. -/
def TakesFree (s : System) : Label → Prop
  | .execute (.registry index rows) => ∀ call ∈ s.process.calls[index]?, ∀ row ∈ chosen call rows,
      row.state ≠ .revoked ∧ Free s row.sid
  | .list index rows => ∀ call ∈ s.reconciliations[index]?, ∀ row ∈ reclaimed call rows,
      row.state ≠ .revoked ∧ Free s row.sid
  | _ => True

instance decidableTakesFree (s : System) (label : Label) : Decidable (TakesFree s label) := by
  unfold TakesFree
  split <;> infer_instance

def Revoked (s : System) (sid : String) (since : Option Nat) : Prop :=
  ∃ registration, s.registrations.get? sid = some registration ∧ registration.state = .revoked ∧
    registration.terminalAt = since

variable {item : SessionItemResult} {row : SessionRegistration} {sid : String} {phase : Phase}
  {rest : List SessionRegistration} {results : List SessionItemResult} {call : Call}
  {next : SessionControl.Phase} {served : System} {index : Nat}

theorem sid_of_registrationOf (h : registrationOf rows item = some row) : row.sid = item.sid := by
  have hfound := List.find?_some h
  exact of_decide_eq_true hfound

theorem mem_taken : sid ∈ taken rows items ↔ ∃ item ∈ items,
    item.status = .pending ∧ (registrationOf rows item).isSome = true ∧ item.sid = sid := by
  simp only [taken, List.mem_map, List.mem_filter, decide_eq_true_eq, and_assoc]

theorem isSome_registrationOf_setRow (row : SessionRegistration) (item : SessionItemResult) :
    (registrationOf (setRow rows row) item).isSome = (registrationOf rows item).isSome := by
  induction rows with
  | nil => rfl
  | cons first rest ih =>
    have hsid : (if first.sid = row.sid then row else first).sid = first.sid := by
      split
      case isTrue heq => exact heq.symm
      case isFalse => rfl
    rw [registrationOf, setRow, List.map_cons, List.find?_cons, hsid]
    rw [registrationOf, List.find?_cons]
    split
    · rfl
    · exact ih

theorem taken_setRow (row : SessionRegistration) (items : List SessionItemResult) :
    taken (setRow rows row) items = taken rows items := by
  simp only [taken, isSome_registrationOf_setRow]

theorem taken_mono {items' : List SessionItemResult}
    (hsub : ∀ item ∈ items', item.status = .pending →
    item ∈ items)
    (h : sid ∈ taken rows items') : sid ∈ taken rows items := by
  obtain ⟨item, hitem, hpending, hrow, rfl⟩ := mem_taken.mp h
  exact mem_taken.mpr ⟨item, hsub item hitem hpending, hpending, hrow, rfl⟩

theorem held_atItem (h : AtItem operation rows others items phase) :
    ∀ sid ∈ phase.held, sid ∈ taken rows items := by
  intro sid hsid
  cases h with
  | asking hitems hpending hrow =>
    rename_i done rest item registration
    have hmem : item ∈ items := by
      rw [← hitems]
      exact List.mem_append_right _ (.head _)
    rcases List.mem_cons.mp hsid with rfl | htaken
    · exact mem_taken.mpr ⟨item, hmem, hpending, by rw [hrow]; rfl, rfl⟩
    · refine taken_mono (fun other hother _ => ?_) htaken
      rw [← hitems]
      rcases List.mem_append.mp hother with hdone | hrest
      · exact List.mem_append_left _ hdone
      · exact List.mem_append_right _ (.tail _ hrest)
  | counting =>
    have hall : items ++ [] = items := List.append_nil items
    exact hall ▸ hsid

variable {now : Nat} {target registration : SessionRegistration} {done : List SessionItemResult}

theorem held_atFailed (h : AtFailed operation rows others now items phase) :
    ∀ sid ∈ phase.held, sid ∈ taken rows items := by
  intro sid hsid
  cases h with
  | failing hitems hpending hrow =>
    rename_i before rest item registration
    have hmem : item ∈ items := by
      rw [← hitems]
      exact List.mem_append_right _ (.head _)
    rcases List.mem_cons.mp hsid with heq | htaken
    · rw [heq]
      exact mem_taken.mpr ⟨item, hmem, hpending, by rw [hrow]; rfl, (sid_of_registrationOf hrow).symm⟩
    · rw [taken_setRow] at htaken
      refine taken_mono (fun other hother hagain => ?_) htaken
      rw [← hitems]
      rcases List.mem_append.mp hother with hdone | hrest
      · exact absurd hagain (status_of_passed other hdone)
      · exact List.mem_append_right _ (.tail _ hrest)
  | saving => cases hsid

theorem held_nextOperation (others : List Operation) : (nextOperation others).held = [] := by
  cases others
  all_goals rfl

/-- No session stands twice among the items of an operation. -/
def Distinct (operation : Operation) : Prop :=
  (operation.result.results.map SessionItemResult.sid).Nodup

/-- No session stands twice among those that a call goes through. -/
def CallDistinct : SessionControl.Phase → Prop
  | .listed all => (all.map SessionRegistration.sid).Nodup
  | .requested chosen => (chosen.map SessionRegistration.sid).Nodup
  | .attempting target rest results | .revoking target rest results =>
    (results.map SessionItemResult.sid ++ target.sid :: rest.map SessionRegistration.sid).Nodup
  | .updating target rest results =>
    (results.map SessionItemResult.sid ++ rest.map SessionRegistration.sid).Nodup ∧
      target.sid ∈ results.map SessionItemResult.sid
  | .updated rest results =>
    (results.map SessionItemResult.sid ++ rest.map SessionRegistration.sid).Nodup
  | .saving operation => Distinct operation
  | _ => True

/-- No session stands twice in a reconciliation, and one that is written as revoked is let go. -/
def PhaseDistinct : Phase → Prop
  | .listing operation others => ∀ o ∈ operation :: others, Distinct o
  | .asking task item registration =>
    ((task.done ++ item :: task.rest).map SessionItemResult.sid).Nodup ∧
      registration.sid = item.sid ∧ ∀ o ∈ task.others, Distinct o
  | .updating task registration =>
    ((task.done ++ task.rest).map SessionItemResult.sid).Nodup ∧
      (registration.state = .revoked → registration.sid ∉ taken task.rows (task.done ++ task.rest)) ∧
      ∀ o ∈ task.others, Distinct o
  | .counting task => ((task.done ++ task.rest).map SessionItemResult.sid).Nodup ∧
      ∀ o ∈ task.others, Distinct o
  | .failing task registration => ((task.done ++ task.rest).map SessionItemResult.sid).Nodup ∧
      registration.state ≠ .revoked ∧ (∀ item ∈ task.done, item.status ≠ .pending) ∧
      ∀ o ∈ task.others, Distinct o
  | .saving operation others => Distinct operation ∧ ∀ o ∈ others, Distinct o
  | _ => True

theorem distinct_atItem (h : AtItem operation rows others items phase)
    (hitems : (items.map SessionItemResult.sid).Nodup) (hothers : ∀ o ∈ others, Distinct o) :
    PhaseDistinct phase := by
  cases h with
  | asking heq _ hrow => exact ⟨heq ▸ hitems, sid_of_registrationOf hrow, hothers⟩
  | counting =>
    have hall : items ++ [] = items := List.append_nil items
    exact ⟨hall.symm ▸ hitems, hothers⟩

theorem sid_exhausted (item : SessionItemResult) : (exhausted item).sid = item.sid := by
  rw [exhausted]
  split
  all_goals rfl

theorem map_sid_exhausted (items : List SessionItemResult) :
    (items.map exhausted).map SessionItemResult.sid = items.map SessionItemResult.sid := by
  rw [List.map_map]
  exact List.map_congr_left fun item _ => sid_exhausted item

theorem distinct_atFailed (h : AtFailed operation rows others now items phase)
    (hitems : (items.map SessionItemResult.sid).Nodup) (hothers : ∀ o ∈ others, Distinct o) :
    PhaseDistinct phase := by
  cases h with
  | failing heq _ _ =>
    rename_i before rest item registration
    refine ⟨?_, (by intro hfalse; cases hfalse), status_of_passed, hothers⟩
    rw [← heq] at hitems
    simp only [List.map_append, List.map_cons, List.map_nil, map_sid_exhausted,
      List.append_assoc] at hitems ⊢
    exact hitems
  | saving => exact ⟨by rw [Distinct, withResults, map_sid_exhausted]; exact hitems, hothers⟩

theorem distinct_nextOperation {others : List Operation} (h : ∀ o ∈ others, Distinct o) :
    PhaseDistinct (nextOperation others) := by
  cases others with
  | nil => trivial
  | cons operation others => exact h

theorem distinct_turning {phase : SessionControl.Phase} (h : CallDistinct phase)
    (hturn : phase.turning = some (rest, results)) :
    (results.map SessionItemResult.sid ++ rest.map SessionRegistration.sid).Nodup := by
  cases phase with
  | requested chosen =>
    cases hturn
    exact h
  | updated rest results =>
    cases hturn
    exact h
  | _ => cases hturn

theorem distinct_item (hsid : item.sid = target.sid)
    (h : (results.map SessionItemResult.sid ++
      target.sid :: rest.map SessionRegistration.sid).Nodup) :
    ((results ++ [item]).map SessionItemResult.sid ++ rest.map SessionRegistration.sid).Nodup ∧
      target.sid ∈ (results ++ [item]).map SessionItemResult.sid := by
  have hmap : (results ++ [item]).map SessionItemResult.sid =
      results.map SessionItemResult.sid ++ [target.sid] := by
    rw [List.map_append, List.map_singleton, hsid]
  rw [hmap]
  refine ⟨?_, List.mem_concat_self⟩
  rw [List.append_assoc]
  exact h

theorem callDistinct_goes {label : SessionControl.Label} {phase : SessionControl.Phase}
    (h : CallDistinct phase) (hgoes : Goes call label phase next) :
    CallDistinct next := by
  cases hgoes with
  | idles hidle =>
    cases next with
    | looking | found | waiting | listing | saved | reporting | returned | thrown => trivial
    | _ => cases hidle
  | lists hnodup => exact hnodup
  | chooses => exact h.sublist ((targets_sublist _ _ _).map _)
  | finishes now hturn =>
    have hall := distinct_turning h hturn
    rw [List.map_nil, List.append_nil] at hall
    exact hall
  | attempts hturn => exact distinct_turning h hturn
  | refuses now item hturn hsid => exact distinct_item hsid (distinct_turning h hturn)
  | asks => exact h
  | answered now provided item hsid => exact distinct_item hsid h
  | updates => exact h.1

theorem registrationState_revoked {status : MutationStatus}
    (h : registrationState status = .revoked) : status = .revoked := by
  cases status with
  | revoked => rfl
  | _ => cases h

theorem not_taken_of_answered {rest : List SessionItemResult} {outcome : ProviderRevocationResult}
    (hnodup : ((done ++ item :: rest).map SessionItemResult.sid).Nodup)
    (hrevoked : outcome.status = .revoked) :
    item.sid ∉ taken rows (done ++ [itemAfter item outcome] ++ rest) := by
  intro htaken
  obtain ⟨other, hother, hpending, -, hsid⟩ := mem_taken.mp htaken
  rw [List.map_append, List.map_cons] at hnodup
  have hfresh := (List.nodup_middle.mp hnodup).notMem
  rw [List.append_assoc] at hother
  rcases List.mem_append.mp hother with hdone | hrest
  · refine hfresh (List.mem_append_left _ ?_)
    exact hsid ▸ List.mem_map_of_mem hdone
  · rcases List.mem_cons.mp hrest with rfl | hlater
    · rw [itemAfter, hrevoked] at hpending
      cases hpending
    · refine hfresh (List.mem_append_right _ ?_)
      exact hsid ▸ List.mem_map_of_mem hlater

theorem distinct_count {task : Task}
    (hitems : ((task.done ++ task.rest).map SessionItemResult.sid).Nodup)
    (hothers : ∀ o ∈ task.others, Distinct o) (now : Nat) : PhaseDistinct (count task now) := by
  have hdone : (task.done.map SessionItemResult.sid).Nodup :=
    hitems.sublist ((List.sublist_append_left _ _).map _)
  rw [count]
  dsimp only
  split
  · exact distinct_atFailed (nextFailed_atFailed task.done List.map_nil rfl) hdone hothers
  · split
    · split
      · exact ⟨hdone, hothers⟩
      · trivial
    · exact ⟨hdone, hothers⟩

theorem rules_distinct : Rules (fun _ => True) Distinct CallDistinct PhaseDistinct where
  leased operation lease h := h
  executed operation h := h
  idle phase hidle := by
    cases phase with
    | looking | found | waiting | listing | saved | reporting | returned | thrown => trivial
    | _ => cases hidle
  goes call label phase next h hgoes := callDistinct_goes h hgoes
  saved operation others h := h.1
  claiming now := trivial
  opens found h := distinct_nextOperation fun operation hmem => (h operation hmem).1
  turns label phase next h hturns := by
    cases hturns with
    | lists rows =>
      exact distinct_atItem (nextItem_atItem _ rfl) (h _ (.head _))
        fun o ho => h o (.tail _ ho)
    | stays =>
      obtain ⟨hitems, -, hothers⟩ := h
      refine distinct_atItem (nextItem_atItem _ rfl) ?_ hothers
      rw [List.append_assoc]
      exact hitems
    | answered now outcome =>
      obtain ⟨hitems, hsid, hothers⟩ := h
      refine ⟨?_, fun hstate => ?_, hothers⟩
      · rw [List.append_assoc]
        simp only [List.map_append, List.map_cons, List.singleton_append] at hitems ⊢
        exact hitems
      · rw [taken_setRow]
        have hrevoked : outcome.status = .revoked := registrationState_revoked hstate
        have hkept : (registrationAfter _ outcome now).sid = _ := hsid
        rw [hkept]
        exact not_taken_of_answered hitems hrevoked
    | updates =>
      obtain ⟨hitems, -, hothers⟩ := h
      exact distinct_atItem (nextItem_atItem _ rfl) hitems hothers
    | counts now => exact distinct_count h.1 h.2 now
    | fails now =>
      obtain ⟨hitems, -, hdone, hothers⟩ := h
      exact distinct_atFailed (nextFailed_atFailed _ (map_exhausted_of_not_pending hdone) rfl)
        hitems hothers
    | saves => exact distinct_nextOperation h.2
    | throws => trivial

/-- Who has a session in hand: a call of `execute`, or one of `reconcile`. -/
def InHand (s : System) : Nat ⊕ Nat → String → Prop
  | .inl i, sid => ∃ call, s.process.calls[i]? = some call ∧ sid ∈ held call
  | .inr i, sid => ∃ call, s.reconciliations[i]? = some call ∧ sid ∈ call.phase.held

def Ended (s : System) (sid : String) : Prop :=
  ∃ registration, s.registrations.get? sid = some registration ∧ registration.state = .revoked

structure Steady (s : System) : Prop where
  /-- No session stands twice where an operation goes through sessions. -/
  distinct : Keeps Distinct CallDistinct PhaseDistinct s
  safe : Safe (InHand s) (Ended s)

def Lasts (s t : System) (label : Label) : Prop :=
  ∀ sid registration, s.registrations.get? sid = some registration →
    registration.state = .revoked → t.registrations.get? sid = some registration ∨
      label.removes = true ∧ t.registrations.get? sid = none

theorem Free.not_inHand (h : Free s sid) (holder : Nat ⊕ Nat) : ¬ InHand s holder sid := by
  intro hhand
  cases holder with
  | inl i =>
    obtain ⟨call, hcall, hheld⟩ := hhand
    exact h.1 call (List.mem_of_getElem? hcall) hheld
  | inr i =>
    obtain ⟨call, hcall, hheld⟩ := hhand
    exact h.2 call (List.mem_of_getElem? hcall) hheld

/-- A holder writes at most a session that it has in hand, and lets a revoked one go. -/
structure Writes (s t : System) (holder : Nat ⊕ Nat) : Prop where
  only : t.registrations = s.registrations ∨ ∃ registration, InHand s holder registration.sid ∧
    (registration.state = .revoked → ¬ InHand t holder registration.sid) ∧
    t.registrations = s.registrations.set registration.sid registration

variable {holder : Nat ⊕ Nat} {label : Label}

theorem Writes.ended (h : Writes s t holder) (hended : Ended t sid) :
    Ended s sid ∨ InHand s holder sid ∧ ¬ InHand t holder sid := by
  obtain ⟨found, hget, hrevoked⟩ := hended
  rcases h.only with hsame | ⟨registration, hhand, hgone, hset⟩
  · rw [hsame] at hget
    exact .inl ⟨found, hget, hrevoked⟩
  · rw [hset, OrderedMap.get?_set] at hget
    split at hget
    case isTrue heq =>
      cases hget
      exact .inr (heq ▸ ⟨hhand, hgone hrevoked⟩)
    case isFalse => exact .inl ⟨found, hget, hrevoked⟩

theorem Writes.lasts (h : Writes s t holder) (hsafe : Safe (InHand s) (Ended s)) :
    Lasts s t label := by
  intro sid registration hget hrevoked
  refine .inl ?_
  rcases h.only with hsame | ⟨written, hhand, -, hset⟩
  · rw [hsame]
    exact hget
  · rw [hset, OrderedMap.get?_set_of_ne]
    · exact hget
    · rintro rfl
      exact hsafe.unended holder _ hhand ⟨registration, hget, hrevoked⟩

theorem Steady.hold (h : Steady s) (hdistinct : Keeps Distinct CallDistinct PhaseDistinct t)
    (hothers : ∀ j sid, j ≠ holder → InHand t j sid → InHand s j sid)
    (hown : ∀ sid, InHand t holder sid →
      InHand s holder sid ∨ ¬ Ended s sid ∧ ∀ j, ¬ InHand s j sid)
    (hwrites : Writes s t holder) : Steady t ∧ Lasts s t label :=
  ⟨⟨hdistinct, h.safe.step holder hothers hown fun _ hended => hwrites.ended hended⟩,
    hwrites.lasts h.safe⟩

theorem held_idle (h : call.phase.idle = true) : held call = [] := by
  unfold held
  split
  case h_7 => rfl
  all_goals
    rename_i hphase
    rw [hphase] at h
    cases h

theorem held_turning (h : call.phase.turning = some (rest, results)) :
    held call = rest.map SessionRegistration.sid := by
  cases hphase : call.phase with
  | requested chosen =>
    rw [hphase] at h
    cases h
    rw [held, hphase]
  | updated rest results =>
    rw [hphase] at h
    cases h
    rw [held, hphase]
  | _ =>
    rw [hphase] at h
    cases h

theorem held_goes {label : SessionControl.Label} {phase : SessionControl.Phase}
    (hphase : call.phase = phase) (hgoes : Goes call label phase next)
    (hsid : sid ∈ held (call.to next)) : sid ∈ held call ∨
      ∃ index rows, label = .registry index rows ∧
        sid ∈ (chosen call rows).map SessionRegistration.sid := by
  cases hgoes with
  | idles hidle =>
    have hnone : held (call.to next) = [] := held_idle hidle
    rw [hnone] at hsid
    cases hsid
  | lists hnodup => exact .inr ⟨_, _, rfl, by rw [chosen, hphase]; exact hsid⟩
  | chooses => exact .inl (by rw [held, hphase]; exact hsid)
  | finishes now hturn => cases hsid
  | attempts hturn => exact .inl (held_turning (hphase ▸ hturn) ▸ hsid)
  | refuses now item hturn => exact .inl (held_turning (hphase ▸ hturn) ▸ hsid)
  | asks => exact .inl (by rw [held, hphase]; exact hsid)
  | answered => exact .inl (by rw [held, hphase]; exact hsid)
  | updates => exact .inl (by rw [held, hphase]; exact List.mem_cons_of_mem _ hsid)

theorem serves_registrations {label : SessionControl.Label} (h : serves s label = some served) :
    served.registrations = s.registrations ∨
      ∃ index call target rest results, label.index = some index ∧
        s.process.calls[index]? = some call ∧ call.phase = .updating target rest results ∧
        served.registrations = s.registrations.set target.sid target := by
  unfold serves at h
  split at h
  case h_1 index rows =>
    split at h
    case h_1 =>
      split at h
      · cases h
        exact .inl rfl
      · cases h
    case h_2 target rest results hphase =>
      cases h
      obtain ⟨call, hcall, hat⟩ := Option.map_eq_some_iff.mp hphase
      exact .inr ⟨index, call, target, rest, results, rfl, hcall, hat, rfl⟩
    case h_3 =>
      cases h
      exact .inl rfl
  case h_2 =>
    cases h
    exact .inl rfl

theorem mem_chosen (h : row ∈ chosen call rows) : call.phase = .listing ∧ row ∈ rows := by
  unfold chosen at h
  split at h
  case h_1 hphase => exact ⟨hphase, (targets_sublist _ _ _).subset h⟩
  case h_2 => cases h

theorem stored_of_serves (hserves : serves s (.registry index rows) = some served)
    (hcall : s.process.calls[index]? = some call) (hphase : call.phase = .listing) :
    Stored s rows := by
  have hat : (s.process.calls[index]?).map Call.phase = some .listing := by
    rw [hcall, Option.map_some, hphase]
  rw [serves, hat] at hserves
  dsimp only at hserves
  split at hserves
  case isTrue hstored => exact hstored
  case isFalse => cases hserves

theorem not_ended_of_stored (hstored : Stored s rows) (hrow : row ∈ rows)
    (hstate : row.state ≠ .revoked) : ¬ Ended s row.sid := by
  rintro ⟨registration, hget, hrevoked⟩
  rw [hstored row hrow] at hget
  cases hget
  exact hstate hrevoked

theorem not_held_of_updating {label : SessionControl.Label} {phase : SessionControl.Phase}
    (hphase : phase = .updating target rest results) (hdistinct : CallDistinct phase)
    (hgoes : Goes call label phase next) :
    target.sid ∉ held (call.to next) := by
  cases hgoes with
  | idles hidle =>
    have hnone : held (call.to next) = [] := held_idle hidle
    rw [hnone]
    exact List.not_mem_nil
  | updates =>
    cases hphase
    intro hmem
    have hboth := List.nodup_append.mp hdistinct.1
    exact hboth.2.2 _ hdistinct.2 _ hmem rfl
  | finishes now hturn =>
    rw [hphase] at hturn
    cases hturn
  | attempts hturn =>
    rw [hphase] at hturn
    cases hturn
  | refuses now item hturn =>
    rw [hphase] at hturn
    cases hturn
  | _ => cases hphase

theorem Steady.moves (h : Steady s) (hdistinct : Keeps Distinct CallDistinct PhaseDistinct t)
    {label : SessionControl.Label} (htakes : TakesFree s (.execute label))
    (hserves : serves s label = some served) (hrest : t = { served with process := t.process })
    (hmove : Move s.process t.process label index call next) :
    Steady t ∧ Lasts s t (.execute label) := by
  have hreconciliations : t.reconciliations = s.reconciliations := by
    rw [hrest]
    exact (serves_cases hserves).2
  have hregistrations : t.registrations = served.registrations := by rw [hrest]
  have hheld : ∀ sid, InHand t (.inl index) sid → sid ∈ held (call.to next) := by
    rintro sid ⟨found, hfound, hsid⟩
    rw [hmove.calls] at hfound
    rcases getElem?_set_cases hfound with ⟨-, rfl⟩ | ⟨hne, -⟩
    · exact hsid
    · exact absurd rfl hne
  have hothers : ∀ j sid, j ≠ .inl index → InHand t j sid → InHand s j sid := by
    rintro (j | j) sid hne ⟨found, hfound, hsid⟩
    · rw [hmove.calls] at hfound
      rcases getElem?_set_cases hfound with ⟨rfl, -⟩ | ⟨-, hold⟩
      · exact absurd rfl hne
      · exact ⟨found, hold, hsid⟩
    · exact ⟨found, hreconciliations ▸ hfound, hsid⟩
  refine h.hold hdistinct hothers ?_ ⟨?_⟩
  · intro sid hhand
    rcases held_goes rfl hmove.goes (hheld sid hhand) with hold | ⟨at', rows, rfl, hchosen⟩
    · exact .inl ⟨call, hmove.found, hold⟩
    · obtain ⟨row, hrow, rfl⟩ := List.mem_map.mp hchosen
      have hindex : at' = index := Option.some.inj hmove.ofLabel
      subst hindex
      obtain ⟨hstate, hfree⟩ := htakes call hmove.found row hrow
      obtain ⟨hphase, hlisted⟩ := mem_chosen hrow
      have hstored := stored_of_serves hserves hmove.found hphase
      exact .inr ⟨not_ended_of_stored hstored hlisted hstate, hfree.not_inHand⟩
  · rcases serves_registrations hserves with hsame | ⟨at', other, target, rest, results, hat, hother,
      hphase, hset⟩
    · exact .inl (hregistrations.trans hsame)
    · have hindex : at' = index := Option.some.inj (hat.symm.trans hmove.ofLabel)
      subst hindex
      have hcall : other = call := Option.some.inj (hother.symm.trans hmove.found)
      subst hcall
      have hfit := h.distinct.calls other (List.mem_of_getElem? hother)
      refine .inr ⟨target, ⟨other, hother, ?_⟩, fun _ hhand => ?_, hregistrations.trans hset⟩
      · rw [held, hphase]
        exact .head _
      · exact not_held_of_updating hphase hfit hmove.goes (hheld _ hhand)

theorem mem_of_taken_passed {rest : List SessionItemResult} (item : SessionItemResult)
    (h : sid ∈ taken rows (done ++ [item] ++ rest)) :
    sid ∈ item.sid :: taken rows (done ++ rest) := by
  obtain ⟨other, hother, hpending, hrow, rfl⟩ := mem_taken.mp h
  rw [List.append_assoc] at hother
  rcases List.mem_append.mp hother with hdone | hrest
  · exact .tail _ (mem_taken.mpr
      ⟨other, List.mem_append_left _ hdone, hpending, hrow, rfl⟩)
  · rcases List.mem_cons.mp hrest with rfl | hlater
    · exact .head _
    · exact .tail _ (mem_taken.mpr
        ⟨other, List.mem_append_right _ hlater, hpending, hrow, rfl⟩)

/-- A reconciliation takes up nothing but what the registry lists. -/
theorem held_turns {call : Reconciliation} {label : Label} {next : Phase}
    (hphase : call.phase = phase) (hfit : PhaseDistinct phase)
    (hturns : Turns (fun _ => True) label phase next) (hsid : sid ∈ next.held) :
    sid ∈ phase.held ∨ ∃ index rows, label = .list index rows ∧
      sid ∈ (reclaimed call rows).map SessionRegistration.sid := by
  cases hturns with
  | lists rows =>
    refine .inr ⟨_, rows, rfl, ?_⟩
    obtain ⟨item, hitem, hpending, hrow, rfl⟩ :=
      mem_taken.mp (held_atItem (nextItem_atItem _ rfl) sid hsid)
    obtain ⟨row, hrow⟩ := Option.isSome_iff_exists.mp hrow
    rw [reclaimed, hphase]
    refine List.mem_map.mpr ⟨row, List.mem_filterMap.mpr ⟨item, ?_, hrow⟩, sid_of_registrationOf hrow⟩
    exact List.mem_filter.mpr ⟨hitem, decide_eq_true hpending⟩
  | stays => exact .inl (mem_of_taken_passed _ (held_atItem (nextItem_atItem _ rfl) sid hsid))
  | answered now outcome =>
    refine .inl ?_
    rcases List.mem_cons.mp hsid with heq | htaken
    · have hsame : sid = _ := heq.trans hfit.2.1
      exact hsame ▸ (.head _)
    · rw [taken_setRow] at htaken
      exact mem_of_taken_passed (itemAfter _ outcome) htaken
  | updates =>
    exact .inl (.tail _ (held_atItem (nextItem_atItem _ rfl) sid hsid))
  | counts now =>
    refine .inl (taken_mono (fun item hitem _ => List.mem_append_left _ hitem) ?_)
    unfold count at hsid
    dsimp only at hsid
    split at hsid
    · exact held_atFailed (nextFailed_atFailed _ List.map_nil rfl) sid hsid
    · split at hsid
      · split at hsid
        all_goals cases hsid
      · cases hsid
  | fails now =>
    obtain ⟨-, -, hdone, -⟩ := hfit
    exact .inl (.tail _ (held_atFailed
      (nextFailed_atFailed _ (map_exhausted_of_not_pending hdone) rfl) sid hsid))
  | saves =>
    rw [held_nextOperation] at hsid
    cases hsid
  | throws => cases hsid

theorem not_held_of_written {label : Label} {next : Phase}
    (hwritten : phase.written = some registration) (hfit : PhaseDistinct phase)
    (hrevoked : registration.state = .revoked) (hturns : Turns (fun _ => True) label phase next) :
    registration.sid ∉ next.held := by
  cases hturns with
  | updates =>
    cases hwritten
    exact fun hheld => hfit.2.1 hrevoked (held_atItem (nextItem_atItem _ rfl) _ hheld)
  | fails now =>
    cases hwritten
    exact absurd hrevoked hfit.2.1
  | throws => exact List.not_mem_nil
  | _ => cases hwritten

theorem mem_reclaimed {call : Reconciliation} (h : row ∈ reclaimed call rows) : row ∈ rows := by
  unfold reclaimed at h
  split at h
  case h_1 operation others hphase =>
    obtain ⟨item, -, hrow⟩ := List.mem_filterMap.mp h
    exact List.mem_of_find?_eq_some hrow
  case h_2 => cases h

theorem mem_held_of_written (h : phase.written = some registration) :
    registration.sid ∈ phase.held := by
  cases phase with
  | updating task written =>
    cases h
    exact .head _
  | failing task written =>
    cases h
    exact .head _
  | _ => cases h

theorem Steady.advances (h : Steady s) (hdistinct : Keeps Distinct CallDistinct PhaseDistinct t)
    (htakes : TakesFree s label) {call : Reconciliation} {next : Phase}
    (hadvance : Advance (fun _ => True) s t label index call next) :
    Steady t ∧ Lasts s t label := by
  have hfit := h.distinct.reconciliations call (List.mem_of_getElem? hadvance.found)
  have hheld : ∀ sid, InHand t (.inr index) sid → sid ∈ next.held := by
    rintro sid ⟨found, hfound, hsid⟩
    rw [hadvance.reconciliations] at hfound
    rcases getElem?_set_cases hfound with ⟨-, rfl⟩ | ⟨hne, -⟩
    · exact hsid
    · exact absurd rfl hne
  have hothers : ∀ j sid, j ≠ .inr index → InHand t j sid → InHand s j sid := by
    rintro (j | j) sid hne ⟨found, hfound, hsid⟩
    · exact ⟨found, hadvance.calls ▸ hfound, hsid⟩
    · rw [hadvance.reconciliations] at hfound
      rcases getElem?_set_cases hfound with ⟨rfl, -⟩ | ⟨-, hold⟩
      · exact absurd rfl hne
      · exact ⟨found, hold, hsid⟩
  refine h.hold hdistinct hothers ?_ ⟨?_⟩
  · intro sid hhand
    rcases held_turns rfl hfit hadvance.turns (hheld sid hhand) with hold |
      ⟨at', rows, rfl, hreclaimed⟩
    · exact .inl ⟨call, hadvance.found, hold⟩
    · obtain ⟨row, hrow, rfl⟩ := List.mem_map.mp hreclaimed
      have hindex : at' = index := Option.some.inj hadvance.ofLabel
      subst hindex
      obtain ⟨hstate, hfree⟩ := htakes call hadvance.found row hrow
      have hstored := hadvance.stored rows rfl
      exact .inr ⟨not_ended_of_stored hstored (mem_reclaimed hrow) hstate, hfree.not_inHand⟩
  · rcases hadvance.registrations with hsame | ⟨registration, hwritten, hset⟩
    · exact .inl hsame
    · refine .inr ⟨registration, ⟨call, hadvance.found, ?_⟩, fun hrevoked hhand => ?_, hset⟩
      · exact mem_held_of_written hwritten
      · exact not_held_of_written hwritten hfit hrevoked hadvance.turns (hheld _ hhand)

theorem Steady.rests (h : Steady s) (hdistinct : Keeps Distinct CallDistinct PhaseDistinct t)
    (hhands : ∀ j sid, InHand t j sid → InHand s j sid) (hended : ∀ sid, Ended t sid → Ended s sid)
    (hlasts : Lasts s t label) : Steady t ∧ Lasts s t label :=
  ⟨⟨hdistinct, h.safe.step (.inl 0) (fun j sid _ => hhands j sid)
    (fun sid hhand => .inl (hhands _ sid hhand)) fun sid hnow => .inl (hended sid hnow)⟩, hlasts⟩

theorem Lasts.of_same (h : t.registrations = s.registrations) : Lasts s t label :=
  fun _ _ hget _ => .inl (h ▸ hget)

theorem Ended.of_same (h : t.registrations = s.registrations) (hended : Ended t sid) :
    Ended s sid := by
  obtain ⟨registration, hget, hrevoked⟩ := hended
  exact ⟨registration, h ▸ hget, hrevoked⟩

theorem Steady.step (h : Steady s) (htakes : TakesFree s label)
    (hstep : step validateUuid s label = some t) : Steady t ∧ Lasts s t label := by
  have hcounts : Counts (fun _ => True) s label := counts_of_forall (fun _ => trivial) label
  have hdistinct := h.distinct.step rules_distinct hcounts hstep
  cases does_step hcounts hstep with
  | executes served hserves hprocess hrest =>
    rcases step_cases hprocess with ⟨call, hindex, hidle, hcalls, -⟩ | ⟨index, call, next, hmove⟩
    · have hsame : t.registrations = s.registrations := by
        rcases serves_registrations hserves with hsame | ⟨index, -, -, -, -, hat, -⟩
        · rw [hrest]
          exact hsame
        · rw [hindex] at hat
          cases hat
      refine h.rests hdistinct ?_ (fun sid => Ended.of_same hsame) (Lasts.of_same hsame)
      rintro (j | j) sid ⟨found, hfound, hsid⟩
      · rw [hcalls] at hfound
        rcases getElem?_concat_cases hfound with ⟨-, rfl⟩ | ⟨-, hold⟩
        · rw [held_idle hidle] at hsid
          cases hsid
        · exact ⟨found, hold, hsid⟩
      · rw [hrest] at hfound
        exact ⟨found, (serves_cases hserves).2 ▸ hfound, hsid⟩
    · exact h.moves hdistinct htakes hserves hrest hmove
  | begins hprocess hsame hcalls =>
    refine h.rests hdistinct ?_ (fun sid => Ended.of_same hsame) (Lasts.of_same hsame)
    rintro (j | j) sid ⟨found, hfound, hsid⟩
    · exact ⟨found, hprocess ▸ hfound, hsid⟩
    · rw [hcalls] at hfound
      rcases getElem?_concat_cases hfound with ⟨-, rfl⟩ | ⟨-, hold⟩
      · cases hsid
      · exact ⟨found, hold, hsid⟩
  | claims call hclaim =>
    refine h.rests hdistinct ?_ (fun sid => Ended.of_same hclaim.registrations)
      (Lasts.of_same hclaim.registrations)
    rintro (j | j) sid ⟨found, hfound, hsid⟩
    · exact ⟨found, hclaim.calls ▸ hfound, hsid⟩
    · rw [hclaim.reconciliations] at hfound
      rcases getElem?_set_cases hfound with ⟨-, rfl⟩ | ⟨-, hold⟩
      · rw [held_nextOperation] at hsid
        cases hsid
      · exact ⟨found, hold, hsid⟩
  | advances index call next hadvance => exact h.advances hdistinct htakes hadvance
  | changes hprocess hcalls hnew hold =>
    refine h.rests hdistinct ?_ ?_ fun sid registration hget _ => hold sid registration hget
    · rintro (j | j) sid ⟨found, hfound, hsid⟩
      · exact ⟨found, hprocess ▸ hfound, hsid⟩
      · exact ⟨found, hcalls ▸ hfound, hsid⟩
    · rintro sid ⟨registration, hget, hrevoked⟩
      rcases hnew sid registration hget with hbefore | hactive
      · exact ⟨registration, hbefore, hrevoked⟩
      · rw [hactive] at hrevoked
        cases hrevoked

theorem Steady.start (registrations : OrderedMap String SessionRegistration) :
    Steady (start registrations) where
  distinct := keeps_start registrations
  safe := by
    refine ⟨?_, ?_⟩
    · rintro (i | i) sid ⟨call, hcall, -⟩
      all_goals cases hcall
    · rintro (i | i) j sid ⟨call, hcall, -⟩
      all_goals cases hcall

/-- A session has been removed in a run. -/
def Removed (validateUuid : String → Bool) (s : System) (labels : List Label) (sid : String) : Prop :=
  ∃ done label rest m, labels = done ++ label :: rest ∧ label.removes = true ∧
    run (step validateUuid) s (done ++ [label]) = some m ∧ m.registrations.get? sid = none

theorem Steady.run {labels : List Label} {since : Option Nat} (h : Steady s)
    (hmeets : RunMeets (SessionReconcile.step validateUuid) TakesFree s labels)
    (hrun : TransitionRuns.run (SessionReconcile.step validateUuid) s labels = some t)
    (hrevoked : Revoked s sid since) : Revoked t sid since ∨ Removed validateUuid s labels sid := by
  induction labels generalizing s with
  | nil =>
    cases hrun
    exact .inl hrevoked
  | cons label rest ih =>
    obtain ⟨m, hm, hrest⟩ := run_cons_eq_some.mp hrun
    rw [RunMeets, hm] at hmeets
    obtain ⟨hnext, hlasts⟩ := h.step hmeets.1 hm
    obtain ⟨registration, hget, hstate, hsince⟩ := hrevoked
    rcases hlasts sid registration hget hstate with hkept | ⟨hremoves, hgone⟩
    · rcases ih hnext hmeets.2 hrest ⟨registration, hkept, hstate, hsince⟩ with hstays | hremoved
      · exact .inl hstays
      · obtain ⟨done, later, tail, gone, rfl, hremoves, hgone, hnone⟩ := hremoved
        refine .inr ⟨label :: done, later, tail, gone, rfl, hremoves, ?_, hnone⟩
        exact run_cons_eq_some.mpr ⟨m, hm, hgone⟩
    · exact .inr ⟨[], label, rest, m, rfl, hremoves, run_cons_eq_some.mpr ⟨m, hm, rfl⟩, hgone⟩

/-- While each operation takes up only sessions that are not revoked and that no operation has in
hand, a revoked session stays so, since the same instant, unless it is removed. -/
theorem revoked_stays (validateUuid : String → Bool)
    (registrations : OrderedMap String SessionRegistration) (before after : List Label) (s t : System)
    (sid : String) (since : Option Nat)
    (hbefore : run (step validateUuid) (start registrations) before = some s)
    (hafter : run (step validateUuid) s after = some t)
    (hmeets : RunMeets (step validateUuid) TakesFree (start registrations) (before ++ after))
    (hrevoked : Revoked s sid since) :
    Revoked t sid since ∨ Removed validateUuid s after sid := by
  obtain ⟨hfirst, hthen⟩ := (runMeets_append hbefore).mp hmeets
  have hsteady : Steady s := run_invariant_of_meets
    (fun _ _ _ hs htakes hstep => (hs.step htakes hstep).1) (Steady.start registrations) hfirst hbefore
  exact hsteady.run hthen hafter hrevoked

/-- A call, from the answer of its lookup to its end, of a registry that lists some rows. -/
def executed (index : Nat) (rows : List SessionRegistration) (given : Option ProviderRevocationResult) :
    List Label :=
  let asks : List SessionControl.Label := [.registry index [], .continue_ index 2,
    .registry index rows, .continue_ index 2, .continue_ index 2, .continue_ index 2,
    .answer index 2 given]
  (asks ++ ends index).map .execute

def logoutConfirmed : List Label := .execute logout :: executed 0 [ownSession] (some confirmed)

def revokedSession : SessionRegistration := afterAnswer ownSession confirmed 2

/-- A second logout, under another operation. -/
def logoutAgain : List Label :=
  .execute (.execute ⟨"actor", "actor", "tenant", "s1", [.self]⟩
    ⟨.logoutCurrent, "00000000-0000-4000-8000-000000000022", none, none, none⟩ "hash") ::
    executed 1 [revokedSession] none

/-- The second logout takes up the revoked session while the provider is out. -/
theorem revoked_lost : ∃ s t,
    run (step fun _ => true) (start ownRegistry) logoutConfirmed = some s ∧
    run (step fun _ => true) s logoutAgain = some t ∧ Revoked s "s1" (some 2) ∧
    ¬ (Revoked t "s1" (some 2) ∨ Removed (fun _ => true) s logoutAgain "s1") := by
  refine ⟨_, _, rfl, rfl, ⟨revokedSession, rfl, rfl, rfl⟩, ?_⟩
  rintro (⟨registration, hget, hstate, -⟩ | ⟨done, label, rest, m, hlabels, hremoves, -⟩)
  · cases hget
    cases hstate
  · have hnone : ∀ label ∈ logoutAgain, label.removes = false := by decide
    have hmem : label ∈ logoutAgain := by
      rw [hlabels]
      exact List.mem_append_right _ (.head _)
    rw [hnone label hmem] at hremoves
    cases hremoves

/-- Another session of the subject. -/
def otherSession : SessionRegistration := { ownSession with sid := "s2" }

/-- A request to revoke all other sessions, from a third one. -/
def revokeOthers : List Label :=
  .execute (.execute ⟨"actor", "actor", "tenant", "s3", [.self]⟩
    ⟨.revokeOthers, "00000000-0000-4000-8000-000000000022", none, none, none⟩ "hash") ::
    executed 1 [revokedSession, otherSession] none

/-- The request takes up only the session that is active. -/
theorem revoked_stays_run : ∃ s t,
    run (step fun _ => true) (start (ownRegistry.set "s2" otherSession)) logoutConfirmed = some s ∧
    run (step fun _ => true) s revokeOthers = some t ∧
    (Revoked t "s1" (some 2) ∨ Removed (fun _ => true) s revokeOthers "s1") :=
  ⟨_, _, rfl, rfl, revoked_stays (fun _ => true) (ownRegistry.set "s2" otherSession) logoutConfirmed
    revokeOthers _ _ "s1" (some 2) rfl rfl (by decide) ⟨revokedSession, rfl, rfl, rfl⟩⟩

end Stynx.SessionReconcile
