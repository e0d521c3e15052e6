import Stynx.TransitionRuns
import Stynx.TransactionalCommand

/-!
# One committed outcome per key

A transaction that has reserved the key holds the lock of the row until it
ends, and it reserved only over a free or expired row.
-/

namespace Stynx.TransactionalCommandRuns

open TransactionalCommand TransitionRuns OrderedMap

/-- Only allowed names, in lower case. -/
def AllAllowed (headers : Headers) : Prop :=
  ∀ name value, headers.get? name = some value → name ∈ allowedHeaders

variable {headers : Headers} {s s' t : System} {id now : Nat} {request : Request} {row : CommandRow}
  {settled : Settled} {options : CommandOptions} {a : Label} {waiting : Prop}

variable {name : String} {phase : Phase} {identity : Identity} {auditMetadata : Bool} {q : Request}

theorem AllAllowed.set (h : AllAllowed headers) (hname : name ∈ allowedHeaders) (value : String) :
    AllAllowed (headers.set name value) := by
  intro name' value' hget
  rcases get?_set_eq_some.mp hget with ⟨rfl, -⟩ | ⟨-, hold⟩
  · exact hname
  · exact h name' value' hold

theorem allAllowed_empty : AllAllowed OrderedMap.empty := by
  intro name value hget
  cases hget

theorem allAllowed_filterHeaders (headers : Headers) : AllAllowed (filterHeaders headers) := by
  unfold filterHeaders
  refine List.foldlRecOn headers.entries _ allAllowed_empty ?_
  intro result hresult p _
  split
  · rename_i hallowed
    exact hresult.set (List.contains_iff_mem.mp hallowed) p.2
  · exact hresult

theorem allAllowed_captureHeaders (headers : OrderedMap String (Option String)) :
    AllAllowed (captureHeaders headers) := by
  unfold captureHeaders
  refine List.foldlRecOn allowedHeaders _ allAllowed_empty ?_
  intro selected hselected name hname
  split
  · rename_i value _
    exact hselected.set hname value
  · exact hselected

theorem toLower_of_mem_allowedHeaders (h : name ∈ allowedHeaders) : name.toLower = name := by
  simp only [allowedHeaders, List.mem_cons, List.not_mem_nil, or_false] at h
  rcases h with rfl | rfl | rfl | rfl <;> decide +kernel

theorem AllAllowed.filterHeaders_eq (h : AllAllowed headers) : filterHeaders headers = headers := by
  have hfold : filterHeaders headers =
      headers.entries.foldl (fun result p => result.set p.1 p.2) OrderedMap.empty := by
    unfold filterHeaders
    refine List.foldl_ext _ _ _ ?_
    intro result p hp
    have hname := h p.1 p.2 (mem_entries_iff.mp hp)
    rw [toLower_of_mem_allowedHeaders hname, if_pos (List.contains_iff_mem.mpr hname)]
  rw [hfold, OrderedMap.foldl_set_entries]

/-- When the transaction of a request reserved the key, if it has. -/
def drafting : Phase → Option Nat
  | .handler _ reservedAt | .audit _ reservedAt _ | .store _ reservedAt _ => some reservedAt
  | .commit (some writes) _ => some writes.reservedAt
  | _ => none

/-- A completed row with a response that filtering leaves alone. -/
def RowOk (row : CommandRow) : Prop :=
  row.status = .completed ∧ ∃ statusCode headers, row.responseStatus = some statusCode ∧
    row.responseHeaders = some headers ∧ filterHeaders headers = headers

def PhaseOk (identity : Identity) : Phase → Prop
  | .handler row reservedAt => row = reservedRow identity reservedAt
  | .audit row reservedAt settled | .store row reservedAt settled =>
    row = reservedRow identity reservedAt ∧ filterHeaders settled.headers = settled.headers
  | .commit (some writes) _ => ∀ row, writes.row = some row → RowOk row
  | _ => True

/-- A reservation at this instant found the key free, and every earlier lifetime over. -/
def FreeAt (s : System) (reservedAt : Nat) : Prop :=
  reservedAt ≤ s.now ∧ (∀ row, s.committed = some row → row.expiresAt ≤ reservedAt) ∧
    ∀ x ∈ s.effects, x.selected = true → x.expiresAt ≤ reservedAt

/-- What holds between steps. -/
structure Invariant (s : System) : Prop where
  row : ∀ row, s.committed = some row → RowOk row
  /-- What the phases carry is true. -/
  phase : ∀ i q, s.requests.get? i = some q → PhaseOk q.identity q.phase
  /-- A transaction past its reservation holds the lock. -/
  locked : ∀ i q reservedAt, s.requests.get? i = some q → drafting q.phase = some reservedAt →
    s.lock = some i ∧ FreeAt s reservedAt
  /-- A stored outcome is the committed row, until its lifetime is over. -/
  lives : ∀ x ∈ s.effects, x.selected = true → x.expiresAt ≤ s.now ∨
    ∃ row, s.committed = some row ∧ row.expiresAt = x.expiresAt
  /-- A handler run that commits reserved the key after every earlier stored lifetime. -/
  ordered : s.effects.Pairwise fun x y => x.selected = true → x.expiresAt ≤ y.reservedAt

theorem invariant_start : Invariant System.start where
  row := by simp [System.start]
  phase := by simp [System.start]
  locked := by simp [System.start]
  lives := by simp [System.start]
  ordered := by simp [System.start]

theorem Invariant.moved (hs : Invariant s) (lock : Option Nat)
    (hphase : PhaseOk request.identity phase)
    (hdraft : ∀ reservedAt, drafting phase = some reservedAt → lock = some id ∧ FreeAt s reservedAt)
    (hlock : ∀ i, i ≠ id → s.lock = some i → lock = some i) :
    Invariant { s.move id request phase with lock := lock } where
  row := hs.row
  phase i q hq := by
    rcases get?_set_eq_some.mp hq with ⟨rfl, rfl⟩ | ⟨-, hq'⟩
    · exact hphase
    · exact hs.phase i q hq'
  locked i q reservedAt hq hdrafting := by
    rcases get?_set_eq_some.mp hq with ⟨rfl, rfl⟩ | ⟨hne, hq'⟩
    · exact hdraft reservedAt hdrafting
    · obtain ⟨hholds, hfree⟩ := hs.locked i q reservedAt hq' hdrafting
      exact ⟨hlock i (fun h => hne h.symm) hholds, hfree⟩
  lives := hs.lives
  ordered := hs.ordered

theorem Invariant.rollback (hs : Invariant s) (id : Nat) (request : Request) (answer : Answer) :
    Invariant (s.rollback id request answer) := by
  refine hs.moved (s.unlocked id) trivial ?_ ?_
  · intro reservedAt h
    cases h
  · intro i hi hholds
    rw [System.unlocked, if_neg, hholds]
    intro h
    rw [hholds] at h
    exact hi (Option.some.inj h)

theorem Invariant.kept (hs : Invariant s) (hrequest : s.requests.get? id = some request)
    (hphase : PhaseOk request.identity phase) (hdraft : drafting phase = drafting request.phase) :
    Invariant (s.move id request phase) := by
  refine hs.moved s.lock hphase ?_ (fun _ _ h => h)
  intro reservedAt h
  exact hs.locked id request reservedAt hrequest (hdraft.symm.trans h)

theorem Invariant.replaying (hs : Invariant s) (hrequest : s.requests.get? id = some request)
    (hdraft : drafting request.phase = none) (existing : CommandRow) :
    Invariant (s.replaying id request existing) := by
  unfold System.replaying
  split
  · exact hs.kept hrequest trivial hdraft.symm
  · exact hs.rollback id request _

theorem reserve_some {committed : Option CommandRow} (h : reserve committed identity now = some row) :
    row = reservedRow identity now ∧ ∀ old, committed = some old → old.expiresAt ≤ now := by
  unfold reserve at h
  split at h
  · cases h
    exact ⟨rfl, fun old hold => by cases hold⟩
  · rename_i old
    split at h
    · rename_i hexpired
      cases h
      refine ⟨rfl, ?_⟩
      intro old' hold
      cases hold
      exact hexpired
    · cases h

theorem complete_some {completed : CommandRow}
    (hheaders : filterHeaders settled.headers = settled.headers)
    (h : complete row identity settled = some completed) : RowOk completed := by
  unfold complete at h
  split at h
  · cases h
    exact ⟨rfl, settled.statusCode, settled.headers, rfl, rfl, hheaders⟩
  · cases h

theorem clear_reservedRow (identity : Identity) (reservedAt : Nat) :
    clear (reservedRow identity reservedAt) identity = none := by
  rw [clear, if_pos ⟨rfl, rfl⟩]

theorem statement_invariant (hs : Invariant s) (hrequest : s.requests.get? id = some request)
    (h : statement s id request = some s') :
    Invariant s' := by
  have hphase := hs.phase id request hrequest
  unfold statement at h
  split at h
  · rename_i hp
    have hdraft : drafting request.phase = none := by rw [hp]; rfl
    split at h
    · cases h
      exact hs.replaying hrequest hdraft _
    · cases h
      exact hs.kept hrequest trivial hdraft.symm
  · rename_i hp
    split at h
    · rename_i hfree
      have hothers : ∀ i, i ≠ id → s.lock = some i → some id = some i := by
        intro i _ hholds
        rw [hfree] at hholds
        cases hholds
      dsimp only at h
      split at h
      · rename_i row hreserve
        cases h
        obtain ⟨hrow, hexpired⟩ := reserve_some hreserve
        refine hs.moved (some id) hrow ?_ hothers
        intro reservedAt hdrafting
        cases hdrafting
        refine ⟨rfl, le_refl _, hexpired, ?_⟩
        intro x hx hselected
        rcases hs.lives x hx hselected with hover | ⟨old, hold, hsame⟩
        · exact hover
        · rw [← hsame]
          exact hexpired old hold
      · cases h
        refine hs.moved (some id) trivial ?_ hothers
        intro reservedAt hdrafting
        cases hdrafting
    · cases h
  · rename_i hp
    have hdraft : drafting request.phase = none := by rw [hp]; rfl
    split at h
    · cases h
      exact hs.replaying hrequest hdraft _
    · cases h
      exact hs.rollback id request _
  · rename_i row reservedAt settled hp
    rw [hp] at hphase
    cases h
    exact hs.kept hrequest hphase (by rw [hp]; rfl)
  · rename_i row reservedAt settled hp
    rw [hp] at hphase
    split at h
    · split at h
      · rename_i completed hcomplete
        cases h
        refine hs.kept hrequest ?_ (by rw [hp]; rfl)
        intro stored hstored
        cases hstored
        exact complete_some hphase.2 hcomplete
      · cases h
        exact hs.rollback id request _
    · cases h
      refine hs.kept hrequest ?_ (by rw [hp]; rfl)
      intro stored hstored
      rw [hphase.1, clear_reservedRow] at hstored
      cases hstored
  · cases h

theorem settle_headers {statusCode : Option Int} {payload : Payload} {error : Bool}
    (h : settle options statusCode payload headers error auditMetadata = .ok settled) :
    settled.headers = headers := by
  unfold settle at h
  split at h
  · cases h
  · split at h
    · cases h
    · split at h
      · cases h
      · split at h
        · cases h
        · split at h
          · cases h
          · split at h
            · cases h
              rfl
            · cases h

theorem runHandler_headers {result : HandlerResult}
    (h : runHandler options result auditMetadata = .ok settled) :
    filterHeaders settled.headers = settled.headers := by
  unfold runHandler at h
  split at h
  · cases h
  · rename_i payload statusCode responseHeaders
    rw [settle_headers h]
    exact (allAllowed_captureHeaders responseHeaders).filterHeaders_eq
  · rename_i statusCode body headers
    rw [settle_headers h]
    exact (allAllowed_filterHeaders headers).filterHeaders_eq

theorem Invariant.committed (hs : Invariant s) (hrequest : s.requests.get? id = some request)
    {writes : Writes} {answer : Answer} (hphase : request.phase = .commit (some writes) answer)
    (told : Answer) :
    Invariant (s.committing id request (some writes) told) := by
  have hok := hs.phase id request hrequest
  rw [hphase] at hok
  obtain ⟨hholds, hnow, hexpired, hover⟩ := hs.locked id request writes.reservedAt hrequest
    (by rw [hphase]; rfl)
  have hended := hs.rollback id request told
  refine ⟨hok, hended.phase, ?_, ?_, ?_⟩
  · intro i q reservedAt hq hdrafting
    obtain ⟨hlock, -⟩ := hended.locked i q reservedAt hq hdrafting
    exfalso
    have hfree : (s.rollback id request told).lock = none := by
      change s.unlocked id = none
      rw [System.unlocked, if_pos hholds]
    change (s.rollback id request told).lock = some i at hlock
    rw [hfree] at hlock
    cases hlock
  · intro x hx hselected
    rcases List.mem_append.mp hx with hold | hnew
    · exact .inl (le_trans (hover x hold hselected) hnow)
    · rw [List.mem_singleton] at hnew
      subst hnew
      obtain ⟨row, hrow⟩ := Option.isSome_iff_exists.mp hselected
      refine .inr ⟨row, hrow, ?_⟩
      simp [effectOf, hrow]
  · refine List.pairwise_append.mpr ⟨hs.ordered, List.pairwise_singleton _ _, ?_⟩
    intro x hx y hy hselected
    rw [List.mem_singleton] at hy
    subst hy
    exact hover x hx hselected

theorem resume_invariant (hs : Invariant s) (hrequest : s.requests.get? id = some request)
    (h : resume options s id request a = some s') : Invariant s' := by
  cases a with
  | tick now => cases h
  | arrive id' identity => cases h
  | statement id' => exact statement_invariant hs hrequest h
  | lockTimeout id' =>
    simp only [resume] at h
    split at h
    · split at h
      · cases h
      · cases h
        exact hs.rollback id request _
    · cases h
  | handled id' result auditMetadata =>
    simp only [resume] at h
    split at h
    · rename_i row reservedAt hp
      have hphase := hs.phase id request hrequest
      rw [hp] at hphase
      split at h
      · rename_i settled hsettled
        cases h
        exact hs.kept hrequest ⟨hphase, runHandler_headers hsettled⟩ (by rw [hp]; rfl)
      · cases h
        exact hs.rollback id request _
    · cases h
  | commit id' acknowledged =>
    simp only [resume] at h
    split at h
    · rename_i writes answer hp
      cases h
      cases writes with
      | none => exact hs.rollback id request _
      | some writes => exact hs.committed hrequest hp _
    · cases h
  | fail id' =>
    simp only [resume] at h
    split at h
    · cases h
    · cases h
      exact hs.rollback id request _

theorem step_cases (h : step options s a = some s') :
    (∃ now, a = .tick now ∧ s.now ≤ now ∧ s' = { s with now := now }) ∨
    (∃ id identity, a = .arrive id identity ∧ s.requests.get? id = none ∧
      s' = { s with requests := s.requests.set id ⟨identity, .lookup⟩ }) ∨
    ∃ id request, a.request = some id ∧ s.requests.get? id = some request ∧
      resume options s id request a = some s' := by
  unfold step at h
  split at h
  · rename_i now
    split at h
    · rename_i hle
      cases h
      exact .inl ⟨now, rfl, hle, rfl⟩
    · cases h
  · rename_i id identity
    split at h
    · cases h
    · rename_i hhas
      cases h
      exact .inr (.inl ⟨id, identity, rfl,
        get?_eq_none_of_not_has (Bool.eq_false_iff.mpr hhas), rfl⟩)
  · split at h
    · cases h
    · rename_i id hid
      split at h
      · cases h
      · rename_i request hrequest
        exact .inr (.inr ⟨id, request, hid, hrequest, h⟩)

theorem Invariant.tick (hs : Invariant s) (h : s.now ≤ now) : Invariant { s with now := now } where
  row := hs.row
  phase := hs.phase
  locked i q reservedAt hq hdrafting := by
    obtain ⟨hholds, hle, hexpired, hover⟩ := hs.locked i q reservedAt hq hdrafting
    exact ⟨hholds, le_trans hle h, hexpired, hover⟩
  lives x hx hselected := by
    rcases hs.lives x hx hselected with hover | hrow
    · exact .inl (le_trans hover h)
    · exact .inr hrow
  ordered := hs.ordered

theorem step_invariant (options : CommandOptions) (s : System) (a : Label) (s' : System)
    (hs : Invariant s) (h : step options s a = some s') : Invariant s' := by
  rcases step_cases h with ⟨now, -, hle, rfl⟩ | ⟨id, identity, -, -, rfl⟩ |
    ⟨id, request, -, hrequest, hresume⟩
  · exact hs.tick hle
  · have harrived : Invariant { s.move id ⟨identity, .lookup⟩ .lookup with lock := s.lock } :=
      hs.moved s.lock trivial (fun _ hdrafting => by cases hdrafting) (fun _ _ h => h)
    exact harrived
  · exact resume_invariant hs hrequest hresume

/-- A step inside a transaction changes the request and the lock only. -/
def Inside (s : System) (id : Nat) (request : Request) (s' : System) : Prop :=
  ∃ phase lock, s' = { s.move id request phase with lock := lock }

section

variable (s : System) (id : Nat) (request : Request)

theorem inside_move (phase : Phase) : Inside s id request (s.move id request phase) :=
  ⟨phase, s.lock, rfl⟩

theorem inside_rollback (answer : Answer) : Inside s id request (s.rollback id request answer) :=
  ⟨.done answer, s.unlocked id, rfl⟩

theorem inside_replaying (existing : CommandRow) :
    Inside s id request (s.replaying id request existing) := by
  unfold System.replaying
  split
  · exact inside_move s id request _
  · exact inside_rollback s id request _

end

theorem statement_inside (h : statement s id request = some s') : Inside s id request s' := by
  unfold statement at h
  split at h
  · split at h
    · cases h
      exact inside_replaying s id request _
    · cases h
      exact inside_move s id request _
  · split at h
    · dsimp only at h
      split at h
      · cases h
        exact ⟨_, some id, rfl⟩
      · cases h
        exact ⟨_, some id, rfl⟩
    · cases h
  · split at h
    · cases h
      exact inside_replaying s id request _
    · cases h
      exact inside_rollback s id request _
  · cases h
    exact inside_move s id request _
  · split at h
    · split at h
      · cases h
        exact inside_move s id request _
      · cases h
        exact inside_rollback s id request _
    · cases h
      exact inside_move s id request _
  · cases h

theorem resume_cases (h : resume options s id request a = some s') :
    Inside s id request s' ∨ ∃ writes answer told, request.phase = .commit (some writes) answer ∧
      s' = s.committing id request (some writes) told := by
  cases a with
  | tick now => cases h
  | arrive id' identity => cases h
  | statement id' => exact .inl (statement_inside h)
  | lockTimeout id' =>
    simp only [resume] at h
    split at h
    · split at h
      · cases h
      · cases h
        exact .inl (inside_rollback s id request _)
    · cases h
  | handled id' result auditMetadata =>
    simp only [resume] at h
    split at h
    · split at h
      · cases h
        exact .inl (inside_move s id request _)
      · cases h
        exact .inl (inside_rollback s id request _)
    · cases h
  | commit id' acknowledged =>
    simp only [resume] at h
    split at h
    · rename_i writes answer hp
      cases h
      cases writes with
      | none => exact .inl (inside_rollback s id request _)
      | some writes => exact .inr ⟨writes, answer, _, hp, rfl⟩
    · cases h
  | fail id' =>
    simp only [resume] at h
    split at h
    · cases h
    · cases h
      exact .inl (inside_rollback s id request _)

/-- A stored response stays, and no handler run commits, while its lifetime lasts. -/
def Outlives (s t : System) : Prop :=
  s.now ≤ t.now ∧ ∀ row, s.committed = some row → t.now < row.expiresAt →
    t.committed = some row ∧ t.effects = s.effects

theorem Outlives.refl (s : System) : Outlives s s :=
  ⟨le_refl _, fun _ hrow _ => ⟨hrow, rfl⟩⟩

theorem Outlives.trans {m : System} (h : Outlives s m) (h' : Outlives m t) : Outlives s t := by
  refine ⟨le_trans h.1 h'.1, ?_⟩
  intro row hrow hlive
  obtain ⟨hm, heffects⟩ := h.2 row hrow (lt_of_le_of_lt h'.1 hlive)
  obtain ⟨ht, heffects'⟩ := h'.2 row hm hlive
  exact ⟨ht, heffects'.trans heffects⟩

theorem Outlives.of_same (hnow : s.now ≤ t.now) (hrow : t.committed = s.committed)
    (heffects : t.effects = s.effects) : Outlives s t :=
  ⟨hnow, fun _ h _ => ⟨hrow.trans h, heffects⟩⟩

theorem Invariant.not_drafting (hs : Invariant s) (hrow : s.committed = some row)
    (hlive : s.now < row.expiresAt) (hrequest : s.requests.get? id = some request) :
    drafting request.phase = none := by
  cases hdrafting : drafting request.phase with
  | none => rfl
  | some reservedAt =>
    obtain ⟨-, hnow, hexpired, -⟩ := hs.locked id request reservedAt hrequest hdrafting
    have hover := hexpired row hrow
    omega

theorem step_outlives (options : CommandOptions) (s : System) (a : Label) (s' : System)
    (hs : Invariant s) (h : step options s a = some s') : Outlives s s' := by
  rcases step_cases h with ⟨now, -, hle, rfl⟩ | ⟨id, identity, -, -, rfl⟩ |
    ⟨id, request, -, hrequest, hresume⟩
  · exact .of_same hle rfl rfl
  · exact .of_same (le_refl _) rfl rfl
  · rcases resume_cases hresume with ⟨phase, lock, rfl⟩ | ⟨writes, answer, told, hp, rfl⟩
    · exact .of_same (le_refl _) rfl rfl
    · refine ⟨le_refl _, ?_⟩
      intro row hrow hlive
      have hnone := hs.not_drafting hrow hlive hrequest
      rw [hp] at hnone
      cases hnone

theorem resume_other (h : resume options s id request a = some s') {i : Nat} (hi : id ≠ i) :
    s'.requests.get? i = s.requests.get? i := by
  rcases resume_cases h with ⟨phase, lock, rfl⟩ | ⟨writes, answer, told, -, rfl⟩
  · exact get?_set_of_ne _ _ hi
  · exact get?_set_of_ne _ _ hi

/-- The answer the stored response gives a request: itself, or a refusal of another request. -/
def Exact (row : CommandRow) (identity : Identity) (answer : Answer) : Prop :=
  if identity.fingerprint = row.fingerprint then
    ∃ statusCode headers, row.responseStatus = some statusCode ∧
      row.responseHeaders = some headers ∧
      answer = .replayed statusCode row.responseBytes headers
  else answer = .mismatch

/-- What a request has been told, or is about to be told, from the response that is stored. -/
def Told (row : CommandRow) (waiting : Prop) (request : Request) : Prop :=
  match request.phase with
  | .lookup => True
  | .reserve | .lookupWinner => waiting
  | .commit none answer | .done answer => Exact row request.identity answer
  | _ => False

theorem told_replaying (hrow : RowOk row)
    (hq : (s.replaying id request row).requests.get? id = some q) : Told row waiting q := by
  obtain ⟨hstatus, statusCode, headers, hcode, hheaders, hfiltered⟩ := hrow
  unfold System.replaying replay at hq
  by_cases hfingerprint : row.fingerprint = request.identity.fingerprint
  · rw [if_neg (not_not.mpr hfingerprint)] at hq
    simp only [hstatus, hcode] at hq
    cases (get?_set_self _ _ _).symm.trans hq
    change Exact row request.identity _
    rw [Exact, if_pos hfingerprint.symm]
    refine ⟨statusCode, headers, hcode, hheaders, ?_⟩
    rw [hheaders, Option.getD_some, hfiltered]
  · rw [if_pos hfingerprint] at hq
    cases (get?_set_self _ _ _).symm.trans hq
    change Exact row request.identity _
    rw [Exact, if_neg fun h => hfingerprint h.symm]

theorem lookup_live (h : now < row.expiresAt) : lookup (some row) now = some row := by
  simp [TransactionalCommand.lookup, h]

/-- A failing transaction, a lost acknowledgement of a commit, a lock timeout. -/
def Disturbs (id : Nat) (waiting : Prop) (a : Label) : Prop :=
  a = .fail id ∨ a = .commit id false ∨ waiting ∧ a = .lockTimeout id

/-- A step of a request that is not disturbed tells it the stored response or nothing yet. -/
theorem resume_told (ha : a.request = some id) (hresume : resume options s id request a = some s')
    (hok : RowOk row) (hrow : s.committed = some row) (hlive : s.now < row.expiresAt)
    (hquiet : ¬ Disturbs id waiting a) (htold : Told row waiting request)
    (hq : s'.requests.get? id = some q) : Told row waiting q := by
  cases a with
  | tick now => cases hresume
  | arrive id' identity => cases hresume
  | statement id' =>
    simp only [resume, statement, hrow, lookup_live hlive] at hresume
    split at hresume
    · cases hresume
      exact told_replaying hok hq
    · rename_i hp
      simp only [Told, hp] at htold
      split at hresume
      · have htaken : reserve (some row) request.identity s.now = none := by
          rw [TransactionalCommand.reserve, if_neg (not_le.mpr hlive)]
        rw [htaken] at hresume
        cases hresume
        cases (get?_set_self _ _ _).symm.trans hq
        exact htold
      · cases hresume
    · cases hresume
      exact told_replaying hok hq
    · rename_i hp
      simp only [Told, hp] at htold
    · rename_i hp
      simp only [Told, hp] at htold
    · cases hresume
  | lockTimeout id' =>
    cases ha
    simp only [resume] at hresume
    split at hresume
    · rename_i hp
      simp only [Told, hp] at htold
      exact absurd (.inr (.inr ⟨htold, rfl⟩)) hquiet
    · cases hresume
  | handled id' result auditMetadata =>
    simp only [resume] at hresume
    split at hresume
    · rename_i hp
      simp only [Told, hp] at htold
    · cases hresume
  | commit id' acknowledged =>
    cases ha
    simp only [resume] at hresume
    split at hresume
    · rename_i writes answer hp
      cases acknowledged with
      | false => exact absurd (.inr (.inl rfl)) hquiet
      | true =>
        cases writes with
        | some writes => simp only [Told, hp] at htold
        | none =>
          simp only [Told, hp] at htold
          cases hresume
          cases (get?_set_self _ _ _).symm.trans hq
          exact htold
    · cases hresume
  | fail id' =>
    cases ha
    exact absurd (.inl rfl) hquiet

/-- A request on its way while a stored response lives. -/
def Serving (row : CommandRow) (id : Nat) (waiting : Prop) (s : System) : Prop :=
  Invariant s ∧ (s.now < row.expiresAt → s.committed = some row ∧
    ∀ q, s.requests.get? id = some q → Told row waiting q)

theorem step_serving (s : System) (a : Label) (s' : System) (hs : Serving row id waiting s)
    (hquiet : ¬ Disturbs id waiting a) (h : step options s a = some s') :
    Serving row id waiting s' := by
  refine ⟨step_invariant options s a s' hs.1 h, ?_⟩
  intro hlive'
  have houtlives := step_outlives options s a s' hs.1 h
  have hlive : s.now < row.expiresAt := lt_of_le_of_lt houtlives.1 hlive'
  obtain ⟨hrow, htold⟩ := hs.2 hlive
  refine ⟨(houtlives.2 row hrow hlive').1, ?_⟩
  intro q hq
  rcases step_cases h with ⟨now, -, -, rfl⟩ | ⟨id', identity, -, -, rfl⟩ |
    ⟨id', request, hid, hrequest, hresume⟩
  · exact htold q hq
  · rcases get?_set_eq_some.mp hq with ⟨rfl, rfl⟩ | ⟨-, hq'⟩
    · trivial
    · exact htold q hq'
  · by_cases hsame : id' = id
    · subst hsame
      exact resume_told hid hresume (hs.1.row row hrow) hrow hlive hquiet (htold request hrequest) hq
    · rw [resume_other hresume hsame] at hq
      exact htold q hq

/-- A new request is answered while a stored response lives, without an effect of its own. -/
theorem serves (options : CommandOptions) (hok : RowOk row) (hrow : t.committed = some row)
    (hlive : t.now < row.expiresAt) (hnew : t.requests.get? id = none) (identity : Identity) :
    ∃ labels u q answer, run (step options) t labels = some u ∧ u.requests.get? id = some q ∧
      q.identity = identity ∧ q.phase = .done answer ∧ Exact row identity answer ∧
      u.committed = t.committed ∧ u.effects = t.effects := by
  obtain ⟨hstatus, statusCode, headers, hcode, hheaders, hfiltered⟩ := hok
  have hhas : t.requests.has id = false := by rw [OrderedMap.has, hnew]; rfl
  let request : Request := ⟨identity, .lookup⟩
  let arrived : System := { t with requests := t.requests.set id request }
  have harrive : step options t (.arrive id identity) = some arrived := by
    simp [step, hhas, arrived, request]
  have hstatement : step options arrived (.statement id) =
      some (arrived.replaying id request row) := by
    simp [step, Label.request, resume, statement, arrived, request, hrow, lookup_live hlive]
  by_cases hfingerprint : row.fingerprint = identity.fingerprint
  · let answer : Answer := .replayed statusCode row.responseBytes headers
    have hreplay : arrived.replaying id request row =
        arrived.move id request (.commit none answer) := by
      simp [System.replaying, replay, request, hfingerprint, hstatus, hcode, hheaders, hfiltered,
        answer]
    rw [hreplay] at hstatement
    have hcommit : step options (arrived.move id request (.commit none answer)) (.commit id true) =
        some ((arrived.move id request (.commit none answer)).rollback id
          ⟨identity, .commit none answer⟩ answer) := by
      simp [step, Label.request, resume, System.move, System.committing, request]
    refine ⟨[.arrive id identity, .statement id, .commit id true],
      (arrived.move id request (.commit none answer)).rollback id ⟨identity, .commit none answer⟩
        answer, ⟨identity, .done answer⟩, answer, ?_, get?_set_self _ _ _, rfl, rfl, ?_,
      rfl, rfl⟩
    · exact run_cons_eq_some.mpr ⟨_, harrive, run_cons_eq_some.mpr ⟨_, hstatement,
        run_cons_eq_some.mpr ⟨_, hcommit, rfl⟩⟩⟩
    · rw [Exact, if_pos hfingerprint.symm]
      exact ⟨statusCode, headers, hcode, hheaders, rfl⟩
  · have hreplay : arrived.replaying id request row = arrived.rollback id request .mismatch := by
      simp [System.replaying, replay, request, hfingerprint]
    rw [hreplay] at hstatement
    refine ⟨[.arrive id identity, .statement id], arrived.rollback id request .mismatch,
      ⟨identity, .done .mismatch⟩, .mismatch, ?_, get?_set_self _ _ _, rfl, rfl, ?_, rfl,
      rfl⟩
    · exact run_cons_eq_some.mpr ⟨_, harrive, run_cons_eq_some.mpr ⟨_, hstatement, rfl⟩⟩
    · rw [Exact, if_neg fun h => hfingerprint h.symm]

/-- No committed row is pending; a handler run that commits reserved the key after the lifetime of
every outcome stored before it; and while the lifetime of a stored response lasts, it stays, no
handler run commits, every request that looks at the key is told exactly the stored response or, if
it is another request, refused, and a new request can be told. -/
theorem command_at_most_once (options : CommandOptions) (before : List Label) (s : System)
    (hs : run (step options) System.start before = some s) :
    (∀ row, s.committed = some row → row.status = .completed) ∧
    (s.effects.Pairwise fun x y => x.selected = true → x.expiresAt ≤ y.reservedAt) ∧
    ∀ row, s.committed = some row → ∀ after t, run (step options) s after = some t →
      t.now < row.expiresAt →
      (t.committed = some row ∧ t.effects = s.effects) ∧
      (∀ id waiting, (∀ q, s.requests.get? id = some q → q.phase = .lookup ∨
          waiting ∧ (q.phase = .reserve ∨ q.phase = .lookupWinner)) →
        (∀ a ∈ after, ¬ Disturbs id waiting a) →
        ∀ q answer, t.requests.get? id = some q → q.phase = .done answer →
          Exact row q.identity answer) ∧
      ∀ id identity, t.requests.get? id = none →
        ∃ labels u q answer, run (step options) t labels = some u ∧ u.requests.get? id = some q ∧
          q.identity = identity ∧ q.phase = .done answer ∧ Exact row identity answer ∧
          u.committed = t.committed ∧ u.effects = t.effects := by
  have hinv : Invariant s := run_invariant (step_invariant options) invariant_start hs
  refine ⟨fun row hrow => (hinv.row row hrow).1, hinv.ordered, ?_⟩
  intro row hrow after t ht hlive
  have houtlives : Outlives s t :=
    run_relation Outlives.refl (fun _ _ _ => Outlives.trans) (step_invariant options)
      (step_outlives options) hinv ht
  obtain ⟨hstays, heffects⟩ := houtlives.2 row hrow hlive
  refine ⟨⟨hstays, heffects⟩, ?_, ?_⟩
  · intro id waiting hlooks hquiet q answer hq hdone
    have hstart : Serving row id waiting s := by
      refine ⟨hinv, fun _ => ⟨hrow, ?_⟩⟩
      intro q₀ hq₀
      rcases hlooks q₀ hq₀ with hp | ⟨hwaiting, hp | hp⟩
      · simp only [Told, hp]
      · simpa only [Told, hp] using hwaiting
      · simpa only [Told, hp] using hwaiting
    have hserving : Serving row id waiting t :=
      run_invariant_of_meets step_serving hstart (runMeets_of_forall_mem hquiet) ht
    have htold := (hserving.2 hlive).2 q hq
    simpa only [Told, hdone] using htold
  · intro id identity hnew
    exact serves options (hinv.row row hrow) hstays hlive hnew identity

/-- The rule that stores errors and successes. -/
def sampleOptions : CommandOptions := ⟨none⟩

/-- A request that runs its handler and stores a response. -/
def firstCommandRun : List Label :=
  [.arrive 1 ⟨"f", 60000⟩, .statement 1, .statement 1,
    .handled 1 (.returned (.json "x") (some 201) .empty) true, .statement 1, .statement 1,
    .commit 1 true]

/-- The same request again, and another one with the same key. -/
def repeatedCommandRun : List Label :=
  [.tick 1000, .arrive 2 ⟨"f", 60000⟩, .arrive 3 ⟨"g", 60000⟩, .statement 2, .statement 3,
    .commit 2 true]

/-- Whether a request has been answered, and its fingerprint. -/
def answered (s : System) (id : Nat) : Option String :=
  match s.requests.get? id with
  | some ⟨identity, .done _⟩ => some identity.fingerprint
  | _ => none

theorem answered_eq_some {fingerprint : String} (h : answered s id = some fingerprint) :
    ∃ q answer, s.requests.get? id = some q ∧ q.phase = .done answer ∧
      q.identity.fingerprint = fingerprint := by
  unfold answered at h
  split at h
  · rename_i identity answer hq
    cases h
    exact ⟨_, answer, hq, rfl, rfl⟩
  · cases h

theorem command_at_most_once_repeatedCommandRun :
    ∃ s t row, run (step sampleOptions) System.start firstCommandRun = some s ∧
      s.committed = some row ∧ run (step sampleOptions) s repeatedCommandRun = some t ∧
      t.now < row.expiresAt ∧ t.effects = s.effects ∧
      (∃ q answer, t.requests.get? 2 = some q ∧ q.phase = .done answer ∧
        Exact row q.identity answer) ∧
      ∃ q answer, t.requests.get? 3 = some q ∧ q.phase = .done answer ∧
        Exact row q.identity answer := by
  have hruns : ((run (step sampleOptions) System.start firstCommandRun).bind fun s =>
      (run (step sampleOptions) s repeatedCommandRun).map fun t =>
        (s.committed.map fun row => decide (t.now < row.expiresAt),
          (s.requests.get? 2).isNone && (s.requests.get? 3).isNone, answered t 2, answered t 3)) =
      some (some true, true, some "f", some "g") := by
    decide
  obtain ⟨s, hs, hmap⟩ := Option.bind_eq_some_iff.mp hruns
  obtain ⟨t, ht, hfields⟩ := Option.map_eq_some_iff.mp hmap
  simp only [Prod.mk.injEq, Bool.and_eq_true, Option.isNone_iff_eq_none] at hfields
  obtain ⟨hcommitted, ⟨hnew₂, hnew₃⟩, hanswered₂, hanswered₃⟩ := hfields
  obtain ⟨row, hrow, hlive⟩ := Option.map_eq_some_iff.mp hcommitted
  have hlive : t.now < row.expiresAt := of_decide_eq_true hlive
  obtain ⟨-, -, honce⟩ := command_at_most_once sampleOptions firstCommandRun s hs
  obtain ⟨⟨-, heffects⟩, htold, -⟩ := honce row hrow repeatedCommandRun t ht hlive
  have hexact : ∀ id, s.requests.get? id = none → (∀ a ∈ repeatedCommandRun, ¬ Disturbs id False a) →
      ∀ q answer, t.requests.get? id = some q → q.phase = .done answer →
        Exact row q.identity answer := by
    intro id hnew hquiet
    refine htold id False ?_ hquiet
    intro q hq
    rw [hnew] at hq
    cases hq
  obtain ⟨q₂, answer₂, hq₂, hdone₂, -⟩ := answered_eq_some hanswered₂
  obtain ⟨q₃, answer₃, hq₃, hdone₃, -⟩ := answered_eq_some hanswered₃
  exact ⟨s, t, row, hs, hrow, ht, hlive, heffects,
    ⟨q₂, answer₂, hq₂, hdone₂, hexact 2 hnew₂ (by simp [repeatedCommandRun, Disturbs]) q₂ answer₂ hq₂ hdone₂⟩,
    ⟨q₃, answer₃, hq₃, hdone₃, hexact 3 hnew₃ (by simp [repeatedCommandRun, Disturbs]) q₃ answer₃ hq₃ hdone₃⟩⟩

end Stynx.TransactionalCommandRuns
