import Stynx.MemorySessionLookups
import Stynx.RevocationLists

/-!
# Revocations outlive access tokens

An access token is minted from a time at which its session was stored, so it
expires at most the token lifetime after the revocation. The entry of a revoked
session is stamped at most the skew before the revocation and kept for the lifetime
and the skew.
-/

namespace Stynx.RevocationLists

open TransitionRuns CallTables SessionRecords OrderedMap
open MemorySessions

variable {options : Options} {s t : Cluster} {list : RevocationList} {sid : String}
  {clock now : Nat} {r : String × Nat}

/-- The tokens of a revoked session have expired. -/
def Over (options : Options) (clock : Nat) (r : String × Nat) : Prop :=
  r.2 + options.accessSeconds * 1000 ≤ clock

/-- A list has a revoked session as long as its tokens live. -/
def Held (options : Options) (clock : Nat) (list : RevocationList) (r : String × Nat) : Prop :=
  Over options clock r ∨ ∃ deadline, list.revoked.get? r.1 = some deadline ∧
    r.2 + options.accessSeconds * 1000 ≤ deadline

theorem Over.later {later : Nat} (h : Over options clock r) (hle : clock ≤ later) :
    Over options later r :=
  Nat.le_trans h hle

theorem Held.later {later : Nat} (h : Held options clock list r) (hle : clock ≤ later) :
    Held options later list r :=
  h.imp_left fun hover => hover.later hle

theorem Held.add (h : Held options clock list r) (sid : String) (stamp : Nat) :
    Held options clock (add options list sid stamp) r := by
  rcases h with hover | ⟨deadline, hdeadline, hle⟩
  · exact .inl hover
  · refine .inr ?_
    by_cases hsid : sid = r.1
    · subst hsid
      simp only [RevocationLists.add, hdeadline]
      split
      · rename_i hlt
        exact ⟨_, get?_set_self _ _ _, Nat.le_trans hle (Nat.le_of_lt hlt)⟩
      · exact ⟨deadline, hdeadline, hle⟩
    · simp only [RevocationLists.add]
      split
      · exact ⟨deadline, (get?_set_of_ne _ _ hsid).trans hdeadline, hle⟩
      · split
        · exact ⟨deadline, (get?_set_of_ne _ _ hsid).trans hdeadline, hle⟩
        · exact ⟨deadline, hdeadline, hle⟩

theorem held_add_self {stamp : Nat} (h : r.2 ≤ stamp + skew) :
    Held options clock (add options list r.1 stamp) r := by
  refine .inr ?_
  have hdeadline : r.2 + options.accessSeconds * 1000 ≤ stamp + retentionMs options := by
    unfold retentionMs
    omega
  simp only [add]
  split
  · exact ⟨_, get?_set_self _ _ _, hdeadline⟩
  · rename_i current hcurrent
    split
    · exact ⟨_, get?_set_self _ _ _, hdeadline⟩
    · rename_i hge
      exact ⟨current, hcurrent, Nat.le_trans hdeadline (Nat.not_lt.mp hge)⟩

theorem Held.foldl_add (h : Held options clock list r) (stamps : List (String × Nat)) :
    Held options clock
      (stamps.foldl (fun acc stamp => RevocationLists.add options acc stamp.1 stamp.2) list) r := by
  induction stamps generalizing list with
  | nil => exact h
  | cons first rest ih => exact ih (h.add first.1 first.2)

variable {stamps entries : List (String × Nat)} {phase : Phase} {shared : Shared} {startedAt : Nat}

theorem held_foldl_add (stamp : Nat) (hmem : (r.1, stamp) ∈ stamps) (h : r.2 ≤ stamp + skew) :
    Held options clock
      (stamps.foldl (fun acc stamp => add options acc stamp.1 stamp.2) list) r := by
  induction stamps generalizing list with
  | nil => exact absurd hmem List.not_mem_nil
  | cons first rest ih =>
    rcases List.mem_cons.mp hmem with rfl | hrest
    · exact (held_add_self h).foldl_add rest
    · exact ih hrest

theorem addEntries_eq (entries : List (String × Nat)) : addEntries options list entries =
    (entries.filter fun entry => entry.1 ≠ "").foldl
      (fun acc stamp => add options acc stamp.1 stamp.2) list := by
  rw [List.foldl_filter, addEntries]
  congr 1
  funext acc entry
  by_cases hempty : entry.1 = "" <;> simp [hempty]

theorem Held.prune (h : Held options clock list r) (hnow : now ≤ clock) :
    Held options clock (prune list now) r := by
  rcases h with hover | ⟨deadline, hdeadline, hle⟩
  · exact .inl hover
  · by_cases hlive : now < deadline
    · exact .inr ⟨deadline, get?_filter_eq_some.mpr
        ⟨hdeadline, decide_eq_true hlive⟩, hle⟩
    · exact .inl (Nat.le_trans hle (Nat.le_trans (Nat.not_lt.mp hlive) hnow))

theorem Held.check (h : Held options clock list r) (sid : String) (hnow : now ≤ clock) :
    Held options clock (check list sid now) r := by
  rcases h with hover | ⟨deadline, hdeadline, hle⟩
  · exact .inl hover
  · by_cases hsid : sid = r.1
    · subst hsid
      simp only [RevocationLists.check, hdeadline]
      split
      · rename_i hpast
        exact .inl (Nat.le_trans hle (Nat.le_trans hpast hnow))
      · exact .inr ⟨deadline, hdeadline, hle⟩
    · refine .inr ⟨deadline, ?_, hle⟩
      unfold RevocationLists.check
      split
      · exact hdeadline
      · split
        · exact (get?_delete _ _ _).trans ((if_neg hsid).trans hdeadline)
        · exact hdeadline

theorem Held.isRevoked (h : Held options clock list r) (hclock : clock ≤ now) {exp : Nat}
    (hexp : exp * 1000 ≤ r.2 + options.accessSeconds * 1000) (hnow : now < exp * 1000) :
    isRevoked list r.1 now = true := by
  rcases h with hover | ⟨deadline, hdeadline, hle⟩
  · unfold Over at hover
    omega
  · simp only [RevocationLists.isRevoked, hdeadline, decide_eq_true_eq]
    omega

theorem get?_setScores (index : OrderedMap String Nat) (revoked : List SessionRecord)
    (score : Nat) (key : String) : (setScores index revoked score).get? key =
      if key ∈ revoked.map SessionRecord.sid then some score else index.get? key := by
  induction revoked generalizing index with
  | nil => rfl
  | cons first rest ih =>
    rw [setScores, List.foldl_cons]
    refine (ih (index.set first.sid score)).trans ?_
    rw [get?_set, List.map_cons]
    by_cases hrest : key ∈ rest.map SessionRecord.sid
    · rw [if_pos hrest, if_pos (List.mem_cons_of_mem _ hrest)]
    · rw [if_neg hrest]
      by_cases hfirst : first.sid = key
      · rw [if_pos hfirst, if_pos (hfirst ▸ List.mem_cons_self)]
      · rw [if_neg hfirst, if_neg fun hmem =>
          (List.mem_cons.mp hmem).elim (fun heq => hfirst heq.symm) hrest]

/-- A time at which a session was stored. -/
def Bounded (s : Cluster) (sid : String) (now : Nat) : Prop :=
  now ≤ s.clock ∧ ∀ r ∈ s.revoked, r.1 = sid → now ≤ r.2

def Stamped (s : Cluster) (stamp : String × Nat) : Prop :=
  stamp.1 ∈ s.revoked.map Prod.fst ∧ ∀ r ∈ s.revoked, r.1 = stamp.1 → r.2 ≤ stamp.2 + skew

/-- A revoked session is among the entries of a list refresh, or its tokens have expired. -/
def Listed (options : Options) (s : Cluster) (entries : List (String × Nat)) (r : String × Nat) :
    Prop :=
  Over options s.clock r ∨ r.1 ≠ "" ∧ ∃ score, (r.1, score) ∈ entries ∧ r.2 ≤ score + skew

def CallOk (options : Options) (s : Cluster) (call : Call) : Prop :=
  (call.started ≤ s.clock ∧ ∀ sid ∈ call.seen, sid ∈ s.revoked.map Prod.fst) ∧
  match call.phase with
  | .lookup _ now => now ≤ s.clock
  | .found _ now _ => now ≤ s.clock
  | .readCurrent _ now _ => now ≤ s.clock
  | .rotate _ now _ => now ≤ s.clock
  | .revoke _ revokedAt => call.started ≤ revokedAt ∧ revokedAt ≤ s.clock
  | .createRead _ _ _ _ now => call.started ≤ now ∧ now ≤ s.clock
  | .create _ _ _ _ now => call.started ≤ now ∧ now ≤ s.clock
  | .recording stamps mint => (∀ stamp ∈ stamps, Stamped s stamp) ∧
      ∀ pair, mint = some pair → Bounded s pair.2.sid pair.1
  | .signing now record => Bounded s record.sid now
  | .list startedAt => startedAt ≤ s.clock
  | .listed _ entries => ∀ r ∈ s.revoked, r.1 ∈ call.seen → Listed options s entries r
  | .ended => True

/-- The store, the tokens, the lists and the calls. -/
structure Kept (options : Options) (s : Cluster) : Prop where
  sound : Sound s.shared.store s.issued
  /-- Identifiers of sessions are not empty. -/
  named : ∀ issue ∈ s.issued, issue.sid ≠ ""
  /-- Revoked sessions had been created, and are not stored. -/
  gone : ∀ r ∈ s.revoked, (∃ issue ∈ s.issued, issue.sid = r.1) ∧
    s.shared.store.sessions.get? r.1 = none
  /-- The index has a revoked session as long as its tokens live. -/
  index : ∀ r ∈ s.revoked, Over options s.clock r ∨
    ∃ score, s.shared.index.get? r.1 = some score ∧ r.2 ≤ score + skew
  /-- Access tokens are minted from a time at which their session was stored. -/
  minted : ∀ token ∈ s.minted, ∃ now, Bounded s token.1 now ∧
    token.2 * 1000 ≤ now + options.accessSeconds * 1000
  /-- A list has what had been revoked when its last successful refresh began. -/
  covered : ∀ node, ∀ sid ∈ s.covered node, sid ∈ s.revoked.map Prod.fst ∧
    ∀ r ∈ s.revoked, r.1 = sid → Held options s.clock (s.lists node) r
  recorded : ∀ pair ∈ s.recorded, pair.2 ∈ s.revoked.map Prod.fst ∧
    ∀ r ∈ s.revoked, r.1 = pair.2 → Held options s.clock (s.lists pair.1) r
  calls : ∀ call ∈ s.calls, CallOk options s call

theorem kept_init : Kept options {} where
  sound := MemorySessions.sound_init
  named _ h := absurd h List.not_mem_nil
  gone _ h := absurd h List.not_mem_nil
  index _ h := absurd h List.not_mem_nil
  minted _ h := absurd h List.not_mem_nil
  covered _ _ h := absurd h List.not_mem_nil
  recorded _ h := absurd h List.not_mem_nil
  calls _ h := absurd h List.not_mem_nil

/-- Time passes, and other sessions may be revoked. -/
structure Grows (s t : Cluster) : Prop where
  /-- Time does not go back. -/
  clock : s.clock ≤ t.clock
  stay : ∀ r ∈ s.revoked, r ∈ t.revoked
  /-- New ones are of other sessions, and of the present. -/
  new : ∀ r ∈ t.revoked, r ∈ s.revoked ∨ r.2 = t.clock ∧ r.1 ∉ s.revoked.map Prod.fst

theorem Grows.sids (h : Grows s t) (hsid : sid ∈ s.revoked.map Prod.fst) :
    sid ∈ t.revoked.map Prod.fst := by
  obtain ⟨r, hr, rfl⟩ := List.mem_map.mp hsid
  exact List.mem_map.mpr ⟨r, h.stay r hr, rfl⟩

theorem Grows.old (h : Grows s t) (hr : r ∈ t.revoked) (hsid : r.1 ∈ s.revoked.map Prod.fst) :
    r ∈ s.revoked := by
  rcases h.new r hr with hold | ⟨-, hnot⟩
  · exact hold
  · exact absurd hsid hnot

theorem Bounded.mono (h : Bounded s sid now) (hgrows : Grows s t) : Bounded t sid now := by
  refine ⟨Nat.le_trans h.1 hgrows.clock, fun r hr hsid => ?_⟩
  rcases hgrows.new r hr with hold | ⟨htime, -⟩
  · exact h.2 r hold hsid
  · rw [htime]
    exact Nat.le_trans h.1 hgrows.clock

theorem Stamped.mono {stamp : String × Nat} (h : Stamped s stamp) (hgrows : Grows s t) :
    Stamped t stamp := by
  refine ⟨hgrows.sids h.1, fun r hr hsid => ?_⟩
  exact h.2 r (hgrows.old hr (hsid ▸ h.1)) hsid

theorem Listed.mono (h : Listed options s entries r) (hgrows : Grows s t) :
    Listed options t entries r :=
  h.imp_left fun hover => hover.later hgrows.clock

variable {call : Call} {index : Nat} {draw : Draw}

theorem CallOk.started_mono (h : CallOk options s call) (hgrows : Grows s t) :
    call.started ≤ t.clock ∧ ∀ sid ∈ call.seen, sid ∈ t.revoked.map Prod.fst :=
  ⟨Nat.le_trans h.1.1 hgrows.clock, fun sid hsid => hgrows.sids (h.1.2 sid hsid)⟩

theorem CallOk.mono (h : CallOk options s call) (hgrows : Grows s t) : CallOk options t call := by
  refine ⟨h.started_mono hgrows, ?_⟩
  obtain ⟨⟨-, hseen⟩, hphase⟩ := h
  have hclock := hgrows.clock
  cases hcase : call.phase with
  | lookup hash now =>
    simp only [hcase] at hphase ⊢
    omega
  | found hash now lookup =>
    simp only [hcase] at hphase ⊢
    omega
  | readCurrent hash now sid =>
    simp only [hcase] at hphase ⊢
    omega
  | rotate hash now current =>
    simp only [hcase] at hphase ⊢
    omega
  | revoke sid revokedAt =>
    simp only [hcase] at hphase ⊢
    omega
  | createRead userId tenantId cognitoSub prior now =>
    simp only [hcase] at hphase ⊢
    omega
  | create userId tenantId cognitoSub prior now =>
    simp only [hcase] at hphase ⊢
    omega
  | recording stamps mint =>
    simp only [hcase] at hphase ⊢
    exact ⟨fun stamp hstamp => (hphase.1 stamp hstamp).mono hgrows,
      fun pair hpair => (hphase.2 pair hpair).mono hgrows⟩
  | signing now record =>
    simp only [hcase] at hphase ⊢
    exact hphase.mono hgrows
  | list startedAt =>
    simp only [hcase] at hphase ⊢
    omega
  | listed startedAt entries =>
    simp only [hcase] at hphase ⊢
    intro r hr hsid
    exact (hphase r (hgrows.old hr (hseen r.1 hsid)) hsid).mono hgrows
  | ended => trivial

section

variable (h : Kept options s)
include h

theorem Kept.tick (hnow : s.clock ≤ now) : Kept options (RevocationLists.tick s now) := by
  have hgrows : Grows s (RevocationLists.tick s now) := ⟨hnow, fun _ hr => hr, fun _ => .inl⟩
  refine ⟨h.sound, h.named, h.gone, ?_, ?_, ?_, ?_, fun call hcall => (h.calls call hcall).mono hgrows⟩
  · exact fun r hr => (h.index r hr).imp_left fun hover => hover.later hnow
  · intro token htoken
    obtain ⟨issuedAt, hbounded, hexp⟩ := h.minted token htoken
    exact ⟨issuedAt, hbounded.mono hgrows, hexp⟩
  · intro node sid hsid
    obtain ⟨hmem, hheld⟩ := h.covered node sid hsid
    exact ⟨hmem, fun r hr hsame => (hheld r hr hsame).later hnow⟩
  · intro pair hpair
    obtain ⟨hmem, hheld⟩ := h.recorded pair hpair
    exact ⟨hmem, fun r hr hsame => (hheld r hr hsame).later hnow⟩

theorem Kept.withCalls (hclock : t.clock = s.clock) (hrevoked : t.revoked = s.revoked)
    (hsound : Sound t.shared.store t.issued) (hnamed : ∀ issue ∈ t.issued, issue.sid ≠ "")
    (hgone : ∀ issue ∈ s.issued, s.shared.store.sessions.get? issue.sid = none → issue ∈ t.issued ∧ t.shared.store.sessions.get? issue.sid = none)
    (hindex : t.shared.index = s.shared.index) (hlists : t.lists = s.lists)
    (hcovered : t.covered = s.covered) (hrecorded : t.recorded = s.recorded)
    (hminted : ∀ token ∈ t.minted, token ∈ s.minted ∨ ∃ now, Bounded s token.1 now ∧ token.2 * 1000 ≤ now + options.accessSeconds * 1000)
    (hcalls : ∀ call ∈ t.calls, call ∈ s.calls ∨ CallOk options s call) : Kept options t := by
  have hgrows : Grows s t :=
    ⟨Nat.le_of_eq hclock.symm, fun r hr => hrevoked ▸ hr, fun r hr => .inl (hrevoked ▸ hr)⟩
  refine ⟨hsound, hnamed, ?_, ?_, ?_, ?_, ?_, ?_⟩
  · intro r hr
    obtain ⟨⟨issue, hissue, hsid⟩, hnone⟩ := h.gone r (hrevoked ▸ hr)
    obtain ⟨hmem, hstill⟩ := hgone issue hissue (hsid ▸ hnone)
    exact ⟨⟨issue, hmem, hsid⟩, hsid ▸ hstill⟩
  · intro r hr
    rw [hclock, hindex]
    exact h.index r (hrevoked ▸ hr)
  · intro token htoken
    have hold : ∃ now, Bounded s token.1 now ∧
        token.2 * 1000 ≤ now + options.accessSeconds * 1000 :=
      (hminted token htoken).elim (h.minted token) id
    obtain ⟨now, hbounded, hexp⟩ := hold
    exact ⟨now, hbounded.mono hgrows, hexp⟩
  · intro node sid hsid
    rw [hclock, hlists, hrevoked]
    exact h.covered node sid (hcovered ▸ hsid)
  · intro pair hpair
    rw [hclock, hlists, hrevoked]
    exact h.recorded pair (hrecorded ▸ hpair)
  · intro call hcall
    exact ((hcalls call hcall).elim (h.calls call) id).mono hgrows

theorem Kept.callTo (hok : CallOk options s { call with phase := phase }) :
    Kept options (callTo s index call phase) := by
  refine h.withCalls rfl rfl h.sound h.named (fun issue hissue hnone => ⟨hissue, hnone⟩) rfl rfl rfl
    rfl (fun token htoken => .inl htoken) fun found hfound => ?_
  rcases List.mem_or_eq_of_mem_set hfound with hold | rfl
  · exact .inl hold
  · exact .inr hok

theorem Kept.ended (index : Nat) (hcall : call ∈ s.calls) :
    Kept options (RevocationLists.callTo s index call .ended) :=
  h.callTo ⟨(h.calls call hcall).1, trivial⟩

theorem Kept.newCall {node : Nat}
    (hok : CallOk options s ⟨node, s.clock, s.revoked.map Prod.fst, phase⟩) :
    Kept options (newCall s node phase) := by
  refine h.withCalls rfl rfl h.sound h.named (fun issue hissue hnone => ⟨hissue, hnone⟩) rfl rfl rfl
    rfl (fun token htoken => .inl htoken) fun found hfound => ?_
  rcases mem_concat_iff.mp hfound with hold | rfl
  · exact .inl hold
  · exact .inr hok

theorem Kept.withList (node : Nat) (list : RevocationList)
    (hlist : ∀ r, Held options s.clock (s.lists node) r → Held options s.clock list r) :
    Kept options (withList s node list) := by
  have hgrows : Grows s (RevocationLists.withList s node list) :=
    ⟨le_rfl, fun _ hr => hr, fun _ => .inl⟩
  have hheld : ∀ other r, Held options s.clock (s.lists other) r →
      Held options s.clock ((RevocationLists.withList s node list).lists other) r := by
    intro other r hr
    simp only [RevocationLists.withList]
    split
    · rename_i heq
      exact hlist r (heq ▸ hr)
    · exact hr
  refine ⟨h.sound, h.named, h.gone, h.index, ?_, ?_, ?_,
    fun call hcall => (h.calls call hcall).mono hgrows⟩
  · intro token htoken
    obtain ⟨issuedAt, hbounded, hexp⟩ := h.minted token htoken
    exact ⟨issuedAt, hbounded.mono hgrows, hexp⟩
  · intro other sid hsid
    obtain ⟨hmem, hall⟩ := h.covered other sid hsid
    exact ⟨hmem, fun r hr hsame => hheld other r (hall r hr hsame)⟩
  · intro pair hpair
    obtain ⟨hmem, hall⟩ := h.recorded pair hpair
    exact ⟨hmem, fun r hr hsame => hheld pair.1 r (hall r hr hsame)⟩

theorem Kept.withRevoked (sids : List String) (score : Nat) (hclock : t.clock = s.clock)
    (hrevoked : t.revoked = s.revoked ++ sids.map fun sid => (sid, s.clock))
    (hscore : s.clock ≤ score + skew)
    (hstored : ∀ sid ∈ sids, ∃ session, s.shared.store.sessions.get? sid = some session)
    (hsound : Sound t.shared.store t.issued) (hnamed : ∀ issue ∈ t.issued, issue.sid ≠ "")
    (hissued : ∀ issue ∈ s.issued, issue ∈ t.issued)
    (hgone : ∀ issue ∈ s.issued, issue.sid ∈ sids ∨ s.shared.store.sessions.get? issue.sid = none → t.shared.store.sessions.get? issue.sid = none)
    (hindex : ∀ key, t.shared.index.get? key = if key ∈ sids then some score else s.shared.index.get? key)
    (hlists : t.lists = s.lists) (hcovered : t.covered = s.covered)
    (hrecorded : t.recorded = s.recorded) (hminted : t.minted = s.minted)
    (hcalls : Grows s t → ∀ call ∈ t.calls, call ∈ s.calls ∨ CallOk options t call) :
    Kept options t := by
  have hsplit : ∀ r ∈ t.revoked, r ∈ s.revoked ∨ r.1 ∈ sids ∧ r.2 = s.clock := by
    intro r hr
    rw [hrevoked] at hr
    rcases List.mem_append.mp hr with hold | hnew
    · exact .inl hold
    · obtain ⟨sid, hsid, rfl⟩ := List.mem_map.mp hnew
      exact .inr ⟨hsid, rfl⟩
  -- what is stored had not been revoked
  have hfresh : ∀ sid ∈ sids, sid ∉ s.revoked.map Prod.fst := by
    intro sid hsid hmem
    obtain ⟨r, hr, rfl⟩ := List.mem_map.mp hmem
    obtain ⟨session, hsession⟩ := hstored r.1 hsid
    rw [(h.gone r hr).2] at hsession
    cases hsession
  have hgrows : Grows s t := by
    refine ⟨Nat.le_of_eq hclock.symm, fun r hr => hrevoked ▸ List.mem_append_left _ hr,
      fun r hr => ?_⟩
    rcases hsplit r hr with hold | ⟨hsid, htime⟩
    · exact .inl hold
    · exact .inr ⟨htime.trans hclock.symm, hfresh r.1 hsid⟩
  refine ⟨hsound, hnamed, ?_, ?_, ?_, ?_, ?_, ?_⟩
  · intro r hr
    rcases hsplit r hr with hold | ⟨hsid, -⟩
    · obtain ⟨⟨issue, hissue, hsame⟩, hnone⟩ := h.gone r hold
      refine ⟨⟨issue, hissued issue hissue, hsame⟩, ?_⟩
      rw [← hsame] at hnone ⊢
      exact hgone issue hissue (.inr hnone)
    · obtain ⟨session, hsession⟩ := hstored r.1 hsid
      obtain ⟨-, -, issue, hissue, -, hsame, -⟩ := h.sound.stored r.1 session hsession
      refine ⟨⟨issue, hissued issue hissue, hsame⟩, ?_⟩
      rw [← hsame] at hsid ⊢
      exact hgone issue hissue (.inl hsid)
  · intro r hr
    rw [hclock, hindex]
    rcases hsplit r hr with hold | ⟨hsid, htime⟩
    · rw [if_neg fun hsid => hfresh r.1 hsid (List.mem_map.mpr ⟨r, hold, rfl⟩)]
      exact h.index r hold
    · rw [if_pos hsid, htime]
      exact .inr ⟨score, rfl, hscore⟩
  · intro token htoken
    obtain ⟨issuedAt, hbounded, hexp⟩ := h.minted token (hminted ▸ htoken)
    exact ⟨issuedAt, hbounded.mono hgrows, hexp⟩
  · intro node sid hsid
    obtain ⟨hmem, hall⟩ := h.covered node sid (hcovered ▸ hsid)
    refine ⟨hgrows.sids hmem, fun r hr hsame => ?_⟩
    rw [hclock, hlists]
    exact hall r (hgrows.old hr (hsame ▸ hmem)) hsame
  · intro pair hpair
    obtain ⟨hmem, hall⟩ := h.recorded pair (hrecorded ▸ hpair)
    refine ⟨hgrows.sids hmem, fun r hr hsame => ?_⟩
    rw [hclock, hlists]
    exact hall r (hgrows.old hr (hsame ▸ hmem)) hsame
  · intro call hcall
    exact (hcalls hgrows call hcall).elim (fun hold => (h.calls call hold).mono hgrows) id

theorem Kept.rotated {hash : String} {current updated : SessionRecord}
    {store : MemorySessions.Store} {idleExpiresAt : Nat} (hcall : call ∈ s.calls)
    (hnow : now ≤ s.clock) (hfresh : ∀ issue ∈ s.issued, issue.hash ≠ draw.hash)
    (hwritten : MemorySessions.rotateRefreshToken s.shared.store current.sid hash draw.hash idleExpiresAt now = some (store, updated)) :
    Kept options { RevocationLists.callTo s index call (.signing now updated) with
      shared := { s.shared with store := store }
      issued := s.issued ++ [⟨draw.hash, updated.sid, updated.refreshFamilyId, index⟩] } := by
  have hsound := h.sound.rotateRefreshToken index hwritten hfresh
  -- the session is stored, so it has not been revoked
  obtain ⟨session, hstored, rfl, hsessions⟩ : ∃ session,
      s.shared.store.sessions.get? current.sid = some session ∧
      updated = MemorySessions.rotatedRecord session draw.hash idleExpiresAt now ∧
      store.sessions = s.shared.store.sessions.set current.sid updated := by
    unfold MemorySessions.rotateRefreshToken at hwritten
    split at hwritten
    case h_2 => cases hwritten
    case h_1 session lookup hstored _ =>
      split at hwritten
      case isFalse => cases hwritten
      case isTrue =>
        cases hwritten
        exact ⟨session, hstored, rfl, rfl⟩
  obtain ⟨hname, -, issue, hissue, -, hsid, -⟩ := h.sound.stored current.sid session hstored
  refine h.withCalls rfl rfl hsound ?_ ?_ rfl rfl rfl rfl (fun token htoken => .inl htoken) ?_
  · intro other hother
    rcases mem_concat_iff.mp hother with hold | rfl
    · exact h.named other hold
    · exact fun hempty => h.named issue hissue (hsid.trans (hname.symm.trans hempty))
  · intro other hother hnone
    refine ⟨List.mem_append_left _ hother, ?_⟩
    have hne : current.sid ≠ other.sid := by
      intro heq
      rw [← heq, hstored] at hnone
      cases hnone
    simp only [hsessions]
    rw [get?_set_of_ne _ _ hne]
    exact hnone
  · intro found hfound
    rcases List.mem_or_eq_of_mem_set hfound with hold | rfl
    · exact .inl hold
    · refine .inr ⟨(h.calls call hcall).1, hnow, fun r hr hsame => ?_⟩
      have hgone := (h.gone r hr).2
      have hkey : r.1 = current.sid := hsame.trans hname
      rw [hkey, hstored] at hgone
      cases hgone

theorem Kept.revokedOne {revokedAt : Nat} (hcall : call ∈ s.calls)
    (hstamp : s.clock ≤ revokedAt + skew)
    (hwritten : revokeSession s.shared sid revokedAt = some shared) :
    Kept options { RevocationLists.callTo s index call (.recording [(sid, revokedAt)] none) with
      shared := shared
      revoked := s.revoked ++ [(sid, s.clock)] } := by
  unfold revokeSession at hwritten
  split at hwritten
  · cases hwritten
  · rename_i session hstored
    cases hwritten
    refine h.withRevoked [sid] _ rfl rfl hstamp ?_ (h.sound.removeSession hstored) h.named
      (fun issue hissue => hissue) ?_ ?_ rfl rfl rfl rfl ?_
    · intro key hkey
      rw [List.mem_singleton.mp hkey]
      exact ⟨session, hstored⟩
    · intro issue _ hor
      have hget := get?_delete s.shared.store.sessions sid issue.sid
      refine hget.trans ?_
      rcases hor with hsame | hnone
      · rw [List.mem_singleton.mp hsame, if_pos rfl]
      · rw [hnone, ite_self]
    · intro key
      rw [get?_set]
      by_cases hkey : sid = key
      · rw [if_pos hkey, if_pos (hkey ▸ List.mem_cons_self)]
      · rw [if_neg hkey, if_neg fun hmem => hkey (List.mem_singleton.mp hmem).symm]
    · intro hgrows found hfound
      rcases List.mem_or_eq_of_mem_set hfound with hold | rfl
      · exact .inl hold
      · refine .inr ⟨(h.calls call hcall).started_mono hgrows, ?_, ?_⟩
        · intro stamp hmem
          obtain rfl := List.mem_singleton.mp hmem
          refine ⟨List.mem_map.mpr ⟨(sid, s.clock), List.mem_concat_self, rfl⟩,
            fun r hr hsame => ?_⟩
          rcases hgrows.new r hr with hold | ⟨htime, -⟩
          · have hgone := (h.gone r hold).2
            rw [hsame, hstored] at hgone
            cases hgone
          · rw [htime]
            exact hstamp
        · intro pair hpair
          cases hpair

theorem Kept.created {userId tenantId cognitoSub : String} {prior : Option String}
    {revoked : List SessionRecord} (hcall : call ∈ s.calls) (hnow : now ≤ s.clock)
    (hstamp : s.clock ≤ now + skew) (hnamed : draw.sid ≠ "")
    (hfresh : MemorySessions.NewTo s.issued draw.hash draw.sid draw.familyId)
    (hwritten : createShared options s.shared (newRecord options.sessions userId tenantId cognitoSub now draw) prior now s.clock = .ok (shared, revoked)) :
    Kept options { RevocationLists.callTo s index call
        (.recording (revoked.map fun session => (session.sid, now))
          (some (now, newRecord options.sessions userId tenantId cognitoSub now draw))) with
      shared := shared
      issued := s.issued ++ [⟨draw.hash, draw.sid, draw.familyId, index⟩]
      revoked := s.revoked ++ revoked.map fun session => (session.sid, s.clock) } := by
  unfold createShared at hwritten
  split at hwritten
  case h_1 => cases hwritten
  case h_2 store _ hcreated =>
    cases hwritten
    obtain ⟨-, hstored, -, -, hstore⟩ := h.sound.createStored_ok hcreated
    have hsound := h.sound.created index rfl hfresh hcreated
    have hmap : (revoked.map fun session => (session.sid, s.clock)) =
        (revoked.map SessionRecord.sid).map fun sid => (sid, s.clock) := by
      rw [List.map_map]
      rfl
    refine h.withRevoked (revoked.map SessionRecord.sid)
      (if options.serverTime then s.clock else now) rfl ?_ ?_ ?_ hsound ?_
      (fun issue hissue => List.mem_append_left _ hissue) ?_ ?_ rfl rfl rfl rfl ?_
    · exact congrArg (s.revoked ++ ·) hmap
    · split
      · exact Nat.le_add_right _ _
      · exact hstamp
    · intro key hkey
      obtain ⟨session, hsession, rfl⟩ := List.mem_map.mp hkey
      exact ⟨session, hstored session hsession⟩
    · intro issue hissue
      rcases mem_concat_iff.mp hissue with hold | rfl
      · exact h.named issue hold
      · exact hnamed
    · intro issue hissue hor
      simp only [hstore]
      refine (get?_set_of_ne _ _ (Ne.symm (hfresh issue hissue).2.1)).trans ?_
      rw [MemorySessions.get?_removeSessions]
      rcases hor with hmem | hnone
      · rw [if_pos hmem]
      · rw [hnone, ite_self]
    · exact fun key => get?_setScores s.shared.index revoked _ key
    · intro hgrows found hfound
      rcases List.mem_or_eq_of_mem_set hfound with hold | rfl
      · exact .inl hold
      · refine .inr ⟨(h.calls call hcall).started_mono hgrows, ?_, ?_⟩
        · intro stamp hmem
          obtain ⟨session, hsession, rfl⟩ := List.mem_map.mp hmem
          refine ⟨List.mem_map.mpr ⟨(session.sid, s.clock), List.mem_append_right _
            (List.mem_map.mpr ⟨session, hsession, rfl⟩), rfl⟩, fun r hr hsame => ?_⟩
          rcases hgrows.new r hr with hold | ⟨htime, -⟩
          · have hgone := (h.gone r hold).2
            rw [hsame, hstored session hsession] at hgone
            cases hgone
          · rw [htime]
            exact hstamp
        · intro pair hpair
          cases hpair
          refine ⟨hnow, fun r hr _ => ?_⟩
          rcases hgrows.new r hr with hold | ⟨htime, -⟩
          · -- the identifier is new
            obtain ⟨⟨issue, hissue, hsid⟩, -⟩ := h.gone r hold
            rename_i hsame
            exact absurd (hsid.trans hsame) (hfresh issue hissue).2.1
          · rw [htime]
            exact hnow

theorem Kept.recordedIn {mint : Option (Nat × SessionRecord)} (hcall : call ∈ s.calls)
    (hphase : call.phase = .recording stamps mint) :
    Kept options { RevocationLists.withList (RevocationLists.callTo s index call
        (afterRecording mint)) call.node
        (stamps.foldl (fun acc stamp => add options acc stamp.1 stamp.2) (s.lists call.node)) with
      recorded := s.recorded ++ stamps.map fun stamp => (call.node, stamp.1) } := by
  obtain ⟨hseen, hok⟩ := h.calls call hcall
  rw [hphase] at hok
  have hmoved : Kept options (RevocationLists.callTo s index call (afterRecording mint)) := by
    refine h.callTo ⟨hseen, ?_⟩
    cases mint with
    | none => trivial
    | some pair => exact hok.2 pair rfl
  have hadded := hmoved.withList call.node
    (stamps.foldl (fun acc stamp => add options acc stamp.1 stamp.2) (s.lists call.node))
    fun r hr => hr.foldl_add stamps
  refine ⟨hadded.sound, hadded.named, hadded.gone, hadded.index, hadded.minted, hadded.covered, ?_,
    hadded.calls⟩
  intro pair hpair
  rcases List.mem_append.mp hpair with hold | hnew
  · exact hadded.recorded pair hold
  · obtain ⟨stamp, hstamp, rfl⟩ := List.mem_map.mp hnew
    obtain ⟨hmem, hwithin⟩ := hok.1 stamp hstamp
    refine ⟨hmem, fun r hr hsame => ?_⟩
    simp only [RevocationLists.withList, if_true]
    exact held_foldl_add stamp.2 (hsame ▸ hstamp) (hwithin r hr hsame)

theorem Kept.signed {record : SessionRecord} (hcall : call ∈ s.calls)
    (hbounded : Bounded s record.sid now) :
    Kept options { RevocationLists.callTo s index call .ended with
      minted := s.minted ++ [(record.sid, expiresAtSeconds options record now)] } := by
  refine h.withCalls rfl rfl h.sound h.named (fun issue hissue hnone => ⟨hissue, hnone⟩) rfl rfl rfl
    rfl (fun token htoken => ?_) fun found hfound => ?_
  · rcases mem_concat_iff.mp htoken with hold | rfl
    · exact .inl hold
    · refine .inr ⟨now, hbounded, ?_⟩
      have hexp : expiresAtSeconds options record now ≤ now / 1000 + options.accessSeconds :=
        Nat.min_le_left _ _
      calc expiresAtSeconds options record now * 1000
          ≤ (now / 1000 + options.accessSeconds) * 1000 := Nat.mul_le_mul_right 1000 hexp
        _ = now / 1000 * 1000 + options.accessSeconds * 1000 := Nat.add_mul _ _ _
        _ ≤ now + options.accessSeconds * 1000 :=
          Nat.add_le_add_right (Nat.div_mul_le_self now 1000) _
  · rcases List.mem_or_eq_of_mem_set hfound with hold | rfl
    · exact .inl hold
    · exact .inr ⟨(h.calls call hcall).1, trivial⟩

theorem Kept.listing (hcall : call ∈ s.calls) (hstarted : startedAt ≤ s.clock) :
    Kept options { RevocationLists.callTo s index call (.listed startedAt
        (listRevokedSessions s.shared (startedAt - retentionMs options)).2) with
      shared := (listRevokedSessions s.shared (startedAt - retentionMs options)).1 } := by
  have hkept : ∀ r ∈ s.revoked, Over options s.clock r ∨
      ∃ score, (s.shared.index.filter fun entry =>
        startedAt - retentionMs options ≤ entry.2).get? r.1 = some score ∧ r.2 ≤ score + skew := by
    intro r hr
    rcases h.index r hr with hover | ⟨score, hscore, hle⟩
    · exact .inl hover
    · by_cases hrecent : startedAt - retentionMs options ≤ score
      · exact .inr ⟨score, get?_filter_eq_some.mpr
          ⟨hscore, decide_eq_true hrecent⟩, hle⟩
      · refine .inl ?_
        have hbefore : score + (options.accessSeconds * 1000 + skew) < startedAt :=
          Nat.add_lt_of_lt_sub (Nat.not_le.mp hrecent)
        unfold Over
        omega
  have hgrows : Grows s { RevocationLists.callTo s index call (.listed startedAt
      (listRevokedSessions s.shared (startedAt - retentionMs options)).2) with
      shared := (listRevokedSessions s.shared (startedAt - retentionMs options)).1 } :=
    ⟨le_rfl, fun _ hr => hr, fun _ => .inl⟩
  refine ⟨h.sound, h.named, h.gone, hkept, ?_, h.covered, h.recorded, ?_⟩
  · intro token htoken
    obtain ⟨issuedAt, hbounded, hexp⟩ := h.minted token htoken
    exact ⟨issuedAt, hbounded.mono hgrows, hexp⟩
  · intro found hfound
    rcases List.mem_or_eq_of_mem_set hfound with hold | rfl
    · exact (h.calls found hold).mono hgrows
    · refine ⟨(h.calls call hcall).1, fun r hr _ => ?_⟩
      refine (hkept r hr).imp id fun ⟨score, hscore, hle⟩ => ⟨?_, score, ?_, hle⟩
      · obtain ⟨⟨issue, hissue, hsid⟩, -⟩ := h.gone r hr
        exact hsid ▸ h.named issue hissue
      · exact mem_entries_iff.mpr hscore

theorem Kept.refreshed (hcall : call ∈ s.calls) (hphase : call.phase = .listed startedAt entries) :
    Kept options { RevocationLists.withList (RevocationLists.callTo s index call .ended) call.node
        { RevocationLists.prune (addEntries options (s.lists call.node) entries) s.clock with
          lastRefreshedAt := some startedAt
          refreshing := false } with
      covered := fun node => if node = call.node then call.seen else s.covered node } := by
  obtain ⟨hseen, hok⟩ := h.calls call hcall
  rw [hphase] at hok
  have hnext : ∀ r, Held options s.clock (addEntries options (s.lists call.node) entries) r →
      Held options s.clock
        { RevocationLists.prune (addEntries options (s.lists call.node) entries) s.clock with
          lastRefreshedAt := some startedAt
          refreshing := false } r := fun r hr => hr.prune le_rfl
  have hadded := (h.ended index hcall).withList call.node
    ({ RevocationLists.prune (addEntries options (s.lists call.node) entries) s.clock with
      lastRefreshedAt := some startedAt
      refreshing := false }) fun r hr => hnext r (by
        rw [addEntries_eq]
        exact hr.foldl_add _)
  refine ⟨hadded.sound, hadded.named, hadded.gone, hadded.index, hadded.minted, ?_,
    hadded.recorded, hadded.calls⟩
  intro node sid hsid
  by_cases hnode : node = call.node
  · simp only [hnode, if_true] at hsid
    refine ⟨hseen.2 sid hsid, fun r hr hsame => ?_⟩
    simp only [RevocationLists.withList, hnode, if_true]
    refine hnext r ?_
    rcases hok r hr (hsame ▸ hsid) with hover | ⟨hname, score, hmem, hle⟩
    · exact .inl hover
    · rw [addEntries_eq]
      exact held_foldl_add score (List.mem_filter.mpr ⟨hmem, decide_eq_true hname⟩) hle
  · simp only [if_neg hnode] at hsid
    exact hadded.covered node sid hsid

theorem Kept.callStep (hcall : call ∈ s.calls) (hintime : s.clock ≤ call.started + skew)
    (hstep : callStep options s index draw call = some t) :
    Kept options t := by
  have hcalls := h.calls call hcall
  obtain ⟨hseen, hok⟩ := hcalls
  have hended : Kept options (RevocationLists.callTo s index call .ended) := h.ended index hcall
  unfold RevocationLists.callStep at hstep
  cases hphase : call.phase with
  | lookup hash now =>
    simp only [hphase] at hok hstep
    split at hstep <;> cases hstep
    · exact hended
    · exact h.callTo ⟨hseen, hok⟩
  | found hash now lookup =>
    simp only [hphase] at hok hstep
    split at hstep <;> cases hstep
    · exact h.callTo ⟨hseen, hseen.1, le_rfl⟩
    · exact h.callTo ⟨hseen, hok⟩
  | readCurrent hash now sid =>
    simp only [hphase] at hok hstep
    split at hstep
    · cases hstep
      exact hended
    · split at hstep <;> cases hstep
      · exact h.callTo ⟨hseen, hok⟩
      · exact hended
  | rotate hash now current =>
    simp only [hphase] at hok hstep
    split at hstep
    case isFalse => cases hstep
    case isTrue hfresh =>
      split at hstep
      · cases hstep
        exact hended
      · rename_i store updated hwritten
        cases hstep
        exact h.rotated hcall hok
          (fun issue hissue => of_decide_eq_true (List.all_eq_true.mp hfresh issue hissue)) hwritten
  | revoke sid revokedAt =>
    simp only [hphase] at hok hstep
    split at hstep
    · cases hstep
      exact hended
    · rename_i shared hwritten
      cases hstep
      exact h.revokedOne hcall (Nat.le_trans hintime (Nat.add_le_add_right hok.1 skew)) hwritten
  | createRead userId tenantId cognitoSub prior now =>
    simp only [hphase] at hok hstep
    split at hstep
    · cases hstep
      exact hended
    · split at hstep <;> cases hstep
      · exact h.callTo ⟨hseen, hok⟩
      · exact hended
  | create userId tenantId cognitoSub prior now =>
    simp only [hphase] at hok hstep
    split at hstep
    case isFalse => cases hstep
    case isTrue hfresh =>
      split at hstep
      · cases hstep
        exact hended
      · rename_i shared revoked hwritten
        cases hstep
        exact h.created hcall hok.2 (Nat.le_trans hintime (Nat.add_le_add_right hok.1 skew))
          hfresh.1 hfresh.2 hwritten
  | recording stamps mint =>
    simp only [hphase] at hstep
    cases hstep
    exact h.recordedIn hcall hphase
  | signing now record =>
    simp only [hphase] at hok hstep
    cases hstep
    exact h.signed hcall hok
  | list startedAt =>
    simp only [hphase] at hok hstep
    cases hstep
    exact h.listing hcall hok
  | listed startedAt entries =>
    simp only [hphase] at hstep
    cases hstep
    exact h.refreshed hcall hphase
  | ended =>
    simp only [hphase] at hstep
    cases hstep

theorem Kept.failStep (hcall : call ∈ s.calls) (hstep : failStep s index call = some t) :
    Kept options t := by
  have hended : Kept options (RevocationLists.callTo s index call .ended) := h.ended index hcall
  unfold RevocationLists.failStep at hstep
  split at hstep
  · cases hstep
  · cases hstep
    exact hended.withList _ _ fun r hr => hr
  · cases hstep
    exact hended.withList _ _ fun r hr => hr
  · cases hstep
    exact hended

theorem Kept.actStep {act : Act}
    (hintime : ∀ index, act = .goOn index → ∀ call, s.calls[index]? = some call → s.clock ≤ call.started + skew)
    (hstep : actStep options s draw act = some t) : Kept options t := by
  have hnow : s.clock ≤ s.clock ∧ ∀ sid ∈ s.revoked.map Prod.fst, sid ∈ s.revoked.map Prod.fst :=
    ⟨le_rfl, fun _ hsid => hsid⟩
  cases act with
  | refresh node hash =>
    cases hstep
    exact h.newCall ⟨hnow, Nat.le_refl s.clock⟩
  | revoke node sid =>
    cases hstep
    exact h.newCall ⟨hnow, Nat.le_refl s.clock, Nat.le_refl s.clock⟩
  | create node userId tenantId cognitoSub prior =>
    cases prior with
    | none =>
      cases hstep
      exact h.newCall ⟨hnow, Nat.le_refl s.clock, Nat.le_refl s.clock⟩
    | some prior =>
      cases hstep
      exact h.newCall ⟨hnow, Nat.le_refl s.clock, Nat.le_refl s.clock⟩
  | listRefresh node =>
    simp only [RevocationLists.actStep] at hstep
    split at hstep <;> cases hstep
    · exact h
    · have hcalled : Kept options (RevocationLists.newCall s node (.list s.clock)) :=
        h.newCall ⟨hnow, Nat.le_refl s.clock⟩
      exact hcalled.withList _ _ fun r hr => hr
  | prune node =>
    cases hstep
    exact h.withList _ _ fun r hr => hr.prune le_rfl
  | check node sid =>
    cases hstep
    exact h.withList _ _ fun r hr => hr.check sid le_rfl
  | goOn index =>
    obtain ⟨call, hcall, hstep⟩ := Option.bind_eq_some_iff.mp hstep
    exact h.callStep (List.mem_of_getElem? hcall) (hintime index rfl call hcall) hstep
  | fail index =>
    obtain ⟨call, hcall, hstep⟩ := Option.bind_eq_some_iff.mp hstep
    exact h.failStep (List.mem_of_getElem? hcall) hstep

theorem Kept.step {label : Label} (hintime : InTime s label)
    (hstep : RevocationLists.step options s label = some t) : Kept options t := by
  unfold RevocationLists.step at hstep
  split at hstep
  · cases hstep
  · rename_i hlater
    refine (h.tick (Nat.not_lt.mp hlater)).actStep (fun index hact call hcall => ?_) hstep
    rw [InTime, hact] at hintime
    exact hintime call hcall

end

/-- While calls end within the skew: of a session that an instance has revoked, or that had been
revoked when its last successful refresh began, it says so or that its list is stale, until its
tokens expire. -/
theorem revoked_or_stale (options : Options) (labels : List Label) (s : Cluster)
    (hintime : RunMeets (step options) InTime {} labels)
    (hrun : run (step options) {} labels = some s) (node : Nat) (sid : String)
    (hrevoked : sid ∈ s.covered node ∨ (node, sid) ∈ s.recorded) (exp : Nat)
    (htoken : (sid, exp) ∈ s.minted) (now : Nat) (hclock : s.clock ≤ now)
    (hnow : now < exp * 1000) :
    isRevoked (s.lists node) sid now = true ∨ isStale options (s.lists node) now = true := by
  have hkept : Kept options s :=
    run_invariant_of_meets (fun _ _ _ h hin hstep => h.step hin hstep) kept_init hintime hrun
  have hheld : sid ∈ s.revoked.map Prod.fst ∧
      ∀ r ∈ s.revoked, r.1 = sid → Held options s.clock (s.lists node) r := by
    rcases hrevoked with hcovered | hrecorded
    · exact hkept.covered node sid hcovered
    · exact hkept.recorded (node, sid) hrecorded
  obtain ⟨r, hr, rfl⟩ := List.mem_map.mp hheld.1
  obtain ⟨issuedAt, hbounded, hexp⟩ := hkept.minted (r.1, exp) htoken
  have hlife : exp * 1000 ≤ r.2 + options.accessSeconds * 1000 :=
    Nat.le_trans hexp (Nat.add_le_add_right (hbounded.2 r hr rfl) _)
  exact .inl ((hheld.2 r hr rfl).isRevoked hclock hlife hnow)

/-- Options: an access token lives 10 s, a list serves 15 s; Redis stamps revocations itself. -/
def shortLived : Options := ⟨⟨1000, 1000, .off⟩, 10, 15000, true⟩

/-- What happens at a time, with new identifiers. -/
def atTime (now : Nat) (act : Act) (name : String) : Label :=
  ⟨act, { now := now, sid := name, hash := name, familyId := name }⟩

/-- Instance 1 revokes the session of instance 0, which refreshes its list. -/
def revokesElsewhere : List Label :=
  [atTime 0 (.create 0 "user" "tenant" "sub" none) "", atTime 0 (.goOn 0) "s1",
    atTime 0 (.goOn 0) "", atTime 0 (.goOn 0) "", atTime 1000 (.revoke 1 "s1") "",
    atTime 4000 (.goOn 1) "", atTime 4000 (.goOn 1) "", atTime 5000 (.listRefresh 0) "",
    atTime 5000 (.goOn 2) "", atTime 5000 (.goOn 2) ""]

theorem revoked_or_stale_run :
    ∃ s, run (step shortLived) {} revokesElsewhere = some s ∧
      (isRevoked (s.lists 0) "s1" 9999 = true ∨ isStale shortLived (s.lists 0) 9999 = true) :=
  ⟨_, rfl, revoked_or_stale shortLived revokesElsewhere _ (by decide) rfl 0 "s1"
    (by decide) 10 (by decide) 9999 (by decide) (by decide)⟩

end Stynx.RevocationLists
