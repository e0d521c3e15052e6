import Stynx.JsonTokens
import Stynx.TransitionRuns

/-!
# Sequential signature envelopes

`packages/signature/src/sequential.ts`: an envelope is created over a payload,
receives signatures in the order of its expected signers and is published when
there are as many signatures as expected signers. The digest of each signature
covers the one before it.
-/

namespace Stynx.SequentialEnvelopes

open JsonTokens TransitionRuns

abbrev Bytes := ByteArray

/-- The functions outside the package that an envelope rests on. -/
structure Platform where
  sha256 : Bytes → JsString
  toBase64 : Bytes → JsString
  /-- `Buffer.from(text, 'base64')`. -/
  fromBase64 : JsString → Bytes

/-- A role that a signer may leave out or set to `undefined`. -/
inductive Role where
  | absent
  | undefined
  | given (role : JsString)

structure SequentialSignerRef where
  id : JsString
  subject : JsString
  serial : JsString
  role : Role := .absent

structure SequentialSignatureEntry where
  order : Nat
  signer : SequentialSignerRef
  /-- The digest over the signature before and this one. -/
  digest : JsString
  signedAt : JsString

structure SequentialEnvelope where
  payloadBase64 : JsString
  payloadSha256 : JsString
  signatures : List SequentialSignatureEntry
  expectedSignerIds : List JsString
  /-- Who may read; nobody listed is everybody. -/
  allowedReaderRoles : List JsString
  published : Bool

/-- The options of `SequentialSigner`. -/
structure Options where
  expectedSignerIds : List JsString
  allowedReaderRoles : Option (List JsString) := none

/-- A member of an object in `canonicalJson`. -/
def memberText (key : String) (value : List Char) : List Char :=
  quote (ofString key) ++ ':' :: value

/-- An object in `canonicalJson`, from the texts of its members in order. -/
def objectText (members : List (List Char)) : List Char :=
  '{' :: (members.intersperse [',']).flatten ++ ['}']

/-- `canonicalJson` of a signer; `undefined` is written as it is. -/
def signerText (signer : SequentialSignerRef) : List Char :=
  let role := match signer.role with
    | .absent => []
    | .undefined => [memberText "role" "undefined".toList]
    | .given role => [memberText "role" (quote role)]
  objectText ([memberText "id" (quote signer.id)] ++ role ++
    [memberText "serial" (quote signer.serial), memberText "subject" (quote signer.subject)])

/-- `sequentialSignatureDigest`; of the envelope it reads the payload's hash and the last digest. -/
def sequentialSignatureDigest (platform : Platform) (payloadSha256 : JsString)
    (signatures : List SequentialSignatureEntry) (signer : SequentialSignerRef) (order : Nat)
    (signedAt : JsString) : JsString :=
  let previousDigest := match signatures.getLast? with
    | some signature => quote signature.digest
    | none => "null".toList
  platform.sha256 (String.ofList (objectText
    [memberText "order" (numberText (ofNat order)),
      memberText "payloadSha256" (quote payloadSha256), memberText "previousDigest" previousDigest,
      memberText "signedAt" (quote signedAt), memberText "signer" (signerText signer)])).toUTF8

def create (platform : Platform) (options : Options) (payload : Bytes) : SequentialEnvelope where
  payloadBase64 := platform.toBase64 payload
  payloadSha256 := platform.sha256 payload
  signatures := []
  expectedSignerIds := options.expectedSignerIds
  allowedReaderRoles := options.allowedReaderRoles.getD []
  published := false

def refusesSigner (expectedSignerIds : List JsString) (index : Nat) (signerId : JsString) : Bool :=
  match expectedSignerIds[index]? with
  | some expectedSignerId => expectedSignerId ≠ [] && expectedSignerId ≠ signerId
  | none => false

/-- A position in a message. -/
def orderText (order : Nat) : JsString := (numberText (ofNat order)).map CodePoint.scalar

/-- `append`; `clock` is the clock's text, which an invalid date does not have. -/
def append (platform : Platform) (envelope : SequentialEnvelope) (signer : SequentialSignerRef)
    (clock : Option JsString) : Except JsString SequentialEnvelope :=
  let nextOrder := envelope.signatures.length + 1
  if refusesSigner envelope.expectedSignerIds (nextOrder - 1) signer.id then
    .error (ofString "Signer " ++ signer.id ++ ofString " cannot sign at order " ++
      orderText nextOrder)
  else
    match clock with
    | none => .error (ofString "Invalid time value")
    | some signedAt =>
      let digest := sequentialSignatureDigest platform envelope.payloadSha256 envelope.signatures
        signer nextOrder signedAt
      .ok { envelope with
        signatures := envelope.signatures ++ [⟨nextOrder, signer, digest, signedAt⟩] }

def publish (envelope : SequentialEnvelope) : Except JsString SequentialEnvelope :=
  if envelope.signatures.length ≠ envelope.expectedSignerIds.length then
    .error (ofString "Cannot publish before all expected signers have signed")
  else .ok { envelope with published := true }

/-- The reasons that `verifySequentialEnvelope` finds at one signature. -/
def signatureReasons (platform : Platform) (envelope : SequentialEnvelope) (index : Nat)
    (signature : SequentialSignatureEntry) : List JsString :=
  let expectedOrder := index + 1
  (if signature.order ≠ expectedOrder then
    [ofString "signature order mismatch at " ++ orderText expectedOrder] else []) ++
  (if refusesSigner envelope.expectedSignerIds index signature.signer.id then
    [ofString "unexpected signer " ++ signature.signer.id ++ ofString " at order " ++
      orderText expectedOrder] else []) ++
  (if signature.digest ≠ sequentialSignatureDigest platform envelope.payloadSha256
      (envelope.signatures.take index) signature.signer signature.order signature.signedAt then
    [ofString "signature digest mismatch at order " ++ orderText expectedOrder] else [])

def reasons (platform : Platform) (envelope : SequentialEnvelope) : List JsString :=
  (if platform.sha256 (platform.fromBase64 envelope.payloadBase64) ≠ envelope.payloadSha256 then
    [ofString "payload hash mismatch"] else []) ++
  (envelope.signatures.zipIdx.flatMap fun entry =>
    signatureReasons platform envelope entry.2 entry.1)

structure SequentialVerifyResult where
  ok : Bool
  order : List JsString
  tampered : Bool
  reasons : List JsString

def verifySequentialEnvelope (platform : Platform) (envelope : SequentialEnvelope) :
    SequentialVerifyResult where
  ok := reasons platform envelope = []
  order := envelope.signatures.map fun signature => signature.signer.id
  tampered := reasons platform envelope ≠ []
  reasons := reasons platform envelope

structure SequentialReadResult where
  allowed : Bool
  payload : Option Bytes := none
  reasons : List JsString

def readSequentialEnvelope (platform : Platform) (envelope : SequentialEnvelope)
    (role : JsString) : SequentialReadResult :=
  let verified := verifySequentialEnvelope platform envelope
  if verified.ok = false then { allowed := false, reasons := verified.reasons }
  else if envelope.published = false then
    { allowed := false, reasons := [ofString "envelope is not published"] }
  else if 0 < envelope.allowedReaderRoles.length ∧ role ∉ envelope.allowedReaderRoles then
    { allowed := false, reasons := [ofString "role " ++ role ++ ofString " cannot read envelope"] }
  else
    { allowed := true, payload := some (platform.fromBase64 envelope.payloadBase64), reasons := [] }

inductive Call where
  | append (signer : SequentialSignerRef) (clock : Option JsString)
  | publish

/-- The envelope after a call; one that throws returns none, and the caller keeps its own. -/
def after (platform : Platform) (envelope : SequentialEnvelope) : Call → SequentialEnvelope
  | .append signer clock => (append platform envelope signer clock).toOption.getD envelope
  | .publish => (publish envelope).toOption.getD envelope

def step (platform : Platform) (envelope : SequentialEnvelope) (call : Call) :
    Option SequentialEnvelope := some (after platform envelope call)

def KeepsPublished (envelope : SequentialEnvelope) : Call → Prop
  | .append _ _ => envelope.published = false
  | .publish => True

instance (envelope : SequentialEnvelope) : ∀ call, Decidable (KeepsPublished envelope call)
  | .append _ _ => inferInstanceAs (Decidable (_ = _))
  | .publish => isTrue trivial

variable {platform : Platform} {envelope : SequentialEnvelope}

/-- The signature that an append adds. -/
def nextSignature (platform : Platform) (envelope : SequentialEnvelope)
    (signer : SequentialSignerRef) (signedAt : JsString) : SequentialSignatureEntry :=
  ⟨envelope.signatures.length + 1, signer, sequentialSignatureDigest platform
    envelope.payloadSha256 envelope.signatures signer (envelope.signatures.length + 1) signedAt,
    signedAt⟩

/-- What a call can do: nothing, sign at the next position, or publish what is complete. -/
inductive Effect (platform : Platform) (envelope : SequentialEnvelope) :
    Call → SequentialEnvelope → Prop where
  | thrown (call : Call) : Effect platform envelope call envelope
  | signed (signer : SequentialSignerRef) (signedAt : JsString)
      (expected : refusesSigner envelope.expectedSignerIds envelope.signatures.length signer.id =
        false) :
      Effect platform envelope (.append signer (some signedAt)) { envelope with
        signatures := envelope.signatures ++ [nextSignature platform envelope signer signedAt] }
  | published (complete : envelope.signatures.length = envelope.expectedSignerIds.length) :
      Effect platform envelope .publish { envelope with published := true }

theorem effect_after (platform : Platform) (envelope : SequentialEnvelope) (call : Call) :
    Effect platform envelope call (after platform envelope call) := by
  cases call with
  | append signer clock =>
    simp only [after, append, Nat.add_sub_cancel]
    by_cases hrefused : refusesSigner envelope.expectedSignerIds envelope.signatures.length signer.id
    · rw [if_pos hrefused]
      exact .thrown _
    · rw [if_neg hrefused]
      cases clock with
      | none => exact .thrown _
      | some signedAt => exact .signed signer signedAt (by simpa using hrefused)
  | publish =>
    rw [after, publish]
    by_cases hcomplete : envelope.signatures.length = envelope.expectedSignerIds.length
    · rw [if_neg (not_not.mpr hcomplete)]
      exact .published hcomplete
    · rw [if_pos hcomplete]
      exact .thrown _

/-- An envelope as the calls leave it. -/
structure Proper (platform : Platform) (options : Options) (payload : Bytes)
    (envelope : SequentialEnvelope) : Prop where
  base64 : envelope.payloadBase64 = platform.toBase64 payload
  hash : envelope.payloadSha256 = platform.sha256 payload
  expected : envelope.expectedSignerIds = options.expectedSignerIds
  /-- Nothing differs at any signature. -/
  entries : ∀ i signature, envelope.signatures[i]? = some signature →
    signatureReasons platform envelope i signature = []
  /-- No expected signer is missing once the envelope is published. -/
  complete : envelope.published = true →
    envelope.expectedSignerIds.length ≤ envelope.signatures.length

variable {index : Nat} {signature : SequentialSignatureEntry} {calls : List Call}
  {last : SequentialEnvelope} {id : JsString}

theorem signatureReasons_eq_nil :
    signatureReasons platform envelope index signature = [] ↔
      signature.order = index + 1 ∧
        refusesSigner envelope.expectedSignerIds index signature.signer.id = false ∧
        signature.digest = sequentialSignatureDigest platform envelope.payloadSha256
          (envelope.signatures.take index) signature.signer signature.order signature.signedAt := by
  simp [signatureReasons]

theorem proper_create (options : Options) (payload : Bytes) :
    Proper platform options payload (create platform options payload) where
  base64 := rfl
  hash := rfl
  expected := rfl
  entries i signature h := by cases h
  complete h := by cases h

variable {options : Options} {payload : Bytes}

theorem Proper.after (h : Proper platform options payload envelope) (call : Call) :
    Proper platform options payload (after platform envelope call) := by
  have heffect := effect_after platform envelope call
  generalize SequentialEnvelopes.after platform envelope call = next at heffect
  cases heffect with
  | thrown => exact h
  | signed signer signedAt hexpected =>
    refine ⟨h.base64, h.hash, h.expected, fun i signature hi => ?_, fun hpublished => ?_⟩
    · rw [signatureReasons_eq_nil]
      rcases Nat.lt_or_ge i envelope.signatures.length with hlt | hge
      · rw [List.getElem?_append_left hlt] at hi
        rw [List.take_append_of_le_length hlt.le]
        exact signatureReasons_eq_nil.mp (h.entries i signature hi)
      · have hlast : i = envelope.signatures.length := by
          have hbound := (List.getElem?_eq_some_iff.mp hi).1
          rw [List.length_append, List.length_singleton] at hbound
          omega
        subst hlast
        rw [List.getElem?_concat_length, Option.some.injEq] at hi
        subst hi
        rw [List.take_left]
        exact ⟨rfl, hexpected, rfl⟩
    · have hcomplete := h.complete hpublished
      exact hcomplete.trans (by simp)
  | published hcomplete =>
    exact ⟨h.base64, h.hash, h.expected, h.entries, fun _ => hcomplete.ge⟩

theorem Proper.run (h : Proper platform options payload envelope)
    (hrun : run (step platform) envelope calls = some last) :
    Proper platform options payload last := by
  refine run_invariant (I := Proper platform options payload) ?_ h hrun
  intro e call next hproper hstep
  cases hstep
  exact hproper.after call

theorem length_of_keepsPublished
    (h : envelope.published = true → envelope.signatures.length = envelope.expectedSignerIds.length)
    (hmeets : RunMeets (step platform) KeepsPublished envelope calls)
    (hrun : TransitionRuns.run (step platform) envelope calls = some last)
    (hpublished : last.published = true) :
    last.signatures.length = last.expectedSignerIds.length := by
  refine run_invariant_of_meets (I := fun e : SequentialEnvelope => e.published = true →
    e.signatures.length = e.expectedSignerIds.length) ?_ h hmeets hrun hpublished
  intro e call next hinv hkeeps hstep
  cases hstep
  have heffect := effect_after platform e call
  generalize SequentialEnvelopes.after platform e call = next at heffect
  cases heffect with
  | thrown => exact hinv
  | signed signer signedAt =>
    intro hpub
    have hopen : e.published = false := hkeeps
    rw [hopen] at hpub
    cases hpub
  | published hcomplete => exact fun _ => hcomplete

theorem signer_of_not_refused {expectedSignerIds : List JsString} {signerId : JsString}
    (hid : expectedSignerIds[index]? = some id)
    (h : refusesSigner expectedSignerIds index signerId = false) (hnamed : id ≠ []) :
    signerId = id := by
  simp only [refusesSigner, hid, ne_eq, Bool.and_eq_false_iff, decide_eq_false_iff_not,
    not_not] at h
  rcases h with hempty | hsame
  · exact absurd hempty hnamed
  · exact hsame.symm

theorem Proper.signer (h : Proper platform options payload envelope) {i : Nat}
    (hsignature : envelope.signatures[i]? = some signature)
    (hid : options.expectedSignerIds[i]? = some id) (hnamed : id ≠ []) :
    signature.signer.id = id := by
  obtain ⟨-, hexpected, -⟩ := signatureReasons_eq_nil.mp (h.entries i signature hsignature)
  rw [h.expected] at hexpected
  exact signer_of_not_refused hid hexpected hnamed

/-- A published envelope has a signature at the position of each expected signer, by this signer
where the position names one; when nothing was appended to it there are no others, and the signers
are the expected ones where all positions name one. -/
theorem published_envelope_signed (platform : Platform) (options : Options) (payload : Bytes)
    (calls : List Call) (last : SequentialEnvelope)
    (hrun : run (step platform) (create platform options payload) calls = some last)
    (hpublished : last.published = true) :
    (∀ (i : Nat) (id : JsString), options.expectedSignerIds[i]? = some id →
      ∃ signature, last.signatures[i]? = some signature ∧ (id ≠ [] → signature.signer.id = id)) ∧
    (RunMeets (step platform) KeepsPublished (create platform options payload) calls →
      last.signatures.length = options.expectedSignerIds.length ∧
      ((∀ id ∈ options.expectedSignerIds, id ≠ []) →
        (last.signatures.map fun signature => signature.signer.id) =
          options.expectedSignerIds)) := by
  have hproper := (proper_create options payload).run hrun
  have hcomplete := hproper.complete hpublished
  rw [hproper.expected] at hcomplete
  refine ⟨fun i id hid => ?_, fun hmeets => ?_⟩
  · have hi : i < last.signatures.length :=
      (List.getElem?_eq_some_iff.mp hid).1.trans_le hcomplete
    have hsignature := List.getElem?_eq_getElem hi
    exact ⟨last.signatures[i], hsignature, hproper.signer hsignature hid⟩
  · have hlength : last.signatures.length = options.expectedSignerIds.length := by
      rw [← hproper.expected]
      exact length_of_keepsPublished (fun h => by cases h) hmeets hrun hpublished
    refine ⟨hlength, fun hnamed => ?_⟩
    apply List.ext_getElem (by rw [List.length_map, hlength])
    intro i hi hexpected
    rw [List.getElem_map]
    rw [List.length_map] at hi
    exact hproper.signer (List.getElem?_eq_getElem hi) (List.getElem?_eq_getElem hexpected)
      (hnamed _ (List.getElem_mem hexpected))

/-- A platform with one hash and payloads that are written as they are. -/
def plainPlatform : Platform where
  sha256 _ := ofString "digest"
  toBase64 _ := []
  fromBase64 _ := ByteArray.empty

/-- What the clock says by default. -/
def epoch : Option JsString := some (ofString "1970-01-01T00:00:00.000Z")

def signerNamed (id : String) : SequentialSignerRef := ⟨ofString id, [], [], .absent⟩

/-- The signers of a published envelope that anybody may read after some calls. -/
def releasedSigners (options : Options) (calls : List Call) : Option (List JsString) :=
  match run (step plainPlatform) (create plainPlatform options ByteArray.empty) calls with
  | none => none
  | some last =>
    if (readSequentialEnvelope plainPlatform last []).allowed then
      some (last.signatures.map fun signature => signature.signer.id)
    else none

/-- A position without a name is open to any signer, and a published envelope to any other. -/
theorem released_signers_not_expected :
    releasedSigners { expectedSignerIds := [[]] } [.append (signerNamed "any-signer") epoch,
      .publish] = some [ofString "any-signer"] ∧
    releasedSigners { expectedSignerIds := [ofString "ada"] }
      [.append (signerNamed "ada") epoch, .publish,
        .append (signerNamed "eve") epoch] = some [ofString "ada", ofString "eve"] := by
  decide

def twoSigners : Options := { expectedSignerIds := [ofString "ada", ofString "bob"] }

/-- One attempt out of order, then both signatures and the publication. -/
def twoSignatures : List Call :=
  [.append (signerNamed "bob") epoch, .append (signerNamed "ada") epoch,
    .append (signerNamed "bob") epoch, .publish]

theorem published_envelope_signed_run :
    ∃ last, run (step plainPlatform) (create plainPlatform twoSigners ByteArray.empty)
        twoSignatures = some last ∧
      (last.signatures.map fun signature => signature.signer.id) =
        [ofString "ada", ofString "bob"] := by
  refine ⟨_, rfl, ?_⟩
  exact ((published_envelope_signed plainPlatform twoSigners ByteArray.empty twoSignatures _ rfl
    (by decide)).2 (by decide)).2 (by decide)

end Stynx.SequentialEnvelopes
