import Stynx.ExceptFolds
import Stynx.IsoInstants
import Stynx.JsonObjects

/-!
# Minutes manifests

`packages/signature/src/manifest.ts`: a manifest is prepared over a document
and a snapshot, receives one verified entry for each required signer, and is
sealed with the last. Each entry names the hash of the entry before it, the
first one that of the manifest without its signers, and the seal covers the
hashes of all entries.
-/

namespace Stynx.SignatureManifest

open JsonTokens CanonicalJson JsonObjects IsoInstants

/-- The bytes of a document, a snapshot or a signature. -/
abbrev Bytes := ByteArray

/-- A `Date`: its time value, or `none` for an invalid date. -/
abbrev Date := Option Int

inductive SignatureError where
  /-- `SignatureTrustError`. -/
  | trust (message : String)
  /-- `SignatureTrustUnavailableError`. -/
  | unavailable (message : String)
  /-- `SignatureProviderConfigurationError`. -/
  | configuration (message : String)
  /-- Anything else, such as a `TypeError`. -/
  | other (message : String)
  deriving DecidableEq

/-- The functions outside the package that the manifest rests on. -/
structure Platform where
  sha256Hex : Bytes → JsString
  /-- The certificate bytes of a PEM text: armour and blanks removed, then Base64. -/
  pemBytes : JsString → Bytes

def canonicalBytes (v : Json) : Bytes := (String.ofList (text v)).toUTF8

def Platform.hash (platform : Platform) (v : Json) : JsString :=
  platform.sha256Hex (canonicalBytes v)

def instant : Date → Except SignatureError JsString
  | some time =>
    if 0 < time then .ok ((toISOString time.toNat).map CodePoint.scalar)
    else .error (.trust "Real UTC instant required")
  | none => .error (.trust "Real UTC instant required")

def scalars : JsString → Option (List Char)
  | [] => some []
  | .scalar c :: rest => (scalars rest).map (c :: ·)
  | .surrogate _ :: _ => none

def isInstant : Option Value → Bool
  | some ⟨.str s, _⟩ =>
    match scalars s with
    | some text => fits template text && (parse text).any (0 < ·)
    | none => false
  | _ => false

structure SignatureCertificateRef where
  subject : JsString
  issuer : JsString
  serialNumber : JsString
  notBefore : Option Date := none
  notAfter : Option Date := none
  pem : Option JsString := none

structure SignatureTrustProfile where
  id : JsString
  revision : JsString
  production : Bool
  /-- Whether `minimumSignatureLevel` is `QUALIFIED`. -/
  qualified : Bool
  requiredPadesProfile : JsString
  requireTsa : Bool
  requireLta : Bool
  revocation : JsString
  trustAnchorsPem : List JsString
  acceptedPolicies : Option (List JsString) := none
  qualifiedPolicies : Option (List JsString) := none
  atTime : JsString

/-- The fields of `SignatureTrustProof` that a manifest uses. -/
structure SignatureTrustProof where
  profileId : JsString
  profileRevision : JsString
  achievedLevel : JsString
  padesProfile : JsString
  originalDocumentSha256 : JsString
  signedDocumentSha256 : JsString
  cmsSha256 : JsString
  signerCertificateSha256 : JsString
  chainSha256 : List JsString
  signedAt : Date
  tsaAt : Date
  verificationRef : JsString
  boundManifestSha256 : Option JsString

/-- The input of `verifySignedArtifact`. -/
structure ArtifactInput where
  tenantId : Option Value
  originalDocument : Bytes
  signedDocument : Bytes
  cmsSignature : Bytes
  certificate : SignatureCertificateRef
  profile : SignatureTrustProfile
  /-- The manifest hash that the signature has to cover. -/
  expectedManifestSha256 : Option Value

/-- `SignatureTrustVerifier`: it answers the same for the same input. -/
structure SignatureTrustVerifier where
  /-- `isCmsTrustVerifier`. -/
  branded : Bool
  verifySignedArtifact : ArtifactInput → Except SignatureError SignatureTrustProof

/-- The options of `SignatureManifestService`. -/
structure Options where
  verifier : Option SignatureTrustVerifier := none
  trustVerifier : Option SignatureTrustVerifier := none
  /-- `consumerOwnedVerifier?.acknowledged`. -/
  acknowledged : Bool := false
  /-- `resolveSignerCertificate`; it too answers the same for the same input. -/
  resolveSignerCertificate : Option (Option Value → JsString → Except SignatureError JsString) :=
    none

structure ManifestSignerArtifact where
  signerId : JsString
  signatureId : JsString
  signedDocument : Bytes
  cmsSignature : Bytes
  certificate : SignatureCertificateRef
  trustProfile : SignatureTrustProfile

structure ManifestPreparation where
  tenantId : JsString
  aggregateId : JsString
  documentId : JsString
  documentKind : JsString
  document : Bytes
  /-- The hash that the caller expects of the document. -/
  documentSha256 : JsString
  snapshot : Bytes
  /-- The hash that the caller expects of the snapshot. -/
  snapshotSha256 : JsString
  requiredSignerIds : List JsString
  preparedAt : Date

variable (platform : Platform) (options : Options)

def Options.theVerifier : Except SignatureError SignatureTrustVerifier :=
  match options.trustVerifier.or options.verifier with
  | some verifier => .ok verifier
  | none => .error (.trust "Trust verifier required")

def Options.kind (profile : SignatureTrustProfile) : Except SignatureError JsString := do
  let verifier ← options.theVerifier
  if profile.production ∧ ¬verifier.branded ∧ ¬options.acknowledged then
    throw (.configuration "Production trust verifier is unacknowledged")
  return ofString (if verifier.branded then "stynx-cms" else "consumer-owned")

def isSha256Hex (s : JsString) : Bool :=
  match scalars s with
  | some text => text.length == 64 && text.all fun c => c.isDigit || ('a' ≤ c && c ≤ 'f')
  | none => false

def Options.expectedCertificate (tenantId : Option Value) (signerId : JsString) :
    Except SignatureError JsString :=
  match options.resolveSignerCertificate with
  | none => .error (.configuration "Signer certificate resolver required")
  | some resolve =>
    match resolve tenantId signerId with
    | .error _ => .error (.unavailable "Signer certificate resolver unavailable")
    | .ok expected =>
      if isSha256Hex expected then .ok expected
      else .error (.unavailable "Signer certificate resolution unavailable")

/-- The members that `...base` leaves out. -/
def derivedKeys : List JsString :=
  [ofString "manifestSha256", ofString "signers", ofString "sealSha256"]

def baseHash (manifest : JsonObject) : JsString :=
  platform.hash (Json.obj
    ((manifest.without derivedKeys).set (ofString "signers") (.arr [])).members)

/-- The members that `prepare` gives a manifest before its hash. -/
def baseMembers (input : ManifestPreparation) (kind preparedAt : JsString)
    (ids : List (JsString × JsString)) : List (JsString × Value) :=
  [(ofString "manifestVersion", .str (ofString "1")),
    (ofString "canonicalization", .str (ofString "RFC8785-JCS")),
    (ofString "kind", .str kind), (ofString "tenantId", .str input.tenantId),
    (ofString "aggregateId", .str input.aggregateId),
    (ofString "documentId", .str input.documentId),
    (ofString "documentKind", .str input.documentKind),
    (ofString "documentSha256", .str input.documentSha256),
    (ofString "snapshotSha256", .str input.snapshotSha256),
    (ofString "requiredSignerIds", .arr (input.requiredSignerIds.map Value.str)),
    (ofString "preparedAt", .str preparedAt)] ++
    ids.map (fun id => (id.1, Value.str id.2)) ++ [(ofString "signers", .arr [])]

def objectOf (members : List (JsString × Value)) : JsonObject :=
  members.foldl (fun o m => o.set m.1 m.2) JsonObject.empty

def prepare (input : ManifestPreparation) (kind : JsString) (ids : List (JsString × JsString)) :
    Except SignatureError JsonObject := do
  if platform.sha256Hex input.document ≠ input.documentSha256 ∨
      platform.sha256Hex input.snapshot ≠ input.snapshotSha256 then
    throw (.trust "Document or snapshot hash differs")
  if input.requiredSignerIds = [] ∨ ¬input.requiredSignerIds.Nodup then
    throw (.trust "Required signers are absent or duplicated")
  let preparedAt ← instant input.preparedAt
  let base := objectOf (baseMembers input kind preparedAt ids)
  return base.set (ofString "manifestSha256") (.str (platform.hash (Json.obj base.members)))

def prepareSession (input : ManifestPreparation) (sessionId minutesId : JsString) :
    Except SignatureError JsonObject :=
  prepare platform input (ofString "session-minutes")
    [(ofString "sessionId", sessionId), (ofString "minutesId", minutesId)]

def prepareBatch (input : ManifestPreparation) (batchId : JsString) :
    Except SignatureError JsonObject :=
  prepare platform input (ofString "batch-minutes") [(ofString "batchId", batchId)]

/-- A member of a value; only objects have the members that are read here. -/
def prop (v : Option Value) (key : JsString) : Option Value :=
  (v.bind Value.object).bind fun o => o.get key

/-- The items of a member that its type makes an array. -/
def arrayOf (v : Option Value) : Except SignatureError (List Value) :=
  match v.bind Value.items with
  | some xs => .ok xs
  | none => .error (.other "TypeError")

/-- Whether a value counts as true. -/
def truthy : Option Value → Bool
  | none => false
  | some ⟨.null, _⟩ => false
  | some ⟨.bool b, _⟩ => b
  | some ⟨.num n, _⟩ => n != .zero
  | some ⟨.str s, _⟩ => s != []
  | some _ => true

def orElse (v other : Option Value) : Option Value :=
  match v with
  | none => other
  | some ⟨.null, _⟩ => other
  | some v => some v

def sharesEvidence (entry : Value) (cmsSha256 signatureId signerCertificateSha256 : Option Value) :
    Bool :=
  strictEq (prop entry (ofString "cmsSha256")) cmsSha256 ||
    strictEq (prop entry (ofString "signatureId")) signatureId ||
    strictEq (prop entry (ofString "signerCertificateSha256")) signerCertificateSha256

/-- Whether one of the entries shares evidence with a signer; `null` has no members to read. -/
def anyShares (cmsSha256 signatureId signerCertificateSha256 : Option Value) :
    List Value → Except SignatureError Bool
  | [] => .ok false
  | entry :: rest =>
    if entry.val.kind = .null then .error (.other "TypeError")
    else if sharesEvidence entry cmsSha256 signatureId signerCertificateSha256 then .ok true
    else anyShares cmsSha256 signatureId signerCertificateSha256 rest

/-- The hash of an artifact's certificate. -/
def certificateSha256 (certificate : SignatureCertificateRef) : JsString :=
  match certificate.pem with
  | some pem => if pem = [] then [] else platform.sha256Hex (platform.pemBytes pem)
  | none => []

/-- Whether a proof is about another document, artifact, profile or level. -/
def proofDiffers (manifest : JsonObject) (artifact : ManifestSignerArtifact)
    (proof : SignatureTrustProof) : Prop :=
  strictEq (manifest.get (ofString "documentSha256")) (some (.str proof.originalDocumentSha256)) =
      false ∨
    proof.signedDocumentSha256 ≠ platform.sha256Hex artifact.signedDocument ∨
    proof.cmsSha256 ≠ platform.sha256Hex artifact.cmsSignature ∨
    proof.profileId ≠ artifact.trustProfile.id ∨
    proof.profileRevision ≠ artifact.trustProfile.revision ∨
    proof.signerCertificateSha256 ≠ certificateSha256 platform artifact.certificate ∨
    (artifact.trustProfile.qualified = true ∧ proof.achievedLevel ≠ ofString "QUALIFIED")

instance (manifest : JsonObject) (artifact : ManifestSignerArtifact)
    (proof : SignatureTrustProof) : Decidable (proofDiffers platform manifest artifact proof) :=
  inferInstanceAs (Decidable (_ ∨ _))

def entryMembers (verifierKind expectedSignerCertificateSha256 : JsString) (order : Nat)
    (artifact : ManifestSignerArtifact) (proof : SignatureTrustProof) (signedAt tsaAt : JsString)
    (previousEntryHash manifestSha256 : Value) : List (JsString × Value) :=
  [(ofString "verifierKind", .str verifierKind),
    (ofString "expectedSignerCertificateSha256", .str expectedSignerCertificateSha256),
    (ofString "order", .nat order), (ofString "signerId", .str artifact.signerId),
    (ofString "signatureId", .str artifact.signatureId), (ofString "signedAt", .str signedAt),
    (ofString "tsaAt", .str tsaAt),
    (ofString "signedDocumentSha256", .str (platform.sha256Hex artifact.signedDocument)),
    (ofString "cmsSha256", .str (platform.sha256Hex artifact.cmsSignature)),
    (ofString "signerCertificateSha256", .str proof.signerCertificateSha256),
    (ofString "chainSha256", .arr (proof.chainSha256.map Value.str)),
    (ofString "padesProfile", .str proof.padesProfile),
    (ofString "achievedLevel", .str proof.achievedLevel),
    (ofString "verificationRef", .str proof.verificationRef),
    (ofString "profileRevision", .str proof.profileRevision),
    (ofString "previousEntryHash", previousEntryHash), (ofString "manifestSha256", manifestSha256)]

def withEntryHash (entry : JsonObject) : JsonObject :=
  entry.set (ofString "entryHash") (.str (platform.hash (Json.obj entry.members)))

/-- `hash({manifestSha256,entryHashes})`; an absent hash has no JSON text. -/
def sealHash (manifestSha256 : Option Value) (entries : List Value) :
    Except SignatureError JsString :=
  match manifestSha256, entries.mapM fun entry => prop (some entry) (ofString "entryHash") with
  | some sha, some hashes =>
    .ok (platform.hash (Json.obj (objectOf [(ofString "manifestSha256", sha),
      (ofString "entryHashes", .arr hashes)]).members))
  | _, _ => .error (.trust "Manifest contains a non-JSON value")

/-- Whether the manifest is not the one over this document and snapshot. -/
def bindingDiffers (manifest : JsonObject) (sourceDocument snapshot : Bytes) : Prop :=
  strictEq (manifest.get (ofString "manifestVersion")) (some (.str (ofString "1"))) = false ∨
    strictEq (manifest.get (ofString "canonicalization")) (some (.str (ofString "RFC8785-JCS"))) =
      false ∨
    strictEq (manifest.get (ofString "manifestSha256")) (some (.str (baseHash platform manifest))) =
      false ∨
    strictEq (manifest.get (ofString "documentSha256"))
      (some (.str (platform.sha256Hex sourceDocument))) = false ∨
    strictEq (manifest.get (ofString "snapshotSha256"))
      (some (.str (platform.sha256Hex snapshot))) = false

instance (manifest : JsonObject) (sourceDocument snapshot : Bytes) :
    Decidable (bindingDiffers platform manifest sourceDocument snapshot) :=
  inferInstanceAs (Decidable (_ ∨ _))

def artifactInput (manifest : JsonObject) (artifact : ManifestSignerArtifact)
    (sourceDocument : Bytes) : ArtifactInput where
  tenantId := manifest.get (ofString "tenantId")
  originalDocument := sourceDocument
  signedDocument := artifact.signedDocument
  cmsSignature := artifact.cmsSignature
  certificate := artifact.certificate
  profile := artifact.trustProfile
  expectedManifestSha256 := manifest.get (ofString "manifestSha256")

def appendVerifiedSigner (manifest : JsonObject) (artifact : ManifestSignerArtifact)
    (sourceDocument snapshot : Bytes) : Except SignatureError JsonObject := do
  let manifestSha256 := manifest.get (ofString "manifestSha256")
  let signers ← arrayOf (manifest.get (ofString "signers"))
  let required ← arrayOf (manifest.get (ofString "requiredSignerIds"))
  if bindingDiffers platform manifest sourceDocument snapshot ∨
      required.length ≤ signers.length ∨ truthy (manifest.get (ofString "sealSha256")) = true then
    .error (.trust "Manifest binding differs")
  else if strictEq required[signers.length]? (some (.str artifact.signerId)) = false then
    .error (.trust "Signer order differs")
  else do
    let expected ← options.expectedCertificate (manifest.get (ofString "tenantId"))
      artifact.signerId
    let verifierKind ← options.kind artifact.trustProfile
    let verifier ← options.theVerifier
    let proof ← verifier.verifySignedArtifact (artifactInput manifest artifact sourceDocument)
    if strictEq manifestSha256 (proof.boundManifestSha256.map Value.str) = false then
      .error (.trust "CMS signed manifest binding differs")
    else if proofDiffers platform manifest artifact proof then
      .error (.trust "Signer trust proof differs from artifact")
    else if proof.signerCertificateSha256 ≠ expected then
      .error (.trust "Signer identity or duplicate evidence differs")
    else do
      let shared ← anyShares (some (.str proof.cmsSha256)) (some (.str artifact.signatureId))
        (some (.str proof.signerCertificateSha256)) signers
      if shared = true then .error (.trust "Signer identity or duplicate evidence differs")
      else do
        let signedAt ← instant proof.signedAt
        let tsaAt ← instant proof.tsaAt
        let previous := orElse (prop signers.getLast? (ofString "entryHash")) manifestSha256
        match previous, manifestSha256 with
        | some previousEntryHash, some sha =>
          let entry := objectOf (entryMembers platform verifierKind expected (signers.length + 1)
            artifact proof signedAt tsaAt previousEntryHash sha)
          let next := signers ++ [Value.obj (withEntryHash platform entry)]
          let appended := manifest.set (ofString "signers") (.arr next)
          if next.length = required.length then
            (sealHash platform (some sha) next).map fun sealSha256 =>
              appended.set (ofString "sealSha256") (.str sealSha256)
          else .ok appended
        | _, _ => .error (.trust "Manifest contains a non-JSON value")

/-- A status other than `valid`. -/
inductive Refusal where
  | tampered (reason : String)
  | untrusted (reason : String)
  | unavailable
  deriving DecidableEq

/-- The outcome of `verifyManifest`. -/
inductive VerifyStatus where
  | valid
  /-- Any other status. -/
  | refused (refusal : Refusal)
  deriving DecidableEq

/-- How the body of `verifyManifest` is left early. -/
inductive Exit where
  | returned (refusal : Refusal)
  | thrown (error : SignatureError)

def require (ok : Bool) (refusal : Refusal) : Except Exit Unit :=
  if ok then .ok () else .error (.returned refusal)

/-- Go on with the result of a call, or leave with what it throws. -/
def call {α : Type} (result : Except SignatureError α) : Except Exit α :=
  result.mapError Exit.thrown

/-- Go on with a value, or leave with a `TypeError`. -/
def defined {α : Type} (value : Option α) : Except Exit α :=
  match value with
  | some a => .ok a
  | none => .error (.thrown (.other "TypeError"))

def fieldsHash (entry : Value) : JsString :=
  platform.hash (Json.obj
    (((entry.object).getD JsonObject.empty).without [ofString "entryHash"]).members)

/-- The members of an entry that `verifyManifest` compares before it asks anyone. -/
def entryBound (manifest : JsonObject) (index : Nat) (previous : Option Value) (entry : Value)
    (artifact : ManifestSignerArtifact) : Bool :=
  strictEq (prop entry (ofString "order")) (some (.nat (index + 1))) &&
    strictEq (prop entry (ofString "signerId"))
      (elementAt (manifest.get (ofString "requiredSignerIds")) index) &&
    strictEq (prop entry (ofString "signerId")) (some (.str artifact.signerId)) &&
    strictEq (prop entry (ofString "previousEntryHash")) previous &&
    strictEq (prop entry (ofString "manifestSha256")) (manifest.get (ofString "manifestSha256")) &&
    isInstant (prop entry (ofString "signedAt")) && isInstant (prop entry (ofString "tsaAt")) &&
    strictEq (prop entry (ofString "entryHash")) (some (.str (fieldsHash platform entry))) &&
    strictEq (prop entry (ofString "signedDocumentSha256"))
      (some (.str (platform.sha256Hex artifact.signedDocument))) &&
    strictEq (prop entry (ofString "cmsSha256"))
      (some (.str (platform.sha256Hex artifact.cmsSignature)))

/-- What a proof has to share with its entry, apart from the time. -/
def proofMatches (manifest : JsonObject) (entry : Value) (expected : JsString)
    (proof : SignatureTrustProof) : Bool :=
  strictEq (manifest.get (ofString "manifestSha256")) (proof.boundManifestSha256.map Value.str) &&
    strictEq (prop entry (ofString "signerCertificateSha256"))
      (some (.str proof.signerCertificateSha256)) &&
    proof.signerCertificateSha256 == expected &&
    strictEq (prop entry (ofString "profileRevision")) (some (.str proof.profileRevision)) &&
    strictEq (prop entry (ofString "achievedLevel")) (some (.str proof.achievedLevel)) &&
    strictEq (prop entry (ofString "padesProfile")) (some (.str proof.padesProfile)) &&
    strictEq (prop entry (ofString "verificationRef")) (some (.str proof.verificationRef))

/-- One turn of the loop of `verifyManifest`, with the hash that the next entry has to name. -/
def verifyEntry (manifest : JsonObject) (sourceDocument : Bytes)
    (earlier : Option (List Value)) (index : Nat) (previous : Option Value) (entry : Option Value)
    (artifact : ManifestSignerArtifact) : Except Exit (Option Value) := do
  let entry ← defined (entry.filter fun v => v.val.kind ≠ .null)
  require (entryBound platform manifest index previous entry artifact) (.tampered "SIGNER_BINDING")
  let verifierKind ← call (options.kind artifact.trustProfile)
  require (strictEq (prop entry (ofString "verifierKind")) (some (.str verifierKind)))
    (.tampered "VERIFIER_KIND_BINDING")
  let expected ← call (options.expectedCertificate (manifest.get (ofString "tenantId"))
    artifact.signerId)
  require (strictEq (prop entry (ofString "expectedSignerCertificateSha256"))
    (some (.str expected))) (.tampered "SIGNER_IDENTITY_BINDING")
  let earlier ← defined earlier
  let shared ← call (anyShares (prop entry (ofString "cmsSha256"))
    (prop entry (ofString "signatureId")) (prop entry (ofString "signerCertificateSha256")) earlier)
  require (!shared) (.tampered "SIGNER_IDENTITY_BINDING")
  let verifier ← call options.theVerifier
  let proof ← call (verifier.verifySignedArtifact (artifactInput manifest artifact sourceDocument))
  require (proofMatches manifest entry expected proof) (.untrusted "SIGNER_PROOF")
  let tsaAt ← call (instant proof.tsaAt)
  require (strictEq (prop entry (ofString "tsaAt")) (some (.str tsaAt))) (.untrusted "SIGNER_PROOF")
  return prop entry (ofString "entryHash")

def verifyEntries (manifest : JsonObject) (sourceDocument : Bytes) :
    Nat → Option Value → List ManifestSignerArtifact → Except Exit Unit
  | _, _, [] => .ok ()
  | index, previous, artifact :: rest => do
    let signers := manifest.get (ofString "signers")
    let next ← verifyEntry platform options manifest sourceDocument
      ((signers.bind Value.items).map (·.take index)) index previous (elementAt signers index)
      artifact
    verifyEntries manifest sourceDocument (index + 1) next rest

def verifyBody (manifest : JsonObject) (sourceDocument snapshot : Bytes)
    (artifacts : List ManifestSignerArtifact) : Except Exit Unit := do
  let signers := manifest.get (ofString "signers")
  let required := manifest.get (ofString "requiredSignerIds")
  let binding := Refusal.tampered "MANIFEST_BINDING"
  require (decide (¬bindingDiffers platform manifest sourceDocument snapshot) &&
    isInstant (manifest.get (ofString "preparedAt"))) binding
  let count ← defined (lengthOf signers)
  let wanted ← defined (lengthOf required)
  require (strictEq count wanted) binding
  require (strictEq count (some (.nat artifacts.length))) binding
  let distinct ← defined (setSize required)
  require (strictEq wanted (some (.nat distinct))) binding
  verifyEntries platform options manifest sourceDocument 0
    (manifest.get (ofString "manifestSha256")) artifacts
  let entries ← defined (signers.bind Value.items)
  let sealSha256 ← call (sealHash platform (manifest.get (ofString "manifestSha256")) entries)
  require (strictEq (manifest.get (ofString "sealSha256")) (some (.str sealSha256)))
    (.tampered "SEAL_BINDING")

def verifyManifest (manifest : JsonObject) (sourceDocument snapshot : Bytes)
    (artifacts : List ManifestSignerArtifact) : Except SignatureError VerifyStatus :=
  match verifyBody platform options manifest sourceDocument snapshot artifacts with
  | .ok () => .ok .valid
  | .error (.returned refusal) => .ok (.refused refusal)
  | .error (.thrown (.configuration message)) => .error (.configuration message)
  | .error (.thrown (.unavailable _)) => .ok (.refused .unavailable)
  | .error (.thrown _) => .ok (.refused (.untrusted "TRUST_PROOF_FAILED"))

end Stynx.SignatureManifest
