import Mathlib.Data.List.Induction
import Stynx.SignatureManifestBinding

/-!
# What is built verifies

Each signer that `appendVerifiedSigner` takes in leaves an entry on which a turn
of the loop of `verifyManifest` succeeds: the turn reads the base, the entries
before its own and its own entry, and none of them changes later.
-/

namespace Stynx.SignatureManifest

open JsonTokens CanonicalJson JsonObjects IsoInstants ExceptFolds

variable {platform : Platform} {options : Options}

theorem objectOf_snoc (members : List (JsString × Value)) (key : JsString) (value : Value) :
    objectOf (members ++ [(key, value)]) = (objectOf members).set key value := by
  rw [objectOf, List.foldl_append]
  rfl

variable {key s kind : JsString} {input : ManifestPreparation} {ids : List (JsString × JsString)}
  {manifest next earlier later : JsonObject} {artifact : ManifestSignerArtifact}
  {sourceDocument snapshot : Bytes} {entries : List Value} {required : Nat}
  {done artifacts : List ManifestSignerArtifact}

theorem get_objectOf_eq_none {members : List (JsString × Value)} (h : key ∉ members.map Prod.fst) :
    (objectOf members).get key = none := by
  induction members using List.reverseRecOn with
  | nil => rfl
  | append_singleton members m ih =>
    rw [List.map_append, List.mem_append, not_or, List.map_singleton, List.mem_singleton] at h
    rw [objectOf_snoc, JsonObject.get_set_ne h.2]
    exact ih h.1

theorem get_objectOf {members : List (JsString × Value)} (h : (members.map Prod.fst).Nodup)
    {value : Value} (hmem : (key, value) ∈ members) :
    (objectOf members).get key = some value := by
  induction members using List.reverseRecOn with
  | nil => cases hmem
  | append_singleton members m ih =>
    rw [List.map_append, List.map_singleton, ← List.concat_eq_append, List.nodup_concat] at h
    rw [objectOf_snoc]
    rcases List.mem_append.mp hmem with hin | hlast
    · have hne : key ≠ m.1 := fun heq => h.1 (List.mem_map.mpr ⟨(key, value), hin, heq⟩)
      rw [JsonObject.get_set_ne hne]
      exact ih h.2 hin
    · rw [← List.mem_singleton.mp hlast]
      exact JsonObject.get_set_self _ _ _

theorem nodup_keys (names : List String) (h : names.Nodup) : (names.map ofString).Nodup :=
  h.map ofString_injective

theorem scalars_map (cs : List Char) : scalars (cs.map CodePoint.scalar) = some cs := by
  induction cs with
  | nil => rfl
  | cons c cs ih => rw [List.map_cons, scalars, ih]; rfl

theorem isInstant_of_instant {date : Date} (h : instant date = .ok s)
    (hyear : ∀ time, date = some time → time < year10000) : isInstant (some (.str s)) = true := by
  cases date with
  | none => cases h
  | some time =>
    rw [instant] at h
    split at h
    case isFalse => cases h
    case isTrue hpos =>
      have hs : s = (toISOString time.toNat).map CodePoint.scalar := (Except.ok.inj h).symm
      have hbefore : time.toNat < year10000 := by
        have hlt := hyear time rfl
        omega
      obtain ⟨hfits, hparse⟩ := parse_toISOString hbefore
      subst hs
      simp only [isInstant, Value.str]
      rw [scalars_map]
      simp [hfits, hparse, hpos]

/-- What both ways to prepare a manifest leave. -/
structure Prepared (platform : Platform) (input : ManifestPreparation) (manifest : JsonObject) :
    Prop where
  version : manifest.get (ofString "manifestVersion") = some (.str (ofString "1"))
  canonicalization :
    manifest.get (ofString "canonicalization") = some (.str (ofString "RFC8785-JCS"))
  required : manifest.get (ofString "requiredSignerIds") =
    some (.arr (input.requiredSignerIds.map Value.str))
  distinct : input.requiredSignerIds.Nodup
  nonempty : input.requiredSignerIds ≠ []
  preparedAt : ∃ s, instant input.preparedAt = .ok s ∧
    manifest.get (ofString "preparedAt") = some (.str s)
  signers : manifest.get (ofString "signers") = some (.arr [])
  unsealed : manifest.get (ofString "sealSha256") = none
  base : manifest.get (ofString "manifestSha256") = some (.str (baseHash platform manifest))

def baseNames (ids : List String) : List String :=
  ["manifestVersion", "canonicalization", "kind", "tenantId", "aggregateId", "documentId",
    "documentKind", "documentSha256", "snapshotSha256", "requiredSignerIds", "preparedAt"] ++ ids

theorem prepare_ok (h : prepare platform input kind ids = .ok manifest) :
    input.requiredSignerIds ≠ [] ∧ input.requiredSignerIds.Nodup ∧
      ∃ preparedAt, instant input.preparedAt = .ok preparedAt ∧
        manifest = (objectOf (baseMembers input kind preparedAt ids)).set
          (ofString "manifestSha256")
          (.str (platform.hash (Json.obj
            (objectOf (baseMembers input kind preparedAt ids)).members))) := by
  simp only [prepare] at h
  split at h
  case isTrue => cases h
  case isFalse =>
    split at h
    case isTrue => cases h
    case isFalse hrequired =>
      rw [not_or, not_not] at hrequired
      obtain ⟨preparedAt, hinstant, h⟩ := bind_eq_ok.mp h
      exact ⟨hrequired.1, hrequired.2, preparedAt, hinstant, (Except.ok.inj h).symm⟩

/-- The members of a prepared manifest before `signers`. -/
def plainMembers (input : ManifestPreparation) (kind preparedAt : JsString)
    (ids : List (JsString × JsString)) : List (JsString × Value) :=
  (baseMembers input kind preparedAt ids).dropLast

theorem baseMembers_eq (input : ManifestPreparation) (kind preparedAt : JsString)
    (ids : List (JsString × JsString)) : baseMembers input kind preparedAt ids =
      plainMembers input kind preparedAt ids ++ [(ofString "signers", .arr [])] := by
  rw [plainMembers, baseMembers, List.dropLast_concat]

theorem plainMembers_keys {preparedAt : JsString} {names : List String}
    (h : ids.map Prod.fst = names.map ofString) :
    (plainMembers input kind preparedAt ids).map Prod.fst = (baseNames names).map ofString := by
  rw [plainMembers, baseMembers, List.dropLast_concat, List.map_append, List.map_map, baseNames,
    List.map_append, ← h]
  rfl

theorem prepare_spec (names : List String) (hnames : ids.map Prod.fst = names.map ofString)
    (hnodup : (baseNames names).Nodup)
    (hother : ∀ name ∈ ["manifestSha256", "signers", "sealSha256"], name ∉ baseNames names)
    (h : prepare platform input kind ids = .ok manifest) : Prepared platform input manifest := by
  obtain ⟨hnonempty, hdistinct, preparedAt, hinstant, hmanifest⟩ := prepare_ok h
  rw [baseMembers_eq, objectOf_snoc] at hmanifest
  have hkeys : (plainMembers input kind preparedAt ids).map Prod.fst =
      (baseNames names).map ofString := plainMembers_keys hnames
  have hplain : ∀ {name : String} {value : Value}, name ∉ ["manifestSha256", "signers"] →
      (ofString name, value) ∈ baseMembers input kind preparedAt ids →
      manifest.get (ofString name) = some value := by
    intro name value hname hmem
    simp only [List.mem_cons, List.not_mem_nil, or_false, not_or] at hname
    rw [hmanifest, JsonObject.get_set_ne (key_ne hname.1), JsonObject.get_set_ne (key_ne hname.2)]
    rw [baseMembers_eq, List.mem_append, List.mem_singleton] at hmem
    rcases hmem with hmem | hsigners
    · exact get_objectOf (by rw [hkeys]; exact nodup_keys _ hnodup) hmem
    · exact absurd (congrArg Prod.fst hsigners) (key_ne hname.2)
  have hfresh : ∀ name ∈ ["manifestSha256", "signers", "sealSha256"],
      (objectOf (plainMembers input kind preparedAt ids)).get (ofString name) = none := by
    intro name hname
    refine get_objectOf_eq_none ?_
    rw [hkeys, List.mem_map_of_injective ofString_injective]
    exact hother name hname
  refine ⟨hplain (by decide) (by simp [baseMembers]),
    hplain (by decide) (by simp [baseMembers]),
    hplain (by decide) (by simp [baseMembers]), hdistinct, hnonempty,
    ⟨preparedAt, hinstant, hplain (by decide) (by simp [baseMembers])⟩, ?_, ?_, ?_⟩
  · rw [hmanifest, JsonObject.get_set_ne (key_ne (by decide)), JsonObject.get_set_self]
  · rw [hmanifest, JsonObject.get_set_ne (key_ne (by decide)),
      JsonObject.get_set_ne (key_ne (by decide))]
    exact hfresh "sealSha256" (by simp)
  · have hwithout : manifest.without derivedKeys =
        objectOf (plainMembers input kind preparedAt ids) := by
      rw [hmanifest, JsonObject.without_set (by simp [derivedKeys]),
        JsonObject.without_set (by simp [derivedKeys])]
      refine JsonObject.without_eq_self fun key hkey => ?_
      simp only [derivedKeys, List.mem_cons, List.not_mem_nil, or_false] at hkey
      obtain rfl | rfl | rfl := hkey
      · exact hfresh _ (by simp)
      · exact hfresh _ (by simp)
      · exact hfresh _ (by simp)
    rw [baseHash, hwithout, hmanifest, JsonObject.get_set_self]

/-- Both ways to prepare a manifest. -/
def PreparedBy (platform : Platform) (input : ManifestPreparation) (manifest : JsonObject) : Prop :=
  (∃ sessionId minutesId, prepareSession platform input sessionId minutesId = .ok manifest) ∨
    ∃ batchId, prepareBatch platform input batchId = .ok manifest

theorem PreparedBy.prepared (h : PreparedBy platform input manifest) :
    Prepared platform input manifest := by
  rcases h with ⟨sessionId, minutesId, h⟩ | ⟨batchId, h⟩
  · exact prepare_spec ["sessionId", "minutesId"] rfl (by decide) (by decide) h
  · exact prepare_spec ["batchId"] rfl (by decide) (by decide) h

def newEntry (platform : Platform) (verifierKind expected : JsString) (order : Nat)
    (artifact : ManifestSignerArtifact) (proof : SignatureTrustProof) (signedAt tsaAt : JsString)
    (previousEntryHash manifestSha256 : Value) : JsonObject :=
  withEntryHash platform (objectOf (entryMembers platform verifierKind expected order artifact proof
    signedAt tsaAt previousEntryHash manifestSha256))

/-- What `appendVerifiedSigner` has found out before it builds an entry. -/
structure Accepted (platform : Platform) (options : Options) (manifest : JsonObject)
    (artifact : ManifestSignerArtifact) (sourceDocument : Bytes) (entries : List Value)
    (verifierKind expected : JsString) (proof : SignatureTrustProof) (signedAt tsaAt : JsString) :
    Prop where
  kind : options.kind artifact.trustProfile = .ok verifierKind
  /-- The certificate that the signer has to use. -/
  certificate : options.expectedCertificate (manifest.get (ofString "tenantId"))
    artifact.signerId = .ok expected
  /-- The verifier's answer. -/
  proved : ∃ verifier, options.theVerifier = .ok verifier ∧
    verifier.verifySignedArtifact (artifactInput manifest artifact sourceDocument) = .ok proof
  /-- The signature covers the manifest. -/
  bound : strictEq (manifest.get (ofString "manifestSha256"))
    (proof.boundManifestSha256.map Value.str) = true
  agrees : ¬proofDiffers platform manifest artifact proof
  identity : proof.signerCertificateSha256 = expected
  /-- No earlier entry shares its evidence. -/
  fresh : anyShares (some (.str proof.cmsSha256)) (some (.str artifact.signatureId))
    (some (.str proof.signerCertificateSha256)) entries = .ok false
  signed : instant proof.signedAt = .ok signedAt
  stamped : instant proof.tsaAt = .ok tsaAt

/-- The names of the members of an entry before its hash. -/
def entryNames : List String :=
  ["verifierKind", "expectedSignerCertificateSha256", "order", "signerId", "signatureId",
    "signedAt", "tsaAt", "signedDocumentSha256", "cmsSha256", "signerCertificateSha256",
    "chainSha256", "padesProfile", "achievedLevel", "verificationRef", "profileRevision",
    "previousEntryHash", "manifestSha256"]

variable {verifierKind expected : JsString} {order : Nat} {artifact : ManifestSignerArtifact}
  {proof : SignatureTrustProof} {signedAt tsaAt : JsString}
  {previousEntryHash manifestSha256 : Value}

theorem prop_newEntry (name : String) (value : Value) (hname : name ≠ "entryHash")
    (hmem : (ofString name, value) ∈ entryMembers platform verifierKind expected order artifact
      proof signedAt tsaAt previousEntryHash manifestSha256) :
    prop (some (.obj (newEntry platform verifierKind expected order artifact proof signedAt tsaAt
      previousEntryHash manifestSha256))) (ofString name) = some value := by
  have hkeys : ((entryMembers platform verifierKind expected order artifact proof signedAt tsaAt
      previousEntryHash manifestSha256).map Prod.fst).Nodup :=
    nodup_keys entryNames (by decide)
  refine prop_eq_some.mpr ⟨_, rfl, ?_⟩
  rw [newEntry, withEntryHash, JsonObject.get_set_ne (key_ne hname)]
  exact get_objectOf hkeys hmem

theorem holdsHash_newEntry : prop (some (.obj (newEntry platform verifierKind expected order
    artifact proof signedAt tsaAt previousEntryHash manifestSha256))) (ofString "entryHash") =
      some (.str (fieldsHash platform (.obj (newEntry platform verifierKind expected order artifact
        proof signedAt tsaAt previousEntryHash manifestSha256)))) := by
  have hfresh : (objectOf (entryMembers platform verifierKind expected order artifact proof
      signedAt tsaAt previousEntryHash manifestSha256)).get (ofString "entryHash") = none := by
    refine get_objectOf_eq_none fun hmem => ?_
    have hname : ofString "entryHash" ∈ entryNames.map ofString := hmem
    rw [List.mem_map_of_injective ofString_injective] at hname
    exact absurd hname (by decide)
  refine prop_eq_some.mpr ⟨_, rfl, ?_⟩
  rw [fieldsHash, Value.object_obj, Option.getD_some, newEntry, withEntryHash,
    JsonObject.get_set_self, JsonObject.without_set (.head _),
    JsonObject.without_eq_self fun key hkey => by rw [List.mem_singleton.mp hkey]; exact hfresh]

theorem verifyEntry_of_accepted {verifierKind expected : JsString} {proof : SignatureTrustProof}
    {signedAt tsaAt : JsString} (previous : JsString)
    (h : Accepted platform options manifest artifact sourceDocument entries verifierKind expected
      proof signedAt tsaAt)
    (hsha : manifest.get (ofString "manifestSha256") = some (.str s))
    (hsigner : elementAt (manifest.get (ofString "requiredSignerIds")) entries.length =
      some (.str artifact.signerId))
    (hsigned : ∀ time, proof.signedAt = some time → time < year10000)
    (hstamped : ∀ time, proof.tsaAt = some time → time < year10000) :
    verifyEntry platform options manifest sourceDocument (some entries) entries.length
      (some (.str previous))
      (some (.obj (newEntry platform verifierKind expected (entries.length + 1) artifact proof
        signedAt tsaAt (.str previous) (.str s)))) artifact =
      .ok (prop (some (.obj (newEntry platform verifierKind expected (entries.length + 1) artifact
        proof signedAt tsaAt (.str previous) (.str s)))) (ofString "entryHash")) := by
  set entry := newEntry platform verifierKind expected (entries.length + 1) artifact proof signedAt
    tsaAt (.str previous) (.str s) with hentry
  have hmember : ∀ (name : String) (value : Value), name ≠ "entryHash" →
      (ofString name, value) ∈ entryMembers platform verifierKind expected (entries.length + 1)
        artifact proof signedAt tsaAt (.str previous) (.str s) →
      prop (some (.obj entry)) (ofString name) = some value := fun name value hname hmem =>
    prop_newEntry name value hname hmem
  have hkind := hmember "verifierKind" (.str verifierKind) (by decide) (by simp [entryMembers])
  have hexpected := hmember "expectedSignerCertificateSha256" (.str expected) (by decide)
    (by simp [entryMembers])
  have horder := hmember "order" (.nat (entries.length + 1)) (by decide) (by simp [entryMembers])
  have hsignerId := hmember "signerId" (.str artifact.signerId) (by decide) (by simp [entryMembers])
  have hsignatureId := hmember "signatureId" (.str artifact.signatureId) (by decide)
    (by simp [entryMembers])
  have hsignedAt := hmember "signedAt" (.str signedAt) (by decide) (by simp [entryMembers])
  have htsaAt := hmember "tsaAt" (.str tsaAt) (by decide) (by simp [entryMembers])
  have hdocument := hmember "signedDocumentSha256" (.str (platform.sha256Hex artifact.signedDocument)) (by decide)
    (by simp [entryMembers])
  have hcms := hmember "cmsSha256" (.str (platform.sha256Hex artifact.cmsSignature)) (by decide)
    (by simp [entryMembers])
  have hcertificate := hmember "signerCertificateSha256" (.str proof.signerCertificateSha256) (by decide)
    (by simp [entryMembers])
  have hpades := hmember "padesProfile" (.str proof.padesProfile) (by decide)
    (by simp [entryMembers])
  have hlevel := hmember "achievedLevel" (.str proof.achievedLevel) (by decide)
    (by simp [entryMembers])
  have href := hmember "verificationRef" (.str proof.verificationRef) (by decide)
    (by simp [entryMembers])
  have hrevision := hmember "profileRevision" (.str proof.profileRevision) (by decide)
    (by simp [entryMembers])
  have hbefore := hmember "previousEntryHash" (.str previous) (by decide) (by simp [entryMembers])
  have hmanifest := hmember "manifestSha256" (.str s) (by decide) (by simp [entryMembers])
  have hbound : entryBound platform manifest entries.length (some (.str previous)) (.obj entry)
      artifact = true := by
    simp only [entryBound, Bool.and_eq_true, hsigner, hsha, horder, hsignerId, hbefore, hmanifest,
      hdocument, hcms, hsignedAt, htsaAt, strictEq_str, strictEq_nat, and_true, true_and]
    exact ⟨⟨isInstant_of_instant h.signed hsigned, isInstant_of_instant h.stamped hstamped⟩,
      holdsHash_newEntry⟩
  have hmatches : proofMatches manifest (.obj entry) expected proof = true := by
    simp only [proofMatches, Bool.and_eq_true, hcertificate, hrevision, hlevel, hpades, href,
      strictEq_str, beq_iff_eq, and_true]
    exact ⟨h.bound, h.identity⟩
  have hproofCms : proof.cmsSha256 = platform.sha256Hex artifact.cmsSignature := by
    have hagrees := h.agrees
    simp only [proofDiffers, not_or, not_not] at hagrees
    exact hagrees.2.2.1
  have hfresh := h.fresh
  rw [hproofCms] at hfresh
  obtain ⟨verifier, hverifier, hproof⟩ := h.proved
  have hobject : (some (Value.obj entry)).filter (fun v => v.val.kind ≠ .null) =
      some (.obj entry) := rfl
  rw [verifyEntry]
  refine bind_eq_ok.mpr ⟨.obj entry, defined_eq_ok.mpr hobject, ?_⟩
  refine bind_eq_ok.mpr ⟨(), require_eq_ok.mpr hbound, ?_⟩
  refine bind_eq_ok.mpr ⟨verifierKind, call_eq_ok.mpr h.kind, ?_⟩
  refine bind_eq_ok.mpr ⟨(), require_eq_ok.mpr (strictEq_str.mpr hkind), ?_⟩
  refine bind_eq_ok.mpr ⟨expected, call_eq_ok.mpr h.certificate, ?_⟩
  refine bind_eq_ok.mpr ⟨(), require_eq_ok.mpr (strictEq_str.mpr hexpected), ?_⟩
  refine bind_eq_ok.mpr ⟨entries, defined_eq_ok.mpr rfl, ?_⟩
  refine bind_eq_ok.mpr ⟨false, call_eq_ok.mpr ?_, ?_⟩
  · rw [hcms, hsignatureId, hcertificate]
    exact hfresh
  refine bind_eq_ok.mpr ⟨(), require_eq_ok.mpr rfl, ?_⟩
  refine bind_eq_ok.mpr ⟨verifier, call_eq_ok.mpr hverifier, ?_⟩
  refine bind_eq_ok.mpr ⟨proof, call_eq_ok.mpr hproof, ?_⟩
  refine bind_eq_ok.mpr ⟨(), require_eq_ok.mpr hmatches, ?_⟩
  refine bind_eq_ok.mpr ⟨tsaAt, call_eq_ok.mpr h.stamped, ?_⟩
  exact bind_eq_ok.mpr ⟨(), require_eq_ok.mpr (strictEq_str.mpr htsaAt), rfl⟩

/-- A manifest with new entries, sealed when these are all. -/
def Extends (platform : Platform) (manifest next : JsonObject) (required : Nat) (sha : Value)
    (entries : List Value) : Prop :=
  if entries.length = required then
    ∃ sealSha256, sealHash platform (some sha) entries = .ok sealSha256 ∧
      next = (manifest.set (ofString "signers") (.arr entries)).set (ofString "sealSha256")
        (.str sealSha256)
  else next = manifest.set (ofString "signers") (.arr entries)

theorem arrayOf_arr (xs : List Value) : arrayOf (some (.arr xs)) = .ok xs := by
  rw [arrayOf, Option.bind_some, Value.items_arr]

theorem append_ok {required : List Value} {sha previous : Value}
    (hsigners : manifest.get (ofString "signers") = some (.arr entries))
    (hrequired : manifest.get (ofString "requiredSignerIds") = some (.arr required))
    (hsha : manifest.get (ofString "manifestSha256") = some sha)
    (hprevious : orElse (prop entries.getLast? (ofString "entryHash")) (some sha) = some previous)
    (h : appendVerifiedSigner platform options manifest artifact sourceDocument snapshot =
      .ok next) :
    ¬bindingDiffers platform manifest sourceDocument snapshot ∧
      required[entries.length]? = some (.str artifact.signerId) ∧
      ∃ verifierKind expected proof signedAt tsaAt,
        Accepted platform options manifest artifact sourceDocument entries verifierKind expected
          proof signedAt tsaAt ∧
        Extends platform manifest next required.length sha
          (entries ++ [.obj (newEntry platform verifierKind expected (entries.length + 1) artifact
            proof signedAt tsaAt previous sha)]) := by
  simp only [appendVerifiedSigner, hsigners, hrequired, arrayOf_arr, hsha] at h
  obtain ⟨_, heq, h⟩ := bind_eq_ok.mp h
  cases heq
  obtain ⟨_, heq, h⟩ := bind_eq_ok.mp h
  cases heq
  split at h
  case isTrue => cases h
  case isFalse hbinding =>
  split at h
  case isTrue => cases h
  case isFalse hsigner =>
  obtain ⟨expected, hexpected, h⟩ := bind_eq_ok.mp h
  obtain ⟨verifierKind, hkind, h⟩ := bind_eq_ok.mp h
  obtain ⟨verifier, hverifier, h⟩ := bind_eq_ok.mp h
  obtain ⟨proof, hproof, h⟩ := bind_eq_ok.mp h
  split at h
  case isTrue => cases h
  case isFalse hbound =>
  split at h
  case isTrue => cases h
  case isFalse hagrees =>
  split at h
  case isTrue => cases h
  case isFalse hidentity =>
  obtain ⟨shared, hshared, h⟩ := bind_eq_ok.mp h
  split at h
  case isTrue => cases h
  case isFalse hfresh =>
  obtain ⟨signedAt, hsigned, h⟩ := bind_eq_ok.mp h
  obtain ⟨tsaAt, hstamped, h⟩ := bind_eq_ok.mp h
  simp only [hprevious] at h
  rw [Bool.not_eq_true] at hfresh
  rw [hfresh] at hshared
  refine ⟨fun hdiffers => hbinding (.inl hdiffers), strictEq_str.mp (by simpa using hsigner),
    verifierKind, expected, proof, signedAt, tsaAt, ?_, ?_⟩
  · refine ⟨hkind, hexpected, ⟨verifier, hverifier, hproof⟩, ?_, hagrees, not_not.mp hidentity,
      hshared, hsigned, hstamped⟩
    rw [hsha]
    simpa using hbound
  · split at h
    case isTrue hlast =>
      obtain ⟨sealSha256, hseal, h⟩ := map_eq_ok.mp h
      exact (if_pos hlast).mpr ⟨sealSha256, hseal, h.symm⟩
    case isFalse hlast =>
      exact (if_neg hlast).mpr (Except.ok.inj h).symm

def lastHash (sha : Option Value) (entries : List Value) : Option Value :=
  orElse (prop entries.getLast? (ofString "entryHash")) sha

theorem orElse_str (s : JsString) (other : Option Value) :
    orElse (some (.str s)) other = some (.str s) := rfl

theorem lastHash_concat {sha : Option Value} {entry : Value} (h : HoldsHash platform entry) :
    lastHash sha (entries ++ [entry]) = prop (some entry) (ofString "entryHash") := by
  rw [lastHash, List.getLast?_concat, h.prop_eq, orElse_str]

theorem lastHash_eq_str (h : ∀ entry ∈ entries, HoldsHash platform entry) :
    ∃ previous, lastHash (some (.str s)) entries = some (.str previous) := by
  cases entries using List.reverseRecOn with
  | nil => exact ⟨s, rfl⟩
  | append_singleton entries entry =>
    have hentry := h entry (List.mem_concat_self)
    rw [lastHash_concat hentry, hentry.prop_eq]
    exact ⟨_, rfl⟩

/-- A later manifest has the base of an earlier one and its hash. -/
structure SameBase (earlier later : JsonObject) : Prop where
  base : later.without derivedKeys = earlier.without derivedKeys
  sha : later.get (ofString "manifestSha256") = earlier.get (ofString "manifestSha256")

theorem SameBase.get (h : SameBase earlier later) (hkey : key ∉ derivedKeys) :
    later.get key = earlier.get key := by
  rw [← JsonObject.get_without hkey, h.base, JsonObject.get_without hkey]

theorem not_derived (name : String) (h : name ∉ ["manifestSha256", "signers", "sealSha256"]) :
    ofString name ∉ derivedKeys := by
  show ofString name ∉ ["manifestSha256", "signers", "sealSha256"].map ofString
  rwa [List.mem_map_of_injective ofString_injective]

theorem SameBase.verifyEntry_eq (h : SameBase earlier later) (sourceDocument : Bytes)
    (before : Option (List Value)) (index : Nat) (previous entry : Option Value)
    (artifact : ManifestSignerArtifact) :
    verifyEntry platform options later sourceDocument before index previous entry artifact =
      verifyEntry platform options earlier sourceDocument before index previous entry artifact := by
  have hrequired := h.get (not_derived "requiredSignerIds" (by decide))
  have htenant := h.get (not_derived "tenantId" (by decide))
  simp only [verifyEntry, entryBound, proofMatches, artifactInput, hrequired, htenant, h.sha]

theorem SameBase.bindingDiffers_iff (h : SameBase earlier later) (sourceDocument snapshot : Bytes) :
    bindingDiffers platform later sourceDocument snapshot ↔
      bindingDiffers platform earlier sourceDocument snapshot := by
  have hversion := h.get (not_derived "manifestVersion" (by decide))
  have hcanonical := h.get (not_derived "canonicalization" (by decide))
  have hdocument := h.get (not_derived "documentSha256" (by decide))
  have hsnapshot := h.get (not_derived "snapshotSha256" (by decide))
  simp only [bindingDiffers, baseHash, h.base, h.sha, hversion, hcanonical, hdocument, hsnapshot]

/-- A manifest after some signers: each of their entries verifies at its place. -/
structure Progress (platform : Platform) (options : Options) (sourceDocument snapshot : Bytes)
    (prepared manifest : JsonObject) (required : Nat) (done : List ManifestSignerArtifact)
    (entries : List Value) : Prop where
  same : SameBase prepared manifest
  signers : manifest.get (ofString "signers") = some (.arr entries)
  length : entries.length = done.length
  /-- The documents are those of the manifest, once one signer has been appended. -/
  bound : done ≠ [] → ¬bindingDiffers platform prepared sourceDocument snapshot
  /-- The turn of each entry. -/
  verified : ∀ i artifact, done[i]? = some artifact →
    verifyEntry platform options prepared sourceDocument (some (entries.take i)) i
      (lastHash (prepared.get (ofString "manifestSha256")) (entries.take i)) entries[i]? artifact =
        .ok (prop entries[i]? (ofString "entryHash"))
  /-- The seal, once all signers have been appended. -/
  sealed : done ≠ [] → entries.length = required →
    ∃ sealSha256, sealHash platform (prepared.get (ofString "manifestSha256")) entries =
      .ok sealSha256 ∧ manifest.get (ofString "sealSha256") = some (.str sealSha256)

theorem Progress.start {prepared : JsonObject}
    (hsigners : prepared.get (ofString "signers") = some (.arr [])) :
    Progress platform options sourceDocument snapshot prepared prepared required [] [] where
  same := ⟨rfl, rfl⟩
  signers := hsigners
  length := rfl
  bound h := absurd rfl h
  verified i artifact h := by cases h
  sealed h := absurd rfl h

theorem Progress.holdsHash {prepared : JsonObject}
    (h : Progress platform options sourceDocument snapshot prepared manifest required done entries) :
    ∀ entry ∈ entries, HoldsHash platform entry := by
  intro entry hentry
  obtain ⟨i, hi, rfl⟩ := List.getElem_of_mem hentry
  have hdone : i < done.length := h.length ▸ hi
  obtain ⟨v, hv, hbound, -⟩ := verifyEntry_ok (h.verified i done[i] (List.getElem?_eq_getElem hdone))
  rw [List.getElem?_eq_getElem hi, Option.some.injEq] at hv
  rw [hv]
  exact holdsHash_of_entryBound hbound

/-- The verifier's instants lie before the year 10000. -/
def InstantsBefore10000 (options : Options) (prepared : JsonObject) (sourceDocument : Bytes)
    (artifact : ManifestSignerArtifact) : Prop :=
  ∀ verifier proof, options.theVerifier = .ok verifier →
    verifier.verifySignedArtifact (artifactInput prepared artifact sourceDocument) = .ok proof →
    (∀ time, proof.signedAt = some time → time < year10000) ∧
      ∀ time, proof.tsaAt = some time → time < year10000

theorem SameBase.set (h : SameBase earlier later) {name : String}
    (hname : name ∈ ["signers", "sealSha256"]) (value : Value) :
    SameBase earlier (later.set (ofString name) value) := by
  have hderived : ofString name ∈ derivedKeys := by
    show ofString name ∈ ["manifestSha256", "signers", "sealSha256"].map ofString
    exact List.mem_map_of_mem (.tail _ hname)
  have hsha : "manifestSha256" ≠ name := by
    rintro rfl
    exact absurd hname (by decide)
  exact ⟨by rw [JsonObject.without_set hderived, h.base],
    by rw [JsonObject.get_set_ne (key_ne hsha), h.sha]⟩

theorem Extends.spec {prepared : JsonObject} {sha : Value}
    (h : Extends platform manifest next required sha entries) (hsame : SameBase prepared manifest) :
    SameBase prepared next ∧ next.get (ofString "signers") = some (.arr entries) ∧
      (entries.length = required → ∃ sealSha256, sealHash platform (some sha) entries =
        .ok sealSha256 ∧ next.get (ofString "sealSha256") = some (.str sealSha256)) := by
  have hsigners := hsame.set ((.head _) : "signers" ∈ ["signers", "sealSha256"]) (.arr entries)
  rw [Extends] at h
  split at h
  case isTrue =>
    obtain ⟨sealSha256, hseal, rfl⟩ := h
    refine ⟨hsigners.set (by simp) _, ?_, fun _ => ⟨sealSha256, hseal, ?_⟩⟩
    · rw [JsonObject.get_set_ne (key_ne (by decide)), JsonObject.get_set_self]
    · rw [JsonObject.get_set_self]
  case isFalse hlast =>
    subst h
    exact ⟨hsigners, JsonObject.get_set_self _ _ _, fun hlength => absurd hlength hlast⟩

theorem Progress.append {prepared : JsonObject} (hprepared : Prepared platform input prepared)
    (h : Progress platform options sourceDocument snapshot prepared manifest
      input.requiredSignerIds.length done entries)
    (hyear : InstantsBefore10000 options prepared sourceDocument artifact)
    (hnext : appendVerifiedSigner platform options manifest artifact sourceDocument snapshot =
      .ok next) :
    ∃ entry, Progress platform options sourceDocument snapshot prepared next
      input.requiredSignerIds.length (done ++ [artifact]) (entries ++ [entry]) := by
  have hsha : manifest.get (ofString "manifestSha256") =
      some (.str (baseHash platform prepared)) := by rw [h.same.sha, hprepared.base]
  have hrequired : manifest.get (ofString "requiredSignerIds") =
      some (.arr (input.requiredSignerIds.map Value.str)) := by
    rw [h.same.get (not_derived "requiredSignerIds" (by decide)), hprepared.required]
  obtain ⟨previous, hprevious⟩ := lastHash_eq_str (s := baseHash platform prepared) h.holdsHash
  obtain ⟨hbinding, hsigner, verifierKind, expected, proof, signedAt, tsaAt, haccepted, hextends⟩ :=
    append_ok h.signers hrequired hsha hprevious hnext
  rw [List.length_map] at hextends
  obtain ⟨hsame, hsigners, hseal⟩ := hextends.spec h.same
  have hinput : artifactInput manifest artifact sourceDocument =
      artifactInput prepared artifact sourceDocument := by
    simp only [artifactInput, h.same.sha, h.same.get (not_derived "tenantId" (by decide))]
  obtain ⟨verifier, hverifier, hproof⟩ := haccepted.proved
  rw [hinput] at hproof
  obtain ⟨hsigned, hstamped⟩ := hyear verifier proof hverifier hproof
  have hturn := verifyEntry_of_accepted previous haccepted hsha
    (by rw [hrequired, elementAt_arr, hsigner]) hsigned hstamped
  rw [h.same.verifyEntry_eq, ← hprevious] at hturn
  refine ⟨_, hsame, hsigners, ?_, fun _ => ?_, fun i other hother => ?_, fun _ hlast => ?_⟩
  · rw [List.length_append, List.length_append, h.length]
    rfl
  · rwa [← h.same.bindingDiffers_iff]
  · rcases Nat.lt_or_ge i entries.length with hi | hi
    · have hdone : i < done.length := h.length ▸ hi
      rw [List.getElem?_append_left hdone] at hother
      rw [List.take_append_of_le_length hi.le, List.getElem?_append_left hi]
      exact h.verified i other hother
    · have hlast : i = entries.length := by
        have hlt := (List.getElem?_eq_some_iff.mp hother).1
        rw [List.length_append, List.length_singleton, ← h.length] at hlt
        omega
      subst hlast
      rw [h.length, List.getElem?_concat_length, Option.some.injEq] at hother
      subst hother
      rw [List.take_left, List.getElem?_concat_length, hprepared.base]
      exact hturn
  · rw [hprepared.base]
    exact hseal hlast

theorem Progress.run {prepared built : JsonObject} (hprepared : Prepared platform input prepared)
    (h : Progress platform options sourceDocument snapshot prepared manifest
      input.requiredSignerIds.length done entries)
    (hyear : ∀ artifact ∈ artifacts, InstantsBefore10000 options prepared sourceDocument artifact)
    (hbuilt : artifacts.foldlM (fun m artifact =>
      appendVerifiedSigner platform options m artifact sourceDocument snapshot) manifest =
        .ok built) :
    ∃ last, Progress platform options sourceDocument snapshot prepared built
      input.requiredSignerIds.length (done ++ artifacts) last := by
  induction artifacts generalizing manifest done entries with
  | nil =>
    cases hbuilt
    exact ⟨entries, by rwa [List.append_nil]⟩
  | cons artifact rest ih =>
    rw [List.foldlM_cons] at hbuilt
    obtain ⟨next, hnext, hrest⟩ := bind_eq_ok.mp hbuilt
    obtain ⟨entry, hprogress⟩ := h.append hprepared (hyear artifact (.head _)) hnext
    obtain ⟨last, hlast⟩ := ih hprogress
      (fun a ha => hyear a (.tail artifact ha)) hrest
    exact ⟨last, by rwa [List.append_assoc] at hlast⟩

theorem verifyEntries_of_verified {sha : Option Value} {index : Nat}
    (hsigners : manifest.get (ofString "signers") = some (.arr entries))
    (hholds : ∀ entry ∈ entries, HoldsHash platform entry)
    (hlength : index + artifacts.length ≤ entries.length)
    (h : ∀ i artifact, artifacts[i]? = some artifact →
      verifyEntry platform options manifest sourceDocument (some (entries.take (index + i)))
        (index + i) (lastHash sha (entries.take (index + i))) entries[index + i]? artifact =
          .ok (prop entries[index + i]? (ofString "entryHash"))) :
    verifyEntries platform options manifest sourceDocument index
      (lastHash sha (entries.take index)) artifacts = .ok () := by
  induction artifacts generalizing index with
  | nil => rfl
  | cons artifact rest ih =>
    rw [List.length_cons] at hlength
    have hindex : index < entries.length := by omega
    have hturn := h 0 artifact rfl
    rw [Nat.add_zero] at hturn
    rw [verifyEntries]
    simp only [hsigners, Option.bind_some, Value.items_arr, Option.map_some, elementAt_arr]
    refine bind_eq_ok.mpr ⟨_, hturn, ?_⟩
    have hnext : lastHash sha (entries.take (index + 1)) =
        prop entries[index]? (ofString "entryHash") := by
      rw [List.take_add_one, List.getElem?_eq_getElem hindex, Option.toList_some,
        lastHash_concat (hholds _ (List.getElem_mem hindex))]
    rw [← hnext]
    refine ih (by omega) fun i other hother => ?_
    have hlater := h (i + 1) other (by rwa [List.getElem?_cons_succ])
    rwa [Nat.add_right_comm index 1 i]

theorem distinctCount_strings {ids : List JsString} (h : ids.Nodup) :
    distinctCount (ids.map Value.str) = ids.length := by
  induction ids with
  | nil => rfl
  | cons id ids ih =>
    obtain ⟨hid, hrest⟩ := List.nodup_cons.mp h
    have hany : ((ids.map Value.str).any fun y => strictEq (some (.str id)) (some y)) = false := by
      rw [List.any_eq_false]
      intro y hy heq
      obtain ⟨other, hother, rfl⟩ := List.mem_map.mp hy
      have hsame := Value.str_injective (Option.some.inj (strictEq_str.mp heq))
      exact hid (hsame ▸ hother)
    rw [List.map_cons, distinctCount, hany, ih hrest, List.length_cons]
    simp [Nat.add_comm]

theorem setSize_arr (xs : List Value) : setSize (some (.arr xs)) = some (distinctCount xs) := by
  show (Value.arr xs).items.map distinctCount = some (distinctCount xs)
  rw [Value.items_arr, Option.map_some]

theorem Progress.valid {prepared built : JsonObject} (hprepared : Prepared platform input prepared)
    (hyear : ∀ time, input.preparedAt = some time → time < year10000)
    (hlength : artifacts.length = input.requiredSignerIds.length)
    (h : Progress platform options sourceDocument snapshot prepared built
      input.requiredSignerIds.length artifacts entries) :
    verifyManifest platform options built sourceDocument snapshot artifacts = .ok .valid := by
  have hsome : artifacts ≠ [] := by
    have hpos := List.length_pos_of_ne_nil hprepared.nonempty
    rintro rfl
    rw [List.length_nil] at hlength
    omega
  have hentries : entries.length = input.requiredSignerIds.length := h.length.trans hlength
  obtain ⟨sealSha256, hseal, hget⟩ := h.sealed hsome hentries
  obtain ⟨preparedAt, hinstant, hpreparedAt⟩ := hprepared.preparedAt
  have hrequired : built.get (ofString "requiredSignerIds") =
      some (.arr (input.requiredSignerIds.map Value.str)) := by
    rw [h.same.get (not_derived "requiredSignerIds" (by decide)), hprepared.required]
  have hbinding : ¬bindingDiffers platform built sourceDocument snapshot := by
    rw [h.same.bindingDiffers_iff]
    exact h.bound hsome
  have htime : isInstant (built.get (ofString "preparedAt")) = true := by
    rw [h.same.get (not_derived "preparedAt" (by decide)), hpreparedAt]
    exact isInstant_of_instant hinstant hyear
  have hloop : verifyEntries platform options built sourceDocument 0
      (lastHash (prepared.get (ofString "manifestSha256")) (entries.take 0)) artifacts = .ok () := by
    refine verifyEntries_of_verified h.signers h.holdsHash ?_ fun i artifact hi => ?_
    · rw [Nat.zero_add, h.length]
    · rw [Nat.zero_add, h.same.verifyEntry_eq]
      exact h.verified i artifact hi
  rw [verifyManifest_eq_valid, verifyBody]
  simp only [hrequired, h.signers, h.same.sha, lengthOf_arr, setSize_arr, List.length_map, hentries, hlength,
    distinctCount_strings hprepared.distinct]
  refine bind_eq_ok.mpr ⟨(), require_eq_ok.mpr (by simp [hbinding, htime]), ?_⟩
  refine bind_eq_ok.mpr ⟨_, defined_eq_ok.mpr rfl, ?_⟩
  refine bind_eq_ok.mpr ⟨_, defined_eq_ok.mpr rfl, ?_⟩
  refine bind_eq_ok.mpr ⟨(), require_eq_ok.mpr (strictEq_nat.mpr rfl), ?_⟩
  refine bind_eq_ok.mpr ⟨(), require_eq_ok.mpr (strictEq_nat.mpr rfl), ?_⟩
  refine bind_eq_ok.mpr ⟨_, defined_eq_ok.mpr rfl, ?_⟩
  refine bind_eq_ok.mpr ⟨(), require_eq_ok.mpr (strictEq_nat.mpr rfl), ?_⟩
  refine bind_eq_ok.mpr ⟨(), hloop, ?_⟩
  refine bind_eq_ok.mpr ⟨entries, defined_eq_ok.mpr (Value.items_arr entries), ?_⟩
  refine bind_eq_ok.mpr ⟨sealSha256, call_eq_ok.mpr hseal, ?_⟩
  exact require_eq_ok.mpr (strictEq_str.mpr hget)

theorem seal_unique {value : Value} (h : Sealed platform manifest)
    (hedited : Sealed platform (manifest.set (ofString "sealSha256") value)) :
    manifest.get (ofString "sealSha256") = some value := by
  have hsame : SameBase manifest (manifest.set (ofString "sealSha256") value) :=
    SameBase.set ⟨rfl, rfl⟩ (by simp) value
  obtain ⟨entries, hsigners, -, hget⟩ := h.seal_eq
  obtain ⟨entries', hsigners', -, hget'⟩ := hedited.seal_eq
  rw [JsonObject.get_set_ne (key_ne (by decide)), hsigners, Option.some.injEq] at hsigners'
  have hentries : entries = entries' := by
    have hitems := congrArg Value.items hsigners'
    rwa [Value.items_arr, Value.items_arr, Option.some.injEq] at hitems
  have hbase : baseHash platform (manifest.set (ofString "sealSha256") value) =
      baseHash platform manifest := by rw [baseHash, hsame.base, baseHash]
  rw [JsonObject.get_set_self, hbase, ← hentries] at hget'
  rw [hget, hget']

/-- What is prepared and signed in order verifies on the same documents, and without hash collisions
the seal of a valid manifest stands for all of it: another valid manifest with this seal is the same
JSON value, and no other seal is valid in its place. -/
theorem built_manifest_verifies_and_seal_binds (platform : Platform) :
    (∀ (options : Options) (input : ManifestPreparation) (prepared built : JsonObject)
        (sourceDocument snapshot : Bytes) (artifacts : List ManifestSignerArtifact),
      PreparedBy platform input prepared →
      (∀ time, input.preparedAt = some time → time < year10000) →
      (∀ artifact ∈ artifacts, InstantsBefore10000 options prepared sourceDocument artifact) →
      artifacts.length = input.requiredSignerIds.length →
      artifacts.foldlM (fun m artifact =>
        appendVerifiedSigner platform options m artifact sourceDocument snapshot) prepared =
          .ok built →
      verifyManifest platform options built sourceDocument snapshot artifacts = .ok .valid) ∧
    (Function.Injective platform.sha256Hex →
      ∀ (options options' : Options) (first second : JsonObject)
        (document document' snapshot snapshot' : Bytes)
        (artifacts artifacts' : List ManifestSignerArtifact),
      verifyManifest platform options first document snapshot artifacts = .ok .valid →
      verifyManifest platform options' second document' snapshot' artifacts' = .ok .valid →
      first.get (ofString "sealSha256") = second.get (ofString "sealSha256") →
      Same (.obj first.members) (.obj second.members)) ∧
    ∀ (options options' : Options) (manifest : JsonObject) (value : Value)
      (document document' snapshot snapshot' : Bytes)
      (artifacts artifacts' : List ManifestSignerArtifact),
    verifyManifest platform options manifest document snapshot artifacts = .ok .valid →
    verifyManifest platform options' (manifest.set (ofString "sealSha256") value) document'
      snapshot' artifacts' = .ok .valid →
    manifest.get (ofString "sealSha256") = some value := by
  refine ⟨?_, ?_, ?_⟩
  · intro options input prepared built sourceDocument snapshot artifacts hprepared hyear hproofs
      hlength hbuilt
    have hspec := hprepared.prepared
    obtain ⟨entries, hprogress⟩ := (Progress.start hspec.signers).run hspec hproofs hbuilt
    exact hprogress.valid hspec hyear hlength
  · intro hsha options options' first second document document' snapshot snapshot' artifacts
      artifacts' hfirst hsecond hseal
    exact same_of_seal_eq hsha (sealed_of_valid hfirst) (sealed_of_valid hsecond) hseal
  · intro options options' manifest value document document' snapshot snapshot' artifacts artifacts'
      hvalid hedited
    exact seal_unique (sealed_of_valid hvalid) (sealed_of_valid hedited)

def constantPlatform : Platform where
  sha256Hex _ := List.replicate 64 (.scalar 'a')
  pemBytes _ := ByteArray.empty

def oneSignerInput : ManifestPreparation where
  tenantId := ofString "tenant"
  aggregateId := ofString "aggregate"
  documentId := ofString "document"
  documentKind := ofString "minutes"
  document := ByteArray.empty
  documentSha256 := constantPlatform.sha256Hex ByteArray.empty
  snapshot := ByteArray.empty
  snapshotSha256 := constantPlatform.sha256Hex ByteArray.empty
  requiredSignerIds := [ofString "ada"]
  preparedAt := some 1

def oneArtifact : ManifestSignerArtifact where
  signerId := ofString "ada"
  signatureId := ofString "signature"
  signedDocument := ByteArray.empty
  cmsSignature := ByteArray.empty
  certificate := { subject := [], issuer := [], serialNumber := [], pem := some (ofString "pem") }
  trustProfile := {
    id := ofString "profile", revision := ofString "1", production := false, qualified := false
    requiredPadesProfile := ofString "B-T", requireTsa := true, requireLta := false
    revocation := ofString "soft", trustAnchorsPem := [], atTime := ofString "signing" }

/-- What the verifier says about it. -/
def oneProof : SignatureTrustProof where
  profileId := ofString "profile"
  profileRevision := ofString "1"
  achievedLevel := ofString "ADVANCED"
  padesProfile := ofString "B-T"
  originalDocumentSha256 := constantPlatform.sha256Hex ByteArray.empty
  signedDocumentSha256 := constantPlatform.sha256Hex ByteArray.empty
  cmsSha256 := constantPlatform.sha256Hex ByteArray.empty
  signerCertificateSha256 := constantPlatform.sha256Hex ByteArray.empty
  chainSha256 := []
  signedAt := some 2
  tsaAt := some 3
  verificationRef := ofString "ref"
  boundManifestSha256 := some (constantPlatform.sha256Hex ByteArray.empty)

/-- The options of a service whose verifier takes every artifact. -/
def oneOptions : Options where
  verifier := some { branded := false, verifySignedArtifact := fun _ => .ok oneProof }
  resolveSignerCertificate := some fun _ _ => .ok (constantPlatform.sha256Hex ByteArray.empty)

def oneSignerManifest : Except SignatureError (JsonObject × JsonObject) := do
  let prepared ← prepareBatch constantPlatform oneSignerInput (ofString "batch")
  let built ← [oneArtifact].foldlM (fun m artifact => appendVerifiedSigner constantPlatform
    oneOptions m artifact ByteArray.empty ByteArray.empty) prepared
  return (prepared, built)

/-- A platform whose hash is the bytes as characters. -/
def readablePlatform : Platform where
  sha256Hex bytes := bytes.data.toList.map fun byte => .scalar (Char.ofNat byte.toNat)
  pemBytes _ := ByteArray.empty

theorem readablePlatform_injective : Function.Injective readablePlatform.sha256Hex := by
  have hsmall : ∀ n < 256, (Char.ofNat n).toNat = n := by decide +kernel
  have hchar : Function.Injective fun byte : UInt8 => CodePoint.scalar (Char.ofNat byte.toNat) := by
    intro a b hab
    have hval := congrArg Char.toNat (CodePoint.scalar.inj hab)
    rw [hsmall _ a.toNat_lt, hsmall _ b.toNat_lt] at hval
    exact UInt8.toNat_inj.mp hval
  intro x y hxy
  have hlist := List.map_injective_iff.mpr hchar hxy
  exact ByteArray.ext (Array.toList_inj.mp hlist)

/-- The members of a manifest that nobody has to sign. -/
def unsignedMembers : List (JsString × Value) :=
  [(ofString "manifestVersion", .str (ofString "1")),
    (ofString "canonicalization", .str (ofString "RFC8785-JCS")),
    (ofString "requiredSignerIds", .arr []), (ofString "documentSha256", .str []),
    (ofString "snapshotSha256", .str []),
    (ofString "preparedAt", .str (ofString "2026-01-01T00:00:00.000Z"))]

/-- That manifest from its members, in the order given. -/
def unsignedManifest (members : List (JsString × Value)) : JsonObject :=
  let sha := baseHash readablePlatform (objectOf members)
  ((objectOf members).set (ofString "manifestSha256") (.str sha)).set (ofString "signers") (.arr [])
    |>.set (ofString "sealSha256")
      (.str (readablePlatform.hash (Json.obj (sealedObject (.str sha) []).members)))

theorem built_manifest_verifies_and_seal_binds_run :
    (∃ built, oneSignerManifest.map Prod.snd = .ok built ∧
      verifyManifest constantPlatform oneOptions built ByteArray.empty ByteArray.empty
        [oneArtifact] = .ok .valid) ∧
    Same (.obj (unsignedManifest unsignedMembers).members)
      (.obj (unsignedManifest unsignedMembers.reverse).members) := by
  constructor
  · cases hrun : oneSignerManifest with
    | error e =>
      have hok : oneSignerManifest.isOk = true := by decide +kernel
      rw [hrun] at hok
      cases hok
    | ok pair =>
      obtain ⟨prepared, hprepared, hrun⟩ := bind_eq_ok.mp hrun
      obtain ⟨built, hbuilt, hrun⟩ := bind_eq_ok.mp hrun
      cases hrun
      refine ⟨built, rfl, ?_⟩
      refine (built_manifest_verifies_and_seal_binds constantPlatform).1 oneOptions oneSignerInput
        prepared built _ _ _ (.inr ⟨_, hprepared⟩) ?_ ?_ rfl hbuilt
      · intro time htime
        cases htime
        decide
      · intro artifact _ verifier proof hverifier hproof
        cases hverifier
        cases hproof
        constructor
        · intro time htime
          cases htime
          decide
        · intro time htime
          cases htime
          decide
  · refine (built_manifest_verifies_and_seal_binds readablePlatform).2.1 readablePlatform_injective
      {} {} _ _ ByteArray.empty ByteArray.empty ByteArray.empty ByteArray.empty [] [] ?_ ?_ ?_
    · decide +kernel
    · decide +kernel
    · have hseal : ∀ members, (unsignedManifest members).get (ofString "sealSha256") = _ :=
        fun members => JsonObject.get_set_self _ _ _
      have hbase : baseHash readablePlatform (objectOf unsignedMembers) =
          baseHash readablePlatform (objectOf unsignedMembers.reverse) := by decide +kernel
      rw [hseal, hseal, hbase]

end Stynx.SignatureManifest
