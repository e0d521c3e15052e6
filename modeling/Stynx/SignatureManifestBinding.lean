import Stynx.SignatureManifest

/-!
# What a seal binds

A manifest that verifies as valid has the hash of its base, of each of its
entries and of the list of these hashes where the checks look for them.
-/

namespace Stynx.SignatureManifest

open JsonTokens CanonicalJson JsonObjects IsoInstants ExceptFolds

variable {platform : Platform} {options : Options}

@[simp] theorem require_eq_ok {ok : Bool} {refusal : Refusal} {u : Unit} :
    require ok refusal = .ok u ↔ ok = true := by
  cases ok <;> simp [require]

variable {α : Type} {a : α} {snapshot : Bytes} {v w : Json} {key : JsString}
  {artifact : ManifestSignerArtifact} {entries : List Value} {xs ys : List JsString}
  {first second : JsonObject}

@[simp] theorem call_eq_ok {result : Except SignatureError α} :
    call result = .ok a ↔ result = .ok a := by
  cases result <;> simp [call, Except.mapError]

@[simp] theorem defined_eq_ok {value : Option α} : defined value = .ok a ↔ value = some a := by
  cases value <;> simp [defined]

variable {manifest : JsonObject} {sourceDocument : Bytes} {artifacts : List ManifestSignerArtifact}
  {entry : Value} {index : Nat} {previous : Option Value}

theorem verifyManifest_eq_valid :
    verifyManifest platform options manifest sourceDocument snapshot artifacts = .ok .valid ↔
      verifyBody platform options manifest sourceDocument snapshot artifacts = .ok () := by
  unfold verifyManifest
  split <;> simp_all

theorem canonicalBytes_inj (h : canonicalBytes v = canonicalBytes w) : text v = text w := by
  have hstring : String.ofList (text v) = String.ofList (text w) := String.toByteArray_inj.mp h
  exact String.ofList_injective hstring

theorem hash_inj (hsha : Function.Injective platform.sha256Hex)
    (h : platform.hash v = platform.hash w) : text v = text w :=
  canonicalBytes_inj (hsha h)

theorem text_str_inj {s t : JsString} (h : text (.str s) = text (.str t)) : s = t :=
  same_of_text_eq (.str s) (.str t) h

def HoldsHash (platform : Platform) (entry : Value) : Prop :=
  ∃ o : JsonObject, entry = .obj o ∧
    o.get (ofString "entryHash") =
      some (.str (platform.hash (Json.obj (o.without [ofString "entryHash"]).members)))

theorem prop_eq_some {value : Value} :
    prop entry key = some value ↔ ∃ o, entry = .obj o ∧ o.get key = some value := by
  constructor
  · intro h
    rw [prop, Option.bind_some, Option.bind_eq_some_iff] at h
    obtain ⟨o, ho, hget⟩ := h
    exact ⟨o, Value.eq_obj_of_object ho, hget⟩
  · rintro ⟨o, rfl, hget⟩
    rw [prop, Option.bind_some, Value.object_obj, Option.bind_some, hget]

theorem holdsHash_of_prop
    (h : prop entry (ofString "entryHash") = some (.str (fieldsHash platform entry))) :
    HoldsHash platform entry := by
  obtain ⟨o, rfl, hget⟩ := prop_eq_some.mp h
  exact ⟨o, rfl, hget⟩

theorem verifyEntry_ok {earlier : Option (List Value)} {entry : Option Value} {next : Option Value}
    (h : verifyEntry platform options manifest sourceDocument earlier index previous entry artifact =
      .ok next) :
    ∃ v, entry = some v ∧ entryBound platform manifest index previous v artifact = true ∧
      next = prop v (ofString "entryHash") := by
  unfold verifyEntry at h
  simp only [bind_eq_ok, require_eq_ok] at h
  obtain ⟨v, hv, -, hbound, hrest⟩ := h
  have hentry := Option.filter_eq_some_iff.mp (defined_eq_ok.mp hv)
  refine ⟨v, hentry.1, hbound, ?_⟩
  -- the checks after the hash do not change the next link
  obtain ⟨-, -, -, -, -, -, -, -, -, -, -, -, -, -, -, -, -, -, -, -, -, -, -, -, h⟩ := hrest
  exact (Except.ok.inj h).symm

theorem holdsHash_of_entryBound
    (h : entryBound platform manifest index previous entry artifact = true) :
    HoldsHash platform entry := by
  simp only [entryBound, Bool.and_eq_true] at h
  exact holdsHash_of_prop (strictEq_str.mp h.1.1.2)

theorem verifyEntries_ok
    (h : verifyEntries platform options manifest sourceDocument index previous artifacts = .ok ())
    (i : Nat) (hi : i < artifacts.length) :
    ∃ entry, elementAt (manifest.get (ofString "signers")) (index + i) = some entry ∧
      HoldsHash platform entry := by
  induction artifacts generalizing index previous i with
  | nil => exact absurd hi (Nat.not_lt_zero i)
  | cons artifact rest ih =>
    rw [verifyEntries] at h
    obtain ⟨next, hturn, hrest⟩ := bind_eq_ok.mp h
    cases i with
    | zero =>
      obtain ⟨entry, hentry, hbound, -⟩ := verifyEntry_ok hturn
      exact ⟨entry, hentry, holdsHash_of_entryBound hbound⟩
    | succ i =>
      obtain ⟨entry, hentry, hholds⟩ := ih hrest i (Nat.lt_of_succ_lt_succ hi)
      exact ⟨entry, by rw [← hentry]; congr 1; omega, hholds⟩

/-- What the checks leave of a valid manifest: every hash is where it belongs. -/
structure Sealed (platform : Platform) (manifest : JsonObject) : Prop where
  base : manifest.get (ofString "manifestSha256") = some (.str (baseHash platform manifest))
  /-- The hashes of the entries, and the seal over them. -/
  entries : ∃ entries sealSha256, manifest.get (ofString "signers") = some (.arr entries) ∧
    (∀ entry ∈ entries, HoldsHash platform entry) ∧
    sealHash platform (manifest.get (ofString "manifestSha256")) entries = .ok sealSha256 ∧
    manifest.get (ofString "sealSha256") = some (.str sealSha256)

theorem lengthOf_arr (xs : List Value) : lengthOf (some (.arr xs)) = some (some (.nat xs.length)) := by
  simp [lengthOf, Value.arr]

theorem elementAt_arr (xs : List Value) (i : Nat) : elementAt (some (.arr xs)) i = xs[i]? := by
  show (Value.arr xs).items.bind (fun ys => ys[i]?) = xs[i]?
  rw [Value.items_arr, Option.bind_some]

theorem sealed_of_valid
    (h : verifyManifest platform options manifest sourceDocument snapshot artifacts = .ok .valid) :
    Sealed platform manifest := by
  rw [verifyManifest_eq_valid] at h
  unfold verifyBody at h
  obtain ⟨_, hbinding, h⟩ := bind_eq_ok.mp h
  obtain ⟨count, hcount, h⟩ := bind_eq_ok.mp h
  obtain ⟨wanted, -, h⟩ := bind_eq_ok.mp h
  obtain ⟨-, -, h⟩ := bind_eq_ok.mp h
  obtain ⟨_, hartifacts, h⟩ := bind_eq_ok.mp h
  obtain ⟨distinct, -, h⟩ := bind_eq_ok.mp h
  obtain ⟨-, -, h⟩ := bind_eq_ok.mp h
  obtain ⟨_, hentries, h⟩ := bind_eq_ok.mp h
  obtain ⟨entries, hitems, h⟩ := bind_eq_ok.mp h
  obtain ⟨sealSha256, hseal, h⟩ := bind_eq_ok.mp h
  simp only [require_eq_ok, call_eq_ok, defined_eq_ok, Bool.and_eq_true, decide_eq_true_eq]
    at hbinding hcount hartifacts hitems hseal h
  obtain ⟨signers, hsigners, hitems⟩ := Option.bind_eq_some_iff.mp hitems
  have harray : manifest.get (ofString "signers") = some (.arr entries) := by
    rw [hsigners, Value.eq_arr_of_items hitems]
  refine ⟨?_, entries, sealSha256, harray, ?_, hseal, strictEq_str.mp h⟩
  · simp only [bindingDiffers, not_or, Bool.not_eq_false] at hbinding
    exact strictEq_str.mp hbinding.1.2.2.1
  · rw [harray, lengthOf_arr, Option.some.injEq] at hcount
    rw [← hcount] at hartifacts
    have hlength : entries.length = artifacts.length :=
      Value.nat_injective (Option.some.inj (strictEq_nat.mp hartifacts))
    intro entry hentry
    obtain ⟨i, hi, rfl⟩ := List.getElem_of_mem hentry
    obtain ⟨v, hv, hholds⟩ := verifyEntries_ok hentries i (by omega)
    rw [harray, elementAt_arr, Nat.zero_add, List.getElem?_eq_getElem hi, Option.some.injEq] at hv
    rw [hv]
    exact hholds

theorem key_ne {a b : String} (h : a ≠ b) : ofString a ≠ ofString b := fun heq =>
  h (ofString_injective heq)

theorem HoldsHash.prop_eq (h : HoldsHash platform entry) :
    prop entry (ofString "entryHash") = some (.str (fieldsHash platform entry)) := by
  obtain ⟨o, rfl, hget⟩ := h
  exact prop_eq_some.mpr ⟨o, rfl, hget⟩

theorem entryHashes_eq (h : ∀ entry ∈ entries, HoldsHash platform entry) :
    (entries.mapM fun entry => prop (some entry) (ofString "entryHash")) =
      some (entries.map fun entry => .str (fieldsHash platform entry)) := by
  induction entries with
  | nil => rfl
  | cons e es ih =>
    rw [List.mapM_cons, (h e List.mem_cons_self).prop_eq, ih fun x hx => h x (.tail e hx)]
    rfl

def sealedObject (manifestSha256 : Value) (hashes : List Value) : JsonObject :=
  objectOf [(ofString "manifestSha256", manifestSha256), (ofString "entryHashes", .arr hashes)]

theorem sealedObject_get_sha (sha : Value) (hashes : List Value) :
    (sealedObject sha hashes).get (ofString "manifestSha256") = some sha := by
  simp only [sealedObject, objectOf, List.foldl]
  rw [JsonObject.get_set_ne (key_ne (by decide)), JsonObject.get_set_self]

theorem sealedObject_get_hashes (sha : Value) (hashes : List Value) :
    (sealedObject sha hashes).get (ofString "entryHashes") = some (.arr hashes) := by
  simp only [sealedObject, objectOf, List.foldl]
  rw [JsonObject.get_set_self]

theorem sealHash_eq {sha : Value} (h : ∀ entry ∈ entries, HoldsHash platform entry) :
    sealHash platform (some sha) entries = .ok (platform.hash (Json.obj
      (sealedObject sha (entries.map fun e => .str (fieldsHash platform e))).members)) := by
  unfold sealHash
  rw [entryHashes_eq h]
  rfl

theorem Sealed.seal_eq (h : Sealed platform manifest) :
    ∃ entries, manifest.get (ofString "signers") = some (.arr entries) ∧
      (∀ entry ∈ entries, HoldsHash platform entry) ∧
      manifest.get (ofString "sealSha256") = some (.str (platform.hash (Json.obj
        (sealedObject (.str (baseHash platform manifest))
          (entries.map fun e => .str (fieldsHash platform e))).members))) := by
  obtain ⟨entries, sealSha256, hsigners, hholds, hseal, hget⟩ := h.entries
  refine ⟨entries, hsigners, hholds, ?_⟩
  rw [h.base, sealHash_eq hholds] at hseal
  rw [hget, ← Except.ok.inj hseal]

theorem text_strings_inj
    (h : text (Value.arr (xs.map Value.str)).val = text (Value.arr (ys.map Value.str)).val) :
    xs = ys := by
  have htexts := text_arr_inj h
  simp only [List.map_map] at htexts
  exact List.map_injective_iff.mpr (fun s t hst => text_str_inj hst) htexts

variable (hsha : Function.Injective platform.sha256Hex)
include hsha

theorem hashes_eq_of_seal_eq {a b : JsString}
    (h : platform.hash (Json.obj (sealedObject (.str a) (xs.map Value.str)).members) = platform.hash (Json.obj (sealedObject (.str b) (ys.map Value.str)).members)) :
    a = b ∧ xs = ys := by
  have htext := hash_inj hsha h
  constructor
  · obtain ⟨w, hw, hsame⟩ := get_of_text_eq htext (sealedObject_get_sha _ _)
    rw [sealedObject_get_sha, Option.some.injEq] at hw
    subst hw
    exact text_str_inj hsame
  · obtain ⟨w, hw, hsame⟩ := get_of_text_eq htext (sealedObject_get_hashes _ _)
    rw [sealedObject_get_hashes, Option.some.injEq] at hw
    subst hw
    exact text_strings_inj hsame

theorem same_of_fieldsHash_eq {e f : Value} (he : HoldsHash platform e) (hf : HoldsHash platform f)
    (h : fieldsHash platform e = fieldsHash platform f) : Same e.val f.val := by
  have hprop := he.prop_eq
  rw [h, ← hf.prop_eq] at hprop
  obtain ⟨o, rfl, hget⟩ := he
  obtain ⟨p, rfl, hget'⟩ := hf
  have htext := hash_inj hsha h
  have hone : ∀ {q r : JsonObject}, q.get (ofString "entryHash") = r.get (ofString "entryHash") →
      text (.obj (q.without [ofString "entryHash"]).members) =
        text (.obj (r.without [ofString "entryHash"]).members) →
      ∀ key v, q.get key = some v → ∃ w, r.get key = some w ∧ Same v.val w.val := by
    intro q r hhash htexts key v hv
    by_cases hkey : key = ofString "entryHash"
    · subst hkey
      exact ⟨v, by rw [← hhash, hv], same_of_text_eq _ _ rfl⟩
    · have hout : key ∉ [ofString "entryHash"] := by simpa using hkey
      rw [← JsonObject.get_without hout] at hv
      obtain ⟨w, hw, hvw⟩ := get_of_text_eq htexts hv
      rw [JsonObject.get_without hout] at hw
      exact ⟨w, hw, same_of_text_eq _ _ hvw⟩
  have hhash : o.get (ofString "entryHash") = p.get (ofString "entryHash") := hprop
  refine same_of_get (hone hhash htext) fun key w hw => ?_
  obtain ⟨v, hv, -⟩ := hone hhash.symm htext.symm key w hw
  exact ⟨v, hv⟩

theorem same_of_hashes_eq {es fs : List Value} (hes : ∀ entry ∈ es, HoldsHash platform entry)
    (hfs : ∀ entry ∈ fs, HoldsHash platform entry)
    (h : es.map (fieldsHash platform) = fs.map (fieldsHash platform)) :
    List.Forall₂ (fun e f : Value => Same e.val f.val) es fs := by
  induction es generalizing fs with
  | nil =>
    rw [List.map_eq_nil_iff.mp h.symm]
    exact .nil
  | cons e es ih =>
    obtain ⟨f, rest, rfl, hf, hrest⟩ := List.map_eq_cons_iff.mp h.symm
    have hhead := same_of_fieldsHash_eq hsha (hes e (.head _)) (hfs f (.head _)) hf.symm
    exact .cons hhead (ih (fun x hx => hes x (.tail e hx))
      (fun x hx => hfs x (.tail f hx)) hrest.symm)

theorem member_of_baseHash_eq (h : baseHash platform first = baseHash platform second)
    (hkey : key ∉ derivedKeys) {v : Value} (hv : first.get key = some v) :
    ∃ w, second.get key = some w ∧ Same v.val w.val := by
  have hne : key ≠ ofString "signers" := by
    rintro rfl
    exact hkey (by simp [derivedKeys])
  have htext := hash_inj hsha h
  have hset : ((first.without derivedKeys).set (ofString "signers") (.arr [])).get key = some v := by
    rw [JsonObject.get_set_ne hne, JsonObject.get_without hkey, hv]
  obtain ⟨w, hw, hvw⟩ := get_of_text_eq htext hset
  rw [JsonObject.get_set_ne hne, JsonObject.get_without hkey] at hw
  exact ⟨w, hw, same_of_text_eq _ _ hvw⟩

theorem same_of_seal_eq (hfirst : Sealed platform first) (hsecond : Sealed platform second)
    (hseal : first.get (ofString "sealSha256") = second.get (ofString "sealSha256")) :
    Same (.obj first.members) (.obj second.members) := by
  obtain ⟨es, hes, hholds, hget⟩ := hfirst.seal_eq
  obtain ⟨fs, hfs, hholds', hget'⟩ := hsecond.seal_eq
  have hhash := hseal
  rw [hget, hget', Option.some.injEq] at hhash
  have hlists : ∀ xs : List Value, (xs.map fun e => Value.str (fieldsHash platform e)) =
      (xs.map (fieldsHash platform)).map Value.str := fun xs => by rw [List.map_map]; rfl
  have hdigest := Value.str_injective hhash
  rw [hlists, hlists] at hdigest
  obtain ⟨hbase, hentries⟩ := hashes_eq_of_seal_eq hsha hdigest
  have hsigners : Same (Value.arr es).val (Value.arr fs).val :=
    same_arr (same_of_hashes_eq hsha hholds hholds' hentries)
  have hone : ∀ {p q : JsonObject} {xs ys : List Value},
      baseHash platform p = baseHash platform q →
      p.get (ofString "manifestSha256") = q.get (ofString "manifestSha256") →
      p.get (ofString "sealSha256") = q.get (ofString "sealSha256") →
      p.get (ofString "signers") = some (.arr xs) → q.get (ofString "signers") = some (.arr ys) →
      Same (Value.arr xs).val (Value.arr ys).val →
      ∀ key v, p.get key = some v → ∃ w, q.get key = some w ∧ Same v.val w.val := by
    intro p q xs ys hpq hsha' hseal' hxs hys harr key v hv
    by_cases hkey : key ∈ derivedKeys
    · simp only [derivedKeys, List.mem_cons, List.not_mem_nil, or_false] at hkey
      obtain rfl | rfl | rfl := hkey
      · exact ⟨v, by rw [← hsha', hv], same_of_text_eq _ _ rfl⟩
      · rw [hxs, Option.some.injEq] at hv
        subst hv
        exact ⟨_, hys, harr⟩
      · exact ⟨v, by rw [← hseal', hv], same_of_text_eq _ _ rfl⟩
    · exact member_of_baseHash_eq hsha hpq hkey hv
  have hsha256 : first.get (ofString "manifestSha256") = second.get (ofString "manifestSha256") := by
    rw [hfirst.base, hsecond.base, hbase]
  refine same_of_get (hone hbase hsha256 hseal hes hfs hsigners) fun key w hw => ?_
  have hback : Same (Value.arr fs).val (Value.arr es).val :=
    same_arr (same_of_hashes_eq hsha hholds' hholds hentries.symm)
  obtain ⟨v, hv, -⟩ := hone hbase.symm hsha256.symm hseal.symm hfs hes hback key w hw
  exact ⟨v, hv⟩

end Stynx.SignatureManifest
