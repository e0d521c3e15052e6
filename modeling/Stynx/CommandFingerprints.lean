import Mathlib.Data.Rat.Init
import Mathlib.Order.Lex
import Stynx.JsonObjects
import Stynx.TextOrder

/-!
# Fingerprints of transactional commands

The bytes that `fingerprint` hashes, and the key under which `TransactionalIdempotencyStore` keeps
a command.

A method and a path are texts of Unicode scalar values. Scopes and keys are strings of code
units, which is what their lengths count.
-/

namespace Stynx.CommandFingerprints

open JsonTokens CanonicalJson JsonRendering JsonArrangements SortedJson JsonObjects

def codePointAt : CodePoint → Nat
  | .scalar c => c.toNat
  | .surrogate offset => 0xD800 + offset.val

/-- The loop of `compareCodePoint`, over the two arrays of code points. -/
def comparePoints : List Nat → List Nat → Int
  | left :: lefts, right :: rights =>
    if left ≠ right then (left : Int) - right else comparePoints lefts rights
  | lefts, rights => (lefts.length : Int) - rights.length

def compareCodePoint (a b : JsString) : Int :=
  comparePoints (a.map codePointAt) (b.map codePointAt)

/-- The order in which `sort(compareCodePoint)` leaves keys. -/
def PointLe (a b : JsString) : Prop := compareCodePoint a b ≤ 0

instance : DecidableRel PointLe := fun _ _ => inferInstanceAs (Decidable (_ ≤ _))

theorem comparePoints_pos_iff {a b : List Nat} : 0 < comparePoints a b ↔ b < a := by
  induction a generalizing b with
  | nil =>
    cases b with
    | nil => simp [comparePoints]
    | cons y b =>
      simp only [comparePoints, List.length_nil, List.length_cons, List.not_lt_nil, iff_false]
      omega
  | cons x a ih =>
    cases b with
    | nil =>
      simp only [comparePoints, List.length_nil, List.length_cons, List.nil_lt_cons, iff_true]
      omega
    | cons y b =>
      rw [comparePoints, List.cons_lt_cons_iff]
      by_cases hxy : x = y
      · rw [if_neg (not_not_intro hxy), ih]
        simp [hxy]
      · rw [if_pos hxy]
        constructor
        · intro hle
          exact .inl (by omega)
        · rintro (hlt | ⟨heq, -⟩)
          · omega
          · exact absurd heq.symm hxy

theorem codePointAt_injective : Function.Injective codePointAt := by
  intro p q h
  cases p with
  | scalar c =>
    cases q with
    | scalar d => exact congrArg CodePoint.scalar (Char.toNat_inj.mp h)
    | surrogate offset =>
      have hc := TextOrder.toNat_range c
      have hoffset := offset.isLt
      simp only [codePointAt] at h
      omega
  | surrogate offset =>
    cases q with
    | scalar d =>
      have hd := TextOrder.toNat_range d
      have hoffset := offset.isLt
      simp only [codePointAt] at h
      omega
    | surrogate other =>
      simp only [codePointAt] at h
      exact congrArg CodePoint.surrogate (Fin.ext (by omega))

theorem pointLe_iff {a b : JsString} : PointLe a b ↔ a.map codePointAt ≤ b.map codePointAt :=
  not_lt.symm.trans ((not_congr comparePoints_pos_iff).trans not_lt)

instance : Std.Total PointLe := ⟨fun a b => by
  rw [pointLe_iff, pointLe_iff]
  exact le_total _ _⟩

instance : IsTrans JsString PointLe := ⟨fun a b c hab hbc => by
  rw [pointLe_iff] at hab hbc ⊢
  exact le_trans hab hbc⟩

instance : Std.Antisymm PointLe := ⟨fun a b hab hba => by
  rw [pointLe_iff] at hab hba
  exact List.map_injective_iff.mpr codePointAt_injective (le_antisymm hab hba)⟩

def canonicalJson (value : Json) : List Char := sortedText jsonLexicon.toSpelling PointLe value

theorem canonicalJson_eq_iff (v w : Value) :
    canonicalJson v.val = canonicalJson w.val ↔ Same v.val w.val :=
  sortedText_eq_iff_same v.property w.property

/-- What `fingerprint` reads of a request. -/
structure RequestLike where
  transferEncoding : Option String
  /-- `Number` of the `content-length` header, where that is finite. -/
  contentLength : Option ℚ
  /-- The parsed body; `none` where it is no JSON value and `canonicalJson` throws. -/
  body : Option Value

def RequestLike.framed (request : RequestLike) : Bool :=
  request.transferEncoding.any (· ≠ "") || request.contentLength.any (0 < ·)

def RequestLike.bodyText (request : RequestLike) : Option (List Char) :=
  if request.framed then
    request.body.map fun value => 'j' :: 's' :: 'o' :: 'n' :: ':' :: canonicalJson value.val
  else some ['a', 'b', 's', 'e', 'n', 't']

def utf8 (part : String) : List UInt8 := part.toUTF8.data.toList

def writeUInt32BE (n : Nat) : List UInt8 :=
  [UInt8.ofNat (n / 16777216), UInt8.ofNat (n / 65536), UInt8.ofNat (n / 256), UInt8.ofNat n]

/-- The size of a part and its bytes; `writeUInt32BE` throws for a size that it does not hold. -/
def frame (part : String) : Option (List UInt8) :=
  if (utf8 part).length < 2 ^ 32 then some (writeUInt32BE (utf8 part).length ++ utf8 part) else none

def fingerprintBytes (request : RequestLike) (method path : String) : Option (List UInt8) := do
  let body ← request.bodyText
  let methodFrame ← frame method
  let pathFrame ← frame path
  let bodyFrame ← frame (String.ofList body)
  some (methodFrame ++ (pathFrame ++ bodyFrame))

/-- Neither request has a body, or both have one and the bodies are equal. -/
def SameBody (r s : RequestLike) : Prop :=
  (r.framed = false ∧ s.framed = false) ∨
    r.framed = true ∧ s.framed = true ∧ ∃ v w, r.body = some v ∧ s.body = some w ∧ Same v.val w.val

theorem utf8_injective : Function.Injective utf8 := fun _ _ h =>
  String.toByteArray_inj.mp (ByteArray.ext (Array.toList_inj.mp h))

theorem writeUInt32BE_inj {m n : Nat} (hm : m < 2 ^ 32) (hn : n < 2 ^ 32)
    (h : writeUInt32BE m = writeUInt32BE n) : m = n := by
  have hbytes := congrArg (List.map UInt8.toNat) h
  simp only [writeUInt32BE, List.map_cons, List.map_nil, UInt8.toNat_ofNat', List.cons.injEq,
    and_true] at hbytes
  omega

theorem frame_eq_some {part : String} {bytes : List UInt8} (h : frame part = some bytes) :
    (utf8 part).length < 2 ^ 32 ∧ bytes = writeUInt32BE (utf8 part).length ++ utf8 part := by
  unfold frame at h
  split_ifs at h with hlength
  exact ⟨hlength, (Option.some.inj h).symm⟩

theorem frame_append_inj {p q : String} {bytes bytes' rest more : List UInt8}
    (hp : frame p = some bytes) (hq : frame q = some bytes') (h : bytes ++ rest = bytes' ++ more) :
    p = q ∧ rest = more := by
  obtain ⟨hplength, rfl⟩ := frame_eq_some hp
  obtain ⟨hqlength, rfl⟩ := frame_eq_some hq
  rw [List.append_assoc, List.append_assoc] at h
  obtain ⟨hsize, hbytes⟩ := List.append_inj h rfl
  have hlength := writeUInt32BE_inj hplength hqlength hsize
  obtain ⟨hparts, hrest⟩ := List.append_inj hbytes hlength
  exact ⟨utf8_injective hparts, hrest⟩

theorem fingerprintBytes_eq_some {request : RequestLike} {method path : String}
    {bytes : List UInt8} (h : fingerprintBytes request method path = some bytes) :
    ∃ body a b c, request.bodyText = some body ∧ frame method = some a ∧ frame path = some b ∧
      frame (String.ofList body) = some c ∧ bytes = a ++ (b ++ c) := by
  unfold fingerprintBytes at h
  simp only [Option.bind_eq_bind, Option.bind_eq_some_iff, Option.some.injEq] at h
  obtain ⟨body, hbody, a, ha, b, hb, c, hc, hbytes⟩ := h
  exact ⟨body, a, b, c, hbody, ha, hb, hc, hbytes.symm⟩

theorem bodyText_eq_iff {r s : RequestLike} {text text' : List Char} (hr : r.bodyText = some text)
    (hs : s.bodyText = some text') : text = text' ↔ SameBody r s := by
  unfold RequestLike.bodyText at hr hs
  cases hrf : r.framed with
  | false =>
    rw [hrf, if_neg Bool.false_ne_true] at hr
    cases hsf : s.framed with
    | false =>
      rw [hsf, if_neg Bool.false_ne_true] at hs
      have htexts : text = text' := (Option.some.inj hr).symm.trans (Option.some.inj hs)
      exact iff_of_true htexts (.inl ⟨hrf, hsf⟩)
    | true =>
      rw [hsf, if_pos rfl] at hs
      obtain ⟨w, -, hw⟩ := Option.map_eq_some_iff.mp hs
      refine iff_of_false ?_ (by simp [SameBody, hrf, hsf])
      rw [← hw, ← Option.some.inj hr]
      simp
  | true =>
    rw [hrf, if_pos rfl] at hr
    obtain ⟨v, hv, htext⟩ := Option.map_eq_some_iff.mp hr
    cases hsf : s.framed with
    | false =>
      rw [hsf, if_neg Bool.false_ne_true] at hs
      refine iff_of_false ?_ (by simp [SameBody, hrf, hsf])
      rw [← htext, ← Option.some.inj hs]
      simp
    | true =>
      rw [hsf, if_pos rfl] at hs
      obtain ⟨w, hw, htext'⟩ := Option.map_eq_some_iff.mp hs
      rw [← htext, ← htext']
      simp [SameBody, hrf, hsf, hv, hw, canonicalJson_eq_iff]

/-- A string of UTF-16 code units. -/
abbrev Units := List UInt16

def asciiUnits (text : List Char) : Units := text.map fun c => UInt16.ofNat c.toNat

/-- A string after its length. -/
def counted (text : Units) (rest : Units) : Units :=
  asciiUnits (Nat.toDigits 10 text.length) ++ 58 :: (text ++ rest)

/-- `TransactionalIdempotencyStore.durableKey`. -/
def durableKey (scope key : Units) : Units := counted scope (58 :: counted key [])

theorem toNat_lt_of_isDigit {c : Char} (h : c.isDigit = true) : c.toNat < 58 := by
  simp only [Char.isDigit, ge_iff_le, Bool.and_eq_true, decide_eq_true_eq] at h
  have hle : c.toNat ≤ '9'.toNat := h.2
  exact Nat.lt_succ_of_le hle

theorem asciiUnits_append_inj {s t : List Char} (hs : ∀ c ∈ s, c.isDigit = true)
    (ht : ∀ c ∈ t, c.isDigit = true) {rest more : Units}
    (h : asciiUnits s ++ 58 :: rest = asciiUnits t ++ 58 :: more) : s = t ∧ rest = more := by
  have hunit : ∀ {c d : Char}, c.isDigit = true → d.isDigit = true →
      UInt16.ofNat c.toNat = UInt16.ofNat d.toNat → c = d := by
    intro c d hc hd heq
    have hvalue := congrArg UInt16.toNat heq
    have hc' := toNat_lt_of_isDigit hc
    have hd' := toNat_lt_of_isDigit hd
    simp only [UInt16.toNat_ofNat'] at hvalue
    exact Char.toNat_inj.mp (by omega)
  have hcolon : ∀ {c : Char}, c.isDigit = true → UInt16.ofNat c.toNat ≠ 58 := by
    intro c hc heq
    have hvalue := congrArg UInt16.toNat heq
    have hc' := toNat_lt_of_isDigit hc
    simp only [UInt16.toNat_ofNat', UInt16.toNat_ofNat] at hvalue
    omega
  induction s generalizing t with
  | nil =>
    cases t with
    | nil => exact ⟨rfl, (List.cons.inj h).2⟩
    | cons d t => exact absurd (List.cons.inj h).1.symm (hcolon (ht d (.head _)))
  | cons c s ih =>
    cases t with
    | nil => exact absurd (List.cons.inj h).1 (hcolon (hs c (.head _)))
    | cons d t =>
      obtain ⟨hhead, htail⟩ := List.cons.inj h
      obtain ⟨hst, hrest⟩ := ih (fun c hc => hs c (.tail _ hc))
        (fun c hc => ht c (.tail _ hc)) htail
      exact ⟨by rw [hunit (hs c List.mem_cons_self) (ht d List.mem_cons_self) hhead, hst], hrest⟩

theorem counted_inj {s t rest more : Units} (h : counted s rest = counted t more) :
    s = t ∧ rest = more := by
  obtain ⟨hdigits, htexts⟩ := asciiUnits_append_inj (fun _ hc => isDigit_toDigits hc)
    (fun _ hc => isDigit_toDigits hc) h
  exact List.append_inj htexts (toDigits_injective hdigits)

theorem durableKey_eq_iff {scope key scope' key' : Units} :
    durableKey scope key = durableKey scope' key' ↔ scope = scope' ∧ key = key' := by
  constructor
  · intro h
    obtain ⟨hscope, hkeys⟩ := counted_inj h
    exact ⟨hscope, (counted_inj (List.cons.inj hkeys).2).1⟩
  · rintro ⟨rfl, rfl⟩
    rfl

/-- Requests are hashed alike, and durable keys are the same, only when their parts are. -/
theorem fingerprint_injective {r s : RequestLike} {method path method' path' : String}
    {bytes bytes' : List UInt8} (hr : fingerprintBytes r method path = some bytes)
    (hs : fingerprintBytes s method' path' = some bytes') :
    (bytes = bytes' ↔ method = method' ∧ path = path' ∧ SameBody r s) ∧
      ∀ scope key scope' key' : Units,
        durableKey scope key = durableKey scope' key' ↔ scope = scope' ∧ key = key' := by
  refine ⟨?_, fun _ _ _ _ => durableKey_eq_iff⟩
  obtain ⟨text, a, b, c, htext, ha, hb, hc, rfl⟩ := fingerprintBytes_eq_some hr
  obtain ⟨text', a', b', c', htext', ha', hb', hc', rfl⟩ := fingerprintBytes_eq_some hs
  rw [← bodyText_eq_iff htext htext']
  constructor
  · intro h
    obtain ⟨hmethod, hrest⟩ := frame_append_inj ha ha' h
    obtain ⟨hpath, hbody⟩ := frame_append_inj hb hb' hrest
    have hlast := congrArg (· ++ []) hbody
    have hparts := (frame_append_inj hc hc' hlast).1
    exact ⟨hmethod, hpath, String.ofList_injective hparts⟩
  · rintro ⟨rfl, rfl, rfl⟩
    rw [Option.some.inj (ha.symm.trans ha'), Option.some.inj (hb.symm.trans hb'),
      Option.some.inj (hc.symm.trans hc')]

/-- A body with two keys. -/
def sampleBody : Value :=
  ⟨.obj [([.scalar 'a'], .null), ([.scalar 'b'], .bool true)], by
    simp [Json.WellFormed, WellFormedMembers]⟩

/-- The same body with its keys in the other order. -/
def reorderedBody : Value :=
  ⟨.obj [([.scalar 'b'], .bool true), ([.scalar 'a'], .null)], by
    simp [Json.WellFormed, WellFormedMembers]⟩

/-- A retry that lists its keys in another order is hashed alike. -/
theorem fingerprint_injective_reordered :
    (fingerprintBytes ⟨none, some 21, some sampleBody⟩ "POST" "/commands/a").get rfl =
      (fingerprintBytes ⟨none, some 21, some reorderedBody⟩ "POST" "/commands/a").get rfl :=
  (fingerprint_injective (Option.some_get _).symm (Option.some_get _).symm).1.mpr
    ⟨rfl, rfl, .inr ⟨by decide, by decide, sampleBody, reorderedBody, rfl, rfl,
      (canonicalJson_eq_iff sampleBody reorderedBody).mp (by decide)⟩⟩

end Stynx.CommandFingerprints
