import Wormhole.L1Encoding.Base64
import Wormhole.L1Encoding.JsNumbers
import Wormhole.L4App.Identity
import Wormhole.L4App.WnsUri

/-!
# Advertisements in JavaScript

`discovery-site/src/lib/wns/advertisement.js`: the class `Advertisement` and
`verifyAdvertisement`. A field holds what the JSON had in it, of any type, and
`none` stands for `undefined`. What the language does with dates, with the texts
of numbers and with what is no string is a `Runtime`.

* `verifyAdvertisement_binds_iff`: what is accepted is bound to the expected
  address and to a date exactly when the expected address names one and the
  advertisement's date is one, or another check refuses it.
-/
namespace Wormhole.L4.WnsJs
open Wormhole.L1 Wormhole.L1.JsonText Wormhole.L4.Wns

/-! ## The runtime -/

structure Runtime where
  /-- `Number::toString`, of a number that is no safe integer. -/
  numberText : PyFloat → Text
  numberText_reads : ∀ q, IsDouble q → isSafeInteger q = false →
    jsReader.ReadsNumber (jsWriter numberText) (.float (.fin q))
  /-- `String(v)`, of a value that is no string. -/
  textOf : Option Json → String
  /-- `v > 0`. -/
  positive : Json → Bool
  /-- `new Date(v).getTime()`; `none` is `NaN`. -/
  date : Option Json → Option Int
  /-- `new Date(now + seconds * 1000).toISOString()`; `none` is a `RangeError`. -/
  isoAfter : Int → Rat → Option String
  unicode : Unicode

variable (r : Runtime)

def Runtime.toText : Option Json → String
  | some (.str s) => s
  | v => r.textOf v

/-- `s.toLowerCase()`. -/
def Runtime.lower (s : String) : String := String.ofList (r.unicode.toLower s.toList)

/-- `Boolean(v)`. -/
def truthy : Json → Bool
  | .null => false
  | .bool b => b
  | .int n => n ≠ 0
  | .float (.fin q) => q ≠ 0
  | .float .negZero => false
  | .float .nan => false
  | .float .inf => true
  | .float .negInf => true
  | .str s => s ≠ ""
  | .arr _ => true
  | .obj _ => true

/-- `data[name]`, of a value that is not `null`. -/
def prop (data : Json) (name : String) : Option Json :=
  match data with
  | .obj fields => Dict.lookup name fields
  | _ => none

/-- `a || b`. -/
def orElse (a b : Option Json) : Option Json :=
  match a with
  | some v => if truthy v then some v else b
  | none => b

/-- `a || b` with a `b` that is there. -/
def orValue (a : Option Json) (b : Json) : Json := (orElse a (some b)).getD b

/-! ## Advertisement -/

/-- mirrors discovery-site/src/lib/wns/advertisement.js:18-33 -/
structure Advertisement where
  version : Json
  address : Option Json
  publicKey : Option Json
  code : Option Json
  timestamp : Option Json
  expires : Option Json
  scopedName : Json
  services : Json
  signature : Json
  version_truthy : truthy version = true
  scopedName_or : scopedName = .null ∨ truthy scopedName = true
  services_truthy : truthy services = true
  signature_or : signature = .null ∨ truthy signature = true

theorem orElse_or (a : Option Json) (b : Option Json) :
    orElse a b = b ∨ ∃ v, orElse a b = some v ∧ truthy v = true := by
  unfold orElse
  split
  · split
    · rename_i v hv; exact .inr ⟨v, rfl, hv⟩
    · exact .inl rfl
  · exact .inl rfl

theorem orValue_or (a : Option Json) (b : Json) :
    orValue a b = b ∨ truthy (orValue a b) = true := by
  unfold orValue
  rcases orElse_or a (some b) with h | ⟨v, h, hv⟩
  · rw [h]; exact .inl rfl
  · rw [h]; exact .inr hv

theorem orValue_truthy (a : Option Json) {b : Json} (hb : truthy b = true) :
    truthy (orValue a b) = true := by
  rcases orValue_or a b with h | h
  · rw [h]; exact hb
  · exact h

/-- The constructor; `null` has no properties to read.
mirrors discovery-site/src/lib/wns/advertisement.js:22-33 -/
def Advertisement.ofData (data : Json) : Option Advertisement :=
  match data with
  | .null => none
  | data => some {
      version := orValue (prop data "version") (.int 1)
      address := prop data "address"
      publicKey := orElse (prop data "publicKey") (prop data "public_key")
      code := prop data "code"
      timestamp := prop data "timestamp"
      expires := prop data "expires"
      scopedName := orValue (orElse (prop data "scopedName") (prop data "scoped_name")) .null
      services := orValue (prop data "services") (.arr [])
      signature := orValue (prop data "signature") .null
      version_truthy := orValue_truthy _ rfl
      scopedName_or := orValue_or _ _
      services_truthy := orValue_truthy _ rfl
      signature_or := orValue_or _ _ }

/-- mirrors discovery-site/src/lib/wns/advertisement.js:77-82 -/
def Advertisement.fromJSON : Json → Option Advertisement
  | .str text => (jsReader.loads text).bind Advertisement.ofData
  | data => Advertisement.ofData data

/-! ## Canonical JSON -/

/-- `null` and `undefined` are removed. -/
def nonNull : Option Json → Option Json
  | some .null => none
  | v => v

/-- mirrors discovery-site/src/lib/wns/advertisement.js:89-99; the keys are in order. -/
def Advertisement.entries (ad : Advertisement) : List (String × Option Json) :=
  [("address", ad.address), ("code", ad.code), ("expires", ad.expires),
    ("public_key", ad.publicKey), ("scoped_name", some ad.scopedName),
    ("services", some ad.services), ("timestamp", ad.timestamp), ("version", some ad.version)]

def present (entries : List (String × Option Json)) : List (String × Json) :=
  entries.filterMap fun e => (nonNull e.2).map fun v => (e.1, v)

def select (keys : List String) (fields : List (String × Json)) : List (String × Json) :=
  keys.filterMap fun k => (Dict.lookup k fields).map fun v => (k, v)

mutual

/-- A list of keys as the second argument of `JSON.stringify`: every object of the
value keeps these keys alone, in this order. -/
def withKeys (keys : List String) : Json → Json
  | .arr xs => .arr (withKeysItems keys xs)
  | .obj fields => .obj (select keys (withKeysFields keys fields))
  | v => v

def withKeysItems (keys : List String) : List Json → List Json
  | [] => []
  | x :: xs => withKeys keys x :: withKeysItems keys xs

def withKeysFields (keys : List String) : List (String × Json) → List (String × Json)
  | [] => []
  | (k, v) :: fields => (k, withKeys keys v) :: withKeysFields keys fields

end

/-- mirrors discovery-site/src/lib/wns/advertisement.js:88-110 -/
def Advertisement.getCanonicalJSON (ad : Advertisement) : String :=
  let obj := present ad.entries
  (jsWriter r.numberText).dumps (withKeys (obj.map Prod.fst) (.obj obj))

/-! ## Creating -/

variable (C : Crypto)

theorem sextets_ne_nil {bs : Bytes} (h : bs ≠ []) : Base64.sextets bs ≠ [] := by
  match bs, h with
  | [a], _ => simp [Base64.sextets]
  | [a, b], _ => simp [Base64.sextets]
  | a :: b :: c :: rest, _ => simp [Base64.sextets]

/-- `bytesToBase64(bytes)`. -/
def bytesToBase64 (bytes : Bytes) : String := String.ofList (Base64.b64encode bytes)

theorem bytesToBase64_truthy {bytes : Bytes} (h : bytes ≠ []) :
    truthy (.str (bytesToBase64 bytes)) = true := by
  have hne : Base64.b64encode bytes ≠ [] := by
    simp [Base64.b64encode, sextets_ne_nil h]
  refine decide_eq_true fun he => hne ?_
  rw [← String.toList_ofList (l := Base64.b64encode bytes)]
  exact congrArg String.toList he

/-- mirrors discovery-site/src/lib/wns/advertisement.js:116-121 -/
def Advertisement.sign (ad : Advertisement) (seed : Bytes) : Advertisement :=
  let sig := C.sign seed (encode (ad.getCanonicalJSON r))
  have hsig : sig ≠ [] := by
    intro h
    have hlen := C.length_sign seed (encode (ad.getCanonicalJSON r))
    rw [show C.sign seed (encode (ad.getCanonicalJSON r)) = [] from h] at hlen
    cases hlen
  { ad with
    signature := .str (bytesToBase64 sig)
    signature_or := .inr (bytesToBase64_truthy hsig) }

/-- With the identity of a seed.
mirrors discovery-site/src/lib/wns/advertisement.js:44-70 -/
def Advertisement.create (seed : Bytes) (scopedName : Option String) (code : String)
    (ttlSeconds : Rat) (services : List String) (now : Int) : Option Advertisement := do
  let timestamp ← r.isoAfter now 0
  let expires ← r.isoAfter now ttlSeconds
  let publicKey := C.publicKey seed
  let ad ← Advertisement.ofData (.obj [("version", .int 1),
    ("address", .str (deriveAddress C publicKey).text),
    ("publicKey", .str (bytesToBase64 publicKey)), ("code", .str code),
    ("timestamp", .str timestamp), ("expires", .str expires),
    ("scopedName", (scopedName.map Json.str).getD .null),
    ("services", .arr (services.map .str))])
  return ad.sign r C seed

/-- `v.length > 0`. -/
def hasLength : Json → Bool
  | .str s => s ≠ ""
  | .arr xs => !xs.isEmpty
  | .obj fields => (Dict.lookup "length" fields).any r.positive
  | _ => false

/-- mirrors discovery-site/src/lib/wns/advertisement.js:183-203 -/
def Advertisement.toJSON (ad : Advertisement) : Json :=
  .obj (([("version", some ad.version), ("address", ad.address), ("public_key", ad.publicKey),
    ("code", ad.code), ("timestamp", ad.timestamp), ("expires", ad.expires),
    ("signature", some ad.signature),
    ("scoped_name", if truthy ad.scopedName then some ad.scopedName else none),
    ("services", if hasLength r ad.services then some ad.services else none)] :
      List (String × Option Json)).filterMap fun e => e.2.map fun v => (e.1, v))

/-- `JSON.stringify(ad)`. -/
def Advertisement.text (ad : Advertisement) : String :=
  (jsWriter r.numberText).dumps (ad.toJSON r)

/-! ## Verifying -/

/-- mirrors discovery-site/src/lib/wns/identity.js:142-145 -/
def verifyAddress (address : String) (publicKey : Bytes) : Bool :=
  r.lower address = (deriveAddress C publicKey).text

/-- noble refuses a signature or a key of another length.
mirrors discovery-site/src/lib/crypto/ed25519.js:52-54 -/
def edVerify (signature message publicKey : Bytes) : Option Bool :=
  if signature.length = 64 ∧ publicKey.length = 32 then some (C.verify publicKey message signature)
  else none

/-- `verify()` with the key of the advertisement; `none` is an exception.
mirrors discovery-site/src/lib/wns/advertisement.js:128-148 -/
def Advertisement.verify (ad : Advertisement) : Option Bool :=
  if truthy ad.signature then do
    let pk ← Base64.atob (r.toText ad.publicKey).toList
    match ad.address with
    | some (.str address) =>
      if verifyAddress r C address pk then do
        let sig ← Base64.atob (r.toText (some ad.signature)).toList
        edVerify C sig (encode (ad.getCanonicalJSON r)) pk
      else some false
    | _ => none
  else some false

/-- A comparison with `NaN` is false.
mirrors discovery-site/src/lib/wns/advertisement.js:154-156 -/
def Advertisement.isExpired (now : Int) (ad : Advertisement) : Bool :=
  match r.date ad.expires with
  | some t => t < now
  | none => false

inductive Refusal
  | raised
  | expired
  | addressMismatch
  | scopedNameMismatch
  | invalidSignature
  deriving DecidableEq

/-- `error` of the result; of an exception it is the message. -/
def Refusal.error : Refusal → Option String
  | .raised => none
  | .expired => some "Advertisement expired"
  | .addressMismatch => some "Address mismatch"
  | .scopedNameMismatch => some "Scoped name mismatch"
  | .invalidSignature => some "Invalid signature"

/-- A text and a value that are `===`. -/
def sameText (text : Chars) : Option Json → Bool
  | some (.str s) => s.toList = text
  | _ => false

/-- What differs from the address that was asked for.
mirrors discovery-site/src/lib/wns/advertisement.js:234-242 -/
def mismatch (expected : Chars) (ad : Advertisement) : Option Refusal :=
  match parseWNSAddress r.unicode expected with
  | none => none
  | some parsed =>
    if !sameText parsed.address ad.address then some .addressMismatch
    else match parsed.scopedName with
      | some (c :: cs) =>
        if !sameText (c :: cs) (some ad.scopedName) then some .scopedNameMismatch else none
      | _ => none

/-- The advertisement that is accepted; its `code` is the result's.
mirrors discovery-site/src/lib/wns/advertisement.js:224-254 -/
def verifyAdvertisement (now : Int) (adData : Json) (expected : Chars) :
    Except Refusal Advertisement :=
  match Advertisement.fromJSON adData with
  | none => .error .raised
  | some ad =>
    if ad.isExpired r now then .error .expired
    else match (if expected = [] then none else mismatch r expected ad) with
      | some refusal => .error refusal
      | none =>
        match ad.verify r C with
        | none => .error .raised
        | some false => .error .invalidSignature
        | some true => .ok ad

/-! ## What an accepted advertisement is bound to -/

variable {r C}

/-- A real date in the future. -/
def Advertisement.InFuture (r : Runtime) (now : Int) (ad : Advertisement) : Prop :=
  ∃ t, r.date ad.expires = some t ∧ now < t

/-- The address is derived from the public key, and what is signed is the
canonical form. -/
def Advertisement.Authentic (r : Runtime) (C : Crypto) (ad : Advertisement) : Prop :=
  ∃ address pk sig, ad.address = some (.str address) ∧
    Base64.atob (r.toText ad.publicKey).toList = some pk ∧
    Base64.atob (r.toText (some ad.signature)).toList = some sig ∧
    r.lower address = (deriveAddress C pk).text ∧
    C.verify pk (encode (ad.getCanonicalJSON r)) sig = true

/-- The expected address names the advertisement's. -/
def Advertisement.IsNamed (r : Runtime) (expected : Chars) (ad : Advertisement) : Prop :=
  ∃ parsed, parseWNSAddress r.unicode expected = some parsed ∧
    ad.address = some (.str (String.ofList parsed.address))

def Advertisement.Bound (r : Runtime) (C : Crypto) (now : Int) (expected : Chars)
    (ad : Advertisement) : Prop :=
  ad.InFuture r now ∧ ad.Authentic r C ∧ ad.IsNamed r expected

theorem authentic_of_verify {ad : Advertisement} (h : ad.verify r C = some true) :
    ad.Authentic r C := by
  unfold Advertisement.verify at h
  split at h
  · obtain ⟨pk, hpk, h⟩ := Option.bind_eq_some_iff.mp h
    split at h
    · rename_i address haddress
      split at h
      · rename_i hderived
        obtain ⟨sig, hsig, h⟩ := Option.bind_eq_some_iff.mp h
        unfold edVerify at h
        split at h
        · exact ⟨address, pk, sig, haddress, hpk, hsig, of_decide_eq_true hderived,
            Option.some.inj h⟩
        · cases h
      · cases h
    · cases h
  · cases h

theorem sameText_iff {text : Chars} {v : Option Json} :
    sameText text v = true ↔ v = some (.str (String.ofList text)) := by
  unfold sameText
  split
  · rename_i s
    rw [decide_eq_true_eq, Option.some.injEq, Json.str.injEq, ← String.toList_inj,
      String.toList_ofList]
  · rename_i hne
    constructor
    · intro h
      cases h
    · intro h
      exact absurd h (hne _)

theorem isNamed_of_mismatch {expected : Chars} {ad : Advertisement} {parsed : Parsed}
    (hp : parseWNSAddress r.unicode expected = some parsed) (h : mismatch r expected ad = none) :
    ad.IsNamed r expected := by
  unfold mismatch at h
  rw [hp] at h
  simp only at h
  split at h
  · cases h
  · rename_i hsame
    rw [Bool.not_eq_true', Bool.not_eq_false] at hsame
    exact ⟨parsed, hp, sameText_iff.mp hsame⟩

/-- Every check has passed. -/
theorem verifyAdvertisement_ok {now : Int} {adData : Json} {expected : Chars}
    {ad : Advertisement} :
    verifyAdvertisement r C now adData expected = .ok ad ↔
      Advertisement.fromJSON adData = some ad ∧ ad.isExpired r now = false ∧
        (if expected = [] then none else mismatch r expected ad) = none ∧
        ad.verify r C = some true := by
  unfold verifyAdvertisement
  constructor
  · intro h
    split at h
    · cases h
    · rename_i ad' had
      split at h
      · cases h
      · rename_i hexp
        split at h
        · cases h
        · rename_i hm
          split at h
          · cases h
          · cases h
          · rename_i hv
            cases h
            exact ⟨had, by simpa using hexp, hm, hv⟩
  · rintro ⟨had, hexp, hm, hv⟩
    simp only [had, hexp, hm, hv, Bool.false_eq_true, if_false]

/-- What another check refuses. -/
def Advertisement.Refused (r : Runtime) (C : Crypto) (now : Int) (expected : Chars)
    (ad : Advertisement) : Prop :=
  ad.isExpired r now = true ∨ mismatch r expected ad ≠ none ∨ ad.verify r C ≠ some true

/-- The expected address names one, and the advertisement's date is another than
now. -/
def Advertisement.Checkable (r : Runtime) (now : Int) (expected : Chars) (ad : Advertisement) :
    Prop :=
  (∃ parsed, parseWNSAddress r.unicode expected = some parsed) ∧
    ∃ t, r.date ad.expires = some t ∧ t ≠ now

/-- **Headline.** An advertisement that is accepted is bound to the expected
address and unexpired exactly when it is refused otherwise, or the expected
address names one and the advertisement's date is one, and not this moment. -/
theorem verifyAdvertisement_binds_iff (r : Runtime) (C : Crypto) (now : Int) (adData : Json)
    (c : Char) (cs : Chars) :
    (∀ ad, verifyAdvertisement r C now adData (c :: cs) = .ok ad → ad.Bound r C now (c :: cs)) ↔
      ∀ ad, Advertisement.fromJSON adData = some ad →
        ad.Refused r C now (c :: cs) ∨ ad.Checkable r now (c :: cs) := by
  have hcons : ∀ ad, (if c :: cs = [] then none else mismatch r (c :: cs) ad) =
      mismatch r (c :: cs) ad := fun ad => if_neg (List.cons_ne_nil c cs)
  simp only [verifyAdvertisement_ok, hcons]
  constructor
  · intro h ad had
    by_cases hok : ad.isExpired r now = false ∧ mismatch r (c :: cs) ad = none ∧
        ad.verify r C = some true
    · obtain ⟨⟨t, ht, hlt⟩, -, ⟨parsed, hp, -⟩⟩ := h ad ⟨had, hok⟩
      exact .inr ⟨⟨parsed, hp⟩, t, ht, hlt.ne'⟩
    · left
      rw [Advertisement.Refused]
      by_contra hnot
      rw [not_or, not_or, not_not, not_not, Bool.not_eq_true] at hnot
      exact hok hnot
  · rintro h ad ⟨had, hexp, hm, hv⟩
    rcases h ad had with (hr | hr | hr) | ⟨⟨parsed, hp⟩, t, ht, hne⟩
    · rw [hexp] at hr
      cases hr
    · exact absurd hm hr
    · exact absurd hv hr
    · have hlt : now < t := by
        rw [Advertisement.isExpired, ht] at hexp
        have := of_decide_eq_false hexp
        omega
      exact ⟨⟨t, ht, hlt⟩, authentic_of_verify hv, isNamed_of_mismatch hp hm⟩

/-- The texts of ASCII, and a few dates. -/
def sampleRuntime : Runtime where
  numberText := exactText
  numberText_reads _ h hs := exactText_reads h hs
  textOf
    | none => "undefined"
    | some .null => "null"
    | _ => "[object Object]"
  positive _ := false
  date
    | some (.str "2029-01-01T00:00:00.000Z") => some 1861920000000
    | some (.str "2029-01-01T00:05:00.000Z") => some 1861920300000
    | some (.str "2029-01-01T00:05:00+00:00") => some 1861920300000
    | some (.str "2030-01-01T00:00:00.000Z") => some 1893456000000
    | _ => none
  isoAfter now seconds :=
    if now = 1861920000000 then
      if seconds = 0 then some "2029-01-01T00:00:00.000Z"
      else if seconds = 300 then some "2029-01-01T00:05:00.000Z"
      else none
    else none
  unicode := asciiUnicode

/-- Signed with its own key. -/
def sampleData : Json := .obj [("version", .int 1), ("address", .str "aeaaaaaaaaaaaaaaaaaaaaaaaa"),
  ("public_key", .str "AQAAAAAAAAAAAAAAAAAAAAAAAAAAAAAAAAAAAAAAAAA="),
  ("code", .str "7-guitar-sunset"), ("timestamp", .str "2029-01-01T00:00:00.000Z"),
  ("expires", .str "2030-01-01T00:00:00.000Z"),
  ("signature", .str ("AQAAAAAAAAAAAAAAAAAAAAAAAAAAAAAAAAAAAAAAAAB7ImFkZHJlc3MiOiJhZWFhYWFhYWFh" ++
    "YWFhYWFhYWFhYQ=="))]

/-- Under a host name that is no address, the advertisement of any key is accepted. -/
theorem unnamed_address_accepted :
    ¬ ∀ (r : Runtime) (C : Crypto) (now : Int) (adData : Json) (c : Char) (cs : Chars)
      (ad : Advertisement), verifyAdvertisement r C now adData (c :: cs) = .ok ad →
        ad.Bound r C now (c :: cs) := by
  intro h
  have haccepted : (verifyAdvertisement sampleRuntime Crypto.sample 0 sampleData
      ('e' :: "xample.com".toList)).isOk = true := by decide +kernel
  have hunnamed : parseWNSAddress sampleRuntime.unicode ('e' :: "xample.com".toList) = none := by
    decide +kernel
  cases hok : verifyAdvertisement sampleRuntime Crypto.sample 0 sampleData
      ('e' :: "xample.com".toList) with
  | error e =>
    rw [hok] at haccepted
    cases haccepted
  | ok ad =>
    obtain ⟨-, -, parsed, hp, -⟩ := h _ _ _ _ _ _ ad hok
    rw [hunnamed] at hp
    cases hp

end Wormhole.L4.WnsJs
