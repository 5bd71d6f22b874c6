import Wormhole.L4App.Advertisement

/-!
# Verifying what was loaded

`CodeAdvertisement.verify` of `src/wh/wns/advertisement.py`, on every record that `from_dict`
builds. `json.loads` also returns strings with a lone surrogate, for which there is no `Json`:
they can be compared, and not encoded. Here they stand beside the others, and the values that
are no strings are a parameter.

* `verify_ofJson`: of strings without lone surrogates it is the `verify` of `Advertisement`.
* `verify_decides_iff`: `verify` answers, and rightly, if and only if `expires` has a zone and,
  of a record that is not expired, the key has 32 bytes and, of a record of the address that
  is expected, the code can be encoded and the signature is not a stretched one.
-/
namespace Wormhole.L4.WnsLoaded
open Wormhole.L1 Wormhole.L4.Wns

/-! ## Values -/

/-- The code points of a string with a lone surrogate. -/
structure LoneText where
  points : List Nat
  lone : ∃ n ∈ points, 0xd800 ≤ n ∧ n ≤ 0xdfff

/-- A `str`. -/
inductive Str
  | text (s : String)
  | lone (s : LoneText)

/-- A member of a dict of `json.loads`; `V` are the values that are no strings. -/
inductive Loaded (V : Type)
  | str (s : Str)
  | other (v : V)

variable {V : Type}

/-- What is used of Python's library. -/
structure Library (V : Type) where
  /-- `str(x)`: a string in `x` is printed by `repr`, which escapes a lone surrogate. -/
  str : V → String
  /-- `datetime.fromisoformat`; `none` is a `ValueError`. -/
  fromisoformat : Str → Option DateTime

/-- `f"{x}".encode("utf-8")` as a text; `none` is a `UnicodeEncodeError`. -/
def Library.format (L : Library V) : Loaded V → Option String
  | .str (.text s) => some s
  | .str (.lone _) => none
  | .other v => some (L.str v)

/-- `fromisoformat` and `b64decode` of another value are a `TypeError`. -/
def Loaded.toStr : Loaded V → Option Str
  | .str s => some s
  | .other _ => none

/-- A `str` and a text that are `==`. -/
def Str.isText (text : String) : Str → Bool
  | .text s => s = text
  | .lone _ => false

def Loaded.isText (text : String) (v : Loaded V) : Bool := v.toStr.any (Str.isText text)

/-- `base64.b64decode`: only of ASCII. -/
def b64decode : Str → Option Bytes
  | .text s => Base64.b64decode s.toList
  | .lone _ => none

/-! ## The records -/

/-- mirrors src/wh/wns/advertisement.py:22-45. A missing version is 1, a missing name `None`. -/
structure Record (V : Type) where
  address : Loaded V
  code : Loaded V
  timestamp : DateTime
  expires : DateTime
  publicKey : Bytes
  signature : Bytes
  version : Option (Loaded V)
  scopedName : Option (Loaded V)

variable (L : Library V) (C : Crypto)

/-- `none` is an exception.
mirrors src/wh/wns/advertisement.py:170-182 -/
def Record.fromDict (data : List (String × Loaded V)) : Option (Record V) := do
  let address ← Dict.lookup "address" data
  let code ← Dict.lookup "code" data
  let timestamp ← ((Dict.lookup "timestamp" data).bind Loaded.toStr).bind L.fromisoformat
  let expires ← ((Dict.lookup "expires" data).bind Loaded.toStr).bind L.fromisoformat
  let publicKey ← ((Dict.lookup "public_key" data).bind Loaded.toStr).bind b64decode
  let signature ← ((Dict.lookup "signature" data).bind Loaded.toStr).bind b64decode
  return {
    address, code, timestamp, expires, publicKey, signature
    version := Dict.lookup "version" data
    scopedName := Dict.lookup "scoped_name" data }

/-- mirrors src/wh/wns/advertisement.py:135-138 -/
def Record.isExpired (now : Int) (ad : Record V) : Option Bool := reached now ad.expires

/-- What is signed, with the address of a key; `none` is a `UnicodeEncodeError`.
mirrors src/wh/wns/advertisement.py:91-101 -/
def Record.message (ad : Record V) (address : String) : Option Bytes :=
  (L.format ad.code).map fun code =>
    CodeAdvertisement.createSignMessage address code ad.timestamp ad.expires

/-- `expected_address` is asked for: `None` and the empty string are no address. -/
def asked : Option Str → Bool
  | none => false
  | some (.text s) => s ≠ ""
  | some (.lone _) => true

/-- `none` is an exception.
mirrors src/wh/wns/advertisement.py:103-133 -/
def Record.verify (now : Int) (ad : Record V) (expectedAddress : Option Str) : Option Bool :=
  match ad.isExpired now with
  | none => none
  | some true => some false
  | some false =>
    if ad.publicKey.length ≠ 32 then none
    else
      let address := (deriveAddress C ad.publicKey).text
      if !ad.address.isText address then some false
      else if asked expectedAddress ∧ !expectedAddress.any (Str.isText address) then some false
      else (ad.message L address).map fun message =>
        identityVerify C ad.publicKey message ad.signature

/-! ## Strings without lone surrogates -/

def Loaded.ofJson : Json → Loaded Json
  | .str s => .str (.text s)
  | v => .other v

/-- The library, for such strings. -/
structure Library.Extends (L : Library Json) (K : Lib) : Prop where
  str : ∀ v, L.str v = K.str v
  fromisoformat : ∀ s, L.fromisoformat (.text s) = K.fromisoformat s

section Strings

variable {L : Library Json} {C : Crypto} {K : Lib}

theorem toStr_ofJson (v : Json) :
    (Loaded.ofJson v).toStr = (match v with | .str s => some (.text s) | _ => none) := by
  cases v <;> rfl

theorem isText_ofJson (text : String) (v : Json) :
    (Loaded.ofJson v).isText text = Wns.isText text v := by
  cases v <;> rfl

theorem format_ofJson (hL : L.Extends K) (v : Json) :
    L.format (Loaded.ofJson v) = some (K.format v) := by
  cases v with
  | str s => rfl
  | _ => exact congrArg some (hL.str _)

theorem lookup_ofJson (key : String) (fields : List (String × Json)) :
    Dict.lookup key (fields.map fun e => (e.1, Loaded.ofJson e.2)) =
      (item (.obj fields) key).map Loaded.ofJson := by
  unfold item
  induction fields with
  | nil => rfl
  | cons e fields ih =>
    simp only [List.map_cons, Dict.lookup]
    split
    · rfl
    · exact ih

theorem date_ofJson (hL : L.Extends K) (key : String) (fields : List (String × Json)) :
    ((Dict.lookup key (fields.map fun e => (e.1, Loaded.ofJson e.2))).bind Loaded.toStr).bind
      L.fromisoformat = dateItem K (.obj fields) key := by
  rw [lookup_ofJson, dateItem, textItem]
  cases item (.obj fields) key with
  | none => rfl
  | some v =>
    cases v with
    | str s => exact hL.fromisoformat s
    | _ => rfl

theorem bytes_ofJson (key : String) (fields : List (String × Json)) :
    ((Dict.lookup key (fields.map fun e => (e.1, Loaded.ofJson e.2))).bind Loaded.toStr).bind
      b64decode = bytesItem (.obj fields) key := by
  rw [lookup_ofJson, bytesItem, textItem]
  cases item (.obj fields) key with
  | none => rfl
  | some v => cases v <;> rfl

/-- The record of an advertisement, with what its dict says of version and name. -/
def Record.ofAdvertisement (version scopedName : Option (Loaded Json)) (ad : CodeAdvertisement) :
    Record Json :=
  ⟨.ofJson ad.address, .ofJson ad.code, ad.timestamp, ad.expires, ad.publicKey, ad.signature,
    version, scopedName⟩

theorem fromDict_ofJson (hL : L.Extends K) (fields : List (String × Json)) :
    Record.fromDict L (fields.map fun e => (e.1, Loaded.ofJson e.2)) =
      (CodeAdvertisement.fromDict K (.obj fields)).map (Record.ofAdvertisement
        ((item (.obj fields) "version").map Loaded.ofJson)
        ((item (.obj fields) "scoped_name").map Loaded.ofJson)) := by
  unfold Record.fromDict CodeAdvertisement.fromDict
  rw [date_ofJson hL, date_ofJson hL, bytes_ofJson, bytes_ofJson]
  simp only [lookup_ofJson]
  cases item (.obj fields) "address" with
  | none => rfl
  | some address =>
    cases item (.obj fields) "code" with
    | none => rfl
    | some code =>
      cases dateItem K (.obj fields) "timestamp" with
      | none => rfl
      | some timestamp =>
        cases dateItem K (.obj fields) "expires" with
        | none => rfl
        | some expires =>
          cases bytesItem (.obj fields) "public_key" with
          | none => rfl
          | some publicKey => cases bytesItem (.obj fields) "signature" <;> rfl

theorem asked_ofString (expected : Option String) :
    asked (expected.map Str.text) = ((expected.map Json.str).getD .null).truthy ∧
      ∀ address, (expected.map Str.text).any (Str.isText address) =
        Wns.isText address ((expected.map Json.str).getD .null) := by
  cases expected with
  | none => exact ⟨rfl, fun _ => rfl⟩
  | some s => exact ⟨rfl, fun _ => rfl⟩

/-- Of strings without lone surrogates it is the `verify` of `Advertisement`. -/
theorem verify_ofJson (hL : L.Extends K) (version scopedName : Option (Loaded Json)) (now : Int)
    (ad : CodeAdvertisement) (expected : Option String) :
    (Record.ofAdvertisement version scopedName ad).verify L C now (expected.map Str.text) =
      ad.verify K C now ((expected.map Json.str).getD .null) := by
  obtain ⟨hasked, htext⟩ := asked_ofString expected
  have hmessage (address : String) :
      (Record.ofAdvertisement version scopedName ad).message L address =
        some (ad.message K address) := by
    unfold Record.message
    rw [Record.ofAdvertisement, format_ofJson hL]
    rfl
  unfold Record.verify CodeAdvertisement.verify
  simp only [hasked, htext, hmessage, Option.map_some]
  simp only [Record.ofAdvertisement, isText_ofJson]
  rfl

end Strings

/-! ## The decision -/

/-- The address is that of the key, and the one that is asked for. -/
structure Record.Named (C : Crypto) (ad : Record V) (expected : Option Str) : Prop where
  derived : ad.address = .str (.text (deriveAddress C ad.publicKey).text)
  expected : ∀ s, expected = some s → asked expected = true → ad.address = .str s

/-- What `verify` is to be true of. -/
structure Record.Valid (L : Library V) (C : Crypto) (now : Int) (ad : Record V)
    (expected : Option Str) : Prop where
  unexpired : ∃ e, ad.expires.utc = some e ∧ now < e
  keyed : ad.publicKey.length = 32
  named : ad.Named C expected
  length : ad.signature.length = 64
  signed : ∃ message, ad.message L (deriveAddress C ad.publicKey).text = some message ∧
    C.verify ad.publicKey message ad.signature = true

/-- `verify` answers, and rightly. -/
def Record.Decided (L : Library V) (C : Crypto) (now : Int) (ad : Record V)
    (expected : Option Str) : Prop :=
  ∃ answer, ad.verify L C now expected = some answer ∧
    (answer = true ↔ ad.Valid L C now expected)

/-- Not of 64 bytes, and in front of the message a signature with what it signs. -/
structure Stretched (C : Crypto) (publicKey message signature : Bytes) : Prop where
  length : signature.length ≠ 64
  enough : 64 ≤ (signature ++ message).length
  signed : C.verify publicKey ((signature ++ message).drop 64) ((signature ++ message).take 64) =
    true

/-- What can be checked. -/
structure Record.Checkable (L : Library V) (C : Crypto) (ad : Record V)
    (expected : Option Str) : Prop where
  keyed : ad.publicKey.length = 32
  encodable : ad.Named C expected →
    ∃ message, ad.message L (deriveAddress C ad.publicKey).text = some message
  exact : ad.Named C expected → ∀ message,
    ad.message L (deriveAddress C ad.publicKey).text = some message →
      ¬ Stretched C ad.publicKey message ad.signature

section Decision

variable {L : Library V} {C : Crypto} {now : Int} {ad : Record V} {expected : Option Str}

theorem str_isText_iff {text : String} {s : Str} : s.isText text = true ↔ s = .text text := by
  cases s with
  | text s => simp [Str.isText]
  | lone s => simp [Str.isText]

theorem loaded_isText_iff {text : String} {v : Loaded V} :
    v.isText text = true ↔ v = .str (.text text) := by
  cases v with
  | str s => simp [Loaded.isText, Loaded.toStr, str_isText_iff]
  | other v => simp [Loaded.isText, Loaded.toStr]

/-- The two comparisons of `verify`. -/
theorem named_iff {address : String} (haddress : address = (deriveAddress C ad.publicKey).text) :
    ad.Named C expected ↔ ad.address.isText address = true ∧
      ¬ (asked expected = true ∧ (!expected.any (Str.isText address)) = true) := by
  subst haddress
  rw [loaded_isText_iff]
  constructor
  · intro h
    refine ⟨h.derived, fun hasked => ?_⟩
    cases expected with
    | none => exact absurd hasked.1 (by decide)
    | some s =>
      have hs := h.expected s rfl hasked.1
      rw [h.derived, Loaded.str.injEq] at hs
      subst hs
      simp [Str.isText] at hasked
  · rintro ⟨hderived, hnot⟩
    refine ⟨hderived, ?_⟩
    rintro s rfl hasked
    rw [hderived, Loaded.str.injEq]
    by_contra hne
    apply hnot
    refine ⟨hasked, ?_⟩
    rw [Option.any_some, Bool.not_eq_true', ← Bool.not_eq_true, str_isText_iff]
    exact fun hs => hne hs.symm

theorem verify_naive (h : ad.expires.utc = none) : ad.verify L C now expected = none := by
  unfold Record.verify Record.isExpired reached
  rw [h]
  rfl

theorem verify_expired {e : Int} (h : ad.expires.utc = some e) (he : e ≤ now) :
    ad.verify L C now expected = some false := by
  unfold Record.verify Record.isExpired reached
  rw [h, Option.map_some, decide_eq_true he]

/-- What is left of an unexpired record with a key. -/
theorem verify_unexpired {e : Int} (h : ad.expires.utc = some e) (he : now < e) :
    (ad.publicKey.length ≠ 32 → ad.verify L C now expected = none) ∧
    (ad.publicKey.length = 32 → ¬ ad.Named C expected →
      ad.verify L C now expected = some false) ∧
    (ad.publicKey.length = 32 → ad.Named C expected →
      ad.verify L C now expected = (ad.message L (deriveAddress C ad.publicKey).text).map
        fun message => identityVerify C ad.publicKey message ad.signature) := by
  have hexp : ad.isExpired now = some false := by
    unfold Record.isExpired reached
    rw [h, Option.map_some, decide_eq_false (by omega)]
  unfold Record.verify
  rw [hexp]
  simp only
  refine ⟨fun hlen => if_pos hlen, fun hlen hnot => ?_, fun hlen hnamed => ?_⟩
  · rw [if_neg (not_not.mpr hlen)]
    rw [named_iff rfl, not_and_or] at hnot
    rcases hnot with hnot | hnot
    · rw [if_pos (by simpa using hnot)]
    · rw [if_pos (not_not.mp hnot)]
      split <;> rfl
  · rw [named_iff rfl] at hnamed
    rw [if_neg (not_not.mpr hlen), hnamed.1, if_neg (by decide), if_neg hnamed.2]

/-- A signature is found, of 64 bytes or a stretched one. -/
theorem identityVerify_true_iff {publicKey message signature : Bytes} :
    identityVerify C publicKey message signature = true ↔
      (signature.length = 64 ∧ C.verify publicKey message signature = true) ∨
        Stretched C publicKey message signature := by
  by_cases hlen : signature.length = 64
  · rw [identityVerify_iff hlen]
    constructor
    · exact fun h => .inl ⟨hlen, h⟩
    · rintro (h | h)
      · exact h.2
      · exact absurd hlen h.length
  · unfold identityVerify
    rw [Bool.and_eq_true, decide_eq_true_eq]
    constructor
    · exact fun h => .inr ⟨hlen, h.1, h.2⟩
    · rintro (h | h)
      · exact absurd h.1 hlen
      · exact ⟨h.enough, h.signed⟩

theorem not_decided_of_none (h : ad.verify L C now expected = none) :
    ¬ ad.Decided L C now expected := by
  rintro ⟨answer, hanswer, -⟩
  rw [h] at hanswer
  cases hanswer

theorem decided_of_false (h : ad.verify L C now expected = some false)
    (hnot : ¬ ad.Valid L C now expected) : ad.Decided L C now expected := by
  refine ⟨false, h, ?_⟩
  simp [hnot]

/-- A record of the address that is asked for, with a message. -/
theorem decided_signed {e : Int} {message : Bytes} (h : ad.expires.utc = some e) (he : now < e)
    (hlen : ad.publicKey.length = 32) (hnamed : ad.Named C expected)
    (hmessage : ad.message L (deriveAddress C ad.publicKey).text = some message) :
    ad.Decided L C now expected ↔ ¬ Stretched C ad.publicKey message ad.signature := by
  have hverify : ad.verify L C now expected =
      some (identityVerify C ad.publicKey message ad.signature) := by
    rw [(verify_unexpired h he).2.2 hlen hnamed, hmessage]
    rfl
  have hvalid : ad.Valid L C now expected ↔
      ad.signature.length = 64 ∧ C.verify ad.publicKey message ad.signature = true := by
    constructor
    · intro hv
      obtain ⟨message', hmessage', hsigned⟩ := hv.signed
      rw [hmessage, Option.some.injEq] at hmessage'
      subst hmessage'
      exact ⟨hv.length, hsigned⟩
    · intro hsig
      exact ⟨⟨e, h, he⟩, hlen, hnamed, hsig.1, message, hmessage, hsig.2⟩
  constructor
  · rintro ⟨answer, hanswer, hright⟩ hstretched
    rw [hverify, Option.some.injEq] at hanswer
    subst hanswer
    have hv := hright.mp (identityVerify_true_iff.mpr (.inr hstretched))
    exact hstretched.length hv.length
  · intro hnot
    refine ⟨_, hverify, ?_⟩
    rw [identityVerify_true_iff, hvalid, or_iff_left hnot]

/-- **Headline.** `verify` answers, and rightly, if and only if `expires` has a zone and a record
that is not expired can be checked. -/
theorem verify_decides_iff (L : Library V) (C : Crypto) (now : Int) (ad : Record V)
    (expected : Option Str) :
    ad.Decided L C now expected ↔
      ∃ e, ad.expires.utc = some e ∧ (now < e → ad.Checkable L C expected) := by
  cases h : ad.expires.utc with
  | none =>
    apply iff_of_false (not_decided_of_none (verify_naive h))
    rintro ⟨e, he, -⟩
    cases he
  | some e =>
    have hcond : (∃ e', some e = some e' ∧ (now < e' → ad.Checkable L C expected)) ↔
        (now < e → ad.Checkable L C expected) := by simp
    rw [hcond]
    by_cases he : now < e
    · rw [forall_prop_of_true he]
      by_cases hlen : ad.publicKey.length = 32
      · by_cases hnamed : ad.Named C expected
        · cases hmessage : ad.message L (deriveAddress C ad.publicKey).text with
          | none =>
            have hnone : ad.verify L C now expected = none := by
              rw [(verify_unexpired h he).2.2 hlen hnamed, hmessage]
              rfl
            apply iff_of_false (not_decided_of_none hnone)
            intro hc
            obtain ⟨message, hsome⟩ := hc.encodable hnamed
            rw [hmessage] at hsome
            cases hsome
          | some message =>
            rw [decided_signed h he hlen hnamed hmessage]
            constructor
            · intro hnot
              refine ⟨hlen, fun _ => ⟨message, hmessage⟩, fun _ message' hmessage' => ?_⟩
              rw [hmessage, Option.some.injEq] at hmessage'
              exact hmessage' ▸ hnot
            · intro hc
              exact hc.exact hnamed message hmessage
        · apply iff_of_true (decided_of_false ((verify_unexpired h he).2.1 hlen hnamed)
            fun hv => hnamed hv.named)
          exact ⟨hlen, fun hn => absurd hn hnamed, fun hn => absurd hn hnamed⟩
      · apply iff_of_false (not_decided_of_none ((verify_unexpired h he).1 hlen))
        exact fun hc => hlen hc.keyed
    · apply iff_of_true _ fun hlt => absurd hlt he
      apply decided_of_false (verify_expired h (by omega))
      intro hv
      obtain ⟨e', he', hlt⟩ := hv.unexpired
      rw [h, Option.some.injEq] at he'
      omega

end Decision

/-! ## Records that are not decided -/

/-- `2029-01-01T00:05:00`, without a zone. -/
def naiveFivePast : DateTime := { fivePast with utcoffset := none }

def sampleLibrary : Library Json where
  str := sampleLib.str
  fromisoformat
    | .text "2029-01-01T00:05:00" => some naiveFivePast
    | .text s => sampleLib.fromisoformat s
    | .lone _ => none

def loadedData (expires : String) (publicKey signature : Bytes) : List (String × Loaded Json) :=
  [("address", .str (.text "aeaaaaaaaaaaaaaaaaaaaaaaaa")),
    ("code", .str (.text "7-guitar-sunset")),
    ("timestamp", .str (.text "2029-01-01T00:00:00+00:00")),
    ("expires", .str (.text expires)),
    ("public_key", .str (.text (String.ofList (Base64.b64encode publicKey)))),
    ("signature", .str (.text (String.ofList (Base64.b64encode signature))))]

theorem fromDict_loadedData (expires : String) {t : DateTime}
    (h : sampleLibrary.fromisoformat (.text expires) = some t) (publicKey signature : Bytes) :
    Record.fromDict sampleLibrary (loadedData expires publicKey signature) =
      some ⟨.str (.text "aeaaaaaaaaaaaaaaaaaaaaaaaa"), .str (.text "7-guitar-sunset"), newYear, t,
        publicKey, signature, none, none⟩ := by
  have htimestamp : sampleLibrary.fromisoformat (.text "2029-01-01T00:00:00+00:00") =
      some newYear := rfl
  simp [Record.fromDict, loadedData, Dict.lookup, Loaded.toStr, b64decode, htimestamp, h,
    Base64.b64decode_b64encode]

/-- **Records that `verify` raises for.** One with an expiry without a zone, and one with an
empty key. -/
theorem naive_and_keyless_raise :
    (∃ ad, Record.fromDict sampleLibrary (loadedData "2029-01-01T00:05:00"
        sampleAdvertisement.publicKey sampleAdvertisement.signature) = some ad ∧
      ad.verify sampleLibrary Crypto.sample 0 none = none) ∧
    (∃ ad, Record.fromDict sampleLibrary (loadedData "2029-01-01T00:05:00+00:00" []
        sampleAdvertisement.signature) = some ad ∧
      ad.verify sampleLibrary Crypto.sample 0 none = none) ∧
    ¬ ∀ data ad, Record.fromDict sampleLibrary data = some ad →
      ad.Decided sampleLibrary Crypto.sample 0 none := by
  have hnaive := fromDict_loadedData "2029-01-01T00:05:00" rfl
    sampleAdvertisement.publicKey sampleAdvertisement.signature
  have hkeyless := fromDict_loadedData "2029-01-01T00:05:00+00:00" rfl []
    sampleAdvertisement.signature
  refine ⟨⟨_, hnaive, verify_naive rfl⟩, ⟨_, hkeyless, ?_⟩, ?_⟩
  · exact (verify_unexpired rfl (by decide +kernel)).1 (by decide)
  · intro h
    exact not_decided_of_none (verify_naive rfl) (h _ _ hnaive)

end Wormhole.L4.WnsLoaded
