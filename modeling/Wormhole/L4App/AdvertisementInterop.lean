import Wormhole.L4App.Advertisement
import Wormhole.L4App.JsAdvertisement

/-!
# Advertisements across the languages

Python signs `WNS-ADV-v1:...`, JavaScript the canonical JSON. Each side reads what
the other has written (`loads_toJson`, `loads_text`), and checks the signature
against a message of its own, which is another one (`messages_differ`).

`never_accepted`: so an advertisement is never accepted across the languages.
-/
namespace Wormhole.L4.WnsInterop
open Wormhole.L1 Wormhole.L1.JsonText Wormhole.L4.Wns Wormhole.L4.WnsJs

variable (L : Lib) (r : Runtime) (C : Crypto)

/-! ## Reading the other's JSON -/

theorem js_reads_py : Inverse jsReader (pyIndented L.floatRepr 2) One where
  escape := pyEscape_reads
  number x hx := by
    subst hx
    exact jsReader_readsInt (by decide)

theorem py_reads_js : Inverse pyReader (jsWriter r.numberText) One where
  escape := jsEscape_reads
  number x hx := by
    subst hx
    exact pyReader_readsInt (by decide)

theorem plainItems_texts (texts : List String) : PlainItems One (texts.map Json.str) := by
  induction texts with
  | nil => trivial
  | cons s texts ih => exact ⟨trivial, ih⟩

/-- What Python has created. -/
structure PyCreated (C : Crypto) (seed : Bytes) (ad : CodeAdvertisement) : Prop where
  plain : Plain One ad.toDict
  publicKey : ad.publicKey = C.publicKey seed
  signature : ad.signature = C.sign seed (ad.message L (deriveAddress C (C.publicKey seed)).text)

theorem pyCreated {seed : Bytes} {scopedName : Option String} {code : String} {ttl : Int}
    {now : DateTime} {ad : CodeAdvertisement}
    (h : CodeAdvertisement.create L C (.fromPrivateKey C seed scopedName) code ttl now = some ad) :
    PyCreated L C seed ad := by
  obtain ⟨expires, hexpires, h⟩ := Option.bind_eq_some_iff.mp h
  cases h
  refine ⟨plain_toDict rfl trivial trivial ?_, rfl, rfl⟩
  cases scopedName with
  | none => trivial
  | some name => trivial

/-- JavaScript reads what Python has created. -/
theorem loads_toJson {seed : Bytes} {ad : CodeAdvertisement} (h : PyCreated L C seed ad) :
    jsReader.loads (ad.toJson L) = some ad.toDict := loads_dumps (js_reads_py L) h.plain

/-- What JavaScript has created. -/
structure JsCreated (r : Runtime) (C : Crypto) (seed : Bytes) (ad : Advertisement) : Prop where
  plain : Plain One (ad.toJSON r)
  publicKey : item (ad.toJSON r) "public_key" = some (.str (bytesToBase64 (C.publicKey seed)))
  signature : item (ad.toJSON r) "signature" =
    some (.str (bytesToBase64 (C.sign seed (encode (ad.getCanonicalJSON r)))))

/-- The fields before signing. -/
structure Unsigned (C : Crypto) (seed : Bytes) (ad : Advertisement) : Prop where
  version : ad.version = .int 1
  address : ∃ s, ad.address = some (.str s)
  publicKey : ad.publicKey = some (.str (bytesToBase64 (C.publicKey seed)))
  code : ∃ s, ad.code = some (.str s)
  timestamp : ∃ s, ad.timestamp = some (.str s)
  expires : ∃ s, ad.expires = some (.str s)
  scopedName : ad.scopedName = .null ∨ ∃ s, ad.scopedName = .str s
  services : ∃ texts : List String, ad.services = .arr (texts.map .str)

theorem publicKey_truthy (seed : Bytes) :
    truthy (.str (bytesToBase64 (C.publicKey seed))) = true := by
  refine bytesToBase64_truthy fun h => ?_
  have hlen := C.length_publicKey seed
  rw [h] at hlen
  cases hlen

theorem unsigned_of {seed : Bytes} {address code timestamp expires : String}
    {scopedName : Option String} {services : List String} {ad : Advertisement}
    (h : Advertisement.ofData (.obj [("version", .int 1), ("address", .str address),
      ("publicKey", .str (bytesToBase64 (C.publicKey seed))), ("code", .str code),
      ("timestamp", .str timestamp), ("expires", .str expires),
      ("scopedName", (scopedName.map Json.str).getD .null),
      ("services", .arr (services.map .str))]) = some ad) : Unsigned C seed ad := by
  cases h
  refine ⟨rfl, ⟨_, rfl⟩, ?_, ⟨_, rfl⟩, ⟨_, rfl⟩, ⟨_, rfl⟩, ?_, ⟨services, rfl⟩⟩
  · exact if_pos (publicKey_truthy C seed)
  · cases scopedName with
    | none => exact .inl rfl
    | some name =>
      by_cases hname : truthy (.str name) = true
      · right
        exact ⟨name, by simp [prop, Dict.lookup, orValue, orElse, hname]⟩
      · left
        simp [prop, Dict.lookup, orValue, orElse, hname]

theorem jsCreated_sign {seed : Bytes} {ad : Advertisement} (h : Unsigned C seed ad) :
    JsCreated r C seed (ad.sign r C seed) := by
  obtain ⟨hversion, ⟨address, haddress⟩, hpk, ⟨code, hcode⟩, ⟨timestamp, htimestamp⟩,
    ⟨expires, hexpires⟩, hscoped, ⟨texts, hservices⟩⟩ := h
  have hname : Plain One ad.scopedName := by
    rcases hscoped with hn | ⟨s, hn⟩
    · rw [hn]
      trivial
    · rw [hn]
      trivial
  have hplain : Plain One ad.services := by
    rw [hservices]
    exact plainItems_texts texts
  have hone : Plain One ad.version := by
    rw [hversion]
    rfl
  have hcanonical : (ad.sign r C seed).getCanonicalJSON r = ad.getCanonicalJSON r := rfl
  refine ⟨?_, ?_, ?_⟩
  · simp only [Advertisement.toJSON, Advertisement.sign, haddress, hpk, hcode, htimestamp,
      hexpires]
    split
    · split
      · exact ⟨by simp, hone, trivial, trivial, trivial, trivial, trivial, trivial, hname,
          hplain, trivial⟩
      · exact ⟨by simp, hone, trivial, trivial, trivial, trivial, trivial, trivial, hname,
          trivial⟩
    · split
      · exact ⟨by simp, hone, trivial, trivial, trivial, trivial, trivial, trivial, hplain,
          trivial⟩
      · exact ⟨by simp, hone, trivial, trivial, trivial, trivial, trivial, trivial, trivial⟩
  · simp [item, Advertisement.toJSON, Advertisement.sign, haddress, hpk, Dict.lookup]
  · rw [hcanonical]
    simp [item, Advertisement.toJSON, Advertisement.sign, haddress, hpk, hcode, htimestamp,
      hexpires, Dict.lookup]

theorem jsCreated {seed : Bytes} {scopedName : Option String} {code : String} {ttl : Rat}
    {services : List String} {now : Int} {ad : Advertisement}
    (h : Advertisement.create r C seed scopedName code ttl services now = some ad) :
    JsCreated r C seed ad := by
  obtain ⟨timestamp, -, h⟩ := Option.bind_eq_some_iff.mp h
  obtain ⟨expires, -, h⟩ := Option.bind_eq_some_iff.mp h
  obtain ⟨unsigned, hunsigned, h⟩ := Option.bind_eq_some_iff.mp h
  cases h
  exact jsCreated_sign r C (unsigned_of C hunsigned)

/-- Python reads what JavaScript has created. -/
theorem loads_text {seed : Bytes} {ad : Advertisement} (h : JsCreated r C seed ad) :
    pyReader.loads (ad.text r) = some (ad.toJSON r) := loads_dumps (py_reads_js r) h.plain

/-! ## The messages -/

theorem headD_encode {s : String} {c : Char} (h : s.toList.head? = some c)
    (hc : String.utf8EncodeChar c = [UInt8.ofNat c.toNat]) :
    (encode s).headD 0 = UInt8.ofNat c.toNat := by
  obtain ⟨rest, hrest⟩ := List.head?_eq_some_iff.mp h
  rw [← String.ofList_toList (s := s), encode_ofList, hrest, List.flatMap_cons, hc]
  rfl

/-- A brace. -/
theorem canonical_headD (ad : Advertisement) : (encode (ad.getCanonicalJSON r)).headD 0 = 0x7b := by
  have hhead : (ad.getCanonicalJSON r).toList.head? = some '\x7b' := by
    rw [Advertisement.getCanonicalJSON, withKeys, Writer.dumps, String.toList_ofList]
    cases select _ _ with
    | nil => rfl
    | cons f fields => rfl
  exact headD_encode hhead (by decide +kernel)

/-- A `W`. -/
theorem message_headD (ad : CodeAdvertisement) (address : String) :
    (ad.message L address).headD 0 = 0x57 := by
  refine headD_encode (c := 'W') ?_ (by decide +kernel)
  simp

theorem messages_differ (ad : CodeAdvertisement) (address : String) (jsAd : Advertisement) :
    encode (jsAd.getCanonicalJSON r) ≠ ad.message L address := by
  intro h
  have hhead := canonical_headD r jsAd
  rw [h, message_headD] at hhead
  cases hhead

/-- What JavaScript checks the signature against. -/
def jsChecked (text : String) : Bytes :=
  match Advertisement.fromJSON (.str text) with
  | some ad => encode (ad.getCanonicalJSON r)
  | none => []

/-- What Python checks the signature against. -/
def pyChecked (text : String) : Bytes :=
  match CodeAdvertisement.fromJson L text with
  | some ad => ad.message L (deriveAddress C ad.publicKey).text
  | none => []

/-- No signature of one message is one of another. -/
def Separates (seed signed checked : Bytes) : Prop :=
  checked ≠ signed → C.verify (C.publicKey seed) checked (C.sign seed signed) = false

/-! ## Refusals -/

variable {L r C}

theorem atob_bytesToBase64 (bytes : Bytes) :
    Base64.atob (r.toText (some (.str (bytesToBase64 bytes)))).toList = some bytes := by
  rw [Runtime.toText, bytesToBase64, String.toList_ofList]
  exact Base64.atob_b64encode bytes

theorem ofData_bytes {data : Json} {ad : Advertisement} (h : Advertisement.ofData data = some ad) :
    ad.publicKey = orElse (prop data "publicKey") (prop data "public_key") ∧
      ad.signature = orValue (prop data "signature") .null := by
  unfold Advertisement.ofData at h
  split at h
  · cases h
  · cases h
    exact ⟨rfl, rfl⟩

theorem prop_toDict (ad : CodeAdvertisement) :
    prop ad.toDict "publicKey" = none ∧
      prop ad.toDict "public_key" = some (.str (bytesToBase64 ad.publicKey)) ∧
      prop ad.toDict "signature" = some (.str (bytesToBase64 ad.signature)) := by
  unfold CodeAdvertisement.toDict
  split
  · simp [prop, Dict.lookup, bytesToBase64]
  · simp [prop, Dict.lookup, bytesToBase64]

/-- JavaScript has Python's key and signature. -/
theorem PyCreated.read {seed : Bytes} {ad : CodeAdvertisement} (h : PyCreated L C seed ad)
    {accepted : Advertisement}
    (hread : Advertisement.fromJSON (.str (ad.toJson L)) = some accepted) :
    accepted.publicKey = some (.str (bytesToBase64 (C.publicKey seed))) ∧
      accepted.signature = .str (bytesToBase64 (C.sign seed
        (ad.message L (deriveAddress C (C.publicKey seed)).text))) := by
  rw [Advertisement.fromJSON, loads_toJson L C h, Option.bind_some] at hread
  obtain ⟨hpk, hsig⟩ := ofData_bytes hread
  obtain ⟨hcamel, hsnake, hsignature⟩ := prop_toDict ad
  have htruthy : truthy (.str (bytesToBase64 ad.signature)) = true := by
    refine bytesToBase64_truthy fun hnil => ?_
    have hlen := C.length_sign seed (ad.message L (deriveAddress C (C.publicKey seed)).text)
    rw [← h.signature, hnil] at hlen
    cases hlen
  constructor
  · rw [hpk, hcamel, hsnake, h.publicKey]
    rfl
  · rw [hsig, hsignature, orValue, orElse, if_pos htruthy, ← h.signature]
    rfl

theorem js_refuses {seed : Bytes} {ad : CodeAdvertisement} (h : PyCreated L C seed ad)
    (hs : Separates C seed (ad.message L (deriveAddress C (C.publicKey seed)).text)
      (jsChecked r (ad.toJson L))) (now : Int) (expected : Chars) (accepted : Advertisement) :
    verifyAdvertisement r C now (.str (ad.toJson L)) expected ≠ .ok accepted := by
  intro hok
  obtain ⟨hread, -, -, hv⟩ := verifyAdvertisement_ok.mp hok
  obtain ⟨address, pk, sig, -, hpk, hsig, -, hverify⟩ := authentic_of_verify hv
  obtain ⟨hpublicKey, hsignature⟩ := h.read hread
  rw [hpublicKey, atob_bytesToBase64] at hpk
  rw [hsignature, atob_bytesToBase64] at hsig
  cases hpk
  cases hsig
  have hchecked : jsChecked r (ad.toJson L) = encode (accepted.getCanonicalJSON r) := by
    rw [jsChecked, hread]
  have hne := messages_differ L r ad (deriveAddress C (C.publicKey seed)).text accepted
  rw [Separates, hchecked] at hs
  rw [hs hne] at hverify
  cases hverify

/-- Python has JavaScript's key and signature. -/
theorem JsCreated.read {seed : Bytes} {ad : Advertisement} (h : JsCreated r C seed ad)
    {pyAd : CodeAdvertisement} (hread : CodeAdvertisement.fromJson L (ad.text r) = some pyAd) :
    pyAd.publicKey = C.publicKey seed ∧
      pyAd.signature = C.sign seed (encode (ad.getCanonicalJSON r)) := by
  have hbytes : ∀ {key : String} {bytes bs : Bytes},
      item (ad.toJSON r) key = some (.str (bytesToBase64 bytes)) →
      bytesItem (ad.toJSON r) key = some bs → bs = bytes := by
    intro key bytes bs hitem hb
    rw [bytesItem, textItem, hitem] at hb
    simp only [Option.bind_some, bytesToBase64, String.toList_ofList,
      Base64.b64decode_b64encode] at hb
    exact (Option.some.inj hb).symm
  rw [CodeAdvertisement.fromJson, loads_text r C h, Option.bind_some] at hread
  obtain ⟨hpk, hsig⟩ := fromDict_bytes hread
  exact ⟨hbytes h.publicKey hpk, hbytes h.signature hsig⟩

theorem py_refuses {seed : Bytes} {ad : Advertisement} (h : JsCreated r C seed ad)
    (hs : Separates C seed (encode (ad.getCanonicalJSON r)) (pyChecked L C (ad.text r)))
    (now : Int) :
    (CodeAdvertisement.fromJson L (ad.text r)).bind (fun pyAd => pyAd.verify L C now .null) ≠
      some true := by
  intro hok
  obtain ⟨pyAd, hread, hv⟩ := Option.bind_eq_some_iff.mp hok
  obtain ⟨-, -, -, -, hverify⟩ := verify_true hv
  obtain ⟨hpk, hsig⟩ := h.read hread
  have hchecked : pyChecked L C (ad.text r) =
      pyAd.message L (deriveAddress C pyAd.publicKey).text := by
    rw [pyChecked, hread]
  have hne := messages_differ L r pyAd (deriveAddress C pyAd.publicKey).text ad
  rw [Separates, hchecked] at hs
  rw [hsig, identityVerify_iff (C.length_sign seed _)] at hverify
  have hrejected := hs hne.symm
  rw [hpk] at hverify hrejected
  rw [hrejected] at hverify
  cases hverify

/-- **Headline.** What Python creates, JavaScript never accepts, and the other way
round, under keys for which the signature of the one message is none of the
other. -/
theorem never_accepted (L : Lib) (r : Runtime) (C : Crypto) (seed : Bytes)
    (scopedName : Option String) (code : String) (ttl : Int) (now : DateTime)
    (ad : CodeAdvertisement)
    (had : CodeAdvertisement.create L C (.fromPrivateKey C seed scopedName) code ttl now = some ad)
    (hs : Separates C seed (ad.message L (deriveAddress C (C.publicKey seed)).text)
      (jsChecked r (ad.toJson L)))
    (jsTtl : Rat) (services : List String) (jsNow : Int) (jsAd : Advertisement)
    (hjsAd : Advertisement.create r C seed scopedName code jsTtl services jsNow = some jsAd)
    (hjs : Separates C seed (encode (jsAd.getCanonicalJSON r)) (pyChecked L C (jsAd.text r))) :
    (∀ t expected accepted,
      verifyAdvertisement r C t (.str (ad.toJson L)) expected ≠ .ok accepted) ∧
    ∀ t, (CodeAdvertisement.fromJson L (jsAd.text r)).bind
      (fun pyAd => pyAd.verify L C t .null) ≠ some true :=
  ⟨fun t expected accepted => js_refuses (pyCreated L C had) hs t expected accepted,
    fun t => py_refuses (jsCreated r C hjsAd) hjs t⟩

/-! ## A run -/

def guitar : String := "7-guitar-sunset"

def pyCreatedAd : CodeAdvertisement :=
  (CodeAdvertisement.create sampleLib Crypto.sample (.fromPrivateKey Crypto.sample [1] none) guitar
    300 newYear).get (by decide +kernel)

def jsCreatedAd : Advertisement :=
  (Advertisement.create sampleRuntime Crypto.sample [1] none guitar 300 ["ssh"]
    1861920000000).get (by decide +kernel)

/-- A signature shows the beginning of its message. -/
theorem sample_separates {seed signed checked : Bytes} (h : checked.headD 0 ≠ signed.headD 0) :
    Separates Crypto.sample seed signed checked := by
  have hfit : ∀ m : Bytes, (fit 32 m).headD 0 = m.headD 0 := by
    intro m
    cases m with
    | nil => rfl
    | cons b bs => rfl
  intro _
  refine decide_eq_false fun he => h ?_
  rw [← hfit, ← hfit signed, List.append_cancel_left he]

theorem sample_jsChecked (ad : CodeAdvertisement) (address text : String) :
    Separates Crypto.sample [1] (ad.message sampleLib address) (jsChecked sampleRuntime text) := by
  refine sample_separates ?_
  rw [message_headD, jsChecked]
  split
  · rw [canonical_headD]
    decide
  · decide

theorem sample_pyChecked (ad : Advertisement) (text : String) :
    Separates Crypto.sample [1] (encode (ad.getCanonicalJSON sampleRuntime))
      (pyChecked sampleLib Crypto.sample text) := by
  refine sample_separates ?_
  rw [canonical_headD, pyChecked]
  split
  · rw [message_headD]
    decide
  · decide

/-- Created at new year, for five minutes. -/
theorem never_accepted_guitar :
    (∀ t expected accepted, verifyAdvertisement sampleRuntime Crypto.sample t
      (.str (pyCreatedAd.toJson sampleLib)) expected ≠ .ok accepted) ∧
    ∀ t, (CodeAdvertisement.fromJson sampleLib (jsCreatedAd.text sampleRuntime)).bind
      (fun pyAd => pyAd.verify sampleLib Crypto.sample t .null) ≠ some true :=
  never_accepted sampleLib sampleRuntime Crypto.sample [1] none guitar 300 newYear pyCreatedAd
    (Option.some_get _).symm (sample_jsChecked _ _ _) 300 ["ssh"] 1861920000000 jsCreatedAd
    (Option.some_get _).symm (sample_pyChecked _ _)

/-- Python's is refused five minutes before it expires. -/
theorem guitar_refused :
    ¬ ∀ (L : Lib) (r : Runtime) (C : Crypto),
      (∀ seed m, C.verify (C.publicKey seed) m (C.sign seed m) = true) →
      ∀ (seed : Bytes) (scopedName : Option String) (code : String),
        (∀ ttl now ad, CodeAdvertisement.create L C (.fromPrivateKey C seed scopedName) code ttl
          now = some ad → ∀ t e, r.date (some (.str ad.expires.isoformat)) = some e → t < e →
          ∃ accepted, verifyAdvertisement r C t (.str (ad.toJson L)) [] = .ok accepted ∧
            accepted.code = some (.str code)) ∧
        ∀ ttl services now ad, Advertisement.create r C seed scopedName code ttl services now =
          some ad → ∀ t pyAd, CodeAdvertisement.fromJson L (ad.text r) = some pyAd →
          pyAd.isExpired t = some false → pyAd.verify L C t .null = some true := by
  intro h
  have hcorrect : ∀ seed m, Crypto.sample.verify (Crypto.sample.publicKey seed) m
      (Crypto.sample.sign seed m) = true := fun _ _ => decide_eq_true rfl
  have hcreated : CodeAdvertisement.create sampleLib Crypto.sample
      (.fromPrivateKey Crypto.sample [1] none) guitar 300 newYear = some pyCreatedAd :=
    (Option.some_get _).symm
  have hdate : sampleRuntime.date (some (.str pyCreatedAd.expires.isoformat)) =
      some 1861920300000 := by decide +kernel
  obtain ⟨accepted, hok, -⟩ := (h sampleLib sampleRuntime Crypto.sample hcorrect [1] none
    guitar).1 300 newYear pyCreatedAd hcreated 1861920000000 _ hdate (by decide)
  exact js_refuses (pyCreated sampleLib Crypto.sample hcreated) (sample_jsChecked _ _ _) _ _ _ hok

end Wormhole.L4.WnsInterop
