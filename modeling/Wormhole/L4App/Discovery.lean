import Wormhole.L4App.Names

/-!
# Discovery

`src/wh/wns/discovery.py`: a URI is an address or a global name, a name is resolved
through a claim, and the backends are asked for the address in turn. What a backend
has to offer is arbitrary (`Source`), and so is every reading of the clock.

* `lookup_certified_iff`: what is found under an address is certified by it exactly
  when the record that decides has a signature of 64 bytes.
* `resolve_proof_iff`: a name is resolved through proofs exactly when the claim that
  is stored for it is one, and so on.
-/
namespace Wormhole.L4.Wns
open Wormhole.L1 Wormhole.L1.JsonText

variable (U : PyUnicode) (L : Lib) (C : Crypto)

/-! ## Backends -/

/-- What a peer sends, and the clock when `verify` and `is_expired` read it. -/
structure Peer where
  answer : Option Bytes
  verifyClock : Int
  expiryClock : Int

/-- What a backend has to offer in one call. -/
inductive Source
  /-- The files of the advertise directory, by their names without `.json`. -/
  | file (advertise : String → Option Bytes) (verifyClock expiryClock : Int)
  /-- The peers of the address, and those of the name; `none` is an exception. -/
  | dht (peers : Option (List Peer)) (claimPeers : Option (List Peer))
  /-- The text of the response; `none` is an exception, or no client. -/
  | http (response : Option String) (verifyClock expiryClock : Int)

/-- An advertisement, and when it was last seen to be unexpired. -/
structure Found where
  ad : CodeAdvertisement
  checkedAt : Int

/-- `ad.verify(expected_address=address) and not ad.is_expired()`. -/
def checkAd (verifyClock expiryClock : Int) (address : Json) (ad : CodeAdvertisement) :
    Option Found :=
  match ad.verify L C verifyClock address, ad.isExpired expiryClock with
  | some true, some false => some ⟨ad, expiryClock⟩
  | _, _ => none

/-- `none` is `None` and an exception, which is caught.
mirrors src/wh/wns/discovery.py:180-197,224-244; src/wh/wns/dht.py:1430-1466 -/
def Source.lookup (address : Json) : Source → Option Found
  | .file advertise verifyClock expiryClock =>
    ((advertise (L.format address)).bind decode).bind fun text =>
      (CodeAdvertisement.fromJson L text).bind (checkAd L C verifyClock expiryClock address)
  | .dht peers _ =>
    match address with
    | .str _ => (peers.getD []).findSome? fun peer =>
      (peer.answer.bind (clientFetchAdvertisement L)).bind
        (checkAd L C peer.verifyClock peer.expiryClock address)
    | _ => none
  | .http response verifyClock expiryClock =>
    response.bind fun text =>
      (CodeAdvertisement.fromJson L text).bind (checkAd L C verifyClock expiryClock address)

/-! ## Names -/

/-- A claim, and when it was last seen to be unexpired. -/
structure Resolved where
  claim : NameClaim
  checkedAt : Int

/-- `claim.verify(expected_name=name) and not claim.is_expired()`. -/
def checkClaim (verifyClock expiryClock : Int) (name : String) (claim : NameClaim) :
    Option Resolved :=
  match claim.verify U L C verifyClock name, claim.isExpired expiryClock with
  | some true, some false => some ⟨claim, expiryClock⟩
  | _, _ => none

/-- mirrors src/wh/wns/discovery.py:124-158 (`_fetch_name_claim`) -/
def fetchNameClaim (answer : Bytes) : Option NameClaim := do
  let line ← readline answer
  let text ← decode line
  let response := String.ofList (strip text.toList)
  if response ∈ [notFound, ""] ∨ "ERROR".toList <+: response.toList then none
  else NameClaim.fromJson L response

/-- mirrors src/wh/wns/discovery.py:85-122 -/
def lookupNameClaim (peers : List Peer) (name : String) : Option Resolved :=
  peers.findSome? fun peer => (peer.answer.bind (fetchNameClaim L)).bind
    (checkClaim U L C peer.verifyClock peer.expiryClock name)

/-- The DHT backends in turn; an exception is not caught.
mirrors src/wh/wns/discovery.py:400-405 -/
def lookupDhtClaim (name : String) : List Source → Option (Option Resolved)
  | [] => some none
  | .dht _ claimPeers :: sources =>
    match claimPeers with
    | none => none
    | some peers =>
      match lookupNameClaim U L C peers name with
      | some resolved => some (some resolved)
      | none => lookupDhtClaim name sources
  | _ :: sources => lookupDhtClaim name sources

/-- Everything outside that a call sees. -/
structure World where
  sources : List Source
  /-- The files of the name store, by their names without `.json`. -/
  names : String → Option Bytes
  nameClock : Int

/-- `none` is an exception.
mirrors src/wh/wns/names.py:315-324 -/
def loadClaim (names : String → Option Bytes) (name : String) : Option (Option NameClaim) :=
  match names (U.lowerText name) with
  | none => some none
  | some content =>
    ((decode content).bind pyReader.loads).bind fun data => (NameClaim.fromDict L data).map some

/-- The claim whose address is returned; the outer `none` is an exception.
mirrors src/wh/wns/discovery.py:384-407 (`_resolve_global_name`) -/
def resolveClaim (W : World) (name : String) : Option (Option Resolved) :=
  match loadClaim U L W.names name with
  | none => none
  | some none => lookupDhtClaim U L C name W.sources
  | some (some claim) =>
    match claim.isExpired W.nameClock with
    | none => none
    | some false => some (some ⟨claim, W.nameClock⟩)
    | some true => lookupDhtClaim U L C name W.sources

def resolveGlobalName (W : World) (name : String) : Option (Option Json) :=
  (resolveClaim U L C W name).map (Option.map fun resolved => resolved.claim.address)

/-! ## Looking up -/

/-- The public key of a known host's file; `none` is an exception.
mirrors src/wh/wns/identity.py:313-325 -/
def loadKnownHost (content : Option Bytes) : Option (Option Bytes) :=
  match content with
  | none => some none
  | some content =>
    match ((decode content).bind pyReader.loads).bind fun data => bytesItem data "public_key" with
    | some pk => if pk.length = 32 then some (some pk) else none
    | none => none

/-- Nothing else is pinned for the address.
mirrors src/wh/wns/discovery.py:364-372 -/
def pinAgrees (hosts : String → Option Bytes) (address : Json) (found : Found) : Bool :=
  match loadKnownHost (hosts (L.format address)) with
  | none => false
  | some none => true
  | some (some pk) => pk = found.ad.publicKey

/-- The address that a URI stands for; the outer `none` is an exception.
mirrors src/wh/wns/discovery.py:341-357 -/
def target (W : World) (uri : Chars) : Option (Option Json) :=
  match parseGlobalName U uri with
  | some (c :: cs) =>
    (resolveGlobalName U L C W (String.ofList (c :: cs))).map (Option.filter Json.truthy)
  | _ => some ((parseWnsAddress U.toUnicode uri).map fun a => .str (String.ofList a))

/-- The pin is asked when known hosts are verified. -/
def accepts (hosts : String → Option Bytes) (verifyKnownHost : Bool) (address : Json)
    (found : Found) : Bool :=
  !verifyKnownHost || pinAgrees L hosts address found

/-- mirrors src/wh/wns/discovery.py:321-382 (`lookup`) -/
def lookup (hosts : String → Option Bytes) (verifyKnownHost : Bool) (W : World) (uri : Chars) :
    Option (Option Found) :=
  (target U L C W uri).map fun address =>
    address.bind fun address =>
      W.sources.findSome? fun source =>
        (source.lookup L C address).filter (accepts L hosts verifyKnownHost address)

/-! ## Advertisements that certify themselves -/

variable {U L C}

/-- An advertisement of an address, unexpired when it was checked, with a key that
hashes to the address and an Ed25519 signature of the message under it. -/
structure Found.Certifies (L : Lib) (C : Crypto) (a : Chars) (found : Found) : Prop where
  unexpired : found.ad.isExpired found.checkedAt = some false
  address : found.ad.address = .str (String.ofList a)
  derived : (deriveAddress C found.ad.publicKey).text = String.ofList a
  length : found.ad.signature.length = 64
  signed : C.verify found.ad.publicKey (found.ad.message L (String.ofList a))
    found.ad.signature = true

/-- What one check gives. -/
theorem checkAd_some {t t' : Int} {a : Chars} {ad : CodeAdvertisement} {found : Found}
    (h : checkAd L C t t' (.str (String.ofList a)) ad = some found) (ha : a ≠ []) :
    found.ad.isExpired found.checkedAt = some false ∧
      found.ad.address = .str (String.ofList a) ∧
      (deriveAddress C found.ad.publicKey).text = String.ofList a ∧
      identityVerify C found.ad.publicKey (found.ad.message L (String.ofList a))
        found.ad.signature = true := by
  unfold checkAd at h
  split at h
  · rename_i hverify hexpired
    cases h
    obtain ⟨-, -, haddress, hexpected, hsigned⟩ := verify_true hverify
    have htruthy : Json.truthy (.str (String.ofList a)) = true := by
      refine decide_eq_true fun he => ha ?_
      rw [← String.toList_ofList (l := a), he]
      rfl
    have htext := Json.str.inj (hexpected htruthy)
    rw [← htext] at hsigned haddress
    exact ⟨hexpired, haddress, htext.symm, hsigned⟩
  · cases h

/-- Whatever the backend, the record has passed a check. -/
theorem lookup_checked {source : Source} {address : Json} {found : Found}
    (h : source.lookup L C address = some found) :
    ∃ t t' ad, checkAd L C t t' address ad = some found := by
  cases source with
  | file advertise t t' =>
    obtain ⟨text, -, h⟩ := Option.bind_eq_some_iff.mp h
    obtain ⟨ad, -, h⟩ := Option.bind_eq_some_iff.mp h
    exact ⟨t, t', ad, h⟩
  | dht peers claimPeers =>
    simp only [Source.lookup] at h
    split at h
    · obtain ⟨peer, -, h⟩ := List.exists_of_findSome?_eq_some h
      obtain ⟨ad, -, h⟩ := Option.bind_eq_some_iff.mp h
      exact ⟨_, _, ad, h⟩
    · cases h
  | http response t t' =>
    obtain ⟨text, -, h⟩ := Option.bind_eq_some_iff.mp h
    obtain ⟨ad, -, h⟩ := Option.bind_eq_some_iff.mp h
    exact ⟨t, t', ad, h⟩

theorem certifies_iff {source : Source} {a : Chars} (ha : a ≠ []) {found : Found}
    (h : source.lookup L C (.str (String.ofList a)) = some found) :
    found.Certifies L C a ↔ found.ad.signature.length = 64 := by
  constructor
  · exact fun hc => hc.length
  · intro hlen
    obtain ⟨t, t', ad, hcheck⟩ := lookup_checked h
    obtain ⟨hexpired, haddress, hderived, hsigned⟩ := checkAd_some hcheck ha
    rw [identityVerify_iff hlen] at hsigned
    exact ⟨hexpired, haddress, hderived, hlen, hsigned⟩

/-- The record that decides: of the backends' records, the first that no pin
contradicts. -/
def deciding (L : Lib) (C : Crypto) (hosts : String → Option Bytes) (verifyKnownHost : Bool)
    (sources : List Source) (address : Json) : Option Found :=
  (sources.filterMap (Source.lookup L C address)).find? (accepts L hosts verifyKnownHost address)

theorem findSome?_filter {α β : Type} (f : α → Option β) (p : β → Bool) (xs : List α) :
    (xs.findSome? fun x => (f x).filter p) = (xs.filterMap f).find? p := by
  induction xs with
  | nil => rfl
  | cons x xs ih =>
    rw [List.findSome?_cons, List.filterMap_cons]
    cases f x with
    | none => exact ih
    | some y =>
      rw [List.find?_cons, Option.filter_some]
      cases p y with
      | true => rfl
      | false => exact ih

theorem parseWnsAddress_ne_nil {uri a : Chars} (h : parseWnsAddress U.toUnicode uri = some a) :
    a ≠ [] := by
  rintro rfl
  cases parseWnsAddress_base32 h

/-- A URI with an address in it stands for the address, whatever the registry has. -/
theorem target_address {W : World} {uri a : Chars}
    (h : parseWnsAddress U.toUnicode uri = some a) :
    target U L C W uri = some (some (.str (String.ofList a))) := by
  rw [target, parseWnsAddress_global h, h]
  rfl

/-- A URI with an address in it is looked up under the address. -/
theorem lookup_address {hosts : String → Option Bytes} {vkh : Bool} {W : World} {uri a : Chars}
    (h : parseWnsAddress U.toUnicode uri = some a) :
    lookup U L C hosts vkh W uri =
      some (deciding L C hosts vkh W.sources (.str (String.ofList a))) := by
  rw [lookup, target_address h, deciding, ← findSome?_filter]
  rfl

/-- **Headline.** No URI is both a global name and an address, and what is an address is looked up
as it stands, the same whatever name store the client has. -/
theorem no_address_is_a_name (U : PyUnicode) (uri : Chars) :
    (parseGlobalName U uri = none ∨ parseWnsAddress U.toUnicode uri = none) ∧
    ∀ a, parseWnsAddress U.toUnicode uri = some a →
      ∀ (L : Lib) (C : Crypto) (hosts : String → Option Bytes) (verifyKnownHost : Bool) (W : World),
        target U L C W uri = some (some (.str (String.ofList a))) ∧
        ∀ names nameClock,
          lookup U L C hosts verifyKnownHost { W with names := names, nameClock := nameClock } uri =
            lookup U L C hosts verifyKnownHost W uri := by
  constructor
  · cases h : parseWnsAddress U.toUnicode uri with
    | none => exact .inr rfl
    | some a => exact .inl (parseWnsAddress_global h)
  · intro a h L C hosts verifyKnownHost W
    refine ⟨target_address h, ?_⟩
    intro names nameClock
    rw [lookup_address h, lookup_address h]

/-- **Headline.** Under an address, what is looked up is `None` or an advertisement
that certifies itself exactly when the record that decides has a signature of 64
bytes. -/
theorem lookup_certified_iff (U : PyUnicode) (L : Lib) (C : Crypto)
    (hosts : String → Option Bytes) (verifyKnownHost : Bool) (W : World) (uri : Chars) :
    (∀ a, parseWnsAddress U.toUnicode uri = some a →
      ∃ result, lookup U L C hosts verifyKnownHost W uri = some result ∧
        ∀ found, result = some found → found.Certifies L C a) ↔
      ∀ a, parseWnsAddress U.toUnicode uri = some a →
        ∀ found, deciding L C hosts verifyKnownHost W.sources (.str (String.ofList a)) =
          some found → found.ad.signature.length = 64 := by
  constructor
  · intro h a ha found hfound
    obtain ⟨result, hresult, hall⟩ := h a ha
    rw [lookup_address ha, hfound] at hresult
    exact (hall found (Option.some.inj hresult).symm).length
  · intro h a ha
    refine ⟨_, lookup_address ha, fun found hfound => ?_⟩
    have hmem := List.mem_of_find?_eq_some hfound
    obtain ⟨source, -, hsource⟩ := List.mem_filterMap.mp hmem
    exact (certifies_iff (parseWnsAddress_ne_nil ha) hsource).mpr (h a ha found hfound)

/-- A file holds the JSON of an advertisement that was created. -/
theorem lookup_file {ad : CodeAdvertisement}
    (hread : CodeAdvertisement.fromJson L (ad.toJson L) = some ad) (t t' : Int) (address : Json) :
    (Source.file (fun _ => some (encode (ad.toJson L))) t t').lookup L C address =
      checkAd L C t t' address ad := by
  simp only [Source.lookup, Option.bind_some, decode_encode, hread]

def sampleUnicode : PyUnicode := { asciiUnicode with digit := fun _ => false }

/-- What is signed has a byte in front of the message, and the signature has it at
its end. -/
def stretched : CodeAdvertisement :=
  { sampleAdvertisement with
    signature := Crypto.sample.sign [1]
      (0x2a :: sampleAdvertisement.message sampleLib "aeaaaaaaaaaaaaaaaaaaaaaaaa") ++ [0x2a] }

def sampleAddress : Chars := "aeaaaaaaaaaaaaaaaaaaaaaaaa".toList

theorem no_address_is_a_name_sample :
    parseGlobalName sampleUnicode sampleAddress = none ∧
      target sampleUnicode sampleLib Crypto.sample ⟨[], fun _ => some [], 0⟩ sampleAddress =
        some (some (.str (String.ofList sampleAddress))) := by
  have h := no_address_is_a_name sampleUnicode sampleAddress
  have hparse : parseWnsAddress sampleUnicode.toUnicode sampleAddress = some sampleAddress := by
    decide +kernel
  refine ⟨h.1.resolve_right ?_, (h.2 sampleAddress hparse sampleLib Crypto.sample (fun _ => none)
    false ⟨[], fun _ => some [], 0⟩).1⟩
  rw [hparse]
  decide

def stretchedWorld : World where
  sources := [.file (fun _ => some (encode (stretched.toJson sampleLib))) newYear.clock
    newYear.clock]
  names _ := none
  nameClock := newYear.clock

theorem stretched_found : deciding sampleLib Crypto.sample (fun _ => none) true
    stretchedWorld.sources (.str (String.ofList sampleAddress)) =
      some ⟨stretched, newYear.clock⟩ := by
  have hread : CodeAdvertisement.fromJson sampleLib (stretched.toJson sampleLib) =
      some stretched :=
    fromJson_toJson (plain_toDict rfl trivial trivial trivial) (by decide +kernel)
      (by decide +kernel) (.inl rfl)
  have hverify : stretched.verify sampleLib Crypto.sample newYear.clock
      (.str (String.ofList sampleAddress)) = some true := by decide +kernel
  have hexpired : stretched.isExpired newYear.clock = some false := by decide +kernel
  have hfound : Source.lookup sampleLib Crypto.sample (.str (String.ofList sampleAddress))
      (.file (fun _ => some (encode (stretched.toJson sampleLib))) newYear.clock
        newYear.clock) = some ⟨stretched, newYear.clock⟩ := by
    rw [lookup_file hread]
    simp only [checkAd, hverify, hexpired]
  rw [deciding, stretchedWorld, List.filterMap_cons, hfound]
  rfl

/-- A record that is found though no Ed25519 signature of it is. -/
theorem stretched_not_certified :
    ¬ ∀ (U : PyUnicode) (L : Lib) (C : Crypto) (hosts : String → Option Bytes)
      (verifyKnownHost : Bool) (W : World) (uri a : Chars) (found : Found),
      parseWnsAddress U.toUnicode uri = some a →
        lookup U L C hosts verifyKnownHost W uri = some (some found) → found.Certifies L C a := by
  intro h
  have hparse : parseWnsAddress sampleUnicode.toUnicode sampleAddress = some sampleAddress := by
    decide +kernel
  have hlookup : lookup sampleUnicode sampleLib Crypto.sample (fun _ => none) true stretchedWorld
      sampleAddress = _ := lookup_address hparse
  rw [stretched_found] at hlookup
  have hlength := (h _ _ _ _ _ _ _ _ _ hparse hlookup).length
  have hstretched : stretched.signature.length = 65 := by decide +kernel
  rw [hstretched] at hlength
  cases hlength

/-! ## Names that are proved -/

/-- The claim is for the name, in any case of the letters. -/
def NameClaim.IsFor (U : PyUnicode) (name : String) (claim : NameClaim) : Prop :=
  ∃ s, claim.name = .str s ∧ U.lowerText s = U.lowerText name

/-- A claim for the name, unexpired when it was checked, whose address is derived
from its key, with an Ed25519 signature of the message under it. -/
structure Resolved.Proves (U : PyUnicode) (L : Lib) (C : Crypto) (name : String)
    (resolved : Resolved) : Prop where
  unexpired : resolved.claim.isExpired resolved.checkedAt = some false
  isFor : resolved.claim.IsFor U name
  key : resolved.claim.publicKey.length = 32
  derived : resolved.claim.address = .str (deriveAddress C resolved.claim.publicKey).text
  length : resolved.claim.signature.length = 64
  signed : C.verify resolved.claim.publicKey
    (resolved.claim.message L (deriveAddress C resolved.claim.publicKey).text)
    resolved.claim.signature = true

/-- What `verify` leaves open: the length of the signature, and which name it is when
none is expected. -/
def NameClaim.Exact (U : PyUnicode) (name : String) (claim : NameClaim) : Prop :=
  claim.signature.length = 64 ∧ (name = "" → claim.IsFor U name)

theorem isFor_of_otherName {name : String} {claim : NameClaim}
    (h : claim.otherName U name = some false) (hname : name ≠ "") : claim.IsFor U name := by
  unfold NameClaim.otherName at h
  rw [if_neg hname] at h
  split at h
  · rename_i s hs
    refine ⟨s, hs, not_not.mp ?_⟩
    exact of_decide_eq_false (Option.some.inj h)
  · cases h

theorem proves_of_verify {t t' : Int} {name : String} {claim : NameClaim}
    (h : claim.verify U L C t name = some true) (he : claim.isExpired t' = some false)
    (hexact : claim.Exact U name) : Resolved.Proves U L C name ⟨claim, t'⟩ := by
  obtain ⟨-, hname, hkey, haddress, hsigned⟩ := NameClaim.verify_true h
  rw [identityVerify_iff hexact.1] at hsigned
  refine ⟨he, ?_, hkey, haddress, hexact.1, hsigned⟩
  by_cases hn : name = ""
  · exact hexact.2 hn
  · exact isFor_of_otherName hname hn

theorem Resolved.Proves.exact {name : String} {resolved : Resolved}
    (h : resolved.Proves U L C name) : resolved.claim.Exact U name :=
  ⟨h.length, fun _ => h.isFor⟩

/-- A proof verifies. -/
theorem Resolved.Proves.verify {name : String} {resolved : Resolved}
    (h : resolved.Proves U L C name) :
    resolved.claim.verify U L C resolved.checkedAt name = some true := by
  obtain ⟨s, hs, hlower⟩ := h.isFor
  have hname : resolved.claim.otherName U name = some false := by
    unfold NameClaim.otherName
    split
    · rfl
    · rw [hs]
      simp [hlower]
  have haddress : isText (deriveAddress C resolved.claim.publicKey).text
      resolved.claim.address = true := isText_iff.mpr h.derived
  have hsigned : identityVerify C resolved.claim.publicKey (resolved.claim.message L
        (deriveAddress C resolved.claim.publicKey).text) resolved.claim.signature =
      C.verify resolved.claim.publicKey (resolved.claim.message L
        (deriveAddress C resolved.claim.publicKey).text) resolved.claim.signature :=
    identityVerify_iff h.length
  unfold NameClaim.verify
  simp only [h.unexpired, hname, h.key, haddress, hsigned, h.signed, ne_eq, not_true_eq_false,
    if_false, Bool.not_true, Bool.false_eq_true]

/-- A claim of the DHT has passed a check. -/
theorem lookupDhtClaim_checked {name : String} {sources : List Source} {resolved : Resolved}
    (h : lookupDhtClaim U L C name sources = some (some resolved)) :
    ∃ t, resolved.claim.verify U L C t name = some true ∧
      resolved.claim.isExpired resolved.checkedAt = some false := by
  induction sources with
  | nil => cases h
  | cons source sources ih =>
    cases source with
    | file advertise t t' => exact ih h
    | http response t t' => exact ih h
    | dht peers claimPeers =>
      unfold lookupDhtClaim at h
      split at h
      · cases h
      · split at h
        · rename_i found hfound
          cases h
          obtain ⟨peer, -, hpeer⟩ := List.exists_of_findSome?_eq_some hfound
          obtain ⟨claim, -, hclaim⟩ := Option.bind_eq_some_iff.mp hpeer
          unfold checkClaim at hclaim
          split at hclaim
          · rename_i hverify hexpired
            cases hclaim
            exact ⟨_, hverify, hexpired⟩
          · cases hclaim
        · exact ih h

/-- The claim that the name store has for a name, when it is not expired. -/
def localClaim (U : PyUnicode) (L : Lib) (W : World) (name : String) : Option NameClaim :=
  match loadClaim U L W.names name with
  | some (some claim) => if claim.isExpired W.nameClock = some false then some claim else none
  | _ => none

/-- The DHT decides when the name store has no claim, or an expired one. -/
def asksDht (U : PyUnicode) (L : Lib) (W : World) (name : String) : Bool :=
  match loadClaim U L W.names name with
  | some none => true
  | some (some claim) => claim.isExpired W.nameClock = some true
  | none => false

theorem resolveClaim_some {W : World} {name : String} {resolved : Resolved} :
    resolveClaim U L C W name = some (some resolved) ↔
      (∃ claim, localClaim U L W name = some claim ∧ resolved = ⟨claim, W.nameClock⟩) ∨
        asksDht U L W name = true ∧
          lookupDhtClaim U L C name W.sources = some (some resolved) := by
  unfold resolveClaim localClaim asksDht
  cases hload : loadClaim U L W.names name with
  | none => simp
  | some stored =>
    cases stored with
    | none => simp
    | some claim =>
      cases hexp : claim.isExpired W.nameClock with
      | none => simp [hexp]
      | some expired =>
        cases expired with
        | true => simp [hexp]
        | false => simp [hexp, eq_comm]

/-- **Headline.** A name is resolved through proofs exactly when the unexpired claim
that the name store has for it verifies, and the claim that decides has a signature
of 64 bytes. -/
theorem resolve_proof_iff (U : PyUnicode) (L : Lib) (C : Crypto) (W : World) (name : String) :
    (∀ resolved, resolveClaim U L C W name = some (some resolved) →
      resolved.claim.address ≠ .null → resolved.Proves U L C name) ↔
      (∀ claim, localClaim U L W name = some claim → claim.address ≠ .null →
        claim.verify U L C W.nameClock name = some true ∧ claim.Exact U name) ∧
      (asksDht U L W name = true → ∀ resolved,
        lookupDhtClaim U L C name W.sources = some (some resolved) →
          resolved.claim.Exact U name) := by
  constructor
  · intro h
    refine ⟨fun claim hlocal hnull => ?_, fun hasks resolved hdht => ?_⟩
    · have hproves := h ⟨claim, W.nameClock⟩ (resolveClaim_some.mpr (.inl ⟨claim, hlocal, rfl⟩))
        hnull
      exact ⟨hproves.verify, hproves.exact⟩
    · obtain ⟨t, hverify, -⟩ := lookupDhtClaim_checked hdht
      refine (h resolved (resolveClaim_some.mpr (.inr ⟨hasks, hdht⟩)) ?_).exact
      rw [(NameClaim.verify_true hverify).2.2.2.1]
      intro hnull
      cases hnull
  · rintro ⟨hlocal, hdht⟩ resolved hresolved hnull
    rcases resolveClaim_some.mp hresolved with ⟨claim, hclaim, rfl⟩ | ⟨hasks, hfound⟩
    · obtain ⟨hverify, hexact⟩ := hlocal claim hclaim hnull
      exact proves_of_verify hverify (NameClaim.verify_true hverify).1 hexact
    · obtain ⟨t, hverify, hexpired⟩ := lookupDhtClaim_checked hfound
      exact proves_of_verify hverify hexpired (hdht hasks resolved hfound)

/-- A file of the name store holds what a claim is written as. -/
theorem loadClaim_toJson {claim : NameClaim}
    (hread : (pyReader.loads (claim.toJson L)).bind (NameClaim.fromDict L) = some claim)
    {name : String} :
    loadClaim U L (fun _ => some (encode (claim.toJson L))) name = some (some claim) := by
  obtain ⟨data, hdata, hclaim⟩ := Option.bind_eq_some_iff.mp hread
  simp only [loadClaim, decode_encode, Option.bind_some, hdata, hclaim, Option.map_some]

/-- Stored for `laptop`, with somebody's key and no signature. -/
def tampered : NameClaim where
  name := .str "laptop"
  address := .str "bbbbbbbbbbbbbbbbbbbbbbbbbb"
  timestamp := newYear
  expires := fivePast
  publicKey := Crypto.sample.publicKey [1]
  signature := []
  version := .int 1

def tamperedWorld : World where
  sources := []
  names _ := some (encode (tampered.toJson sampleLib))
  nameClock := newYear.clock

/-- The claim in the name store is taken as it is. -/
theorem tampered_resolved :
    ¬ ∀ (U : PyUnicode) (L : Lib) (C : Crypto) (W : World) (name : String) (resolved : Resolved),
      resolveClaim U L C W name = some (some resolved) → resolved.claim.address ≠ .null →
        resolved.Proves U L C name := by
  intro h
  have hread : (pyReader.loads (tampered.toJson sampleLib)).bind (NameClaim.fromDict sampleLib) =
      some tampered :=
    NameClaim.loads_toJson rfl trivial trivial (by decide +kernel) (by decide +kernel)
  have hload : loadClaim sampleUnicode sampleLib tamperedWorld.names "laptop" =
      some (some tampered) := loadClaim_toJson hread
  have hexpired : tampered.isExpired newYear.clock = some false := by decide +kernel
  have hlocal : localClaim sampleUnicode sampleLib tamperedWorld "laptop" = some tampered := by
    rw [localClaim, hload]
    exact if_pos hexpired
  have hproves := h sampleUnicode sampleLib Crypto.sample tamperedWorld "laptop" _
    (resolveClaim_some.mpr (.inl ⟨tampered, hlocal, rfl⟩)) (by simp [tampered])
  cases hproves.length

end Wormhole.L4.Wns
