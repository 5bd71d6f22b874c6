import Wormhole.L1Encoding.Base64
import Wormhole.L1Encoding.JsonRoundTrip
import Wormhole.L4App.Identity

/-!
# Code advertisements

`src/wh/wns/advertisement.py`, and how an `AdvertisementServer` and the two
clients of `src/wh/wns/dht.py` hand one over. A field that is not checked holds
what the JSON had in it, of any type.

* `verify_true`: what a verified advertisement is.
* `fetched_none`: no client reads what the server sends; the JSON has line breaks,
  and the client reads one line.
-/
namespace Wormhole.L4.Wns
open Wormhole.L1 Wormhole.L1.JsonText

/-! ## The library -/

/-- What is used of Python's library. -/
structure Lib where
  /-- `float.__repr__`. -/
  floatRepr : PyFloat → Text
  /-- `str(x)`, of a value that is no string. -/
  str : Json → String
  /-- `datetime.fromisoformat`; `none` is a `ValueError`. -/
  fromisoformat : String → Option DateTime
  /-- `datetime.fromtimestamp(now.timestamp() + seconds, tz=timezone.utc)`. -/
  later : DateTime → Int → Option DateTime

/-- `f"{x}"`. -/
def Lib.format (L : Lib) : Json → String
  | .str s => s
  | v => L.str v

/-- `data[key]`, of a dict. -/
def item (data : Json) (key : String) : Option Json :=
  match data with
  | .obj fields => Dict.lookup key fields
  | _ => none

def textItem (data : Json) (key : String) : Option String :=
  match item data key with
  | some (.str s) => some s
  | _ => none

def dateItem (L : Lib) (data : Json) (key : String) : Option DateTime :=
  (textItem data key).bind L.fromisoformat

def bytesItem (data : Json) (key : String) : Option Bytes :=
  (textItem data key).bind fun s => Base64.b64decode s.toList

/-- A value and a text that are `==`. -/
def isText (text : String) : Json → Bool
  | .str s => s = text
  | _ => false

/-- `datetime.now(timezone.utc) >= t`, in microseconds; of a naive `t` it is a
`TypeError`. -/
def reached (now : Int) (t : DateTime) : Option Bool := t.utc.map fun e => decide (e ≤ now)

variable (L : Lib) (C : Crypto)

/-! ## Advertisements -/

/-- mirrors src/wh/wns/advertisement.py:22-45 -/
structure CodeAdvertisement where
  address : Json
  code : Json
  timestamp : DateTime
  expires : DateTime
  publicKey : Bytes
  signature : Bytes
  version : Json
  scopedName : Json

namespace CodeAdvertisement

/-- `none` is an exception.
mirrors src/wh/wns/advertisement.py:170-182 -/
def fromDict (data : Json) : Option CodeAdvertisement := do
  let address ← item data "address"
  let code ← item data "code"
  let timestamp ← dateItem L data "timestamp"
  let expires ← dateItem L data "expires"
  let publicKey ← bytesItem data "public_key"
  let signature ← bytesItem data "signature"
  return {
    address, code, timestamp, expires, publicKey, signature
    version := (item data "version").getD (.int 1)
    scopedName := (item data "scoped_name").getD .null }

/-- mirrors src/wh/wns/advertisement.py:165-168 -/
def fromJson (data : String) : Option CodeAdvertisement := (pyReader.loads data).bind (fromDict L)

/-- mirrors src/wh/wns/advertisement.py:149-162 -/
def toDict (ad : CodeAdvertisement) : Json :=
  .obj ([("version", ad.version), ("address", ad.address), ("code", ad.code),
    ("timestamp", .str ad.timestamp.isoformat), ("expires", .str ad.expires.isoformat),
    ("public_key", .str (String.ofList (Base64.b64encode ad.publicKey))),
    ("signature", .str (String.ofList (Base64.b64encode ad.signature)))] ++
    if ad.scopedName.truthy then [("scoped_name", ad.scopedName)] else [])

/-- mirrors src/wh/wns/advertisement.py:145-147 -/
def toJson (ad : CodeAdvertisement) : String := (pyIndented L.floatRepr 2).dumps ad.toDict

/-- mirrors src/wh/wns/advertisement.py:135-138 -/
def isExpired (now : Int) (ad : CodeAdvertisement) : Option Bool := reached now ad.expires

/-- What is signed, with the address of a key. -/
def message (ad : CodeAdvertisement) (address : String) : Bytes :=
  createSignMessage address (L.format ad.code) ad.timestamp ad.expires

/-- PyNaCl refuses a key of another length; `none` is an exception.
mirrors src/wh/wns/advertisement.py:103-133 -/
def verify (now : Int) (ad : CodeAdvertisement) (expectedAddress : Json) : Option Bool :=
  match ad.isExpired now with
  | none => none
  | some true => some false
  | some false =>
    if ad.publicKey.length ≠ 32 then none
    else
      let address := (deriveAddress C ad.publicKey).text
      if !isText address ad.address then some false
      else if expectedAddress.truthy ∧ !isText address expectedAddress then some false
      else some (identityVerify C ad.publicKey (ad.message L address) ad.signature)

/-- mirrors src/wh/wns/advertisement.py:47-89 -/
def create (identity : WNSIdentity) (code : String) (ttlSeconds : Int) (now : DateTime) :
    Option CodeAdvertisement := do
  let seed ← identity.signingKey
  let expires ← L.later now ttlSeconds
  let address := (identity.address C).text
  return {
    address := .str address
    code := .str code
    timestamp := now
    expires
    publicKey := identity.verifyKey
    signature := C.sign seed (createSignMessage address code now expires)
    version := .int 1
    scopedName := match identity.scopedName with
      | some name => .str name
      | none => .null }

end CodeAdvertisement

variable {L C}

/-! ## Round trip -/

/-- The only number that is created. -/
def One (x : Json) : Prop := x = .int 1

theorem plain_toDict {P : Json → Prop} {ad : CodeAdvertisement} (hv : Plain P ad.version)
    (ha : Plain P ad.address) (hc : Plain P ad.code) (hn : Plain P ad.scopedName) :
    Plain P ad.toDict := by
  unfold CodeAdvertisement.toDict
  split
  · exact ⟨by simp, hv, ha, hc, trivial, trivial, trivial, trivial, hn, trivial⟩
  · exact ⟨by simp, hv, ha, hc, trivial, trivial, trivial, trivial, trivial⟩

theorem py_reads_py (L : Lib) : Inverse pyReader (pyIndented L.floatRepr 2) One where
  escape := pyEscape_reads
  number x hx := by
    subst hx
    exact pyReader_readsInt (by decide)

theorem bytesItem_b64encode {data : Json} {key : String} {bytes : Bytes}
    (h : item data key = some (.str (String.ofList (Base64.b64encode bytes)))) :
    bytesItem data key = some bytes := by
  rw [bytesItem, textItem, h]
  simp only [Option.bind_some, String.toList_ofList, Base64.b64decode_b64encode]

theorem dateItem_isoformat {data : Json} {key : String} {t : DateTime}
    (h : item data key = some (.str t.isoformat)) (ht : L.fromisoformat t.isoformat = some t) :
    dateItem L data key = some t := by
  rw [dateItem, textItem, h]
  exact ht

theorem item_toDict (ad : CodeAdvertisement) :
    item ad.toDict "version" = some ad.version ∧ item ad.toDict "address" = some ad.address ∧
      item ad.toDict "code" = some ad.code ∧
      item ad.toDict "timestamp" = some (.str ad.timestamp.isoformat) ∧
      item ad.toDict "expires" = some (.str ad.expires.isoformat) ∧
      item ad.toDict "public_key" = some (.str (String.ofList (Base64.b64encode ad.publicKey))) ∧
      item ad.toDict "signature" = some (.str (String.ofList (Base64.b64encode ad.signature))) ∧
      item ad.toDict "scoped_name" =
        if ad.scopedName.truthy then some ad.scopedName else none := by
  unfold CodeAdvertisement.toDict
  split
  · simp [item, Dict.lookup]
  · simp [item, Dict.lookup]

/-- A scoped name that is falsy is not written. -/
theorem fromDict_toDict {ad : CodeAdvertisement}
    (ht : L.fromisoformat ad.timestamp.isoformat = some ad.timestamp)
    (he : L.fromisoformat ad.expires.isoformat = some ad.expires)
    (hn : ad.scopedName = .null ∨ ad.scopedName.truthy = true) :
    CodeAdvertisement.fromDict L ad.toDict = some ad := by
  obtain ⟨hversion, haddress, hcode, htimestamp, hexpires, hpk, hsig, hscoped⟩ := item_toDict ad
  have hname : (if ad.scopedName.truthy then some ad.scopedName else none).getD .null =
      ad.scopedName := by
    rcases hn with hn | hn
    · rw [hn]
      rfl
    · rw [if_pos hn]
      rfl
  simp only [CodeAdvertisement.fromDict, haddress, hcode, dateItem_isoformat htimestamp ht,
    dateItem_isoformat hexpires he, bytesItem_b64encode hpk, bytesItem_b64encode hsig, hversion,
    hscoped, hname, Option.bind_eq_bind, Option.bind_some, Option.getD_some, Option.pure_def]

/-- What is written is read as what it was. -/
theorem fromJson_toJson {ad : CodeAdvertisement} (hplain : Plain One ad.toDict)
    (ht : L.fromisoformat ad.timestamp.isoformat = some ad.timestamp)
    (he : L.fromisoformat ad.expires.isoformat = some ad.expires)
    (hn : ad.scopedName = .null ∨ ad.scopedName.truthy = true) :
    CodeAdvertisement.fromJson L (ad.toJson L) = some ad := by
  rw [CodeAdvertisement.fromJson, CodeAdvertisement.toJson, loads_dumps (py_reads_py L) hplain]
  exact fromDict_toDict ht he hn

/-! ## Verifying -/

/-- The bytes that are read. -/
theorem fromDict_bytes {data : Json} {ad : CodeAdvertisement}
    (h : CodeAdvertisement.fromDict L data = some ad) :
    bytesItem data "public_key" = some ad.publicKey ∧
      bytesItem data "signature" = some ad.signature := by
  obtain ⟨address, -, h⟩ := Option.bind_eq_some_iff.mp h
  obtain ⟨code, -, h⟩ := Option.bind_eq_some_iff.mp h
  obtain ⟨timestamp, -, h⟩ := Option.bind_eq_some_iff.mp h
  obtain ⟨expires, -, h⟩ := Option.bind_eq_some_iff.mp h
  obtain ⟨publicKey, hpk, h⟩ := Option.bind_eq_some_iff.mp h
  obtain ⟨signature, hsig, h⟩ := Option.bind_eq_some_iff.mp h
  cases h
  exact ⟨hpk, hsig⟩

theorem isText_iff {text : String} {v : Json} : isText text v = true ↔ v = .str text := by
  unfold isText
  split
  · rename_i s
    rw [decide_eq_true_eq, Json.str.injEq]
  · rename_i hne
    constructor
    · intro h
      cases h
    · intro h
      exact absurd h (hne text)

/-- What verifies. -/
theorem verify_true {now : Int} {ad : CodeAdvertisement} {expected : Json}
    (h : ad.verify L C now expected = some true) :
    ad.isExpired now = some false ∧ ad.publicKey.length = 32 ∧
      ad.address = .str (deriveAddress C ad.publicKey).text ∧
      (expected.truthy = true → expected = .str (deriveAddress C ad.publicKey).text) ∧
      identityVerify C ad.publicKey (ad.message L (deriveAddress C ad.publicKey).text)
        ad.signature = true := by
  unfold CodeAdvertisement.verify at h
  split at h
  · cases h
  · cases h
  · rename_i hexp
    split at h
    · cases h
    · rename_i hlen
      simp only at h
      split at h
      · cases h
      · rename_i haddr
        rw [Bool.not_eq_true', Bool.not_eq_false, isText_iff] at haddr
        split at h
        · cases h
        · rename_i hexpected
          refine ⟨hexp, not_not.mp hlen, haddr, fun he => ?_, Option.some.inj h⟩
          by_contra hne
          refine hexpected ⟨he, ?_⟩
          rw [Bool.not_eq_true', ← Bool.not_eq_true, isText_iff]
          exact hne

/-! ## Fetching -/

/-- What a stream reads of one line, up to its limit; `none` is a `ValueError`. -/
def readline (bs : Bytes) : Option Bytes :=
  let line := bs.takeWhile (· ≠ 10)
  if 65536 < line.length then none
  else if line.length < bs.length then some (line ++ [10]) else some line

variable (L)

def notFound : String := "NOT_FOUND"

/-- What is written for a request; nothing when an exception ends it.
mirrors src/wh/wns/dht.py:468-505 (`AdvertisementServer._handle_client`) -/
def handleClient (now : Int) (advertisements : Dict String CodeAdvertisement) (request : Bytes) :
    Bytes :=
  match (readline request).bind decode with
  | none => []
  | some line =>
    if line = "" then []
    else
      let request := strip line.toList
      if "GET ".toList <+: request then
        let address := String.ofList (strip (request.drop 4))
        match advertisements.get? address with
        | none => encode (notFound ++ "\n")
        | some ad =>
          match ad.isExpired now with
          | none => []
          | some true => encode (notFound ++ "\n")
          | some false => encode (ad.toJson L ++ "\n")
      else encode "ERROR: Unknown command\n"

/-- mirrors src/wh/wns/dht.py:1230-1231,1481-1482 -/
def getRequest (address : String) : Bytes := encode ("GET " ++ address ++ "\n")

/-- What is made of a peer's answer; `none` is `None` and an exception that is
caught. -/
def readAdvertisement (refusals : List String) (answer : Bytes) : Option CodeAdvertisement := do
  let line ← readline answer
  let text ← decode line
  let response := String.ofList (strip text.toList)
  if response ∈ refusals ∨ "ERROR".toList <+: response.toList then none
  else CodeAdvertisement.fromJson L response

/-- mirrors src/wh/wns/dht.py:1216-1253 (`WNSDHTNode._fetch_advertisement`) -/
def nodeFetchAdvertisement (answer : Bytes) : Option CodeAdvertisement :=
  readAdvertisement L [notFound] answer

/-- mirrors src/wh/wns/dht.py:1468-1498 (`WNSDHTClient._fetch_advertisement`) -/
def clientFetchAdvertisement (answer : Bytes) : Option CodeAdvertisement :=
  readAdvertisement L [notFound, ""] answer

/-- A client asks for an address.
mirrors src/wh/wns/dht.py:1224-1253,1476-1498 -/
def served (now : Int) (advertisements : Dict String CodeAdvertisement) (address : String) :
    Bytes :=
  handleClient L now advertisements (getRequest address)

/-- The JSON of an advertisement begins with a line of its own. -/
theorem write_toDict (ad : CodeAdvertisement) :
    ∃ rest, (pyIndented L.floatRepr 2).write 0 ad.toDict = '\x7b' :: '\n' :: rest :=
  ⟨_, rfl⟩

theorem readline_toJson (ad : CodeAdvertisement) :
    readline (encode (ad.toJson L ++ "\n")) = some [0x7b, 10] := by
  obtain ⟨rest, hrest⟩ := write_toDict L ad
  have htext : ad.toJson L ++ "\n" = String.ofList ('\x7b' :: '\n' :: (rest ++ ['\n'])) := by
    rw [CodeAdvertisement.toJson, Writer.dumps, hrest, ← String.toList_inj, String.toList_append]
    simp only [String.toList_ofList]
    rfl
  have hbytes : encode (ad.toJson L ++ "\n") =
      0x7b :: 10 :: (rest ++ ['\n']).flatMap String.utf8EncodeChar := by
    rw [htext, encode_ofList]
    rfl
  rw [hbytes]
  simp [readline]

theorem readAdvertisement_of {answer line : Bytes} {text : String} (response : String)
    (hline : readline answer = some line) (htext : decode line = some text)
    (hresponse : String.ofList (strip text.toList) = response) (refusals : List String) :
    readAdvertisement L refusals answer =
      if response ∈ refusals ∨ "ERROR".toList <+: response.toList then none
      else CodeAdvertisement.fromJson L response := by
  subst hresponse
  simp only [readAdvertisement, hline, htext, Option.bind_eq_bind, Option.bind_some]

/-- Nothing that the server writes is read as an advertisement. -/
theorem readAdvertisement_written (now : Int) (advertisements : Dict String CodeAdvertisement)
    (request : Bytes) {refusals : List String} (h : notFound ∈ refusals) :
    readAdvertisement L refusals (handleClient L now advertisements request) = none := by
  have hnothing : readAdvertisement L refusals [] = none := by
    rw [readAdvertisement_of L "" rfl (decode_encode "") rfl]
    split
    · rfl
    · rw [CodeAdvertisement.fromJson, show pyReader.loads "" = none from rfl]
      rfl
  have hnotFound : readAdvertisement L refusals (encode (notFound ++ "\n")) = none := by
    have hline : readline (encode (notFound ++ "\n")) = some (encode (notFound ++ "\n")) := by
      decide +kernel
    rw [readAdvertisement_of L notFound hline (decode_encode _) (by decide +kernel),
      if_pos (.inl h)]
  have herror : readAdvertisement L refusals (encode "ERROR: Unknown command\n") = none := by
    have hline : readline (encode "ERROR: Unknown command\n") =
        some (encode "ERROR: Unknown command\n") := by decide +kernel
    rw [readAdvertisement_of L "ERROR: Unknown command" hline (decode_encode _)
      (by decide +kernel), if_pos (.inr (by decide +kernel))]
  have hjson : ∀ ad : CodeAdvertisement,
      readAdvertisement L refusals (encode (ad.toJson L ++ "\n")) = none := by
    intro ad
    rw [readAdvertisement_of L "\x7b" (readline_toJson L ad) (decode_encode "\x7b\n")
      (by decide +kernel)]
    split
    · rfl
    · rw [CodeAdvertisement.fromJson,
        show pyReader.loads "\x7b" = none by decide +kernel]
      rfl
  unfold handleClient
  split
  · exact hnothing
  · split
    · exact hnothing
    · simp only
      split
      · split
        · exact hnotFound
        · split
          · exact hnothing
          · exact hnotFound
          · exact hjson _
      · exact herror

/-- **Headline.** No advertisement is fetched from a server, by the node or by the
client, whatever the server has stored. -/
theorem fetched_none (now : Int) (advertisements : Dict String CodeAdvertisement)
    (address : String) :
    nodeFetchAdvertisement L (served L now advertisements address) = none ∧
      clientFetchAdvertisement L (served L now advertisements address) = none :=
  ⟨readAdvertisement_written L now advertisements _ List.mem_cons_self,
    readAdvertisement_written L now advertisements _ List.mem_cons_self⟩

/-! ## A run -/

def utcOffset : UtcOffset := ⟨0, by decide⟩

def newYear : DateTime where
  year := 2029
  month := 1
  day := 1
  hour := 0
  minute := 0
  second := 0
  microsecond := 0
  utcoffset := some utcOffset
  year_mem := by decide
  month_mem := by decide
  day_mem := by decide
  time_mem := by decide

def fivePast : DateTime := { newYear with minute := 5, time_mem := by decide }

/-- Two dates, and no other texts than strings. -/
def sampleLib : Lib where
  floatRepr _ := []
  str _ := ""
  fromisoformat
    | "2029-01-01T00:00:00+00:00" => some newYear
    | "2029-01-01T00:05:00+00:00" => some fivePast
    | "2029-01-01T00:00:00.000Z" => some newYear
    | "2029-01-01T00:05:00.000Z" => some fivePast
    | _ => none
  later now seconds := if now = newYear ∧ seconds = 300 then some fivePast else none

def sampleAdvertisement : CodeAdvertisement where
  address := .str "aeaaaaaaaaaaaaaaaaaaaaaaaa"
  code := .str "7-guitar-sunset"
  timestamp := newYear
  expires := fivePast
  publicKey := Crypto.sample.publicKey [1]
  signature := Crypto.sample.sign [1] (CodeAdvertisement.createSignMessage
    "aeaaaaaaaaaaaaaaaaaaaaaaaa" "7-guitar-sunset" newYear fivePast)
  version := .int 1
  scopedName := .null

/-- An advertisement that is stored under its address is not fetched. -/
theorem stored_not_fetched :
    ¬ ∀ (L : Lib) (now : Int) (advertisements : Dict String CodeAdvertisement) (address : String)
      (ad : CodeAdvertisement), advertisements.get? address = some ad →
        ad.address = .str address → ad.isExpired now = some false →
        nodeFetchAdvertisement L (served L now advertisements address) = some ad ∧
          clientFetchAdvertisement L (served L now advertisements address) = some ad := by
  intro h
  have hnode : nodeFetchAdvertisement sampleLib (served sampleLib 0
      (Dict.empty.set "aeaaaaaaaaaaaaaaaaaaaaaaaa" sampleAdvertisement)
      "aeaaaaaaaaaaaaaaaaaaaaaaaa") = none :=
    readAdvertisement_written _ _ _ _ List.mem_cons_self
  have hget := Dict.get?_set_self Dict.empty "aeaaaaaaaaaaaaaaaaaaaaaaaa" sampleAdvertisement
  have hfetched := h sampleLib 0 _ _ sampleAdvertisement hget rfl (by decide +kernel)
  rw [hnode] at hfetched
  cases hfetched.1

end Wormhole.L4.Wns
