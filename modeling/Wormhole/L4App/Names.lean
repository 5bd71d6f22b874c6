import Wormhole.L4App.Advertisement
import Wormhole.L4App.WnsUri

/-!
# Global names

`src/wh/wns/names.py`: which URI is a global name, and the signed claim that links
a name to an address.

* `parseWnsAddress_global`: a URI that has an address in it is no global name.
* `NameClaim.verify_true`: what a verified claim is.
-/
namespace Wormhole.L4.Wns
open Wormhole.L1 Wormhole.L1.JsonText

/-! ## URIs -/

/-- What else is asked of characters outside ASCII. -/
structure PyUnicode extends Unicode where
  /-- `str.isdigit`. -/
  digit : Char → Bool

variable (U : PyUnicode)

def PyUnicode.isDigit (c : Char) : Bool := if isAscii c then c.isDigit else U.digit c

/-- `s.lower()`. -/
def PyUnicode.lowerText (s : String) : String := String.ofList (U.toLower s.toList)

def MAX_NAME_LENGTH : Nat := 32

def RESERVED_NAMES : List String :=
  ["wh", "wns", "wormhole", "admin", "root", "system", "localhost", "local", "test", "example"]

/-- mirrors src/wh/wns/names.py:50-72 -/
def isValidGlobalName (name : Chars) : Bool :=
  if name = [] ∨ MAX_NAME_LENGTH < name.length then false
  else if !validName U.toUnicode name then false
  else if String.ofList (U.toLower name) ∈ RESERVED_NAMES then false
  else if name.length = 26 ∧ (U.toLower name).all (· ∈ BASE32_ALPHABET.toList) then false
  else !((name.head?.any U.isDigit) && '-' ∈ name)

/-- mirrors src/wh/wns/names.py:107-131 -/
def parseGlobalName (uri : Chars) : Option Chars :=
  let name := pyRest uri
  if isValidGlobalName U name ∧ '.' ∉ name then some (U.toLower name) else none

variable {U}

theorem base32_not_global {name : Chars} (h : isBase32 name = true) :
    isValidGlobalName U name = false := by
  have hlower : U.toLower name = name := base32_lower h
  rw [isBase32, Bool.and_eq_true] at h
  have hlen : name.length = 26 := of_decide_eq_true h.1
  unfold isValidGlobalName
  split
  · rfl
  · split
    · rfl
    · split
      · rfl
      · rw [hlower, if_pos ⟨hlen, h.2⟩]

theorem parseWnsAddress_base32 {uri a : Chars} (h : parseWnsAddress U.toUnicode uri = some a) :
    isBase32 a = true := by
  obtain ⟨⟨name, a'⟩, hscoped, rfl⟩ := Option.map_eq_some_iff.mp h
  unfold parseScopedWnsAddress readScoped at hscoped
  simp only at hscoped
  split at hscoped
  · rename_i hdot
    cases hscoped
    exact hdot.2.2
  · split at hscoped
    · rename_i hbase
      cases hscoped
      exact hbase
    · cases hscoped

/-- A scoped name has a dot in it, and an address of its own is no name. -/
theorem parseWnsAddress_global {uri a : Chars} (h : parseWnsAddress U.toUnicode uri = some a) :
    parseGlobalName U uri = none := by
  obtain ⟨⟨name, a'⟩, hscoped, -⟩ := Option.map_eq_some_iff.mp h
  unfold parseScopedWnsAddress readScoped at hscoped
  simp only at hscoped
  unfold parseGlobalName
  simp only
  split at hscoped
  · rename_i hdot
    rw [if_neg fun hn => hn.2 hdot.1]
  · split at hscoped
    · rename_i hbase
      rw [base32_not_global hbase]
      rfl
    · cases hscoped

/-! ## Claims -/

variable (U) (L : Lib) (C : Crypto)

/-- mirrors src/wh/wns/names.py:134-150 -/
structure NameClaim where
  name : Json
  address : Json
  timestamp : DateTime
  expires : DateTime
  publicKey : Bytes
  signature : Bytes
  version : Json

namespace NameClaim

/-- mirrors src/wh/wns/names.py:267-278 -/
def fromDict (data : Json) : Option NameClaim := do
  let name ← item data "name"
  let address ← item data "address"
  let timestamp ← dateItem L data "timestamp"
  let expires ← dateItem L data "expires"
  let publicKey ← bytesItem data "public_key"
  let signature ← bytesItem data "signature"
  return {
    name, address, timestamp, expires, publicKey, signature
    version := (item data "version").getD (.int 1) }

/-- mirrors src/wh/wns/names.py:262-265 -/
def fromJson (data : String) : Option NameClaim := (pyReader.loads data).bind (fromDict L)

/-- mirrors src/wh/wns/names.py:250-260 -/
def toDict (claim : NameClaim) : Json :=
  .obj [("version", claim.version), ("name", claim.name), ("address", claim.address),
    ("timestamp", .str claim.timestamp.isoformat), ("expires", .str claim.expires.isoformat),
    ("public_key", .str (String.ofList (Base64.b64encode claim.publicKey))),
    ("signature", .str (String.ofList (Base64.b64encode claim.signature)))]

/-- What `save_claim` writes, too.
mirrors src/wh/wns/names.py:246-248,304-312 -/
def toJson (claim : NameClaim) : String := (pyIndented L.floatRepr 2).dumps claim.toDict

/-- mirrors src/wh/wns/names.py:231-234 -/
def isExpired (now : Int) (claim : NameClaim) : Option Bool := reached now claim.expires

/-- What is signed. -/
def message (claim : NameClaim) (address : String) : Bytes :=
  createSignMessage (L.format claim.name) address claim.timestamp claim.expires

/-- `none` is a `ValueError`.
mirrors src/wh/wns/names.py:152-189 -/
def create (identity : WNSIdentity) (name : String) (ttlSeconds : Int) (now : DateTime) :
    Option NameClaim := do
  let seed ← identity.signingKey
  guard (isValidGlobalName U name.toList)
  let name := U.lowerText name
  let expires ← L.later now ttlSeconds
  let address := (identity.address C).text
  return {
    name := .str name
    address := .str address
    timestamp := now
    expires
    publicKey := identity.verifyKey
    signature := C.sign seed (createSignMessage name address now expires)
    version := .int 1 }

/-- `self.name.lower() != expected_name.lower()`; of what is no string it is an
`AttributeError`. -/
def otherName (expectedName : String) (claim : NameClaim) : Option Bool :=
  if expectedName = "" then some false
  else
    match claim.name with
    | .str name => some (U.lowerText name ≠ U.lowerText expectedName)
    | _ => none

/-- mirrors src/wh/wns/names.py:202-229 -/
def verify (now : Int) (claim : NameClaim) (expectedName : String) : Option Bool :=
  match claim.isExpired now with
  | none => none
  | some true => some false
  | some false =>
    match claim.otherName U expectedName with
    | none => none
    | some true => some false
    | some false =>
      if claim.publicKey.length ≠ 32 then none
      else
        let address := (deriveAddress C claim.publicKey).text
        if !isText address claim.address then some false
        else some (identityVerify C claim.publicKey (claim.message L address) claim.signature)

end NameClaim

variable {U L C}

/-- What is written is read as what it was. -/
theorem NameClaim.loads_toJson {claim : NameClaim} (hv : Plain One claim.version)
    (hn : Plain One claim.name) (ha : Plain One claim.address)
    (ht : L.fromisoformat claim.timestamp.isoformat = some claim.timestamp)
    (he : L.fromisoformat claim.expires.isoformat = some claim.expires) :
    (pyReader.loads (claim.toJson L)).bind (NameClaim.fromDict L) = some claim := by
  have hplain : Plain One claim.toDict :=
    ⟨by simp, hv, hn, ha, trivial, trivial, trivial, trivial, trivial⟩
  have hitem : ∀ key, item claim.toDict key = Dict.lookup key _ := fun key => rfl
  have htimestamp : dateItem L claim.toDict "timestamp" = some claim.timestamp :=
    dateItem_isoformat (by simp [hitem, Dict.lookup]) ht
  have hexpires : dateItem L claim.toDict "expires" = some claim.expires :=
    dateItem_isoformat (by simp [hitem, Dict.lookup]) he
  have hpk : bytesItem claim.toDict "public_key" = some claim.publicKey :=
    bytesItem_b64encode (by simp [hitem, Dict.lookup])
  have hsig : bytesItem claim.toDict "signature" = some claim.signature :=
    bytesItem_b64encode (by simp [hitem, Dict.lookup])
  rw [NameClaim.toJson, loads_dumps (py_reads_py L) hplain, Option.bind_some]
  simp only [NameClaim.fromDict, htimestamp, hexpires, hpk, hsig, hitem, Dict.lookup,
    Option.bind_eq_bind, Option.bind_some, Option.pure_def]
  simp

/-- What verifies. -/
theorem NameClaim.verify_true {now : Int} {claim : NameClaim} {expected : String}
    (h : claim.verify U L C now expected = some true) :
    claim.isExpired now = some false ∧ claim.otherName U expected = some false ∧
      claim.publicKey.length = 32 ∧
      claim.address = .str (deriveAddress C claim.publicKey).text ∧
      identityVerify C claim.publicKey
        (claim.message L (deriveAddress C claim.publicKey).text) claim.signature = true := by
  unfold NameClaim.verify at h
  split at h
  · cases h
  · cases h
  · rename_i hexp
    split at h
    · cases h
    · cases h
    · rename_i hname
      split at h
      · cases h
      · rename_i hlen
        simp only at h
        split at h
        · cases h
        · rename_i haddr
          rw [Bool.not_eq_true', Bool.not_eq_false, isText_iff] at haddr
          exact ⟨hexp, hname, not_not.mp hlen, haddr, Option.some.inj h⟩

end Wormhole.L4.Wns
