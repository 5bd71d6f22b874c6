import Wormhole.L1Encoding.Base64
import Wormhole.L4App.Identity
import Wormhole.L4App.Policy

/-!
# Authenticators

The authenticators of `src/wh/enterprise/auth.py` that check a client without
asking another server: a signature of a challenge, or a password. Files are
given by the lines that could be read of them. PyNaCl is the `Crypto` of the
identities, `bcrypt.checkpw` a parameter.

* `authenticate_success_iff`: a client succeeds at a public key authenticator
  exactly when it names a key on file and signed the current challenge.
* `challenge_decodes`: the client is told the challenge it has to sign.
* `valid_loadKeys`: the keys on file are keys.
-/
namespace Wormhole.L4.Enterprise
open Wormhole.L1 Wormhole.L1.Base64 Wormhole.L4.Wns

/-- mirrors src/wh/enterprise/auth.py:34-39 -/
inductive AuthMethod
  | none
  | pubkey
  | password
  | ldap
deriving DecidableEq, Repr

/-- mirrors src/wh/enterprise/auth.py:61-68 -/
structure AuthResult where
  success : Bool
  identity : Option String := none
  groups : List String := []
  error : Option String := none
  metadata : List (String × String) := []
deriving DecidableEq

def AuthResult.failure (error : String) : AuthResult := { success := false, error := some error }

/-- The entries of the `credentials` dictionary that an authenticator reads. -/
structure Credentials where
  publicKey : Option String := none
  signature : Option String := none
  username : Option String := none
  password : Option String := none

theorem named_some {s : String} (h : s ≠ "") : named (some s) = some s := by
  simp [named, h]

theorem ne_of_named {name : Option String} {s : String} (h : named name = some s) : s ≠ "" := by
  have := (Option.filter_eq_some_iff.mp h).2
  simpa using this

/-! ## Public keys -/

/-- `Base64Encoder.decode(s.encode())`: of bytes, whatever is not in the alphabet is
skipped. -/
def base64Decode (s : String) : Option Bytes := a2b 0 0 0 s.toList

theorem base64Decode_ofList (bs : Bytes) :
    base64Decode (String.ofList (b64encode bs)) = some bs := by
  unfold base64Decode
  rw [String.toList_ofList]
  exact a2b_encoded bs

/-- What `os.urandom(32)` returns. -/
abbrev Challenge := { bs : Bytes // bs.length = 32 }

/-- Every key on file is the Base64 of 32 bytes. -/
def ValidKeys (keys : Dict String String) : Prop :=
  ∀ k, keys.contains k = true → ∃ bs, base64Decode k = some bs ∧ bs.length = 32

/-- One line of the file: a key and its id.
mirrors src/wh/enterprise/auth.py:142-161 -/
def keyLine (lineNum : Nat) (line : String) : Option (String × String) :=
  let line := strip line.toList
  let pubkeyB64 := String.ofList (line.takeWhile (!pyIsSpace ·))
  let rest := (line.dropWhile (!pyIsSpace ·)).dropWhile pyIsSpace
  let keyId := if rest = [] then s!"key-{lineNum}" else String.ofList rest
  if line.head?.all (· = '#') then none
  else
    match base64Decode pubkeyB64 with
    | some bs => if bs.length = 32 then some (pubkeyB64, keyId) else none
    | none => none

def addKey (keys : Dict String String) (line : String × Nat) : Dict String String :=
  match keyLine line.2 line.1 with
  | some (k, keyId) => keys.set k keyId
  | none => keys

/-- The lines of the file, `none` when there is no file.
mirrors src/wh/enterprise/auth.py:132-165 (`_load_keys`) -/
def loadKeys (file : Option (List String)) : Dict String String :=
  ((file.getD []).zipIdx 1).foldl addKey .empty

theorem validKeys_empty : ValidKeys .empty := by
  intro k h
  cases h

theorem keyLine_valid {n : Nat} {line k keyId : String} (h : keyLine n line = some (k, keyId)) :
    ∃ bs, base64Decode k = some bs ∧ bs.length = 32 := by
  unfold keyLine at h
  dsimp only at h
  split at h
  · cases h
  · split at h
    · rename_i bs hbs
      split at h
      · rename_i hlen
        cases h
        exact ⟨bs, hbs, hlen⟩
      · cases h
    · cases h

theorem ValidKeys.addKey {keys : Dict String String} (h : ValidKeys keys)
    (line : String × Nat) : ValidKeys (addKey keys line) := by
  unfold Enterprise.addKey
  split
  · rename_i k keyId hline
    intro j hj
    unfold Dict.contains at hj
    rw [Dict.get?_set] at hj
    split at hj
    · rename_i hk
      subst hk
      exact keyLine_valid hline
    · exact h j hj
  · exact h

theorem valid_loadKeys (file : Option (List String)) : ValidKeys (loadKeys file) := by
  have hfold : ∀ (lines : List (String × Nat)) (keys : Dict String String), ValidKeys keys →
      ValidKeys (lines.foldl addKey keys) := by
    intro lines
    induction lines with
    | nil => exact fun _ h => h
    | cons line lines ih => exact fun _ h => ih _ (h.addKey line)
  exact hfold _ _ validKeys_empty

/-- The keys are those of a file, so each of them is a key. -/
structure PubkeyAuthenticator where
  authorizedKeys : Dict String String
  challenge : Challenge
  valid : ValidKeys authorizedKeys

namespace PubkeyAuthenticator

/-- mirrors src/wh/enterprise/auth.py:126-130 -/
def init (file : Option (List String)) (urandom : Challenge) : PubkeyAuthenticator :=
  ⟨loadKeys file, urandom, valid_loadKeys file⟩

/-- mirrors src/wh/enterprise/auth.py:167-169 -/
def reloadKeys (s : PubkeyAuthenticator) (file : Option (List String)) : PubkeyAuthenticator :=
  ⟨loadKeys file, s.challenge, valid_loadKeys file⟩

/-- What the client is sent, and the authenticator that waits for the signature.
mirrors src/wh/enterprise/auth.py:171-177 -/
def getChallenge (s : PubkeyAuthenticator) (urandom : Challenge) :
    List (String × String) × PubkeyAuthenticator :=
  ([("method", "pubkey"), ("challenge", String.ofList (b64encode urandom.val))],
    { s with challenge := urandom })

/-- The challenge is read, not taken: it stays what it was.
mirrors src/wh/enterprise/auth.py:179-226 -/
def authenticate (C : Crypto) (s : PubkeyAuthenticator) (credentials : Credentials) :
    AuthResult :=
  match named credentials.publicKey, named credentials.signature with
  | some pubkeyB64, some signatureB64 =>
    match s.authorizedKeys.get? pubkeyB64 with
    | none => .failure "Public key not authorized"
    | some keyId =>
      match base64Decode pubkeyB64, base64Decode signatureB64 with
      | some pubkey, some signature =>
        if pubkey.length = 32 ∧ C.verify pubkey s.challenge.val signature then
          { success := true, identity := some keyId,
            metadata := [("method", "pubkey"),
              ("public_key", String.ofList (pubkeyB64.toList.take 16) ++ "...")] }
        else .failure "Signature verification failed"
      | _, _ => .failure "Signature verification failed"
  | _, _ => .failure "Missing public_key or signature"

/-- The key and the signature that a client presents. -/
def presented (credentials : Credentials) : Option (Bytes × Bytes) :=
  match (named credentials.publicKey).bind base64Decode,
    (named credentials.signature).bind base64Decode with
  | some pubkey, some signature => some (pubkey, signature)
  | _, _ => none

/-- The keys on file have the length of a key, so nothing else can go wrong. -/
theorem authenticate_success_iff (C : Crypto) (s : PubkeyAuthenticator)
    (credentials : Credentials) :
    (s.authenticate C credentials).success = true ↔
      ∃ pubkeyB64 pubkey signature, named credentials.publicKey = some pubkeyB64 ∧
        s.authorizedKeys.contains pubkeyB64 = true ∧
        presented credentials = some (pubkey, signature) ∧
        C.verify pubkey s.challenge.val signature = true := by
  unfold authenticate presented
  cases named credentials.publicKey with
  | none => simp [AuthResult.failure]
  | some pubkeyB64 =>
    cases named credentials.signature with
    | none => simp [AuthResult.failure]
    | some signatureB64 =>
      dsimp only [Option.bind_some]
      cases hget : s.authorizedKeys.get? pubkeyB64 with
      | none => simp [AuthResult.failure, Dict.contains, hget]
      | some keyId =>
        have hin : s.authorizedKeys.contains pubkeyB64 = true := by simp [Dict.contains, hget]
        obtain ⟨pubkey, hkey, hlen⟩ := s.valid pubkeyB64 hin
        rw [hkey]
        cases hsig : base64Decode signatureB64 with
        | none => simp [AuthResult.failure]
        | some signature =>
          by_cases hv : C.verify pubkey s.challenge.val signature = true
          · simp [hlen, hv, hget]
          · simp [hlen, hv, AuthResult.failure]

/-- The text of the challenge is read back as the challenge. -/
theorem challenge_decodes (s : PubkeyAuthenticator) (urandom : Challenge) :
    ∃ text, ("challenge", text) ∈ (s.getChallenge urandom).1 ∧
      base64Decode text = some (s.getChallenge urandom).2.challenge.val := by
  exact ⟨String.ofList (b64encode urandom.val), by simp [getChallenge], base64Decode_ofList _⟩

end PubkeyAuthenticator

/-! ## Passwords -/

/-- A user and the hash of the password; a line without a colon is skipped.
mirrors src/wh/enterprise/auth.py:253-261 -/
def userLine (line : String) : Option (String × String) :=
  let line := strip line.toList
  if line.head?.all (· = '#') then none
  else if ':' ∉ line then none
  else some (String.ofList (line.takeWhile (· ≠ ':')),
    String.ofList ((line.dropWhile (· ≠ ':')).drop 1))

def addUser (users : Dict String String) (line : String) : Dict String String :=
  match userLine line with
  | some (username, passwordHash) => users.set username passwordHash
  | none => users

/-- mirrors src/wh/enterprise/auth.py:236-265 -/
structure PasswordAuthenticator where
  users : Dict String String

def PasswordAuthenticator.init (file : Option (List String)) : PasswordAuthenticator :=
  ⟨(file.getD []).foldl addUser .empty⟩

/-- What `import bcrypt` and `bcrypt.checkpw(password, hash)` do: not installed, raised, or
the answer. -/
inductive Bcrypt
  | missing
  | checkpw (f : String → String → Option Bool)

/-- mirrors src/wh/enterprise/auth.py:271-334 -/
def PasswordAuthenticator.authenticate (B : Bcrypt) (s : PasswordAuthenticator)
    (credentials : Credentials) : AuthResult :=
  match named credentials.username, named credentials.password with
  | some username, some password =>
    match named (s.users.get? username) with
    | none => .failure "Invalid credentials"
    | some storedHash =>
      if ["$2a$", "$2b$", "$2y$"].any fun p => p.toList.isPrefixOf storedHash.toList then
        match B with
        | .missing => .failure "bcrypt not installed"
        | .checkpw f =>
          match f password storedHash with
          | none => .failure "Authentication error"
          | some true =>
            { success := true, identity := some username, metadata := [("method", "password")] }
          | some false => .failure "Invalid credentials"
      else if password = storedHash then
        { success := true, identity := some username,
          metadata := [("method", "password"), ("warning", "plaintext password")] }
      else .failure "Invalid credentials"
  | _, _ => .failure "Missing username or password"

end Wormhole.L4.Enterprise
