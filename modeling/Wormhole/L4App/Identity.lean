import Wormhole.L4App.SignMessages

/-!
# Identities

An identity of `src/wh/wns/identity.py`: an Ed25519 key pair, and the address
that is derived from its public key. SHA-256 and Ed25519 are the parameter
`Crypto`, of which only the lengths are known; PyNaCl checks a signature that
stands in front of its message, in one byte string.

* `identityVerify_iff`: a signature of 64 bytes is checked against the message.
  Of a longer one, the bytes after the 64th count as the beginning of the
  message.
-/
namespace Wormhole.L4.Wns
open Wormhole.L1

/-! ## Base 32 -/

def base32Char (n : Nat) : Char := (BASE32_ALPHABET.toList[n]?).getD 'a'

/-- The low `w` digits of `n` in base 32. -/
def base32Digits : Nat → Nat → List Char
  | 0, _ => []
  | w + 1, n => base32Digits w (n / 32) ++ [base32Char (n % 32)]

/-- The bits in groups of five; the last group is filled up with zeros.
mirrors src/wh/wns/identity.py:27-30 (`_base32_encode`) -/
def base32Encode (data : Bytes) : List Char :=
  let w := (8 * data.length + 4) / 5
  base32Digits w (unpack data * 2 ^ (5 * w - 8 * data.length))

theorem length_base32Digits (w n : Nat) : (base32Digits w n).length = w := by
  induction w generalizing n with
  | zero => rfl
  | succ w ih => simp [base32Digits, ih]

theorem base32Char_mem {n : Nat} (h : n < 32) : base32Char n ∈ BASE32_ALPHABET.toList := by
  have hall : ∀ k ∈ List.range 32, base32Char k ∈ BASE32_ALPHABET.toList := by decide
  exact hall n (List.mem_range.mpr h)

theorem mem_base32Digits {w n : Nat} {c : Char} (h : c ∈ base32Digits w n) :
    c ∈ BASE32_ALPHABET.toList := by
  induction w generalizing n with
  | zero => cases h
  | succ w ih =>
    rcases List.mem_append.mp h with hl | hr
    · exact ih hl
    · rw [List.mem_singleton.mp hr]
      exact base32Char_mem (Nat.mod_lt n (by decide))

/-! ## Keys -/

/-- `hashlib` and PyNaCl, `crypto.subtle` and noble. -/
structure Crypto where
  sha256 : Bytes → Bytes
  /-- The public key of a seed. -/
  publicKey : Bytes → Bytes
  /-- The signature of a message, with a seed. -/
  sign : Bytes → Bytes → Bytes
  /-- Whether 64 bytes are a signature of a message, for a public key. -/
  verify : Bytes → Bytes → Bytes → Bool
  length_sha256 : ∀ bs, (sha256 bs).length = 32
  length_publicKey : ∀ seed, (publicKey seed).length = 32
  length_sign : ∀ seed message, (sign seed message).length = 64

/-- The first `n` bytes, filled up with zeros. -/
def fit (n : Nat) (bs : Bytes) : Bytes := (bs ++ List.replicate n 0).take n

theorem length_fit (n : Nat) (bs : Bytes) : (fit n bs).length = n := by
  rw [fit, List.length_take, List.length_append, List.length_replicate]
  omega

/-- For runs: a signature shows the key and the beginning of the message. -/
def Crypto.sample : Crypto where
  sha256 bs := fit 32 bs
  publicKey seed := fit 32 seed
  sign seed message := fit 32 seed ++ fit 32 message
  verify publicKey message signature := signature = publicKey ++ fit 32 message
  length_sha256 bs := length_fit 32 bs
  length_publicKey seed := length_fit 32 seed
  length_sign seed message := by rw [List.length_append, length_fit, length_fit]

/-- mirrors src/wh/wns/identity.py:103-109 -/
def deriveAddress (C : Crypto) (publicKey : Bytes) : Address where
  text := String.ofList (base32Encode ((C.sha256 publicKey).take 16))
  length_eq := by
    rw [String.length_ofList, base32Encode, length_base32Digits, List.length_take, C.length_sha256]
    rfl
  base32 c hc := by
    rw [String.toList_ofList] at hc
    exact mem_base32Digits hc

/-- `_address` is derived from the key wherever an identity is built. -/
structure WNSIdentity where
  signingKey : Option Bytes
  verifyKey : Bytes
  scopedName : Option String

/-- The identity of a seed.
mirrors src/wh/wns/identity.py:73-84 (`from_private_key`) -/
def WNSIdentity.fromPrivateKey (C : Crypto) (seed : Bytes) (scopedName : Option String) :
    WNSIdentity :=
  ⟨some seed, C.publicKey seed, scopedName⟩

def WNSIdentity.address (C : Crypto) (identity : WNSIdentity) : Address :=
  deriveAddress C identity.verifyKey

/-- `VerifyKey.verify(signature + message)`: the first 64 bytes are the signature.
mirrors src/wh/wns/identity.py:156-165 -/
def identityVerify (C : Crypto) (publicKey message signature : Bytes) : Bool :=
  let signedMessage := signature ++ message
  decide (64 ≤ signedMessage.length) &&
    C.verify publicKey (signedMessage.drop 64) (signedMessage.take 64)

theorem identityVerify_iff {C : Crypto} {publicKey message signature : Bytes}
    (h : signature.length = 64) :
    identityVerify C publicKey message signature = C.verify publicKey message signature := by
  have hlen : 64 ≤ (signature ++ message).length := by
    rw [List.length_append]
    omega
  rw [identityVerify, List.drop_left' h, List.take_left' h, decide_eq_true hlen, Bool.true_and]

end Wormhole.L4.Wns
