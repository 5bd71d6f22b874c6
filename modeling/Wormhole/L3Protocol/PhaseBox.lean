import Wormhole.L1Encoding.JsBytes

/-!
# Sealed phases

What an undilated wormhole puts in its mailbox. `derivePhaseKey` makes one key
for each side and phase, `encrypt` puts a random nonce in front of the
secretbox, `decrypt` takes it off again (`packages/protocol/src/hkdf.js`,
`packages/protocol/src/nacl.js`; `packages/dilation/src` has the same two
files' functions).

SHA-256, HKDF and XSalsa20-Poly1305 come from `@noble/hashes` and `tweetnacl`;
`Crypto` is what is relied on of them.

* `decrypt_encrypt`: the peer opens what was sealed under the same key.
* `decrypt_length`: the plaintext is 40 bytes shorter than what was opened.
-/
namespace Wormhole.L3
open Wormhole.L1

/-- The primitives, with the lengths and the round trip they document. -/
structure Crypto where
  sha256 : Bytes → Bytes
  /-- key, salt, info, length -/
  hkdf : Bytes → Bytes → Bytes → Nat → Bytes
  /-- message, nonce, key -/
  secretbox : Bytes → Bytes → Bytes → Bytes
  /-- box, nonce, key; `none` is the `null` of a failed authentication -/
  secretboxOpen : Bytes → Bytes → Bytes → Option Bytes
  length_sha256 : ∀ data, (sha256 data).length = 32
  length_hkdf : ∀ key salt info n, n ≤ 255 * 32 → (hkdf key salt info n).length = n
  open_secretbox : ∀ m nonce key, nonce.length = 24 → key.length = 32 →
    secretboxOpen (secretbox m nonce key) nonce key = some m
  length_of_open : ∀ c nonce key m, nonce.length = 24 → key.length = 32 →
    secretboxOpen c nonce key = some m → c.length = m.length + 16

/-- 24 bytes.

mirrors packages/protocol/src/nacl.js:36-40 (`randomNonce`) -/
abbrev Nonce := { nonce : Bytes // nonce.length = 24 }

variable (P : Crypto)

/-- mirrors packages/protocol/src/hkdf.js:66-88 (`derivePhaseKey`) -/
def derivePhaseKey (key : Bytes) (side phase : String) : Bytes :=
  let sideHash := P.sha256 (encode side)
  let phaseHash := P.sha256 (encode phase)
  let purpose := encode "wormhole:phase:" ++ sideHash ++ phaseHash
  P.hkdf key [] purpose 32

/-- mirrors packages/protocol/src/nacl.js:77-87 (`encrypt`) -/
def encrypt (nonce : Nonce) (message key : Bytes) : Bytes :=
  nonce.val ++ P.secretbox message nonce.val key

/-- mirrors packages/protocol/src/nacl.js:95-102 (`decrypt`) -/
def decrypt (data key : Bytes) : Option Bytes :=
  if data.length < 24 then none else P.secretboxOpen (data.drop 24) (data.take 24) key

theorem length_derivePhaseKey (key : Bytes) (side phase : String) :
    (derivePhaseKey P key side phase).length = 32 :=
  P.length_hkdf _ _ _ _ (by decide)

theorem decrypt_encrypt (nonce : Nonce) (message : Bytes) {key : Bytes} (hk : key.length = 32) :
    decrypt P (encrypt P nonce message key) key = some message := by
  have hn := nonce.property
  have htake : (encrypt P nonce message key).take 24 = nonce.val := List.take_left' hn
  have hdrop : (encrypt P nonce message key).drop 24 = P.secretbox message nonce.val key :=
    List.drop_left' hn
  have hlen : ¬ (encrypt P nonce message key).length < 24 := by
    unfold encrypt
    rw [List.length_append]
    omega
  unfold decrypt
  rw [if_neg hlen, htake, hdrop]
  exact P.open_secretbox message nonce.val key hn hk

theorem decrypt_length {data key m : Bytes} (hk : key.length = 32)
    (h : decrypt P data key = some m) : data.length = m.length + 40 := by
  unfold decrypt at h
  split at h
  · cases h
  · rename_i hlen
    have htake : (data.take 24).length = 24 := by
      rw [List.length_take]
      omega
    have := P.length_of_open _ _ _ _ htake hk h
    rw [List.length_drop] at this
    omega

theorem length_encrypt (nonce : Nonce) (message : Bytes) {key : Bytes} (hk : key.length = 32) :
    (encrypt P nonce message key).length = message.length + 40 :=
  decrypt_length P hk (decrypt_encrypt P nonce message hk)

/-- Primitives with no secrecy that keep the laws: a digest of the length and
the first byte, a constant key, a box of sixteen bytes and the plaintext. -/
def Crypto.plain : Crypto where
  sha256 data := beBytes 31 data.length ++ [data.headD 0]
  hkdf _ _ _ n := List.replicate n 1
  secretbox m _ _ := List.replicate 16 0xFF ++ m
  secretboxOpen c _ _ := if c.length < 16 then none else some (c.drop 16)
  length_sha256 data := by simp
  length_hkdf _ _ _ n _ := List.length_replicate
  open_secretbox m _ _ _ _ := by simp
  length_of_open c _ _ m _ _ h := by
    split at h
    · cases h
    · cases h
      rw [List.length_drop]
      omega

theorem plain_sha256_inj {u v : Bytes} (hu : u.length < 256 ^ 31) (hv : v.length < 256 ^ 31)
    (h : Crypto.plain.sha256 u = Crypto.plain.sha256 v) :
    u.length = v.length ∧ u.headD 0 = v.headD 0 := by
  obtain ⟨hlen, hhead⟩ := List.append_inj' h rfl
  have := congrArg unpack hlen
  rw [unpack_beBytes, unpack_beBytes, Nat.mod_eq_of_lt hu, Nat.mod_eq_of_lt hv] at this
  exact ⟨this, (List.cons.inj hhead).1⟩

end Wormhole.L3
