import Wormhole.L3Protocol.PhaseBox
import Wormhole.L4App.MailboxClient

/-!
# Application messages of an undilated wormhole

`Wormhole.send` seals its data under a key for its own side and the phase and
adds the ciphertext to the mailbox as a binary body; `Wormhole.receive` of the
peer opens whatever body its mailbox client hands it
(`packages/protocol/src/index.js`).

`receiveBody_sendBody`: what was sent is received exactly when the ciphertext
is not by chance valid UTF-8. Where it is, the mailbox client hands over a
string, and reading that as hex yields at most half the bytes.
-/
namespace Wormhole.L4.WormholeMessages
open Wormhole.L1 Wormhole.L3 Wormhole.L4.MailboxClient

/-- What the key exchange left behind: the SPAKE2 key, our side, the peer's. -/
structure Session where
  sharedKey : Bytes
  side : String
  peerSide : String

/-- The two ends of one key exchange. -/
structure Paired (a b : Session) : Prop where
  key : a.sharedKey = b.sharedKey
  peer : b.peerSide = a.side
  sides : a.side ≠ b.side

/-- The bytes of the data given to `send`. -/
def toBytes : Body → Bytes
  | .text s => encode s
  | .binary bytes => bytes

variable (P : Crypto)

/-- mirrors packages/protocol/src/index.js:347-365 (`send`) -/
def sendBody (w : Session) (phase : String) (nonce : Nonce) (data : Body) : Bytes :=
  encrypt P nonce (toBytes data) (derivePhaseKey P w.sharedKey w.side phase)

/-- What `receive` decrypts: a string is taken for hex. -/
def encryptedOf : Body → Bytes
  | .binary bytes => bytes
  | .text s => hexToBytes s

/-- What `receive` resolves with; `none` is `null`.

mirrors packages/protocol/src/index.js:383-394 (`receive`) -/
def receiveBody (w : Session) (phase : String) (dataBody : Body) : Option Bytes :=
  decrypt P (encryptedOf dataBody) (derivePhaseKey P w.sharedKey w.peerSide phase)

theorem length_sendBody (w : Session) (phase : String) (nonce : Nonce) (data : Body) :
    (sendBody P w phase nonce data).length = (toBytes data).length + 40 :=
  length_encrypt P nonce _ (length_derivePhaseKey P _ _ _)

theorem receiveBody_binary {a b : Session} (hab : Paired a b) (phase : String) (nonce : Nonce)
    (data : Body) :
    receiveBody P b phase (.binary (sendBody P a phase nonce data)) = some (toBytes data) := by
  unfold receiveBody sendBody
  rw [hab.key, hab.peer]
  exact decrypt_encrypt P nonce _ (length_derivePhaseKey P _ _ _)

/-- A ciphertext that was taken for text is not opened again. -/
theorem receiveBody_text {b : Session} {phase t : String} {m bytes : Bytes}
    (ht : textDecode bytes = some t) (hm : receiveBody P b phase (.text t) = some m) :
    2 * (m.length + 40) ≤ bytes.length := by
  have hlen : (hexToBytes t).length = m.length + 40 :=
    decrypt_length P (length_derivePhaseKey P _ _ _) hm
  have hhalf := length_hexToBytes_textDecode ht
  omega

theorem receiveBody_sendBody {a b : Session} (hab : Paired a b) (phase : String) (nonce : Nonce)
    (data : Body) :
    receiveBody P b phase (decodeBody (addBody (.binary (sendBody P a phase nonce data)))) =
      some (toBytes data) ↔ decode (sendBody P a phase nonce data) = none := by
  have hlen := length_sendBody P a phase nonce data
  have hne : sendBody P a phase nonce data ≠ [] := by
    intro h
    rw [h] at hlen
    simp at hlen
  constructor
  · intro h
    cases ht : textDecode (sendBody P a phase nonce data) with
    | none => exact textDecode_eq_none.mp ht
    | some t =>
      rw [decodeBody_addBody_text_of_decode hne ht] at h
      have := receiveBody_text P ht h
      omega
  · intro hd
    rw [(decodeBody_addBody _).mpr ⟨hne, hd⟩]
    exact receiveBody_binary P hab phase nonce data

/-! ## Binary bodies through the mailbox -/

/-- **Binary bodies.** The mailbox relays the `phase` and the hex of an `add`
request unchanged. The peer's handler is given the same bytes as a `Uint8Array`
exactly when there are some and they are not UTF-8, and `receive` decrypts what
`send` produced exactly when the ciphertext is not UTF-8. -/
theorem binary_body_delivered_iff {a b : Session} (hab : Paired a b) :
    (∀ (phase : String) (bytes : Bytes) (id : String),
      onMessage b.side ⟨id, a.side, phase, addBody (.binary bytes)⟩ =
        some (phase, .binary bytes, a.side) ↔ bytes ≠ [] ∧ decode bytes = none) ∧
    ∀ (phase : String) (nonce : Nonce) (data : Body) (id : String),
      ((onMessage b.side
          ⟨id, a.side, phase, addBody (.binary (sendBody P a phase nonce data))⟩).bind
        fun args => receiveBody P b phase args.2.1) = some (toBytes data) ↔
      decode (sendBody P a phase nonce data) = none := by
  have hon : ∀ phase id hex, onMessage b.side ⟨id, a.side, phase, hex⟩ =
      some (phase, decodeBody hex, a.side) := fun phase id hex => if_neg hab.sides
  constructor
  · intro phase bytes id
    rw [hon, ← decodeBody_addBody]
    simp
  · intro phase nonce data id
    rw [hon, Option.bind_some]
    exact receiveBody_sendBody P hab phase nonce data

theorem binary_body_delivered_plain :
    (∀ (phase : String) (bytes : Bytes) (id : String),
      onMessage "side-02" ⟨id, "side-01", phase, addBody (.binary bytes)⟩ =
        some (phase, .binary bytes, "side-01") ↔ bytes ≠ [] ∧ decode bytes = none) ∧
    ∀ (phase : String) (nonce : Nonce) (data : Body) (id : String),
      ((onMessage "side-02" ⟨id, "side-01", phase, addBody (.binary
          (sendBody .plain ⟨[7], "side-01", "side-02"⟩ phase nonce data))⟩).bind
        fun args => receiveBody .plain ⟨[7], "side-02", "side-01"⟩ phase args.2.1) =
        some (toBytes data) ↔
      decode (sendBody .plain ⟨[7], "side-01", "side-02"⟩ phase nonce data) = none :=
  binary_body_delivered_iff .plain (a := ⟨[7], "side-01", "side-02"⟩)
    (b := ⟨[7], "side-02", "side-01"⟩) ⟨rfl, rfl, by decide⟩

/-- One byte, `A`: the peer's handler is given the string. -/
theorem one_letter_delivered_as_text :
    onMessage "side-02" ⟨"m1", "side-01", "0", addBody (.binary [0x41])⟩ =
        some ("0", .text "A", "side-01") ∧
      onMessage "side-02" ⟨"m1", "side-01", "0", addBody (.binary [0x41])⟩ ≠
        some ("0", .binary [0x41], "side-01") := by
  decide +kernel

end Wormhole.L4.WormholeMessages
