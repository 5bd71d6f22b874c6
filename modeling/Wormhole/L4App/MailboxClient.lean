import Wormhole.L1Encoding.JsBytes

/-!
# The mailbox client's messages (`packages/mailbox/src/index.js`)

`addMessage` writes every body as hex. On the other side `onMessage` has to
guess what the hex was: text where the bytes are UTF-8, a `Uint8Array` where
they are not. `handleMessage` hands a message to the handlers registered for
its type, walking the live array of them while a handler may take itself out.

* `decodeBody_addBody`: a binary body comes back as it was exactly when it is
  not empty and not UTF-8.
* `dispatch_unique`: when at most one handler wants a message, it is called and
  the others stay registered.
-/
namespace Wormhole.L4.MailboxClient
open Wormhole.L1

/-! ## Bodies -/

/-- A message body: a `string` or a `Uint8Array`. -/
inductive Body
  | text (s : String)
  | binary (bytes : Bytes)
  deriving DecidableEq

/-- The `body` field of the `add` request.

mirrors packages/mailbox/src/index.js:207-230 (`addMessage`) -/
def addBody : Body → String
  | .binary bytes => bytesToHex bytes
  | .text s => stringToHex s

/-- What the wrapped handler makes of the `body` field.

mirrors packages/mailbox/src/index.js:251-264 (`onMessage`) -/
def decodeBody (body : String) : Body :=
  if isHex body then
    match hexToString body with
    | some text => .text text
    | none => .binary (hexToBytes body)
  else .text body

/-- A `message` frame as it comes off the socket. -/
structure MessageFrame where
  id : String
  side : String
  phase : String
  body : String

/-- The arguments `(phase, body, side)` a handler is called with; our own
messages are ignored.

mirrors packages/mailbox/src/index.js:240-267 (`onMessage`) -/
def onMessage (ourSide : String) (msg : MessageFrame) : Option (String × Body × String) :=
  if msg.side = ourSide then none else some (msg.phase, decodeBody msg.body, msg.side)

theorem decodeBody_addBody_text_of_decode {bytes : Bytes} {t : String}
    (hne : bytes ≠ []) (ht : textDecode bytes = some t) :
    decodeBody (addBody (.binary bytes)) = .text t := by
  unfold decodeBody addBody hexToString
  rw [if_pos ((isHex_bytesToHex bytes).mpr hne), hexToBytes_bytesToHex, ht]

theorem textDecode_eq_none {bytes : Bytes} : textDecode bytes = none ↔ decode bytes = none := by
  unfold textDecode
  exact Option.map_eq_none_iff

/-- A binary body survives unless it is empty or reads as text. -/
theorem decodeBody_addBody (bytes : Bytes) :
    decodeBody (addBody (.binary bytes)) = .binary bytes ↔ bytes ≠ [] ∧ decode bytes = none := by
  constructor
  · intro h
    have hne : bytes ≠ [] := by
      rintro rfl
      cases h
    cases ht : textDecode bytes with
    | some t =>
      rw [decodeBody_addBody_text_of_decode hne ht] at h
      cases h
    | none => exact ⟨hne, textDecode_eq_none.mp ht⟩
  · intro ⟨hne, hd⟩
    unfold decodeBody addBody hexToString
    rw [if_pos ((isHex_bytesToHex bytes).mpr hne), hexToBytes_bytesToHex,
      textDecode_eq_none.mpr hd]

/-! ## Dispatch -/

/-- The walk over the array: the handlers that stay registered and the handlers
that were called, in order. `fires h` says that `h` unsubscribes when it is
called; the array then closes up under the iterator, which steps over the next
handler. -/
def walk {H : Type} (fires : H → Bool) : Bool → List H → List H × List H
  | _, [] => ([], [])
  | true, h :: hs => (h :: (walk fires false hs).1, (walk fires false hs).2)
  | false, h :: hs =>
    if fires h then ((walk fires true hs).1, h :: (walk fires true hs).2)
    else (h :: (walk fires false hs).1, h :: (walk fires false hs).2)

/-- mirrors packages/mailbox/src/index.js:392-401 (`handleMessage`) and :434-442
(`off`) -/
def dispatch {H : Type} (fires : H → Bool) (handlers : List H) : List H × List H :=
  walk fires false handlers

variable {H : Type} {fires : H → Bool}

theorem dispatch_none {hs : List H} (h : ∀ x ∈ hs, fires x = false) :
    dispatch fires hs = (hs, hs) := by
  unfold dispatch
  induction hs with
  | nil => rfl
  | cons x hs ih =>
    have hx : ¬ fires x = true := by simp [h x List.mem_cons_self]
    have hrest := ih fun y hy => h y (List.mem_cons_of_mem x hy)
    rw [walk, if_neg hx, hrest]

/-- No handler is registered or called that was not registered before. -/
theorem mem_dispatch {hs : List H} {x : H}
    (h : x ∈ (dispatch fires hs).1 ∨ x ∈ (dispatch fires hs).2) : x ∈ hs := by
  have hwalk : ∀ (skip : Bool) (l : List H), x ∈ (walk fires skip l).1 ∨
      x ∈ (walk fires skip l).2 → x ∈ l := by
    intro skip l
    induction l generalizing skip with
    | nil => intro h; cases skip <;> simp [walk] at h
    | cons y l ih =>
      intro h
      rw [List.mem_cons]
      have ih := fun skip hx => Or.inr (a := x = y) (ih skip hx)
      cases skip with
      | true =>
        rw [walk] at h
        rcases h with h | h
        · rcases List.mem_cons.mp h with h | h
          · exact .inl h
          · exact ih _ (.inl h)
        · exact ih _ (.inr h)
      | false =>
        rw [walk] at h
        split at h
        · rcases h with h | h
          · exact ih _ (.inl h)
          · rcases List.mem_cons.mp h with h | h
            · exact .inl h
            · exact ih _ (.inr h)
        · rcases h with h | h <;> rcases List.mem_cons.mp h with h | h
          · exact .inl h
          · exact ih _ (.inl h)
          · exact .inl h
          · exact ih _ (.inr h)
  exact hwalk false hs h

/-- The handlers before the one that wants the message are called and stay;
of those after it, the first is stepped over. -/
theorem dispatch_unique {h : H} {before after : List H} (hh : fires h = true)
    (hb : ∀ x ∈ before, fires x = false) (ha : ∀ x ∈ after, fires x = false) :
    dispatch fires (before ++ h :: after) =
      (before ++ after, before ++ h :: after.drop 1) := by
  unfold dispatch
  induction before with
  | nil =>
    rw [List.nil_append, walk, if_pos hh]
    cases after with
    | nil => rfl
    | cons y after =>
      have hrest := dispatch_none fun x hx => ha x (List.mem_cons_of_mem y hx)
      unfold dispatch at hrest
      rw [walk, hrest]
      rfl
  | cons x before ih =>
    have hx : ¬ fires x = true := by simp [hb x List.mem_cons_self]
    have hrest := ih fun y hy => hb y (List.mem_cons_of_mem x hy)
    rw [List.cons_append, walk, if_neg hx, hrest]
    rfl

end Wormhole.L4.MailboxClient
