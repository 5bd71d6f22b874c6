import Wormhole.Core.Dict
import Wormhole.Core.Framing
import Wormhole.L1Encoding.PyBytes

/-!
# The tunnel's wire format

`src/wh/cli/tunnel.py`. A `TunnelProtocol` multiplexes connections over one
byte stream. Frames start with a type byte and a channel id; `DATA` adds a
four-byte length and the data, `OPEN` a one-byte host length, the host and
the port, the other three types nothing. `_process_buffer` takes frames off
an incremental buffer (`look` is one iteration of its loop) and dispatches
them synchronously (`handle`).

Results:
* `messages_delivered`: what `_send_message` writes for frames other than
  `OPEN` is dispatched frame by frame on the other side, whatever the
  chunking and whatever the channels' data.
* `open_delivered_iff`: what `open_channel` writes is not one frame:
  `_send_message` has already written an `OPEN` header when the full frame
  follows. The peer takes the second header for the host length and the host.
  The request arrives as it was sent only when host and port happen to spell
  that misreading.
-/
namespace Wormhole.L3.Tunnel
open Wormhole.L1 Wormhole.Decoder

/-! ## Frames -/

def MSG_OPEN : UInt8 := 0x01
def MSG_OPEN_OK : UInt8 := 0x02
def MSG_OPEN_FAIL : UInt8 := 0x03
def MSG_DATA : UInt8 := 0x04
def MSG_CLOSE : UInt8 := 0x05

/-- What the protocol's methods raise. -/
inductive TunnelError
  | valueError           -- `bytes([n])` with `n > 255`
  | structError          -- `struct.pack` out of range
  | attributeError       -- `self._protocol` is `None`
  | unicodeDecodeError   -- `bytes.decode`
  | invalidStateError    -- `set_result` on a future that has a result
  deriving DecidableEq, Repr

/-- The calls `_process_buffer` makes. `handleOpen` is the coroutine passed to
`asyncio.create_task`; the others run at once. -/
inductive Dispatch
  | handleData (channelId : Nat) (data : Bytes)
  | handleOpen (channelId : Nat) (host : String) (port : Nat)
  | handleOpenOk (channelId : Nat)
  | handleOpenFail (channelId : Nat)
  | handleClose (channelId : Nat)
  deriving DecidableEq, Repr

/-- A local connection: what was written to its writer, and whether that was
closed. -/
structure Channel where
  written : Bytes
  closed : Bool
  deriving DecidableEq, Repr

/-- The protocol object less its buffer. `pendingOpens` holds the futures that
`open_channel` waits on (`none`: no result yet). `sent` and `dispatched` are
histories: the arguments of `_protocol.send`, and the calls made by
`_process_buffer`. `closedChannels` keeps the channels popped by
`_handle_close`. -/
structure TunnelProtocol where
  attached : Bool
  channels : Dict Nat Channel
  nextChannelId : Nat
  pendingOpens : Dict Nat (Option Bool)
  sent : List Bytes
  dispatched : List Dispatch
  closedChannels : List (Nat × Channel)

/-- mirrors src/wh/cli/tunnel.py:55-63 -/
def init : TunnelProtocol := ⟨true, .empty, 1, .empty, [], [], []⟩

/-! ## Sending -/

/-- mirrors src/wh/cli/tunnel.py:69-76 (`_send_message`) -/
def sendMessage (t : TunnelProtocol) (msgType : UInt8) (channelId : Nat) (data : Bytes) :
    TunnelProtocol × Option TunnelError :=
  if !t.attached then (t, none)
  else match pack 2 channelId with
    | none => (t, some .structError)
    | some ch =>
      if msgType = MSG_DATA then
        match pack 4 data.length with
        | none => (t, some .structError)
        | some len => ({ t with sent := t.sent ++ [msgType :: ch ++ len ++ data] }, none)
      else ({ t with sent := t.sent ++ [msgType :: ch ++ data] }, none)

/-- `open_channel` up to its `await`: the channel id is taken, the request is
written, the future is registered.
mirrors src/wh/cli/tunnel.py:187-206 -/
def openChannel (t : TunnelProtocol) (host : String) (port : Nat) :
    TunnelProtocol × Option TunnelError :=
  let channelId := t.nextChannelId
  let t := { t with nextChannelId := channelId + 1 }
  let hostBytes := encode host
  if 255 < hostBytes.length then (t, some .valueError)
  else match pack 2 port with
    | none => (t, some .structError)
    | some portBytes =>
      let payload := UInt8.ofNat hostBytes.length :: hostBytes ++ portBytes
      match sendMessage t MSG_OPEN channelId [] with
      | (t, some e) => (t, some e)
      | (t, none) =>
        -- "Actually send the full open message"
        match pack 2 channelId with
        | none => (t, some .structError)
        | some ch =>
          if !t.attached then (t, some .attributeError)
          else ({ t with
                  sent := t.sent ++ [MSG_OPEN :: ch ++ payload],
                  pendingOpens := t.pendingOpens.set channelId none }, none)

/-- The bytes that `open_channel` writes to the stream. -/
def openBytes (t : TunnelProtocol) (host : String) (port : Nat) : Bytes :=
  ((openChannel t host port).1.sent.drop t.sent.length).flatten

/-! ## Receiving -/

/-- One iteration of the loop of `_process_buffer`: `none` is the branch that
skips the header of an unknown type.
mirrors src/wh/cli/tunnel.py:83-128 -/
def look (buf : Bytes) : Look UInt8 (Option Dispatch) TunnelError :=
  match buf with
  | msgType :: c1 :: c0 :: body =>
    let channelId := unpack [c1, c0]
    if msgType = MSG_DATA then
      if body.length < 4 then .more
      else
        let dataLen := unpack (body.take 4)
        if body.length < 4 + dataLen then .more
        else .item (some (.handleData channelId ((body.drop 4).take dataLen))) (body.drop (4 + dataLen))
    else if msgType = MSG_OPEN then
      match body with
      | [] => .more
      | hostLen :: rest =>
        if rest.length < hostLen.toNat + 2 then .more
        else match decode (rest.take hostLen.toNat) with
          | none => .fail .unicodeDecodeError
          | some host =>
            .item (some (.handleOpen channelId host (unpack ((rest.drop hostLen.toNat).take 2))))
              (rest.drop (hostLen.toNat + 2))
    else if msgType = MSG_OPEN_OK then .item (some (.handleOpenOk channelId)) body
    else if msgType = MSG_OPEN_FAIL then .item (some (.handleOpenFail channelId)) body
    else if msgType = MSG_CLOSE then .item (some (.handleClose channelId)) body
    else .item none body
  | _ => .more

/-- `set_result` on the pending future of a channel, if there is one.
mirrors src/wh/cli/tunnel.py:153-161 (`_handle_open_ok`, `_handle_open_fail`) -/
def setResult (t : TunnelProtocol) (channelId : Nat) (success : Bool) :
    TunnelProtocol × Option TunnelError :=
  match t.pendingOpens.get? channelId with
  | none => (t, none)
  | some (some _) => (t, some .invalidStateError)
  | some none => ({ t with pendingOpens := t.pendingOpens.set channelId (some success) }, none)

/-- The synchronous part of a dispatch.
mirrors src/wh/cli/tunnel.py:130-136,153-171 -/
def dispatch (t : TunnelProtocol) : Dispatch → TunnelProtocol × Option TunnelError
  | .handleData channelId data =>
    match t.channels.get? channelId with
    | none => (t, none)
    | some ch =>
      ({ t with channels := t.channels.set channelId { ch with written := ch.written ++ data } }, none)
  | .handleOpen _ _ _ => (t, none)
  | .handleOpenOk channelId => setResult t channelId true
  | .handleOpenFail channelId => setResult t channelId false
  | .handleClose channelId =>
    match t.channels.get? channelId with
    | none => (t, none)
    | some ch =>
      ({ t with
         channels := t.channels.del channelId,
         closedChannels := t.closedChannels ++ [(channelId, { ch with closed := true })] }, none)

/-- A frame off the buffer: record the call and make it. -/
def handle (t : TunnelProtocol) : Option Dispatch → TunnelProtocol × Option TunnelError
  | none => (t, none)
  | some d => dispatch { t with dispatched := t.dispatched ++ [d] } d

/-! ## The decoder -/

theorem take_append_le {n : Nat} {xs : Bytes} (tl : Bytes) (h : n ≤ xs.length) :
    (xs ++ tl).take n = xs.take n := List.take_append_of_le_length h

theorem drop_append_le {n : Nat} {xs : Bytes} (tl : Bytes) (h : n ≤ xs.length) :
    (xs ++ tl).drop n = xs.drop n ++ tl := List.drop_append_of_le_length h

theorem look_shrinks {buf rest : Bytes} {a : Option Dispatch} (h : look buf = .item a rest) :
    rest.length < buf.length := by
  match buf, h with
  | msgType :: c1 :: c0 :: body, h =>
    simp only [look] at h
    split at h
    · split at h
      · cases h
      · split at h
        · cases h
        · cases h; simp only [List.length_drop, List.length_cons]; omega
    · split at h
      · cases body with
        | nil => cases h
        | cons hostLen body =>
          simp only at h
          split at h
          · cases h
          · split at h
            · cases h
            · cases h; simp only [List.length_drop, List.length_cons]; omega
      · split at h
        · cases h; simp only [List.length_cons]; omega
        · split at h
          · cases h; simp only [List.length_cons]; omega
          · split at h <;> cases h <;> simp only [List.length_cons] <;> omega

theorem look_item {buf rest : Bytes} {a : Option Dispatch} (tl : Bytes)
    (h : look buf = .item a rest) : look (buf ++ tl) = .item a (rest ++ tl) := by
  match buf, h with
  | msgType :: c1 :: c0 :: body, h =>
    simp only [look, List.cons_append] at h ⊢
    split at h
    · rename_i hd
      rw [if_pos hd]
      split at h
      · cases h
      · rename_i h4
        have hle : 4 ≤ body.length := by omega
        split at h
        · cases h
        · rename_i hlen
          cases h
          rw [take_append_le tl hle, drop_append_le tl hle, drop_append_le tl (by omega),
            if_neg (by simp only [List.length_append]; omega),
            if_neg (by simp only [List.length_append]; omega),
            take_append_le tl (by simp only [List.length_drop]; omega)]
    · rename_i hd
      rw [if_neg hd]
      split at h
      · rename_i ho
        rw [if_pos ho]
        cases body with
        | nil => cases h
        | cons hostLen body =>
          simp only [List.cons_append] at h ⊢
          split at h
          · cases h
          · rename_i hlen
            rw [if_neg (by simp only [List.length_append]; omega), take_append_le tl (by omega)]
            split at h
            · cases h
            · rename_i host hdec
              cases h
              rw [drop_append_le tl (by omega), drop_append_le tl (by omega),
                take_append_le tl (by simp only [List.length_drop]; omega)]
      · rename_i ho
        rw [if_neg ho]
        split at h
        · rename_i hk; cases h; rw [if_pos hk]
        · rename_i hk
          rw [if_neg hk]
          split at h
          · rename_i hf; cases h; rw [if_pos hf]
          · rename_i hf
            rw [if_neg hf]
            split at h
            · rename_i hc; cases h; rw [if_pos hc]
            · rename_i hc; cases h; rw [if_neg hc]

/-- Only an `OPEN` frame with all its bytes there can fail, on its host. -/
theorem look_fail {buf : Bytes} {e : TunnelError} (tl : Bytes) (h : look buf = .fail e) :
    look (buf ++ tl) = .fail e := by
  match buf, h with
  | msgType :: c1 :: c0 :: body, h =>
    simp only [look, List.cons_append] at h ⊢
    split at h
    · split at h
      · cases h
      · split at h <;> cases h
    · rename_i hd
      rw [if_neg hd]
      split at h
      · rename_i ho
        rw [if_pos ho]
        cases body with
        | nil => cases h
        | cons hostLen body =>
          simp only [List.cons_append] at h ⊢
          split at h
          · cases h
          · rename_i hlen
            rw [if_neg (by simp only [List.length_append]; omega), take_append_le tl (by omega)]
            split at h
            · rename_i hdec; cases h; rfl
            · cases h
      · split at h
        · cases h
        · split at h
          · cases h
          · split at h <;> cases h

/-- `_process_buffer` as an incremental decoder. -/
def decoder : Decoder UInt8 (Option Dispatch) TunnelError where
  look := look
  look_nil := rfl
  shrinks := look_shrinks
  look_item := look_item
  look_fail := look_fail

theorem decoder_look (buf : Bytes) : decoder.look buf = look buf := rfl

/-- A peer between two chunks. -/
abbrev Peer := Rx TunnelProtocol UInt8

/-- `_on_data` for one chunk after another.
mirrors src/wh/cli/tunnel.py:78-81 -/
def feed (t : TunnelProtocol) (chunks : List Bytes) : Peer :=
  Decoder.feed decoder handle ⟨t, []⟩ chunks

/-- The calls recorded by handling items are the dispatches among them. -/
theorem handled_dispatched (t : TunnelProtocol) (as : List (Option Dispatch)) :
    (handled handle t as).dispatched = t.dispatched ++ as.filterMap id := by
  induction as generalizing t with
  | nil => simp [handled]
  | cons a as ih =>
    rw [handled, ih]
    cases a with
    | none => simp [handle]
    | some d =>
      have : (handle t (some d)).1.dispatched = t.dispatched ++ [d] := by
        cases d <;> simp only [handle, dispatch, setResult] <;> (repeat' split) <;> rfl
      have hc : (some d :: as).filterMap id = d :: as.filterMap id := List.filterMap_cons_some rfl
      rw [this, hc, List.append_assoc, List.singleton_append]

/-- The high and the low byte of a channel id. -/
def hi (ch : Nat) : UInt8 := UInt8.ofNat (ch / 256)
def lo (ch : Nat) : UInt8 := UInt8.ofNat ch

theorem beBytes_two (n : Nat) : beBytes 2 n = [hi n, lo n] := rfl

/-! ## What `_send_message` writes -/

/-- The message whose frame makes the peer's loop do the call. `OPEN` is
not sent as a message of `_send_message` with its data. -/
def messageOf : Dispatch → Option (UInt8 × Nat × Bytes)
  | .handleData ch data => some (MSG_DATA, ch, data)
  | .handleOpen _ _ _ => none
  | .handleOpenOk ch => some (MSG_OPEN_OK, ch, [])
  | .handleOpenFail ch => some (MSG_OPEN_FAIL, ch, [])
  | .handleClose ch => some (MSG_CLOSE, ch, [])

/-- The frame written for a message is one item of the peer's loop, whatever
follows it. -/
theorem sendMessage_look {t t' : TunnelProtocol} {d : Dispatch} {ty : UInt8} {ch : Nat}
    {data : Bytes} (ha : t.attached = true) (hm : messageOf d = some (ty, ch, data))
    (hs : sendMessage t ty ch data = (t', none)) :
    ∃ w, t'.sent = t.sent ++ [w] ∧ t'.attached = true ∧
      ∀ tl, look (w ++ tl) = .item (some d) tl := by
  simp only [sendMessage, ha, Bool.not_true, Bool.false_eq_true, if_false] at hs
  cases hp : pack 2 ch with
  | none => simp [hp] at hs
  | some c =>
    obtain ⟨rfl, -, hu⟩ := pack_eq_some hp
    rw [beBytes_two] at hu hp
    simp only [hp] at hs
    cases d with
    | handleOpen => cases hm
    | handleData ch' data' =>
      cases hm
      simp only [if_true] at hs
      cases hq : pack 4 data.length with
      | none => simp [hq] at hs
      | some len =>
        obtain ⟨-, hlen, hv⟩ := pack_eq_some hq
        simp only [hq] at hs
        cases hs
        refine ⟨_, rfl, rfl, fun tl => ?_⟩
        simp only [List.cons_append, List.nil_append, List.append_assoc, look, if_true, hu]
        rw [if_neg (by simp only [List.length_append]; omega), take_append_le _ (by omega),
          List.take_of_length_le (by omega), hv,
          if_neg (by simp only [List.length_append]; omega), ← List.drop_drop,
          List.drop_left' hlen, List.take_left, List.drop_left]
    | _ =>
      cases hm
      cases hs
      exact ⟨_, rfl, rfl, fun tl => by
        simp [look, hu, MSG_OPEN_OK, MSG_OPEN_FAIL, MSG_CLOSE, MSG_DATA, MSG_OPEN]⟩

/-- `_send_message` for one message after another; stops at what it raises. -/
def sendAll (t : TunnelProtocol) : List (UInt8 × Nat × Bytes) → TunnelProtocol × Option TunnelError
  | [] => (t, none)
  | (ty, ch, data) :: ms =>
    match sendMessage t ty ch data with
    | (t', some e) => (t', some e)
    | (t', none) => sendAll t' ms

theorem sendAll_decodes {ds : List Dispatch} {ms : List (UInt8 × Nat × Bytes)}
    {t t' : TunnelProtocol} (ha : t.attached = true) (hm : ds.map messageOf = ms.map some)
    (hs : sendAll t ms = (t', none)) :
    ∃ ws, t'.sent = t.sent ++ ws ∧ decoder.Decodes ws.flatten (ds.map some) [] := by
  induction ds generalizing t ms with
  | nil =>
    obtain rfl : ms = [] := by simpa using hm.symm
    cases hs
    exact ⟨[], by simp, .nil _⟩
  | cons d ds ih =>
    obtain ⟨⟨ty, ch, data⟩, ms, rfl⟩ : ∃ m ms', ms = m :: ms' := by
      cases ms with
      | nil => simp at hm
      | cons m ms => exact ⟨m, ms, rfl⟩
    simp only [List.map_cons, List.cons.injEq] at hm
    rw [sendAll] at hs
    split at hs
    · cases hs
    · rename_i t1 h1
      obtain ⟨w, hw, ha1, hl⟩ := sendMessage_look ha hm.1 h1
      obtain ⟨ws, hws, hd⟩ := ih ha1 hm.2 hs
      refine ⟨w :: ws, by rw [hws, hw, List.append_assoc, List.singleton_append], ?_⟩
      exact .cons (by rw [decoder_look, List.flatten_cons, hl]) hd

/-- **Messages arrive as they were sent.** For every sequence of `DATA`,
`OPEN_OK`, `OPEN_FAIL` and `CLOSE` messages and every chunking of the bytes
written for them, the peer makes exactly the corresponding calls, in order,
and its buffer is empty again. -/
theorem messages_delivered {ds : List Dispatch} {ms : List (UInt8 × Nat × Bytes)}
    {t t' peer : TunnelProtocol} {chunks : List Bytes} (ha : t.attached = true)
    (hm : ds.map messageOf = ms.map some) (hs : sendAll t ms = (t', none))
    (hw : chunks.flatten = (t'.sent.drop t.sent.length).flatten)
    (hc : Calm handle peer (ds.map some)) :
    feed peer chunks = ⟨handled handle peer (ds.map some), []⟩ ∧
      (feed peer chunks).st.dispatched = peer.dispatched ++ ds := by
  obtain ⟨ws, h1, h2⟩ := sendAll_decodes ha hm hs
  rw [h1, List.drop_left] at hw
  have hf : feed peer chunks = ⟨handled handle peer (ds.map some), []⟩ :=
    feed_complete rfl (by rw [List.nil_append, hw]; exact h2) rfl hc
  refine ⟨hf, ?_⟩
  rw [hf, handled_dispatched, List.filterMap_map]
  simp

/-! ## What `open_channel` writes -/

theorem unpack_hi_lo {ch : Nat} (h : ch ≤ 65535) : unpack [hi ch, lo ch] = ch := by
  rw [← beBytes_two, unpack_beBytes, Nat.mod_eq_of_lt (by omega)]

theorem toNat_hi {ch : Nat} (h : ch ≤ 65535) : (hi ch).toNat = ch / 256 := by
  have : (hi ch).toNat = ch / 256 % 256 := UInt8.toNat_ofNat'
  omega

theorem toNat_lo (ch : Nat) : (lo ch).toNat = ch % 256 := UInt8.toNat_ofNat'

/-- An `OPEN` header on its own, then the whole frame. -/
theorem openBytes_eq {t : TunnelProtocol} {host : String} {port : Nat} (ha : t.attached = true)
    (hc : t.nextChannelId ≤ 65535) (hh : (encode host).length ≤ 255) (hp : port ≤ 65535) :
    openBytes t host port =
      MSG_OPEN :: hi t.nextChannelId :: lo t.nextChannelId ::
      MSG_OPEN :: hi t.nextChannelId :: lo t.nextChannelId ::
      UInt8.ofNat (encode host).length :: (encode host ++ [hi port, lo port]) := by
  have e1 : pack 2 port = some [hi port, lo port] := by rw [pack_of_lt (by omega), beBytes_two]
  have e2 : pack 2 t.nextChannelId = some [hi t.nextChannelId, lo t.nextChannelId] := by
    rw [pack_of_lt (by omega), beBytes_two]
  have hne : ¬ (MSG_OPEN = MSG_DATA) := by decide
  simp only [openBytes, openChannel, sendMessage, ha, e1, e2, hne, if_false, Bool.not_true,
    Bool.false_eq_true, show ¬ 255 < (encode host).length by omega, List.append_assoc,
    List.drop_left]
  simp

/-- `open_channel`'s request arrived: one call, as it was sent, and nothing
left over. -/
def Delivered (peer : TunnelProtocol) (chunks : List Bytes) (ch : Nat) (host : String)
    (port : Nat) : Prop :=
  (feed peer chunks).st.dispatched = peer.dispatched ++ [.handleOpen ch host port] ∧
    (feed peer chunks).buf = []

/-- Host and port spell what the receiver reads out of the stray header: the
host is the channel id's high byte, the port the low byte and a length of 1,
and the three bytes then left over are the header of an unknown frame. -/
def SpellsHeader (ch : Nat) (host : String) (port : Nat) : Prop :=
  encode host = [hi ch] ∧ port = ch % 256 * 256 + 1 ∧ (ch / 256 = 0 ∨ 5 < ch / 256)

instance (ch : Nat) (host : String) (port : Nat) : Decidable (SpellsHeader ch host port) :=
  inferInstanceAs (Decidable (_ ∧ _ ∧ _))

/-- The first frame the receiver sees in `open_channel`'s bytes: the second
header's type byte is taken for a host length of 1. -/
theorem look_openBytes {ch n : Nat} (hc : ch ≤ 65535) (tl : Bytes) :
    look (MSG_OPEN :: hi ch :: lo ch :: MSG_OPEN :: hi ch :: lo ch :: UInt8.ofNat n :: tl) =
      match decode [hi ch] with
      | none => .fail .unicodeDecodeError
      | some host => .item (some (.handleOpen ch host (unpack [lo ch, UInt8.ofNat n]))) tl := by
  have h1 : ¬ (MSG_OPEN = MSG_DATA) := by decide
  have h2 : MSG_OPEN.toNat = 1 := rfl
  simp only [look, h1, if_false, if_true, h2, unpack_hi_lo hc, List.length_cons,
    show ¬ tl.length + 1 + 1 + 1 < 1 + 2 by omega, List.take_succ_cons, List.take_zero,
    List.drop_succ_cons, List.drop_zero]

/-- A header of none of the five types is skipped. -/
theorem look_unknown {ty c1 c0 : UInt8} (tl : Bytes) (h : ty.toNat = 0 ∨ 5 < ty.toNat) :
    look (ty :: c1 :: c0 :: tl) = .item none tl := by
  have key : ∀ k : UInt8, 1 ≤ k.toNat → k.toNat ≤ 5 → ty ≠ k := by
    rintro k h1 h5 rfl; omega
  simp only [look, key MSG_DATA (by decide) (by decide), key MSG_OPEN (by decide) (by decide),
    key MSG_OPEN_OK (by decide) (by decide), key MSG_OPEN_FAIL (by decide) (by decide),
    key MSG_CLOSE (by decide) (by decide), if_false]

/-- Three bytes that are skipped are the header of an unknown frame. -/
theorem unknown_of_look {ty c1 c0 : UInt8} {rest : Bytes}
    (h : look [ty, c1, c0] = .item none rest) : ty.toNat = 0 ∨ 5 < ty.toNat := by
  have key : ty ≠ MSG_DATA ∧ ty ≠ MSG_OPEN ∧ ty ≠ MSG_OPEN_OK ∧ ty ≠ MSG_OPEN_FAIL ∧
      ty ≠ MSG_CLOSE := by
    refine ⟨?_, ?_, ?_, ?_, ?_⟩ <;> rintro rfl <;> revert h <;>
      simp [look, MSG_DATA, MSG_OPEN, MSG_OPEN_OK, MSG_OPEN_FAIL, MSG_CLOSE]
  have hk : ∀ k : UInt8, ty ≠ k → ty.toNat ≠ k.toNat := fun k hne he => hne (UInt8.toNat_inj.mp he)
  have h1 := hk _ key.1
  have h2 := hk _ key.2.1
  have h3 := hk _ key.2.2.1
  have h4 := hk _ key.2.2.2.1
  have h5 := hk _ key.2.2.2.2
  simp only [MSG_DATA, MSG_OPEN, MSG_OPEN_OK, MSG_OPEN_FAIL, MSG_CLOSE] at h1 h2 h3 h4 h5
  simp at h1 h2 h3 h4 h5
  omega

/-- The last three bytes when the first frame was read as it was sent. -/
theorem tail_of_spells {ch port : Nat} (hp : port = ch % 256 * 256 + 1) :
    [hi port, lo port] = [lo ch, 1] := by
  have h1 : (hi port).toNat = (lo ch).toNat := by
    have : (hi port).toNat = port / 256 % 256 := UInt8.toNat_ofNat'
    rw [this, toNat_lo]; omega
  have h2 : (lo port).toNat = (1 : UInt8).toNat := by
    rw [toNat_lo, hp]; simp
  rw [UInt8.toNat_inj.mp h1, UInt8.toNat_inj.mp h2]

/-- Two calls at least, or a buffer that is not empty, unless the bytes spell
the header. -/
theorem spells_of_decodes {ch port : Nat} {host : String} {as : List (Option Dispatch)}
    (hc : ch ≤ 65535) (hh : (encode host).length ≤ 255)
    (hd : decoder.Decodes (MSG_OPEN :: hi ch :: lo ch :: MSG_OPEN :: hi ch :: lo ch ::
      UInt8.ofNat (encode host).length :: (encode host ++ [hi port, lo port])) as [])
    (hone : as.filterMap id = [.handleOpen ch host port]) : SpellsHeader ch host port := by
  cases hd with
  | cons hl hd =>
    rw [decoder_look, look_openBytes hc] at hl
    split at hl
    · cases hl
    · rename_i h' hdec
      cases hl
      simp only [List.filterMap_cons, id_eq, List.cons.injEq, Dispatch.handleOpen.injEq,
        true_and] at hone
      obtain ⟨⟨rfl, hport⟩, hnone⟩ := hone
      have henc := decode_eq_some.mp hdec
      rw [henc] at hport hd
      have hport' : port = ch % 256 * 256 + 1 := by
        rw [← hport]; simp [unpack, toNat_lo]
      refine ⟨henc, hport', ?_⟩
      rw [tail_of_spells hport'] at hd
      cases hd with
      | @cons _ a _ _ _ hl' _ =>
        cases a with
        | some d => simp at hnone
        | none =>
          have := unknown_of_look hl'
          rwa [toNat_hi hc] at this

theorem decodes_of_spells {ch port : Nat} {host : String} (hc : ch ≤ 65535)
    (hs : SpellsHeader ch host port) :
    decoder.Decodes (MSG_OPEN :: hi ch :: lo ch :: MSG_OPEN :: hi ch :: lo ch ::
      UInt8.ofNat (encode host).length :: (encode host ++ [hi port, lo port]))
      [some (.handleOpen ch host port), none] [] := by
  obtain ⟨henc, hport, hty⟩ := hs
  have hdec := decode_eq_some.mpr henc
  have hp : unpack [lo ch, UInt8.ofNat 1] = port := by rw [hport]; simp [unpack, toNat_lo]
  rw [henc, tail_of_spells hport]
  have hopen : decoder.look (MSG_OPEN :: hi ch :: lo ch :: MSG_OPEN :: hi ch :: lo ch ::
      UInt8.ofNat [hi ch].length :: ([hi ch] ++ [lo ch, UInt8.ofNat 1])) =
      .item (some (.handleOpen ch host port)) ([hi ch] ++ [lo ch, 1]) := by
    rw [decoder_look, List.length_singleton, look_openBytes hc, hdec, hp]
    rfl
  have htail : decoder.look ([hi ch] ++ [lo ch, 1]) = .item none [] :=
    look_unknown [] (by rwa [toNat_hi hc])
  exact .cons hopen (.cons htail (.nil _))

/-- **The request arrives only by coincidence.** For every channel id, host
and port that `open_channel` accepts, every peer with an empty buffer and
every chunking of the bytes written: the peer is asked to open exactly that
channel if and only if host and port spell the stray header. -/
theorem open_delivered_iff (t peer : TunnelProtocol) (host : String) (port : Nat)
    (chunks : List Bytes) (ha : t.attached = true) (hc : t.nextChannelId ≤ 65535)
    (hh : (encode host).length ≤ 255) (hp : port ≤ 65535)
    (hw : chunks.flatten = openBytes t host port) :
    Delivered peer chunks t.nextChannelId host port ↔ SpellsHeader t.nextChannelId host port := by
  rw [openBytes_eq ha hc hh hp] at hw
  constructor
  · rintro ⟨hd, hb⟩
    obtain ⟨as, h1, h2⟩ := feed_decodes (D := decoder) (H := handle) ⟨peer, []⟩ chunks
    rw [List.nil_append, hw] at h1
    rw [feed, h2, handled_dispatched, List.append_cancel_left_eq] at hd
    rw [feed] at hb
    rw [hb] at h1
    exact spells_of_decodes hc hh h1 hd
  · intro hs
    have hf : feed peer chunks =
        ⟨handled handle peer [some (.handleOpen t.nextChannelId host port), none], []⟩ :=
      feed_complete rfl (by rw [List.nil_append, hw]; exact decodes_of_spells hc hs) rfl
        ⟨rfl, rfl, trivial⟩
    rw [Delivered, hf]
    exact ⟨handled_dispatched peer _, rfl⟩

/-- At channel 1, for the host `"\x00"` and port 257, the misreading is the request. -/
theorem open_delivered_nul : Delivered init [openBytes init "\x00" 257] 1 "\x00" 257 :=
  (open_delivered_iff init init "\x00" 257 [openBytes init "\x00" 257] rfl (by decide) (by decide)
    (by decide) List.flatten_singleton).mpr (by decide)

/-- The first request of a fresh tunnel, for `localhost:80`, in one chunk: the
peer is asked for host `"\x00"` and port 265 instead, and two bytes stay behind. -/
theorem open_localhost_misread :
    (feed init [openBytes init "localhost" 80]).st.dispatched = [.handleOpen 1 "\x00" 265] ∧
    (feed init [openBytes init "localhost" 80]).buf = [0x00, 0x50] ∧
    ¬ (∀ (t peer : TunnelProtocol) (host : String) (port : Nat) (chunks : List Bytes),
      t.attached = true → 1 ≤ t.nextChannelId → t.nextChannelId ≤ 65535 →
      (encode host).length ≤ 255 → port ≤ 65535 → chunks.flatten = openBytes t host port →
      Delivered peer chunks t.nextChannelId host port) := by
  have h1 : (feed init [openBytes init "localhost" 80]).st.dispatched =
      [.handleOpen 1 "\x00" 265] := by decide
  have h2 : (feed init [openBytes init "localhost" 80]).buf = [0x00, 0x50] := by decide
  refine ⟨h1, h2, fun h => ?_⟩
  have hd := h init init "localhost" 80 [openBytes init "localhost" 80] rfl (by decide)
    (by decide) (by decide) (by decide) List.flatten_singleton
  rw [Delivered, h2] at hd
  cases hd.2

end Wormhole.L3.Tunnel
