import Wormhole.Core.Demux
import Wormhole.Core.Dict
import Wormhole.L1Encoding.PyBytes

/-!
# The SOCKS proxy's channels

`src/wh/cli/proxy.py`, the local side: `ProxyProtocol` multiplexes the
connections of a `Socks5Server` over one byte stream. Every frame has a type
byte, a channel id, a four-byte length and a payload. `_handle_client` is
modelled from `connect` on, that is, once the SOCKS request has been read:
it waits for the answer, writes the SOCKS reply, waits until that is drained,
and only then adds its writer to the channel's entry.

`link` is the whole of it as a demultiplexer: the sink of a channel is the
writer in its entry in `_channels`.
-/
namespace Wormhole.L4.Proxy
open Wormhole.L1 Wormhole.Decoder

/-! ## Frames -/

def MSG_CONNECT : UInt8 := 0x01
def MSG_CONNECT_OK : UInt8 := 0x02
def MSG_CONNECT_FAIL : UInt8 := 0x03
def MSG_DATA : UInt8 := 0x04
def MSG_CLOSE : UInt8 := 0x05

/-- A message as `_send_message` takes it. -/
structure Frame where
  msgType : UInt8
  channelId : Nat
  payload : Bytes
  deriving DecidableEq, Repr

/-- `struct.pack(">BHI", ...)` and the data; `none` is `struct.error`.
mirrors src/wh/cli/proxy.py:73-79 (`_send_message`) -/
def Frame.pack (f : Frame) : Option Bytes :=
  match L1.pack 2 f.channelId, L1.pack 4 f.payload.length with
  | some ch, some len => some (f.msgType :: ch ++ len ++ f.payload)
  | _, _ => none

/-- One iteration of the loop of `_process_buffer`; a frame of any type comes
off the buffer.
mirrors src/wh/cli/proxy.py:86-95 -/
def look (buf : Bytes) : Look UInt8 Frame Empty :=
  match buf with
  | msgType :: c1 :: c0 :: l3 :: l2 :: l1 :: l0 :: body =>
    let dataLen := unpack [l3, l2, l1, l0]
    if body.length < dataLen then .more
    else .item ⟨msgType, unpack [c1, c0], body.take dataLen⟩ (body.drop dataLen)
  | _ => .more

theorem look_shrinks {buf rest : Bytes} {a : Frame} (h : look buf = .item a rest) :
    rest.length < buf.length := by
  unfold look at h
  split at h
  · simp only at h
    split at h
    · cases h
    · cases h; simp only [List.length_drop, List.length_cons]; omega
  · cases h

theorem look_item {buf rest : Bytes} {a : Frame} (tl : Bytes) (h : look buf = .item a rest) :
    look (buf ++ tl) = .item a (rest ++ tl) := by
  unfold look at h
  split at h
  · rename_i body
    simp only at h
    split at h
    · cases h
    · rename_i hlen
      cases h
      simp only [List.cons_append, look]
      rw [if_neg (by simp only [List.length_append]; omega),
        List.take_append_of_le_length (by omega), List.drop_append_of_le_length (by omega)]
  · cases h

theorem look_fail {buf : Bytes} {e : Empty} (tl : Bytes) (_ : look buf = .fail e) :
    look (buf ++ tl) = .fail e := nomatch e

/-- `_process_buffer` as an incremental decoder. -/
def decoder : Decoder UInt8 Frame Empty where
  look := look
  look_nil := rfl
  shrinks := look_shrinks
  look_item := look_item
  look_fail := look_fail

/-- A packed frame is one item of the peer's loop, whatever follows it. -/
theorem pack_look {f : Frame} {bs : Bytes} (h : f.pack = some bs) (tl : Bytes) :
    look (bs ++ tl) = .item f tl := by
  unfold Frame.pack at h
  split at h
  · rename_i ch len hc hl
    cases h
    obtain ⟨rfl, -, hu⟩ := pack_eq_some hc
    obtain ⟨hlen, hl4, hv⟩ := pack_eq_some hl
    obtain ⟨a, b, c, d, rfl⟩ : ∃ a b c d, len = [a, b, c, d] := by
      rw [hlen]
      exact ⟨_, _, _, _, rfl⟩
    have h2 : beBytes 2 f.channelId = [UInt8.ofNat (f.channelId / 256), UInt8.ofNat f.channelId] :=
      rfl
    rw [h2] at hu ⊢
    simp only [List.cons_append, List.nil_append, look, hu, hv]
    rw [if_neg (by simp only [List.length_append]; omega), List.take_left, List.drop_left]
  · cases h

/-! ## State -/

/-- An entry of `_channels`: what was written to its writer, once it has one.
Its future is in `pending`. -/
structure Entry where
  writer : Option Bytes
  deriving DecidableEq, Repr

/-- The local side of a `ProxyProtocol`, less its buffer. `pending` holds the
future of each `connect` (`none`: no result yet); the coroutine keeps it when
the entry is gone. `sent` are the arguments of `_protocol.send`; `removed` are
the entries taken out of `_channels`, both histories. -/
structure ProxyProtocol where
  attached : Bool
  channels : Dict Nat Entry
  pending : Dict Nat (Option Bool)
  nextChannelId : Nat
  sent : List Bytes
  removed : List (Nat × Entry)

/-- Where `_handle_client` is: in `connect`, in the `drain` of the success
reply, in the forwarding loop, over. -/
inductive Phase
  | connecting
  | replying
  | forwarding
  | ended
  deriving DecidableEq, Repr

/-- The protocol and the clients it was asked for, by their channels' ids.
`replies` are the SOCKS replies written to each. -/
structure Socks where
  proxy : ProxyProtocol
  clients : Dict Nat Phase
  replies : List (Nat × Bytes)

/-- mirrors src/wh/cli/proxy.py:61-67 -/
def fresh : Socks := ⟨⟨true, .empty, .empty, 1, [], []⟩, .empty, []⟩

/-- `REP_SUCCESS` for 127.0.0.1:0 -/
def successReply : Bytes := [0x05, 0x00, 0x00, 0x01, 127, 0, 0, 1, 0, 0]

/-- `REP_HOST_UNREACHABLE` -/
def unreachableReply : Bytes := [0x05, 0x04, 0x00, 0x01, 0, 0, 0, 0, 0, 0]

/-- What an entry's writer was given. -/
def Entry.written (e : Entry) : Bytes := e.writer.getD []

/-- What the writers of `channelId` were given: those of removed entries, then
the one in `_channels`. -/
def writtenTo (p : ProxyProtocol) (channelId : Nat) : Bytes :=
  (p.removed.flatMap fun e => if e.1 = channelId then e.2.written else []) ++
    match p.channels.get? channelId with
    | some e => e.written
    | none => []

/-- `del self._channels[channel_id]`, if it is there. -/
def remove (p : ProxyProtocol) (channelId : Nat) : ProxyProtocol :=
  match p.channels.get? channelId with
  | none => p
  | some e =>
    { p with
      channels := p.channels.del channelId
      removed := p.removed ++ [(channelId, e)] }

/-! ## Sending and receiving -/

/-- mirrors src/wh/cli/proxy.py:73-79 (`_send_message`); `none` is `struct.error`. -/
def sendMessage (p : ProxyProtocol) (msgType : UInt8) (channelId : Nat) (data : Bytes) :
    Option ProxyProtocol :=
  if !p.attached then some p
  else (Frame.pack ⟨msgType, channelId, data⟩).map fun bs => { p with sent := p.sent ++ [bs] }

/-- The first result of a pending future stays.
mirrors src/wh/cli/proxy.py:139-151 (`_handle_connect_ok`, `_handle_connect_fail`) -/
def setResult (p : ProxyProtocol) (channelId : Nat) (success : Bool) : ProxyProtocol :=
  match p.channels.get? channelId, p.pending.get? channelId with
  | some _, some none => { p with pending := p.pending.set channelId (some success) }
  | _, _ => p

/-- mirrors src/wh/cli/proxy.py:153-159 -/
def handleData (p : ProxyProtocol) (channelId : Nat) (data : Bytes) : ProxyProtocol :=
  match p.channels.get? channelId with
  | some ⟨some written⟩ =>
    { p with channels := p.channels.set channelId ⟨some (written ++ data)⟩ }
  | _ => p

/-- A frame off the buffer. A `CONNECT` only starts a task, which the local
side of a proxy is not sent.
mirrors src/wh/cli/proxy.py:97-106,161-167 -/
def dispatch (p : ProxyProtocol) (f : Frame) : ProxyProtocol :=
  if f.msgType = MSG_CONNECT then p
  else if f.msgType = MSG_CONNECT_OK then setResult p f.channelId true
  else if f.msgType = MSG_CONNECT_FAIL then setResult p f.channelId false
  else if f.msgType = MSG_DATA then handleData p f.channelId f.payload
  else if f.msgType = MSG_CLOSE then remove p f.channelId
  else p

/-! ## `_handle_client` -/

inductive Act
  | connect (host : String) (port : Nat)
  | resume (channelId : Nat)
  | connectTimeout (channelId : Nat)
  | drained (channelId : Nat)
  | drainFailed (channelId : Nat)
  | clientData (channelId : Nat) (data : Bytes)
  | clientEof (channelId : Nat)
  deriving DecidableEq, Repr

/-- `connect` up to its `await`; the entry is made before the request is packed.
mirrors src/wh/cli/proxy.py:193-202 -/
def connect (s : Socks) (host : String) (port : Nat) : Socks :=
  let channelId := s.proxy.nextChannelId
  let p := remove s.proxy channelId
  let p := { p with
    nextChannelId := channelId + 1
    pending := p.pending.set channelId none
    channels := p.channels.set channelId ⟨none⟩ }
  let hostBytes := encode host
  if 255 < hostBytes.length then { s with proxy := p }
  else match L1.pack 2 port with
    | none => { s with proxy := p }
    | some portBytes =>
      match sendMessage p MSG_CONNECT channelId
          (UInt8.ofNat hostBytes.length :: hostBytes ++ portBytes) with
      | none => { s with proxy := p }
      | some p => { s with proxy := p, clients := s.clients.set channelId .connecting }

/-- `connect` returned `None`. -/
def refuse (s : Socks) (channelId : Nat) : Socks :=
  { s with
    clients := s.clients.set channelId .ended
    replies := s.replies ++ [(channelId, unreachableReply)] }

/-- The `finally` of the forwarding loop.
mirrors src/wh/cli/proxy.py:345-349 -/
def finish (s : Socks) (channelId : Nat) : Socks :=
  match sendMessage s.proxy MSG_CLOSE channelId [] with
  | none => { s with clients := s.clients.set channelId .ended }
  | some p => { s with proxy := remove p channelId, clients := s.clients.set channelId .ended }

/-- A step of one of the coroutines.
mirrors src/wh/cli/proxy.py:204-214,318-355 -/
def act (s : Socks) : Act → Option Socks
  | .connect host port => some (connect s host port)
  | .resume channelId =>
    match s.clients.get? channelId, s.proxy.pending.get? channelId with
    | some .connecting, some (some true) =>
      some { s with
        clients := s.clients.set channelId .replying
        replies := s.replies ++ [(channelId, successReply)] }
    | some .connecting, some (some false) =>
      match s.proxy.channels.get? channelId with
      -- `del` raises `KeyError`: the writer is closed without a reply
      | none => some { s with clients := s.clients.set channelId .ended }
      | some _ => some (refuse { s with proxy := remove s.proxy channelId } channelId)
    | _, _ => none
  | .connectTimeout channelId =>
    match s.clients.get? channelId with
    | some .connecting => some (refuse { s with proxy := remove s.proxy channelId } channelId)
    | _ => none
  | .drained channelId =>
    match s.clients.get? channelId with
    | some .replying =>
      match s.proxy.channels.get? channelId with
      -- `KeyError`: a `CLOSE` came first
      | none => some { s with clients := s.clients.set channelId .ended }
      | some e =>
        some { s with
          proxy := { s.proxy with
            channels := s.proxy.channels.set channelId ⟨some e.written⟩ }
          clients := s.clients.set channelId .forwarding }
    | _ => none
  | .drainFailed channelId =>
    match s.clients.get? channelId with
    | some .replying => some { s with clients := s.clients.set channelId .ended }
    | _ => none
  | .clientData channelId data =>
    match s.clients.get? channelId with
    | some .forwarding =>
      match sendMessage s.proxy MSG_DATA channelId data with
      | some p => some { s with proxy := p }
      | none => some (finish s channelId)
    | _ => none
  | .clientEof channelId =>
    match s.clients.get? channelId with
    | some .forwarding => some (finish s channelId)
    | _ => none

/-! ## No step but a `DATA` frame writes -/

theorem writtenTo_congr {p q : ProxyProtocol} (h1 : q.channels = p.channels)
    (h2 : q.removed = p.removed) (c : Nat) : writtenTo q c = writtenTo p c := by
  unfold writtenTo
  rw [h1, h2]

theorem writtenTo_set {p q : ProxyProtocol} {c : Nat} {e : Entry}
    (h1 : q.channels = p.channels.set c e) (h2 : q.removed = p.removed)
    (he : e.written = (p.channels.get? c).elim [] Entry.written) (j : Nat) :
    writtenTo q j = writtenTo p j := by
  unfold writtenTo
  rw [h1, h2, Dict.get?_set]
  by_cases hj : c = j
  · subst hj
    cases hc : p.channels.get? c <;> simp [he, hc]
  · simp [hj]

theorem writtenTo_remove (p : ProxyProtocol) (c j : Nat) :
    writtenTo (remove p c) j = writtenTo p j := by
  unfold remove
  split
  · rfl
  · rename_i e hc
    unfold writtenTo
    simp only [Dict.get?_del]
    by_cases hj : c = j
    · subst hj
      simp [hc]
    · simp [hj]

theorem remove_get? (p : ProxyProtocol) (c : Nat) : (remove p c).channels.get? c = none := by
  unfold remove
  split
  · assumption
  · exact Dict.get?_del_self _ _

theorem sendMessage_frame {p q : ProxyProtocol} {ty : UInt8} {c : Nat} {data : Bytes}
    (h : sendMessage p ty c data = some q) : q.channels = p.channels ∧ q.removed = p.removed := by
  unfold sendMessage at h
  split at h
  · cases h; exact ⟨rfl, rfl⟩
  · obtain ⟨bs, -, rfl⟩ := Option.map_eq_some_iff.mp h
    exact ⟨rfl, rfl⟩

theorem writtenTo_finish (s : Socks) (c j : Nat) :
    writtenTo (finish s c).proxy j = writtenTo s.proxy j := by
  unfold finish
  split
  · rfl
  · rename_i p hp
    obtain ⟨h1, h2⟩ := sendMessage_frame hp
    rw [writtenTo_remove, writtenTo_congr h1 h2]

theorem writtenTo_connect (s : Socks) (host : String) (port j : Nat) :
    writtenTo (connect s host port).proxy j = writtenTo s.proxy j := by
  -- the entry made is new, and has no writer
  have hnew : ∀ p : ProxyProtocol,
      p.channels = (remove s.proxy s.proxy.nextChannelId).channels.set s.proxy.nextChannelId ⟨none⟩ →
      p.removed = (remove s.proxy s.proxy.nextChannelId).removed →
      writtenTo p j = writtenTo s.proxy j := by
    intro p h1 h2
    rw [← writtenTo_remove s.proxy s.proxy.nextChannelId]
    exact writtenTo_set h1 h2 (by rw [remove_get?]; rfl) j
  unfold connect
  simp only
  split
  · exact hnew _ rfl rfl
  · split
    · exact hnew _ rfl rfl
    · split
      · exact hnew _ rfl rfl
      · rename_i p hp
        obtain ⟨h1, h2⟩ := sendMessage_frame hp
        exact hnew _ h1 h2

theorem act_written {s t : Socks} {l : Act} (h : act s l = some t) (j : Nat) :
    writtenTo t.proxy j = writtenTo s.proxy j := by
  cases l with
  | connect host port => cases h; exact writtenTo_connect s host port j
  | resume c =>
    simp only [act] at h
    split at h
    · cases h; rfl
    · split at h
      · cases h; rfl
      · cases h; exact writtenTo_remove s.proxy c j
    · cases h
  | connectTimeout c =>
    simp only [act] at h
    split at h
    · cases h; exact writtenTo_remove s.proxy c j
    · cases h
  | drained c =>
    simp only [act] at h
    split at h
    · split at h
      · cases h; rfl
      · rename_i e he
        cases h
        have hw : (⟨some e.written⟩ : Entry).written =
            (s.proxy.channels.get? c).elim [] Entry.written := by rw [he]; rfl
        apply writtenTo_set (p := s.proxy) (e := ⟨some e.written⟩) ?_ ?_ hw
        · rfl
        · rfl
    · cases h
  | drainFailed c =>
    simp only [act] at h
    split at h
    · cases h; rfl
    · cases h
  | clientData c data =>
    simp only [act] at h
    split at h
    · split at h
      · rename_i p hp
        obtain ⟨h1, h2⟩ := sendMessage_frame hp
        cases h
        exact writtenTo_congr h1 h2 j
      · cases h; exact writtenTo_finish s c j
    · cases h
  | clientEof c =>
    simp only [act] at h
    split at h
    · cases h; exact writtenTo_finish s c j
    · cases h

/-! ## The proxy as a demultiplexer -/

/-- A writer is in the channel's entry. -/
def hasWriter (p : ProxyProtocol) (channelId : Nat) : Bool :=
  match p.channels.get? channelId with
  | some ⟨some _⟩ => true
  | _ => false

/-- The bytes that a frame brings for a channel. -/
def dataOf (f : Frame) : Option (Nat × Bytes) :=
  if f.msgType = MSG_DATA then some (f.channelId, f.payload) else none

theorem writtenTo_setResult (p : ProxyProtocol) (c : Nat) (b : Bool) (j : Nat) :
    writtenTo (setResult p c b) j = writtenTo p j := by
  unfold setResult
  split <;> rfl

theorem writtenTo_handleData (p : ProxyProtocol) (c : Nat) (data : Bytes) (j : Nat) :
    writtenTo (handleData p c data) j = writtenTo p j ++
      (if hasWriter p j then (if c = j then data else []) else []) := by
  by_cases hj : c = j
  · subst hj
    simp only [handleData, hasWriter]
    cases hc : p.channels.get? c with
    | none => simp
    | some e =>
      obtain ⟨w⟩ := e
      cases w with
      | none => simp
      | some w => simp [writtenTo, hc, Entry.written]
  · simp only [hj, if_false, ite_self, List.append_nil, handleData]
    split
    · simp [writtenTo, Dict.get?_set, hj]
    · rfl

theorem dispatch_written (p : ProxyProtocol) (f : Frame) (j : Nat) :
    writtenTo (dispatch p f) j = writtenTo p j ++
      (if hasWriter p j then bytesFor dataOf j f else []) := by
  unfold dispatch bytesFor dataOf
  by_cases hd : f.msgType = MSG_DATA
  · have h1 : ¬ MSG_DATA = MSG_CONNECT := by decide
    have h2 : ¬ MSG_DATA = MSG_CONNECT_OK := by decide
    have h3 : ¬ MSG_DATA = MSG_CONNECT_FAIL := by decide
    simp only [hd, h1, h2, h3, if_false, if_true]
    exact writtenTo_handleData p f.channelId f.payload j
  · simp only [hd, if_false, ite_self, List.append_nil]
    split
    · rfl
    · split
      · exact writtenTo_setResult p _ _ j
      · split
        · exact writtenTo_setResult p _ _ j
        · split
          · exact writtenTo_remove p _ j
          · rfl

/-- `_channels` as sinks. -/
def demux : Demux Socks Frame Empty Nat UInt8 where
  handle s f := ({ s with proxy := dispatch s.proxy f }, none)
  payload := dataOf
  sink s c := hasWriter s.proxy c
  out s c := writtenTo s.proxy c
  out_handle s f c := dispatch_written s.proxy f c

/-! ## The far side -/

/-- What the far side has said about a channel. -/
inductive FarPhase
  | opened
  | closed
  deriving DecidableEq, Repr

/-- `_handle_connect` answers a request, `_forward_from_target` sends data and
a `CLOSE` behind it.
mirrors src/wh/cli/proxy.py:108-137,169-185 -/
def farNext (s : Socks) (far : Dict Nat FarPhase) (f : Frame) : Option (Dict Nat FarPhase) :=
  let asked := (s.clients.get? f.channelId).isSome
  let said := far.get? f.channelId
  if f.msgType = MSG_CONNECT_OK ∧ f.payload = [] then
    if asked ∧ said = none then some (far.set f.channelId .opened) else none
  else if f.msgType = MSG_CONNECT_FAIL ∧ f.payload = [] then
    if asked ∧ said = none then some (far.set f.channelId .closed) else none
  else if f.msgType = MSG_DATA then
    if said = some .opened then some far else none
  else if f.msgType = MSG_CLOSE ∧ f.payload = [] then
    if said = some .opened then some (far.set f.channelId .closed) else none
  else none

/-- The far side sends a frame. -/
def emit (s : Socks) (far : Dict Nat FarPhase) (f : Frame) : Option (Dict Nat FarPhase × Bytes) :=
  (farNext s far f).bind fun far' => f.pack.map fun bs => (far', bs)

theorem emit_look {s : Socks} {far far' : Dict Nat FarPhase} {f : Frame} {bs : Bytes}
    (h : emit s far f = some (far', bs)) (tl : Bytes) : look (bs ++ tl) = .item f tl := by
  simp only [emit, Option.bind_eq_some_iff, Option.map_eq_some_iff] at h
  obtain ⟨g, -, bs', hb, he⟩ := h
  cases he
  exact pack_look hb tl

/-- SOCKS clients, the protocol, the stream and the far side. -/
def link : Link Socks Frame Empty Nat UInt8 (Dict Nat FarPhase) Act where
  toDemux := demux
  decoder := decoder
  emit := emit
  act := act
  emit_look := emit_look
  act_out := act_written

end Wormhole.L4.Proxy
