import Wormhole.Core.Demux
import Wormhole.L3Protocol.Tunnel

/-!
# The tunnel's local forwarder

`LocalForwarder` of `src/wh/cli/tunnel.py`: each connection to the local port
runs `_handle_connection`, which asks the peer for a channel, waits for the
answer, registers its writer under the channel's id and forwards what the
local client sends. The waits are the steps of `act`; the peer's frames are
dispatched by `TunnelProtocol` (`Wormhole.L3.Tunnel`) at any time in between.

`link` is the whole of it as a demultiplexer: the sink of a channel is its
entry in `_channels`. The far side answers a channel that was asked for once,
sends data while it is open and closes it.
-/
namespace Wormhole.L4.LocalForwarder
open Wormhole.L1 Wormhole.L3.Tunnel Wormhole.Decoder

/-! ## State -/

/-- Where the coroutine of a local connection is: in `open_channel`, in
`_forward_to_wormhole`, over. -/
inductive Phase
  | opening
  | forwarding
  | ended
  deriving DecidableEq, Repr

/-- The protocol and its local connections, by their channels' ids. -/
structure Forwarder where
  tunnel : TunnelProtocol
  conns : Dict Nat Phase

def fresh : Forwarder := ⟨L3.Tunnel.init, .empty⟩

/-- What the writers registered for `channelId` were given: those no longer in
`_channels`, then the one that is. -/
def writtenTo (t : TunnelProtocol) (channelId : Nat) : Bytes :=
  (t.closedChannels.flatMap fun e => if e.1 = channelId then e.2.written else []) ++
    match t.channels.get? channelId with
    | some ch => ch.written
    | none => []

/-- `del self._channels[channel_id]`, if it is there. -/
def unregister (t : TunnelProtocol) (channelId : Nat) : TunnelProtocol :=
  match t.channels.get? channelId with
  | none => t
  | some ch =>
    { t with
      channels := t.channels.del channelId,
      closedChannels := t.closedChannels ++ [(channelId, ch)] }

/-- `self.tunnel._channels[channel_id] = {"reader": reader, "writer": writer}`
for a writer not written to.
mirrors src/wh/cli/tunnel.py:285-286 -/
def register (t : TunnelProtocol) (channelId : Nat) : TunnelProtocol :=
  let t := unregister t channelId
  { t with channels := t.channels.set channelId ⟨[], false⟩ }

/-! ## The coroutine -/

inductive Act
  | accept (host : String) (port : Nat)
  | resume (channelId : Nat)
  | openTimeout (channelId : Nat)
  | localData (channelId : Nat) (data : Bytes)
  | localEof (channelId : Nat)
  deriving DecidableEq, Repr

/-- `_handle_connection` up to the `await` in `open_channel`; an exception there ends it.
mirrors src/wh/cli/tunnel.py:187-206,270-279 -/
def accept (s : Forwarder) (host : String) (port : Nat) : Forwarder :=
  match openChannel s.tunnel host port with
  | (t, some _) => { s with tunnel := t }
  | (t, none) => ⟨t, s.conns.set s.tunnel.nextChannelId .opening⟩

/-- The wait for the answer is over: `del self._pending_opens[channel_id]`.
mirrors src/wh/cli/tunnel.py:208-216 -/
def forget (t : TunnelProtocol) (channelId : Nat) : TunnelProtocol :=
  { t with pendingOpens := t.pendingOpens.del channelId }

/-- The end of `_forward_to_wormhole`.
mirrors src/wh/cli/tunnel.py:182-185 -/
def finish (s : Forwarder) (channelId : Nat) : Forwarder :=
  match sendMessage s.tunnel MSG_CLOSE channelId [] with
  | (t, some _) => ⟨t, s.conns.set channelId .ended⟩
  | (t, none) => ⟨unregister t channelId, s.conns.set channelId .ended⟩

/-- A step of one of the coroutines.
mirrors src/wh/cli/tunnel.py:172-217,270-289 -/
def act (s : Forwarder) : Act → Option Forwarder
  | .accept host port => some (accept s host port)
  | .resume channelId =>
    match s.conns.get? channelId, s.tunnel.pendingOpens.get? channelId with
    | some .opening, some (some true) =>
      some ⟨register (forget s.tunnel channelId) channelId, s.conns.set channelId .forwarding⟩
    | some .opening, some (some false) =>
      some ⟨forget s.tunnel channelId, s.conns.set channelId .ended⟩
    | _, _ => none
  | .openTimeout channelId =>
    match s.conns.get? channelId with
    | some .opening => some ⟨forget s.tunnel channelId, s.conns.set channelId .ended⟩
    | _ => none
  | .localData channelId data =>
    match s.conns.get? channelId with
    | some .forwarding =>
      match sendMessage s.tunnel MSG_DATA channelId data with
      | (t, none) => some { s with tunnel := t }
      | (t, some _) => some (finish { s with tunnel := t } channelId)
    | _ => none
  | .localEof channelId =>
    match s.conns.get? channelId with
    | some .forwarding => some (finish s channelId)
    | _ => none

/-! ## No step but a `DATA` frame writes -/

theorem writtenTo_congr {t u : TunnelProtocol} (h1 : u.channels = t.channels)
    (h2 : u.closedChannels = t.closedChannels) (c : Nat) : writtenTo u c = writtenTo t c := by
  unfold writtenTo
  rw [h1, h2]

theorem sendMessage_frame (t : TunnelProtocol) (ty : UInt8) (ch : Nat) (data : Bytes) :
    (sendMessage t ty ch data).1.channels = t.channels ∧
      (sendMessage t ty ch data).1.closedChannels = t.closedChannels := by
  unfold sendMessage
  repeat' split
  all_goals exact ⟨rfl, rfl⟩

theorem openChannel_frame (t : TunnelProtocol) (host : String) (port : Nat) :
    (openChannel t host port).1.channels = t.channels ∧
      (openChannel t host port).1.closedChannels = t.closedChannels := by
  have hs := sendMessage_frame { t with nextChannelId := t.nextChannelId + 1 } MSG_OPEN
    t.nextChannelId []
  unfold openChannel
  simp only
  split
  · exact ⟨rfl, rfl⟩
  · split
    · exact ⟨rfl, rfl⟩
    · split
      · rename_i u e hu
        rw [hu] at hs
        exact hs
      · rename_i u hu
        rw [hu] at hs
        repeat' split
        all_goals exact hs

/-- Taking an entry out of `_channels` keeps what its writer was given. -/
theorem writtenTo_pop {t u : TunnelProtocol} {c : Nat} {ch : Channel} {b : Bool}
    (hc : t.channels.get? c = some ch) (h1 : u.channels = t.channels.del c)
    (h2 : u.closedChannels = t.closedChannels ++ [(c, ⟨ch.written, b⟩)]) (j : Nat) :
    writtenTo u j = writtenTo t j := by
  unfold writtenTo
  rw [h1, h2, Dict.get?_del]
  by_cases hj : c = j
  · subst hj
    simp [hc]
  · simp [hj]

theorem writtenTo_unregister (t : TunnelProtocol) (c j : Nat) :
    writtenTo (unregister t c) j = writtenTo t j := by
  unfold unregister
  split
  · rfl
  · rename_i ch hc
    exact writtenTo_pop hc rfl rfl j

theorem unregister_get? (t : TunnelProtocol) (c : Nat) :
    (unregister t c).channels.get? c = none := by
  unfold unregister
  split
  · assumption
  · exact Dict.get?_del_self _ _

theorem writtenTo_register (t : TunnelProtocol) (c j : Nat) :
    writtenTo (register t c) j = writtenTo t j := by
  rw [← writtenTo_unregister t c j]
  unfold register writtenTo
  simp only [Dict.get?_set]
  by_cases hj : c = j
  · subst hj
    simp [unregister_get?]
  · simp [hj]

theorem writtenTo_finish (s : Forwarder) (c j : Nat) :
    writtenTo (finish s c).tunnel j = writtenTo s.tunnel j := by
  obtain ⟨h1, h2⟩ := sendMessage_frame s.tunnel MSG_CLOSE c []
  unfold finish
  split
  · rename_i t e ht
    rw [ht] at h1 h2
    exact writtenTo_congr h1 h2 j
  · rename_i t ht
    rw [ht] at h1 h2
    rw [writtenTo_unregister]
    exact writtenTo_congr h1 h2 j

theorem act_written {s t : Forwarder} {l : Act} (h : act s l = some t) (j : Nat) :
    writtenTo t.tunnel j = writtenTo s.tunnel j := by
  cases l with
  | accept host port =>
    obtain ⟨h1, h2⟩ := openChannel_frame s.tunnel host port
    simp only [act, accept] at h
    split at h
    all_goals
      rename_i ht
      rw [ht] at h1 h2
      cases h
      exact writtenTo_congr h1 h2 j
  | resume c =>
    simp only [act] at h
    split at h
    · cases h; exact writtenTo_register (forget s.tunnel c) c j
    · cases h; exact writtenTo_congr rfl rfl j
    · cases h
  | openTimeout c =>
    simp only [act] at h
    split at h
    · cases h; exact writtenTo_congr rfl rfl j
    · cases h
  | localData c data =>
    obtain ⟨h1, h2⟩ := sendMessage_frame s.tunnel MSG_DATA c data
    simp only [act] at h
    split at h
    · split at h
      all_goals
        rename_i ht
        rw [ht] at h1 h2
        cases h
      · exact writtenTo_congr h1 h2 j
      · rw [writtenTo_finish]
        exact writtenTo_congr h1 h2 j
    · cases h
  | localEof c =>
    simp only [act] at h
    split at h
    · cases h; exact writtenTo_finish s c j
    · cases h

/-! ## The forwarder as a demultiplexer -/

/-- A frame is handed to the protocol. -/
def handleFrame (s : Forwarder) (a : Option Dispatch) : Forwarder × Option TunnelError :=
  let (t, e) := handle s.tunnel a
  ({ s with tunnel := t }, e)

/-- The bytes that a frame brings for a channel. -/
def payload : Option Dispatch → Option (Nat × Bytes)
  | some (.handleData channelId data) => some (channelId, data)
  | _ => none

/-- A `DATA` frame writes to the channel's writer, if it is in `_channels`;
nothing else writes. -/
theorem handle_written (t : TunnelProtocol) (a : Option Dispatch) (j : Nat) :
    writtenTo (handle t a).1 j = writtenTo t j ++
      (if (t.channels.get? j).isSome then bytesFor payload j a else []) := by
  cases a with
  | none => simp [handle, bytesFor, payload]
  | some d =>
    cases d with
    | handleData c data =>
      simp only [handle, dispatch, bytesFor, payload]
      cases hc : t.channels.get? c with
      | none =>
        by_cases hj : c = j
        · subst hj; simp [hc, writtenTo]
        · simp [hj, writtenTo]
      | some ch =>
        by_cases hj : c = j
        · subst hj; simp [hc, writtenTo]
        · simp [hj, writtenTo, Dict.get?_set]
    | handleOpen c host port => simp [handle, dispatch, bytesFor, payload, writtenTo]
    | handleOpenOk c =>
      simp only [handle, dispatch, setResult, bytesFor, payload]
      split <;> simp [writtenTo]
    | handleOpenFail c =>
      simp only [handle, dispatch, setResult, bytesFor, payload]
      split <;> simp [writtenTo]
    | handleClose c =>
      simp only [handle, dispatch, bytesFor, payload]
      split
      · simp [writtenTo]
      · rename_i ch hc
        simp only [ite_self, List.append_nil]
        exact writtenTo_pop hc rfl rfl j

/-- `_channels` as sinks. -/
def demux : Demux Forwarder (Option Dispatch) TunnelError Nat UInt8 where
  handle := handleFrame
  payload := payload
  sink s c := (s.tunnel.channels.get? c).isSome
  out s c := writtenTo s.tunnel c
  out_handle s a c := handle_written s.tunnel a c

/-! ## The far side -/

/-- What `_send_message` writes for a frame. -/
def frame (d : Dispatch) : Option Bytes :=
  match messageOf d with
  | none => none
  | some (ty, ch, data) =>
    match sendMessage L3.Tunnel.init ty ch data with
    | (t, none) => some t.sent.flatten
    | (_, some _) => none

theorem frame_look {d : Dispatch} {bs : Bytes} (h : frame d = some bs) (tl : Bytes) :
    look (bs ++ tl) = .item (some d) tl := by
  unfold frame at h
  split at h
  · cases h
  · rename_i ty ch data hm
    split at h
    · rename_i t hs
      cases h
      obtain ⟨w, hw, -, hl⟩ := sendMessage_look rfl hm hs
      have hi : t.sent = [w] := hw
      rw [hi, List.flatten_singleton]
      exact hl tl
    · cases h

/-- What the far side has said about a channel. -/
inductive FarPhase
  | opened
  | closed
  deriving DecidableEq, Repr

/-- `_handle_open` answers a request, `_forward_to_wormhole` sends data and a
`CLOSE` behind it.
mirrors src/wh/cli/tunnel.py:138-151,172-185 -/
def farNext (s : Forwarder) (far : Dict Nat FarPhase) : Dispatch → Option (Dict Nat FarPhase)
  | .handleOpenOk c =>
    if (s.conns.get? c).isSome ∧ far.get? c = none then some (far.set c .opened) else none
  | .handleOpenFail c =>
    if (s.conns.get? c).isSome ∧ far.get? c = none then some (far.set c .closed) else none
  | .handleData c _ => if far.get? c = some .opened then some far else none
  | .handleClose c => if far.get? c = some .opened then some (far.set c .closed) else none
  | .handleOpen _ _ _ => none

/-- The far side sends a frame. -/
def emit (s : Forwarder) (far : Dict Nat FarPhase) :
    Option Dispatch → Option (Dict Nat FarPhase × Bytes)
  | none => none
  | some d => (farNext s far d).bind fun far' => (frame d).map fun bs => (far', bs)

theorem emit_look {s : Forwarder} {far far' : Dict Nat FarPhase} {a : Option Dispatch} {bs : Bytes}
    (h : emit s far a = some (far', bs)) (tl : Bytes) : look (bs ++ tl) = .item a tl := by
  cases a with
  | none => cases h
  | some d =>
    simp only [emit, Option.bind_eq_some_iff, Option.map_eq_some_iff] at h
    obtain ⟨f, -, bs', hb, he⟩ := h
    cases he
    exact frame_look hb tl

/-- Local connections, the protocol, the stream and the far side. -/
def link : Link Forwarder (Option Dispatch) TunnelError Nat UInt8 (Dict Nat FarPhase) Act where
  toDemux := demux
  decoder := decoder
  emit := emit
  act := act
  emit_look := emit_look
  act_out := act_written

end Wormhole.L4.LocalForwarder
