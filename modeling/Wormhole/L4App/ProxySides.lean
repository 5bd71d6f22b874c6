import Wormhole.Core.LTS
import Wormhole.L4App.Proxy
import Mathlib.Algebra.GroupWithZero.Nat

/-!
# One side of a proxy

`src/wh/cli/proxy.py`. A `ProxyProtocol` asks its peer for connections
(`connect`, for the clients of a `Socks5Server`, `Wormhole.L4.Proxy`) and makes
those that the peer asks for (`_handle_connect`, `_forward_from_target`). Both
file their channels in one `_channels`, the first under its own counter, the
second under the id in the frame.

`numbered_run`: the ids given out are counted, and an entry without a writer is
one of them.
-/
namespace Wormhole.L4.ProxySides
open Wormhole.L1 Wormhole.L4.Proxy

/-! ## Requests -/

/-- What `_handle_connect` makes of a payload. -/
inductive Request
  | refused
  | raised               -- `UnicodeDecodeError` ends the task
  | asked (host : String) (port : Nat)
  deriving DecidableEq, Repr

/-- mirrors src/wh/cli/proxy.py:108-121 -/
def request (payload : Bytes) : Request :=
  match payload with
  | [] => .refused
  | hostLen :: rest =>
    if payload.length < 3 then .refused
    else if payload.length < 1 + hostLen.toNat + 2 then .refused
    else match decode (rest.take hostLen.toNat) with
      | none => .raised
      | some host => .asked host (unpack ((rest.drop hostLen.toNat).take 2))

/-- The payload of `connect` reads back as what was asked for. -/
theorem request_payload {host : String} {port : UInt16} (hh : (encode host).length ≤ 255) :
    request (UInt8.ofNat (encode host).length :: encode host ++ beBytes 2 port.toNat) =
      .asked host port.toNat := by
  have hlen : (UInt8.ofNat (encode host).length).toNat = (encode host).length := by
    have : (UInt8.ofNat (encode host).length).toNat = (encode host).length % 256 :=
      UInt8.toNat_ofNat'
    omega
  have hport := port.toNat_lt
  have htwo : (beBytes 2 port.toNat).length = 2 := rfl
  simp only [List.cons_append, request, hlen, List.take_left, List.drop_left, decode_encode,
    List.length_cons, List.length_append, htwo]
  rw [if_neg (by omega), if_neg (by omega), List.take_of_length_le (by rw [htwo]),
    unpack_beBytes, Nat.mod_eq_of_lt (by omega)]

/-! ## State -/

/-- The arguments of a `_handle_connect` task in `open_connection`. -/
structure Dial where
  channelId : Nat
  host : String
  port : Nat
  deriving DecidableEq, Repr

/-- `loops` are the channel ids of the `_forward_from_target` tasks. -/
structure Side where
  socks : Socks
  dials : List Dial
  loops : List Nat

def Side.proxy (s : Side) : ProxyProtocol := s.socks.proxy

def fresh : Side := ⟨Proxy.fresh, [], []⟩

inductive Ev
  | act (l : Act)
  | frame (f : Frame)
  | dialled (d : Dial)
  | dialFailed (d : Dial)
  | targetData (channelId : Nat) (data : Bytes)
  | targetEof (channelId : Nat)
  deriving DecidableEq, Repr

/-! ## Steps -/

/-- `_send_message`, the state kept where it raises. -/
def send (p : ProxyProtocol) (msgType : UInt8) (channelId : Nat) (data : Bytes) : ProxyProtocol :=
  (sendMessage p msgType channelId data).getD p

/-- A frame, with the start of the task that a `CONNECT` makes.
mirrors src/wh/cli/proxy.py:97-121 -/
def frame (s : Side) (f : Frame) : Side :=
  if f.msgType = MSG_CONNECT then
    match request f.payload with
    | .refused =>
      { s with socks := { s.socks with proxy := send s.proxy MSG_CONNECT_FAIL f.channelId [] } }
    | .raised => s
    | .asked host port => { s with dials := s.dials ++ [⟨f.channelId, host, port⟩] }
  else { s with socks := { s.socks with proxy := dispatch s.proxy f } }

/-- The entry of a dialled connection. One that waits for an answer under the
same id is replaced: its future gets no result any more. -/
def install (p : ProxyProtocol) (channelId : Nat) : ProxyProtocol :=
  let p := remove p channelId
  { p with
    channels := p.channels.set channelId ⟨some []⟩
    pending :=
      if p.pending.get? channelId = some none then p.pending.del channelId else p.pending }

/-- Where `CONNECT_OK` cannot be sent, neither can the `CONNECT_FAIL` of the handler.
mirrors src/wh/cli/proxy.py:125-133 -/
def dialled (s : Side) (d : Dial) : Side :=
  match sendMessage (install s.proxy d.channelId) MSG_CONNECT_OK d.channelId [] with
  | some p => ⟨{ s.socks with proxy := p }, s.dials.erase d, s.loops ++ [d.channelId]⟩
  | none =>
    ⟨{ s.socks with proxy := install s.proxy d.channelId }, s.dials.erase d, s.loops⟩

/-- mirrors src/wh/cli/proxy.py:179-185 -/
def targetEof (s : Side) (channelId : Nat) : Side :=
  match sendMessage s.proxy MSG_CLOSE channelId [] with
  | some p => ⟨{ s.socks with proxy := remove p channelId }, s.dials, s.loops.erase channelId⟩
  | none => { s with loops := s.loops.erase channelId }

/-- `none` where the event cannot happen.
mirrors src/wh/cli/proxy.py:135-137 for `dialFailed`, 169-178 for `targetData` -/
def step (s : Side) : Ev → Option Side
  | .act l => (act s.socks l).map fun socks => { s with socks := socks }
  | .frame f => some (frame s f)
  | .dialled d => if d ∈ s.dials then some (dialled s d) else none
  | .dialFailed d =>
    if d ∈ s.dials then
      some ⟨{ s.socks with proxy := send s.proxy MSG_CONNECT_FAIL d.channelId [] },
        s.dials.erase d, s.loops⟩
    else none
  | .targetData c data =>
    if c ∈ s.loops then
      match sendMessage s.proxy MSG_DATA c data with
      | some p => some { s with socks := { s.socks with proxy := p } }
      | none => some (targetEof s c)
    else none
  | .targetEof c => if c ∈ s.loops then some (targetEof s c) else none

def lts : LTS Side Ev := LTS.ofStep (· = fresh) step

/-! ## The numbering of the channels -/

/-- A call of `connect` takes the next id. -/
def connects : Ev → Nat
  | .act (.connect _ _) => 1
  | _ => 0

/-- `t` has given out `n` more ids than `s`, to clients and to entries without a
writer. -/
structure Numbered (n : Nat) (s t : Socks) : Prop where
  attached : t.proxy.attached = s.proxy.attached
  nextChannelId : t.proxy.nextChannelId = s.proxy.nextChannelId + n
  bare : ∀ k, t.proxy.channels.get? k = some ⟨none⟩ →
    s.proxy.channels.get? k = some ⟨none⟩ ∨
      s.proxy.nextChannelId ≤ k ∧ k < t.proxy.nextChannelId
  clients : ∀ k, t.clients.get? k ≠ none →
    s.clients.get? k ≠ none ∨ s.proxy.nextChannelId ≤ k ∧ k < t.proxy.nextChannelId

theorem Numbered.trans {m n : Nat} {s t u : Socks} (h : Numbered m s t) (h' : Numbered n t u) :
    Numbered (m + n) s u := by
  have h1 := h.nextChannelId
  have h2 := h'.nextChannelId
  refine ⟨h'.attached.trans h.attached, by rw [h2, h1, Nat.add_assoc], fun k hk => ?_,
    fun k hk => ?_⟩
  · rcases h'.bare k hk with hk | hk
    · rcases h.bare k hk with hk | hk
      · exact .inl hk
      · exact .inr (by omega)
    · exact .inr (by omega)
  · rcases h'.clients k hk with hk | hk
    · rcases h.clients k hk with hk | hk
      · exact .inl hk
      · exact .inr (by omega)
    · exact .inr (by omega)

/-- No id was given out, and no entry without a writer was made. -/
structure Keeps (p q : ProxyProtocol) : Prop where
  attached : q.attached = p.attached
  nextChannelId : q.nextChannelId = p.nextChannelId
  bare : ∀ k, q.channels.get? k = some ⟨none⟩ → p.channels.get? k = some ⟨none⟩

theorem Keeps.trans {p q r : ProxyProtocol} (h : Keeps p q) (h' : Keeps q r) : Keeps p r :=
  ⟨h'.attached.trans h.attached, h'.nextChannelId.trans h.nextChannelId,
    fun k hk => h.bare k (h'.bare k hk)⟩

theorem keeps_refl (p : ProxyProtocol) : Keeps p p := ⟨rfl, rfl, fun _ h => h⟩

theorem keeps_remove (p : ProxyProtocol) (c : Nat) : Keeps p (remove p c) := by
  unfold remove
  split
  · exact keeps_refl p
  · refine ⟨rfl, rfl, fun k hk => ?_⟩
    rw [Dict.get?_del] at hk
    split at hk
    · cases hk
    · exact hk

theorem keeps_sendMessage {p q : ProxyProtocol} {ty : UInt8} {c : Nat} {data : Bytes}
    (h : sendMessage p ty c data = some q) : Keeps p q := by
  unfold sendMessage at h
  split at h
  · cases h; exact keeps_refl _
  · obtain ⟨bs, -, rfl⟩ := Option.map_eq_some_iff.mp h
    exact ⟨rfl, rfl, fun _ h => h⟩

theorem keeps_send (p : ProxyProtocol) (ty : UInt8) (c : Nat) (data : Bytes) :
    Keeps p (send p ty c data) := by
  unfold send
  cases h : sendMessage p ty c data with
  | none => exact keeps_refl p
  | some q => exact keeps_sendMessage h

theorem keeps_setResult (p : ProxyProtocol) (c : Nat) (b : Bool) : Keeps p (setResult p c b) := by
  unfold setResult
  split
  · exact ⟨rfl, rfl, fun _ h => h⟩
  · exact keeps_refl p

/-- An entry with a writer is put in. -/
theorem keeps_set {p q : ProxyProtocol} {c : Nat} {w : Bytes} (ha : q.attached = p.attached)
    (hn : q.nextChannelId = p.nextChannelId) (hc : q.channels = p.channels.set c ⟨some w⟩) :
    Keeps p q := by
  refine ⟨ha, hn, fun k hk => ?_⟩
  rw [hc, Dict.get?_set] at hk
  split at hk
  · cases hk
  · exact hk

theorem keeps_dispatch (p : ProxyProtocol) (f : Frame) : Keeps p (dispatch p f) := by
  unfold dispatch
  split
  · exact keeps_refl p
  · split
    · exact keeps_setResult p _ _
    · split
      · exact keeps_setResult p _ _
      · split
        · unfold handleData
          split
          · exact keeps_set rfl rfl rfl
          · exact keeps_refl p
        · split
          · exact keeps_remove p _
          · exact keeps_refl p

theorem keeps_install (p : ProxyProtocol) (c : Nat) : Keeps p (install p c) :=
  (keeps_remove p c).trans (keeps_set rfl rfl rfl)

theorem numbered_of_keeps {s t : Socks} (h : Keeps s.proxy t.proxy)
    (hc : ∀ k, t.clients.get? k ≠ none → s.clients.get? k ≠ none) : Numbered 0 s t :=
  ⟨h.attached, h.nextChannelId, fun k hk => .inl (h.bare k hk), fun k hk => .inl (hc k hk)⟩

/-- A client that there was goes on. -/
theorem clients_set {s : Socks} {c : Nat} {ph ph' : Phase} (h : s.clients.get? c = some ph)
    (k : Nat) (hk : (s.clients.set c ph').get? k ≠ none) : s.clients.get? k ≠ none := by
  rw [Dict.get?_set] at hk
  split at hk
  · rename_i hck
    rw [← hck, h]
    exact Option.some_ne_none ph
  · exact hk

/-- `connect` has taken an id and made its entry. -/
def opened (p : ProxyProtocol) : ProxyProtocol :=
  let q := remove p p.nextChannelId
  { q with
    nextChannelId := p.nextChannelId + 1
    pending := q.pending.set p.nextChannelId none
    channels := q.channels.set p.nextChannelId ⟨none⟩ }

/-- The entry is made, and the request is sent or `connect` raises. -/
theorem connect_spec (s : Socks) (host : String) (port : Nat) :
    ((255 < (encode host).length ∨ L1.pack 2 port = none ∨
        ∃ portBytes, (encode host).length ≤ 255 ∧ L1.pack 2 port = some portBytes ∧
          sendMessage (opened s.proxy) MSG_CONNECT s.proxy.nextChannelId
            (UInt8.ofNat (encode host).length :: encode host ++ portBytes) = none) ∧
      connect s host port = { s with proxy := opened s.proxy }) ∨
    ∃ portBytes q, (encode host).length ≤ 255 ∧ L1.pack 2 port = some portBytes ∧
      sendMessage (opened s.proxy) MSG_CONNECT s.proxy.nextChannelId
        (UInt8.ofNat (encode host).length :: encode host ++ portBytes) = some q ∧
      connect s host port = { s with
        proxy := q, clients := s.clients.set s.proxy.nextChannelId .connecting } := by
  unfold connect
  simp only
  split
  · rename_i hlen
    exact .inl ⟨.inl hlen, rfl⟩
  · rename_i hlen
    split
    · rename_i hport
      exact .inl ⟨.inr (.inl hport), rfl⟩
    · rename_i portBytes hport
      split
      · rename_i hsend
        exact .inl ⟨.inr (.inr ⟨portBytes, by omega, hport, hsend⟩), rfl⟩
      · rename_i q hsend
        exact .inr ⟨portBytes, q, by omega, hport, hsend, rfl⟩

theorem numbered_opened (s : Socks) (clients : Dict Nat Phase)
    (hc : ∀ k, clients.get? k ≠ none → s.clients.get? k ≠ none ∨ k = s.proxy.nextChannelId) :
    Numbered 1 s { s with proxy := opened s.proxy, clients := clients } := by
  have hlt : (opened s.proxy).nextChannelId = s.proxy.nextChannelId + 1 := rfl
  refine ⟨(keeps_remove s.proxy _).attached, rfl, fun k hk => ?_, fun k hk => ?_⟩
  · simp only [opened, Dict.get?_set] at hk
    split at hk
    · exact .inr (by simp only [hlt]; omega)
    · exact .inl ((keeps_remove s.proxy _).bare k hk)
  · rcases hc k hk with hk | rfl
    · exact .inl hk
    · exact .inr (by simp only [hlt]; omega)

theorem numbered_connect (s : Socks) (host : String) (port : Nat) :
    Numbered 1 s (connect s host port) := by
  rcases connect_spec s host port with ⟨-, h⟩ | ⟨portBytes, q, -, -, hsend, h⟩
  · rw [h]
    exact numbered_opened s s.clients fun k hk => .inl hk
  · rw [h]
    have hopen := numbered_opened s (s.clients.set s.proxy.nextChannelId .connecting) fun k hk => by
      rw [Dict.get?_set] at hk
      split at hk
      · rename_i hck; exact .inr hck.symm
      · exact .inl hk
    exact hopen.trans (n := 0) (numbered_of_keeps (keeps_sendMessage hsend) fun _ hk => hk)

theorem numbered_finish {s : Socks} {c : Nat} {ph : Phase} (h : s.clients.get? c = some ph) :
    Numbered 0 s (finish s c) := by
  unfold finish
  split
  · exact numbered_of_keeps (keeps_refl _) (clients_set h)
  · rename_i q hq
    exact numbered_of_keeps ((keeps_sendMessage hq).trans (keeps_remove q c)) (clients_set h)

theorem act_numbered {s t : Socks} {l : Act} (h : act s l = some t) :
    Numbered (connects (.act l)) s t := by
  cases l with
  | connect host port => cases h; exact numbered_connect s host port
  | resume c =>
    simp only [act] at h
    split at h
    · rename_i hc _
      cases h
      exact numbered_of_keeps (keeps_refl _) (clients_set hc)
    · rename_i hc _
      split at h
      · cases h; exact numbered_of_keeps (keeps_refl _) (clients_set hc)
      · cases h; exact numbered_of_keeps (keeps_remove _ c) (clients_set hc)
    · cases h
  | connectTimeout c =>
    simp only [act] at h
    split at h
    · rename_i hc; cases h; exact numbered_of_keeps (keeps_remove _ c) (clients_set hc)
    · cases h
  | drained c =>
    simp only [act] at h
    split at h
    · rename_i hc
      split at h
      · cases h; exact numbered_of_keeps (keeps_refl _) (clients_set hc)
      · cases h; exact numbered_of_keeps (keeps_set rfl rfl rfl) (clients_set hc)
    · cases h
  | drainFailed c =>
    simp only [act] at h
    split at h
    · rename_i hc; cases h; exact numbered_of_keeps (keeps_refl _) (clients_set hc)
    · cases h
  | clientData c data =>
    simp only [act] at h
    split at h
    · rename_i hc
      split at h
      · rename_i q hq; cases h; exact numbered_of_keeps (keeps_sendMessage hq) fun _ hk => hk
      · cases h; exact numbered_finish hc
    · cases h
  | clientEof c =>
    simp only [act] at h
    split at h
    · rename_i hc; cases h; exact numbered_finish hc
    · cases h

theorem numbered_targetEof (s : Side) (c : Nat) : Numbered 0 s.socks (targetEof s c).socks := by
  unfold targetEof
  split
  · rename_i q hq
    exact numbered_of_keeps ((keeps_sendMessage hq).trans (keeps_remove q c)) fun _ hk => hk
  · exact numbered_of_keeps (keeps_refl _) fun _ hk => hk

theorem step_numbered {s t : Side} {e : Ev} (h : step s e = some t) :
    Numbered (connects e) s.socks t.socks := by
  have same : ∀ {q : ProxyProtocol}, Keeps s.proxy q →
      Numbered 0 s.socks { s.socks with proxy := q } :=
    fun hq => numbered_of_keeps hq fun _ hk => hk
  cases e with
  | act l =>
    obtain ⟨socks, hact, rfl⟩ := Option.map_eq_some_iff.mp h
    exact act_numbered hact
  | frame f =>
    cases h
    unfold frame
    split
    · split
      · exact same (keeps_send _ _ _ _)
      · exact same (keeps_refl _)
      · exact same (keeps_refl _)
    · exact same (keeps_dispatch _ f)
  | dialled d =>
    simp only [step] at h
    split at h
    · cases h
      unfold dialled
      split
      · rename_i q hq
        exact same ((keeps_install _ _).trans (keeps_sendMessage hq))
      · exact same (keeps_install _ _)
    · cases h
  | dialFailed d =>
    simp only [step] at h
    split at h
    · cases h; exact same (keeps_send _ _ _ _)
    · cases h
  | targetData c data =>
    simp only [step] at h
    split at h
    · split at h
      · rename_i q hq; cases h; exact same (keeps_sendMessage hq)
      · cases h; exact numbered_targetEof s c
    · cases h
  | targetEof c =>
    simp only [step] at h
    split at h
    · cases h; exact numbered_targetEof s c
    · cases h

/-- A run from the start: its calls are counted, and every client and every entry
without a writer has an id that was given out. -/
theorem numbered_run {t : Side} {es : List Ev} (hr : lts.Run fresh es t) :
    Numbered (es.map connects).sum fresh.socks t.socks := by
  refine LTS.Run.history (I := fun es t => Numbered (es.map connects).sum fresh.socks t.socks)
    (fun pre s e t _ hi (hst : step s e = some t) => ?_) ?_ hr
  · rw [List.map_append, List.sum_append, List.map_singleton, List.sum_singleton]
    exact hi.trans (step_numbered hst)
  · exact numbered_of_keeps (keeps_refl _) fun _ hk => hk

end Wormhole.L4.ProxySides
