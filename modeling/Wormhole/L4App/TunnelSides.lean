import Wormhole.Core.LTS
import Wormhole.L4App.LocalForwarder
import Mathlib.Algebra.GroupWithZero.Nat

/-!
# One side of a tunnel

`src/wh/cli/tunnel.py`. Both ends of `wh tunnel` run the same `TunnelProtocol`,
and nothing keeps one object from doing both jobs: its `LocalForwarder`s open
channels, and it dials the targets that the peer's `OPEN` frames name. A side
is the protocol with the coroutines of both: the local connections
(`Wormhole.L4.LocalForwarder`), the `_handle_open` tasks that wait in
`open_connection`, and the forwarding loops of the sockets these have dialled.
Whatever the peer sends arrives as single frames, between any two steps.

* `inv_run`: what is in `_channels` has not been closed, and every id a coroutine
  holds fits the wire, so that its `CLOSE` can be sent.
* `numbered_run`: the ids given out are counted, and a pending open is one of them.
-/
namespace Wormhole.L4.TunnelSides
open Wormhole.L1 Wormhole.L3.Tunnel Wormhole.L4.LocalForwarder

/-- The arguments of a `_handle_open` task. -/
structure Dial where
  channelId : Nat
  host : String
  port : Nat
  deriving DecidableEq, Repr

/-- `dials` are the `_handle_open` tasks in `open_connection`; `loops` the channel
ids of the `_forward_to_wormhole` tasks started by those that got through. -/
structure Side where
  fwd : Forwarder
  dials : List Dial
  loops : List Nat

def Side.tunnel (s : Side) : TunnelProtocol := s.fwd.tunnel

/-- A protocol just attached. -/
def fresh : Side := ⟨LocalForwarder.fresh, [], []⟩

inductive Ev
  | act (l : Act)
  | frame (d : Dispatch)
  | dialled (d : Dial)
  | dialFailed (d : Dial)
  | targetData (channelId : Nat) (data : Bytes)
  | targetEof (channelId : Nat)
  | lost
  deriving DecidableEq, Repr

/-! ## The listening side -/

/-- The task that a frame starts.
mirrors src/wh/cli/tunnel.py:111 -/
def asked : Dispatch → List Dial
  | .handleOpen channelId host port => [⟨channelId, host, port⟩]
  | _ => []

/-- The end of `_forward_to_wormhole` for the protocol.
mirrors src/wh/cli/tunnel.py:182-185 -/
def endLoop (t : TunnelProtocol) (channelId : Nat) : TunnelProtocol :=
  match sendMessage t MSG_CLOSE channelId [] with
  | (t, some _) => t
  | (t, none) => unregister t channelId

/-- The connection is there. Where `OPEN_OK` cannot be sent, neither can the
`OPEN_FAIL` of the handler, and the task ends with the entry made.
mirrors src/wh/cli/tunnel.py:138-147 -/
def dialled (s : Side) (d : Dial) : Side :=
  match sendMessage (register s.tunnel d.channelId) MSG_OPEN_OK d.channelId [] with
  | (t, none) =>
    ⟨{ s.fwd with tunnel := t }, s.dials.erase d, s.loops ++ [d.channelId]⟩
  | (t, some _) => ⟨{ s.fwd with tunnel := t }, s.dials.erase d, s.loops⟩

/-- mirrors src/wh/cli/tunnel.py:149-151 -/
def dialFailed (s : Side) (d : Dial) : Side :=
  ⟨{ s.fwd with tunnel := (sendMessage s.tunnel MSG_OPEN_FAIL d.channelId []).1 },
    s.dials.erase d, s.loops⟩

/-- The `finally` of a loop over a dialled socket. -/
def targetEof (s : Side) (channelId : Nat) : Side :=
  ⟨{ s.fwd with tunnel := endLoop s.tunnel channelId }, s.dials, s.loops.erase channelId⟩

/-- mirrors src/wh/cli/tunnel.py:218-226 (`_on_connection_lost`) -/
def connectionLost (t : TunnelProtocol) : TunnelProtocol :=
  { t with
    channels := .empty
    closedChannels := t.closedChannels ++
      t.channels.entries.map fun e => (e.1, { e.2 with closed := true }) }

/-! ## Steps -/

def channelId : Dispatch → Nat
  | .handleData channelId _ => channelId
  | .handleOpen channelId _ _ => channelId
  | .handleOpenOk channelId => channelId
  | .handleOpenFail channelId => channelId
  | .handleClose channelId => channelId

/-- `reader.read(4096)` gives no more than that. -/
def Readable : Act → Bool
  | .localData _ data => data.length ≤ 4096
  | _ => true

/-- `none` where the event cannot happen. The id of a frame has two bytes.
mirrors src/wh/cli/tunnel.py:172-181 for `targetData` -/
def step (s : Side) : Ev → Option Side
  | .act l => if Readable l then (act s.fwd l).map fun f => { s with fwd := f } else none
  | .frame d =>
    if channelId d ≤ 65535 then
      some ⟨(handleFrame s.fwd (some d)).1, s.dials ++ asked d, s.loops⟩
    else none
  | .dialled d => if d ∈ s.dials then some (dialled s d) else none
  | .dialFailed d => if d ∈ s.dials then some (dialFailed s d) else none
  | .targetData c data =>
    if c ∈ s.loops ∧ data.length ≤ 4096 then
      match sendMessage s.tunnel MSG_DATA c data with
      | (t, none) => some { s with fwd := { s.fwd with tunnel := t } }
      | (t, some _) => some (targetEof { s with fwd := { s.fwd with tunnel := t } } c)
    else none
  | .targetEof c => if c ∈ s.loops then some (targetEof s c) else none
  | .lost => some { s with fwd := { s.fwd with tunnel := connectionLost s.tunnel } }

def lts : LTS Side Ev := LTS.ofStep (· = fresh) step

/-! ## What a step does to `_channels` -/

/-- The entry of a channel, as `closedChannels` keeps it. -/
def entry (t : TunnelProtocol) (c : Nat) : List (Nat × Channel) :=
  ((t.channels.get? c).map fun ch => (c, ch)).toList

def close (e : Nat × Channel) : Nat × Channel := (e.1, { e.2 with closed := true })

/-- The entries that a step takes out of `_channels` or replaces. -/
def gone (s : Side) : Ev → List (Nat × Channel)
  | .act (.resume c) =>
    if s.tunnel.pendingOpens.get? c = some (some true) then entry s.tunnel c else []
  | .act (.localEof c) => entry s.tunnel c
  | .frame (.handleClose c) => (entry s.tunnel c).map close
  | .dialled d => entry s.tunnel d.channelId
  | .targetEof c => entry s.tunnel c
  | .lost => s.tunnel.channels.entries.map close
  | _ => []

/-- The two protocols differ in nothing that is said of `_channels`. -/
def Same (t u : TunnelProtocol) : Prop :=
  u.channels = t.channels ∧ u.closedChannels = t.closedChannels

/-- What may happen to `_channels`, and the entries it loses. -/
inductive Effect (t u : TunnelProtocol) : List (Nat × Channel) → Prop
  | same : Same t u → Effect t u []
  | registered (c : Nat) : Same (register t c) u → Effect t u (entry t c)
  | unregistered (c : Nat) : Same (unregister t c) u → Effect t u (entry t c)
  | handled (d : Dispatch) : Same (handle t (some d)).1 u → (∀ c, d ≠ .handleClose c) →
      Effect t u []
  | closed (c : Nat) : Same (handle t (some (.handleClose c))).1 u →
      Effect t u ((entry t c).map close)
  | lost : Same (connectionLost t) u → Effect t u (t.channels.entries.map close)

/-- Every open channel has a writer that is open; every id a coroutine holds
fits the wire. -/
structure Inv (s : Side) : Prop where
  attached : s.tunnel.attached = true
  opened : ∀ c ch, s.tunnel.channels.get? c = some ch → ch.closed = false
  conns : ∀ c ph, s.fwd.conns.get? c = some ph → c ≤ 65535
  dials : ∀ d ∈ s.dials, d.channelId ≤ 65535
  loops : ∀ c ∈ s.loops, c ≤ 65535

theorem entry_closedChannels (t : TunnelProtocol) (c : Nat) :
    (unregister t c).closedChannels = t.closedChannels ++ entry t c := by
  unfold unregister entry
  split
  · rename_i h; rw [h]; simp
  · rename_i ch h; rw [h]; rfl

theorem Effect.closedChannels {t u : TunnelProtocol} {es : List (Nat × Channel)}
    (h : Effect t u es) : u.closedChannels = t.closedChannels ++ es := by
  cases h with
  | same h => rw [h.2, List.append_nil]
  | registered c h => rw [h.2]; exact entry_closedChannels t c
  | unregistered c h => rw [h.2]; exact entry_closedChannels t c
  | handled d h hd =>
    rw [h.2, List.append_nil]
    cases d with
    | handleClose c => exact absurd rfl (hd c)
    | _ =>
      simp only [handle, dispatch, setResult]
      repeat' split
      all_goals rfl
  | closed c h =>
    rw [h.2]
    unfold entry
    simp only [handle, dispatch]
    split
    · rename_i hc; rw [hc]; simp
    · rename_i ch hc; rw [hc]; rfl
  | lost h => exact h.2

/-- What is in the table afterwards was there, written to since, or is new. -/
theorem Effect.channels {t u : TunnelProtocol} {es : List (Nat × Channel)} (h : Effect t u es)
    {c : Nat} {ch : Channel} (hc : u.channels.get? c = some ch) :
    ch.closed = false ∨ ∃ ch', t.channels.get? c = some ch' ∧ ch'.closed = ch.closed := by
  have hun : ∀ k, (unregister t k).channels.get? c = some ch → t.channels.get? c = some ch := by
    intro k hk
    unfold unregister at hk
    split at hk
    · exact hk
    · rw [Dict.get?_del] at hk
      split at hk
      · cases hk
      · exact hk
  cases h with
  | same h => rw [h.1] at hc; exact .inr ⟨ch, hc, rfl⟩
  | registered k h =>
    rw [h.1, register, Dict.get?_set] at hc
    split at hc
    · cases hc; exact .inl rfl
    · exact .inr ⟨ch, hun k hc, rfl⟩
  | unregistered k h => rw [h.1] at hc; exact .inr ⟨ch, hun k hc, rfl⟩
  | handled d h hd =>
    rw [h.1] at hc
    cases d with
    | handleClose k => exact absurd rfl (hd k)
    | handleData k data =>
      simp only [handle, dispatch] at hc
      split at hc
      · exact .inr ⟨ch, hc, rfl⟩
      · rename_i ch' hk
        rw [Dict.get?_set] at hc
        split at hc
        · rename_i hkc
          cases hc
          exact .inr ⟨ch', hkc ▸ hk, rfl⟩
        · exact .inr ⟨ch, hc, rfl⟩
    | _ =>
      refine .inr ⟨ch, ?_, rfl⟩
      simp only [handle, dispatch, setResult] at hc
      repeat' split at hc
      all_goals exact hc
  | closed k h =>
    rw [h.1] at hc
    simp only [handle, dispatch] at hc
    split at hc
    · exact .inr ⟨ch, hc, rfl⟩
    · rw [Dict.get?_del] at hc
      split at hc
      · cases hc
      · exact .inr ⟨ch, hc, rfl⟩
  | lost h => rw [h.1] at hc; cases hc

/-! ## Steps and runs -/

/-- Everything but `DATA` of 4 GiB goes out under an id that fits the wire. -/
theorem sendMessage_ok {t : TunnelProtocol} {ty : UInt8} {c : Nat} {data : Bytes}
    (hc : c ≤ 65535) (hd : data.length ≤ 4096) : (sendMessage t ty c data).2 = none := by
  have e1 : pack 2 c = some (beBytes 2 c) := pack_of_lt (by omega)
  have e2 : pack 4 data.length = some (beBytes 4 data.length) := pack_of_lt (by omega)
  simp only [sendMessage, e1, e2]
  repeat' split
  all_goals rfl

theorem sendMessage_same (t : TunnelProtocol) (ty : UInt8) (c : Nat) (data : Bytes) :
    Same t (sendMessage t ty c data).1 := sendMessage_frame t ty c data

theorem Same.trans {t u v : TunnelProtocol} (h : Same t u) (h' : Same u v) : Same t v :=
  ⟨h'.1.trans h.1, h'.2.trans h.2⟩

theorem Same.unregister {t u : TunnelProtocol} (h : Same t u) (c : Nat) :
    Same (unregister t c) (unregister u c) := by
  unfold LocalForwarder.unregister
  rw [h.1]
  split
  · exact h
  · refine ⟨rfl, ?_⟩
    simp only [h.2]

theorem Same.register {t u : TunnelProtocol} (h : Same t u) (c : Nat) :
    Same (register t c) (register u c) := by
  have hun := h.unregister c
  unfold LocalForwarder.register
  exact ⟨by simp only [hun.1], hun.2⟩

/-- The loop's `CLOSE` went out, so the entry goes. -/
theorem endLoop_same (t : TunnelProtocol) {c : Nat} (hc : c ≤ 65535) :
    Same (unregister t c) (endLoop t c) := by
  have hok : (sendMessage t MSG_CLOSE c []).2 = none := sendMessage_ok hc (by simp)
  have hs := sendMessage_same t MSG_CLOSE c []
  unfold endLoop
  split
  · rename_i u e hu; rw [hu] at hok; cases hok
  · rename_i u hu
    rw [hu] at hs
    exact hs.unregister c

/-- `finish` is the end of the loop for the protocol. -/
theorem finish_tunnel (f : Forwarder) (c : Nat) : (finish f c).tunnel = endLoop f.tunnel c := by
  cases h : sendMessage f.tunnel MSG_CLOSE c [] with
  | mk t e =>
    cases e with
    | none => simp only [finish, endLoop, h]
    | some e => simp only [finish, endLoop, h]

theorem act_effect {s : Side} {f : Forwarder} {l : Act} (hi : Inv s) (hl : Readable l = true)
    (h : act s.fwd l = some f) : Effect s.tunnel f.tunnel (gone s (.act l)) := by
  cases l with
  | accept host port =>
    refine .same ?_
    have hf := openChannel_frame s.tunnel host port
    simp only [act, accept] at h
    split at h
    all_goals
      rename_i ht
      rw [Side.tunnel, ht] at hf
      cases h
      exact hf
  | resume c =>
    simp only [act] at h
    split at h
    · rename_i hp
      cases h
      have hp' : s.tunnel.pendingOpens.get? c = some (some true) := hp
      simp only [gone, hp', if_true]
      have hforget : Same s.tunnel (forget s.tunnel c) := ⟨rfl, rfl⟩
      exact .registered c (hforget.register c)
    · rename_i hp
      cases h
      have hp' : s.tunnel.pendingOpens.get? c = some (some false) := hp
      simp only [gone, hp', Option.some.injEq, Bool.false_eq_true, if_false]
      exact .same ⟨rfl, rfl⟩
    · cases h
  | openTimeout c =>
    simp only [act] at h
    split at h
    · cases h; exact .same ⟨rfl, rfl⟩
    · cases h
  | localData c data =>
    simp only [act] at h
    split at h
    · rename_i hc
      have hok : (sendMessage s.fwd.tunnel MSG_DATA c data).2 = none :=
        sendMessage_ok (hi.conns c _ hc) (of_decide_eq_true hl)
      have hs := sendMessage_same s.fwd.tunnel MSG_DATA c data
      split at h
      · rename_i u hu
        rw [hu] at hs
        cases h
        exact .same hs
      · rename_i u e hu
        rw [hu] at hok
        cases hok
    · cases h
  | localEof c =>
    simp only [act] at h
    split at h
    · rename_i hc
      cases h
      refine .unregistered c ?_
      rw [finish_tunnel]
      exact endLoop_same s.tunnel (hi.conns c _ hc)
    · cases h

theorem step_effect {s t : Side} {e : Ev} (hi : Inv s) (h : step s e = some t) :
    Effect s.tunnel t.tunnel (gone s e) := by
  cases e with
  | act l =>
    simp only [step] at h
    split at h
    · rename_i hl
      obtain ⟨f, hf, rfl⟩ := Option.map_eq_some_iff.mp h
      exact act_effect hi hl hf
    · cases h
  | frame d =>
    simp only [step] at h
    split at h
    · cases h
      cases d with
      | handleClose c => exact .closed c ⟨rfl, rfl⟩
      | handleData c data => exact .handled (.handleData c data) ⟨rfl, rfl⟩ nofun
      | handleOpen c host port => exact .handled (.handleOpen c host port) ⟨rfl, rfl⟩ nofun
      | handleOpenOk c => exact .handled (.handleOpenOk c) ⟨rfl, rfl⟩ nofun
      | handleOpenFail c => exact .handled (.handleOpenFail c) ⟨rfl, rfl⟩ nofun
    · cases h
  | dialled d =>
    simp only [step] at h
    split at h
    · cases h
      refine .registered d.channelId ?_
      have hs := sendMessage_same (register s.tunnel d.channelId) MSG_OPEN_OK d.channelId []
      unfold dialled
      split <;> rename_i hu <;> rw [hu] at hs <;> exact hs
    · cases h
  | dialFailed d =>
    simp only [step] at h
    split at h
    · cases h; exact .same (sendMessage_same _ _ _ _)
    · cases h
  | targetData c data =>
    simp only [step] at h
    split at h
    · rename_i hc
      have hok : (sendMessage s.tunnel MSG_DATA c data).2 = none :=
        sendMessage_ok (hi.loops c hc.1) hc.2
      have hs := sendMessage_same s.tunnel MSG_DATA c data
      split at h
      · rename_i u hu
        rw [hu] at hs
        cases h
        exact .same hs
      · rename_i u e hu
        rw [hu] at hok
        cases hok
    · cases h
  | targetEof c =>
    simp only [step] at h
    split at h
    · rename_i hc
      cases h
      exact .unregistered c (endLoop_same s.tunnel (hi.loops c hc))
    · cases h
  | lost =>
    cases h
    exact .lost ⟨rfl, rfl⟩

/-! ## The numbering of the channels -/

/-- A call of `open_channel` takes the next id. -/
def opens : Ev → Nat
  | .act (.accept _ _) => 1
  | _ => 0

/-- `u` has given out `n` more ids than `t`, and waits for no others but these. -/
structure Numbered (n : Nat) (t u : TunnelProtocol) : Prop where
  attached : u.attached = t.attached
  nextChannelId : u.nextChannelId = t.nextChannelId + n
  pending : ∀ k, u.pendingOpens.get? k ≠ none →
    t.pendingOpens.get? k ≠ none ∨ t.nextChannelId ≤ k ∧ k < u.nextChannelId

theorem Numbered.refl (t : TunnelProtocol) : Numbered 0 t t := ⟨rfl, rfl, fun _ h => .inl h⟩

theorem Numbered.trans {m n : Nat} {t u v : TunnelProtocol} (h : Numbered m t u)
    (h' : Numbered n u v) : Numbered (m + n) t v := by
  refine ⟨h'.attached.trans h.attached, by rw [h'.nextChannelId, h.nextChannelId, Nat.add_assoc],
    fun k hk => ?_⟩
  have h1 := h.nextChannelId
  have h2 := h'.nextChannelId
  rcases h'.pending k hk with hk | hk
  · rcases h.pending k hk with hk | hk
    · exact .inl hk
    · exact .inr (by omega)
  · exact .inr (by omega)

theorem numbered_sendMessage (t : TunnelProtocol) (ty : UInt8) (c : Nat) (data : Bytes) :
    Numbered 0 t (sendMessage t ty c data).1 := by
  unfold sendMessage
  repeat' split
  all_goals exact ⟨rfl, rfl, fun _ h => .inl h⟩

theorem numbered_unregister (t : TunnelProtocol) (c : Nat) : Numbered 0 t (unregister t c) := by
  unfold unregister
  split <;> exact ⟨rfl, rfl, fun _ h => .inl h⟩

theorem numbered_register (t : TunnelProtocol) (c : Nat) : Numbered 0 t (register t c) :=
  (numbered_unregister t c).trans (n := 0) ⟨rfl, rfl, fun _ h => .inl h⟩

theorem numbered_forget (t : TunnelProtocol) (c : Nat) : Numbered 0 t (forget t c) := by
  refine ⟨rfl, rfl, fun k hk => .inl fun hn => hk ?_⟩
  rw [forget, Dict.get?_del]
  split
  · rfl
  · exact hn

theorem numbered_endLoop (t : TunnelProtocol) (c : Nat) : Numbered 0 t (endLoop t c) := by
  have hs := numbered_sendMessage t MSG_CLOSE c []
  unfold endLoop
  split <;> rename_i hu <;> rw [hu] at hs
  · exact hs
  · exact hs.trans (numbered_unregister _ c)

theorem numbered_setResult (t : TunnelProtocol) (c : Nat) (b : Bool) :
    Numbered 0 t (setResult t c b).1 := by
  unfold setResult
  split
  · exact .refl t
  · exact .refl t
  · rename_i hp
    refine ⟨rfl, rfl, fun k hk => .inl fun hn => hk ?_⟩
    rw [Dict.get?_set]
    split
    · rename_i hck
      rw [← hck, hp] at hn
      cases hn
    · exact hn

theorem numbered_handle (t : TunnelProtocol) (d : Dispatch) :
    Numbered 0 t (handle t (some d)).1 := by
  have hd : Numbered 0 t { t with dispatched := t.dispatched ++ [d] } :=
    ⟨rfl, rfl, fun _ h => .inl h⟩
  refine hd.trans (n := 0) ?_
  simp only [handle]
  cases d with
  | handleOpenOk c => exact numbered_setResult _ c true
  | handleOpenFail c => exact numbered_setResult _ c false
  | handleOpen c host port => exact .refl _
  | _ =>
    simp only [dispatch]
    split <;> exact ⟨rfl, rfl, fun _ h => .inl h⟩

theorem pack_le {c : Nat} {bs : Bytes} (h : pack 2 c = some bs) : c ≤ 65535 := by
  unfold pack at h
  split at h
  · omega
  · cases h

/-- `open_channel` takes an id; where it does not raise it waits under it. -/
theorem openChannel_spec (t : TunnelProtocol) (host : String) (port : Nat) :
    ((openChannel t host port).2 ≠ none ∧
      (openChannel t host port).1 = { t with nextChannelId := t.nextChannelId + 1 }) ∨
    ((openChannel t host port).2 = none ∧ t.nextChannelId ≤ 65535 ∧ ∃ sent,
      (openChannel t host port).1 = { t with
        nextChannelId := t.nextChannelId + 1
        sent := sent
        pendingOpens := t.pendingOpens.set t.nextChannelId none }) := by
  by_cases hlen : 255 < (encode host).length
  · exact .inl (by simp [openChannel, hlen])
  cases hport : pack 2 port with
  | none => exact .inl (by simp [openChannel, hlen, hport])
  | some portBytes =>
    cases ha : t.attached with
    | false =>
      cases hid : pack 2 t.nextChannelId <;>
        exact .inl (by simp [openChannel, hlen, hport, sendMessage, hid, ha])
    | true =>
      cases hid : pack 2 t.nextChannelId with
      | none => exact .inl (by simp [openChannel, hlen, hport, sendMessage, hid, ha])
      | some ch =>
        have hne : ¬ MSG_OPEN = MSG_DATA := by decide
        refine .inr ⟨?_, pack_le hid, ?_⟩
        · simp [openChannel, hlen, hport, sendMessage, hid, ha, hne]
        · simp only [openChannel, hlen, hport, sendMessage, hid, ha, hne, if_false,
            Bool.not_true, Bool.false_eq_true]
          exact ⟨_, rfl⟩

theorem numbered_openChannel (t : TunnelProtocol) (host : String) (port : Nat) :
    Numbered 1 t (openChannel t host port).1 := by
  rcases openChannel_spec t host port with ⟨-, h⟩ | ⟨-, -, sent, h⟩
  · rw [h]
    exact ⟨rfl, rfl, fun _ hk => .inl hk⟩
  · rw [h]
    refine ⟨rfl, rfl, fun k hk => ?_⟩
    rw [Dict.get?_set] at hk
    split at hk
    · rename_i hck; exact .inr (by simp only; omega)
    · exact .inl hk

theorem numbered_finish (f : Forwarder) (c : Nat) : Numbered 0 f.tunnel (finish f c).tunnel := by
  rw [finish_tunnel]
  exact numbered_endLoop f.tunnel c

theorem act_numbered {f g : Forwarder} {l : Act} (h : act f l = some g) :
    Numbered (opens (.act l)) f.tunnel g.tunnel := by
  cases l with
  | accept host port =>
    have hn := numbered_openChannel f.tunnel host port
    simp only [act, accept] at h
    split at h
    all_goals
      rename_i ht
      rw [ht] at hn
      cases h
      exact hn
  | resume c =>
    simp only [act] at h
    split at h
    · cases h; exact (numbered_forget _ c).trans (n := 0) (numbered_register _ c)
    · cases h; exact numbered_forget _ c
    · cases h
  | openTimeout c =>
    simp only [act] at h
    split at h
    · cases h; exact numbered_forget _ c
    · cases h
  | localData c data =>
    have hn := numbered_sendMessage f.tunnel MSG_DATA c data
    simp only [act] at h
    split at h
    · split at h
      all_goals
        rename_i hu
        rw [hu] at hn
        cases h
      · exact hn
      · exact hn.trans (n := 0) (numbered_finish ⟨_, f.conns⟩ c)
    · cases h
  | localEof c =>
    simp only [act] at h
    split at h
    · cases h; exact numbered_finish f c
    · cases h

theorem step_numbered {s t : Side} {e : Ev} (h : step s e = some t) :
    Numbered (opens e) s.tunnel t.tunnel := by
  cases e with
  | act l =>
    simp only [step] at h
    split at h
    · obtain ⟨f, hf, rfl⟩ := Option.map_eq_some_iff.mp h
      exact act_numbered hf
    · cases h
  | frame d =>
    simp only [step] at h
    split at h
    · cases h; exact numbered_handle _ d
    · cases h
  | dialled d =>
    simp only [step] at h
    split at h
    · cases h
      have hn := numbered_sendMessage (register s.tunnel d.channelId) MSG_OPEN_OK d.channelId []
      unfold dialled
      split <;> rename_i hu <;> rw [hu] at hn <;>
        exact (numbered_register s.tunnel d.channelId).trans (n := 0) hn
    · cases h
  | dialFailed d =>
    simp only [step] at h
    split at h
    · cases h; exact numbered_sendMessage _ _ _ _
    · cases h
  | targetData c data =>
    have hn := numbered_sendMessage s.tunnel MSG_DATA c data
    simp only [step] at h
    split at h
    · split at h
      all_goals
        rename_i hu
        rw [hu] at hn
        cases h
      · exact hn
      · exact hn.trans (n := 0) (numbered_endLoop _ c)
    · cases h
  | targetEof c =>
    simp only [step] at h
    split at h
    · cases h; exact numbered_endLoop _ c
    · cases h
  | lost => cases h; exact ⟨rfl, rfl, fun _ h => .inl h⟩

/-! ## The invariant -/

theorem finish_conns (f : Forwarder) (c : Nat) : (finish f c).conns = f.conns.set c .ended := by
  unfold finish
  split <;> rfl

/-- A coroutine moves on, or a new one starts under the id of a request that was sent. -/
theorem act_conns {f g : Forwarder} {l : Act} (h : act f l = some g) :
    ∃ c ph, (f.conns.get? c ≠ none ∨ c ≤ 65535) ∧
      (g.conns = f.conns ∨ g.conns = f.conns.set c ph) := by
  have stays : g.conns = f.conns → ∃ c ph, (f.conns.get? c ≠ none ∨ c ≤ 65535) ∧
      (g.conns = f.conns ∨ g.conns = f.conns.set c ph) :=
    fun h => ⟨0, .ended, .inr (Nat.zero_le _), .inl h⟩
  cases l with
  | accept host port =>
    simp only [act, accept] at h
    split at h
    · cases h; exact stays rfl
    · rename_i t ht
      cases h
      rcases openChannel_spec f.tunnel host port with ⟨hne, -⟩ | ⟨-, hle, -⟩
      · rw [ht] at hne; exact absurd rfl hne
      · exact ⟨_, .opening, .inr hle, .inr rfl⟩
  | resume c =>
    simp only [act] at h
    split at h
    · rename_i hc _; cases h; exact ⟨c, _, .inl (Option.ne_none_iff_exists'.mpr ⟨_, hc⟩), .inr rfl⟩
    · rename_i hc _; cases h; exact ⟨c, _, .inl (Option.ne_none_iff_exists'.mpr ⟨_, hc⟩), .inr rfl⟩
    · cases h
  | openTimeout c =>
    simp only [act] at h
    split at h
    · rename_i hc; cases h; exact ⟨c, _, .inl (Option.ne_none_iff_exists'.mpr ⟨_, hc⟩), .inr rfl⟩
    · cases h
  | localData c data =>
    simp only [act] at h
    split at h
    · rename_i hc
      split at h
      · cases h; exact stays rfl
      · cases h; exact ⟨c, _, .inl (Option.ne_none_iff_exists'.mpr ⟨_, hc⟩), .inr (finish_conns _ c)⟩
    · cases h
  | localEof c =>
    simp only [act] at h
    split at h
    · rename_i hc; cases h; exact ⟨c, _, .inl (Option.ne_none_iff_exists'.mpr ⟨_, hc⟩), .inr (finish_conns f c)⟩
    · cases h

theorem inv_fresh : Inv fresh where
  attached := rfl
  opened _ _ h := by cases h
  conns _ _ h := by cases h
  dials _ h := by cases h
  loops _ h := by cases h

/-- The ids of the three kinds of coroutines. -/
theorem step_ids {s t : Side} {e : Ev} (hi : Inv s) (h : step s e = some t) :
    (∀ c ph, t.fwd.conns.get? c = some ph → c ≤ 65535) ∧
      (∀ d ∈ t.dials, d.channelId ≤ 65535) ∧ ∀ c ∈ t.loops, c ≤ 65535 := by
  cases e with
  | act l =>
    simp only [step] at h
    split at h
    · obtain ⟨f, hf, rfl⟩ := Option.map_eq_some_iff.mp h
      refine ⟨fun k ph hk => ?_, hi.dials, hi.loops⟩
      obtain ⟨c, ph', hc, hconns⟩ := act_conns hf
      rcases hconns with hconns | hconns
      · exact hi.conns k ph (by rw [← hconns]; exact hk)
      · have hk' : (s.fwd.conns.set c ph').get? k = some ph := by rw [← hconns]; exact hk
        rw [Dict.get?_set] at hk'
        split at hk'
        · rename_i hck
          rcases hc with hc | hc
          · obtain ⟨ph0, h0⟩ := Option.ne_none_iff_exists'.mp hc
            exact hck ▸ hi.conns c ph0 h0
          · omega
        · exact hi.conns k ph hk'
    · cases h
  | frame d =>
    simp only [step] at h
    split at h
    · rename_i hd
      cases h
      refine ⟨hi.conns, fun e he => ?_, hi.loops⟩
      rcases List.mem_append.mp he with he | he
      · exact hi.dials e he
      · cases d with
        | handleOpen c host port => rw [List.mem_singleton.mp he]; exact hd
        | _ => cases he
    · cases h
  | dialled d =>
    simp only [step] at h
    split at h
    · rename_i hd
      cases h
      have hmem : ∀ e ∈ s.dials.erase d, e.channelId ≤ 65535 :=
        fun e he => hi.dials e (List.mem_of_mem_erase he)
      unfold dialled
      split
      · refine ⟨hi.conns, hmem, fun c hc => ?_⟩
        rcases List.mem_append.mp hc with hc | hc
        · exact hi.loops c hc
        · rw [List.mem_singleton.mp hc]; exact hi.dials d hd
      · exact ⟨hi.conns, hmem, hi.loops⟩
    · cases h
  | dialFailed d =>
    simp only [step] at h
    split at h
    · cases h
      exact ⟨hi.conns, fun e he => hi.dials e (List.mem_of_mem_erase he), hi.loops⟩
    · cases h
  | targetData c data =>
    simp only [step] at h
    split at h
    · split at h
      · cases h; exact ⟨hi.conns, hi.dials, hi.loops⟩
      · cases h
        exact ⟨hi.conns, hi.dials, fun c hc => hi.loops c (List.mem_of_mem_erase hc)⟩
    · cases h
  | targetEof c =>
    simp only [step] at h
    split at h
    · cases h
      exact ⟨hi.conns, hi.dials, fun c hc => hi.loops c (List.mem_of_mem_erase hc)⟩
    · cases h
  | lost => cases h; exact ⟨hi.conns, hi.dials, hi.loops⟩

theorem step_inv {s t : Side} {e : Ev} (hi : Inv s) (h : step s e = some t) : Inv t := by
  have heff := step_effect hi h
  obtain ⟨hconns, hdials, hloops⟩ := step_ids hi h
  refine ⟨(step_numbered h).attached.trans hi.attached, fun c ch hc => ?_, hconns, hdials, hloops⟩
  rcases heff.channels hc with hch | ⟨ch', hc', hch⟩
  · exact hch
  · rw [← hch]
    exact hi.opened c ch' hc'

theorem inv_run {s t : Side} {es : List Ev} (hr : lts.Run s es t) (hi : Inv s) : Inv t :=
  LTS.Run.invariant (I := Inv) (fun _ _ _ hi hst => step_inv hi hst) hr hi

/-- A run from the start: its calls are counted, and every pending open has an id
that was given out. -/
theorem numbered_run {t : Side} {es : List Ev} (hr : lts.Run fresh es t) :
    Numbered (es.map opens).sum fresh.tunnel t.tunnel := by
  refine LTS.Run.history (I := fun es t => Numbered (es.map opens).sum fresh.tunnel t.tunnel)
    (fun pre s e t _ hi (hst : step s e = some t) => ?_) ?_ hr
  · rw [List.map_append, List.sum_append, List.map_singleton, List.sum_singleton]
    exact hi.trans (step_numbered hst)
  · exact .refl fresh.tunnel

end Wormhole.L4.TunnelSides
