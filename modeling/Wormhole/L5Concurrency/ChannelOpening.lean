import Wormhole.L4App.ProxySides
import Wormhole.L4App.TunnelSides

/-!
# Opening a channel

A call of `connect` or of `open_channel` from its start to its end: it takes the
next id and raises, or sends its request and waits, while everything else goes
on, until the answer or the timeout ends it.

It is sound when its request reads as what was asked for, under an id that is
free, or when it fails and leaves the tables as they were (`ConnectSound`,
`OpenSound`). The id has two bytes on the wire and the length of the host one;
the counter and the host have no bound. `connect` makes its entry before it packs
the request, and what raises there leaves the entry behind. `open_channel` packs
first, but its request is read as another one (`Wormhole.L3.Tunnel`).

`opening_sound_iff`: which calls are sound; `long_host_stays`: one that is not.
-/
namespace Wormhole.L5.ChannelOpening
open Wormhole.L1 Wormhole.L4

/-! ## Calls -/

section Calls

variable {σ ε : Type} {ν : Type}

/-- A coroutine with one `await`, started: it has raised, or it waits, other steps
come in between, and one of `lasts` ends it. -/
inductive Call (step : σ → ε → Option σ) (begun : σ) (waits : Prop) (lasts : List ε)
  | raised (h : ¬ waits)
  | ended (h : waits) (mid : List ε) (last : ε) (u t : σ)
      (hmid : LTS.exec step begun mid = some u) (hlast : last ∈ lasts)
      (hend : step u last = some t)

variable {step : σ → ε → Option σ} {begun : σ} {waits : Prop} {lasts : List ε}

/-- The states before and after the last step; a call that raised has no more of its own. -/
def Call.lastStep : Call step begun waits lasts → σ × σ
  | .raised _ => (begun, begun)
  | .ended _ _ _ u t _ _ _ => (u, t)

/-- The call's own steps, from `d` to `d'` and from `e` to `e'`, wrote nothing, or
only under `n`, where it is again as it was. -/
def Restored (n : Nat) (d d' e e' : Dict Nat ν) : Prop :=
  (d' = d ∧ e' = e) ∨
    (e'.get? n = d.get? n ∧ ∀ k, k ≠ n → d'.get? k = d.get? k ∧ e'.get? k = e.get? k)

end Calls

/-! ## `connect` -/

section Connect
open Wormhole.L4.Proxy Wormhole.L4.ProxySides

variable {s : ProxySides.Side} {host : String} {port : UInt16}

/-- The call has taken its id and has raised or waits. -/
def connectBegun (s : ProxySides.Side) (host : String) (port : UInt16) : ProxySides.Side :=
  { s with socks := connect s.socks host port.toNat }

/-- mirrors src/wh/cli/proxy.py:187-214 -/
abbrev ConnectCall (s : ProxySides.Side) (host : String) (port : UInt16) :=
  Call ProxySides.step (connectBegun s host port)
    ((connectBegun s host port).socks.clients.get? s.proxy.nextChannelId = some .connecting)
    [.act (.resume s.proxy.nextChannelId), .act (.connectTimeout s.proxy.nextChannelId)]

/-- The call raised or returned `None`. -/
def ConnectCall.Failed : ConnectCall s host port → Prop
  | .raised _ => True
  | .ended _ _ _ _ t _ _ _ => t.socks.clients.get? s.proxy.nextChannelId ≠ some .replying

/-- What the call sent is one frame for the peer, which reads host and port off it. -/
def ConnectAsked (s : ProxySides.Side) (n : Nat) (host : String) (port : UInt16) : Prop :=
  ∃ payload, Proxy.decoder.Decodes
      ((connectBegun s host port).proxy.sent.drop s.proxy.sent.length).flatten
      [⟨Proxy.MSG_CONNECT, n, payload⟩] [] ∧
    request payload = .asked host port.toNat

def ConnectSound (n : Nat) (c : ConnectCall s host port) : Prop :=
  (ConnectAsked s n host port ∧ s.proxy.channels.get? n = none) ∨
    (ConnectCall.Failed c ∧ Restored n s.proxy.channels (connectBegun s host port).proxy.channels
      c.lastStep.1.proxy.channels c.lastStep.2.proxy.channels)

/-- Before the `n`-th call the counter is at `n`, and neither a client nor an entry
without a writer has that id. -/
theorem connect_fresh {n : Nat} {es : List ProxySides.Ev}
    (hr : ProxySides.lts.Run ProxySides.fresh es s) (hn : (es.map connects).sum + 1 = n) :
    s.proxy.attached = true ∧ s.proxy.nextChannelId = n ∧
      s.proxy.channels.get? n ≠ some ⟨none⟩ ∧ s.socks.clients.get? n = none := by
  have h := ProxySides.numbered_run hr
  have hnext : s.socks.proxy.nextChannelId = n := by
    rw [h.nextChannelId, ← hn]
    exact Nat.add_comm 1 _
  refine ⟨h.attached, hnext, fun hb => ?_, ?_⟩
  · rcases h.bare n hb with hb | hb
    · cases hb
    · omega
  · by_contra hc
    rcases h.clients n hc with hc | hc
    · exact hc rfl
    · omega

/-- A call that did not get its connection leaves no entry under its id. -/
theorem connect_failed_none {c : Nat} {last : ProxySides.Ev} {u t : ProxySides.Side}
    (hlast : last ∈ [ProxySides.Ev.act (.resume c), .act (.connectTimeout c)])
    (hend : ProxySides.step u last = some t) (hf : t.socks.clients.get? c ≠ some .replying) :
    t.proxy.channels.get? c = none := by
  have hgone : ∀ p, (remove p c).channels.get? c = none := fun p => remove_get? p c
  rcases List.mem_pair.mp hlast with rfl | rfl
  · obtain ⟨socks, hact, rfl⟩ := Option.map_eq_some_iff.mp hend
    simp only [Proxy.act] at hact
    split at hact
    · cases hact
      exact absurd (Dict.get?_set_self _ _ _) hf
    · split at hact
      · rename_i hc; cases hact; exact hc
      · cases hact; exact hgone _
    · cases hact
  · obtain ⟨socks, hact, rfl⟩ := Option.map_eq_some_iff.mp hend
    simp only [Proxy.act] at hact
    split at hact
    · cases hact; exact hgone _
    · cases hact

/-- A request that goes out fits the header, and is one frame. -/
theorem connect_sent {p q : ProxyProtocol} {c : Nat} {payload : Bytes} (ha : p.attached = true)
    (h : sendMessage p Proxy.MSG_CONNECT c payload = some q) :
    c ≤ 65535 ∧ ∃ bs, q.sent = p.sent ++ [bs] ∧
      Proxy.decoder.Decodes bs [⟨Proxy.MSG_CONNECT, c, payload⟩] [] := by
  simp only [Proxy.sendMessage, ha, Bool.not_true, Bool.false_eq_true, if_false,
    Option.map_eq_some_iff] at h
  obtain ⟨bs, hbs, rfl⟩ := h
  have hl := pack_look hbs []
  rw [List.append_nil] at hl
  refine ⟨?_, bs, rfl, .cons hl (.nil _)⟩
  unfold Frame.pack at hbs
  split at hbs
  · rename_i hc _; exact TunnelSides.pack_le hc
  · cases hbs

theorem connect_sent_none {p : ProxyProtocol} {c : Nat} {payload : Bytes}
    (hlen : payload.length ≤ 65535) (h : sendMessage p Proxy.MSG_CONNECT c payload = none) :
    65535 < c := by
  by_contra hc
  have e1 : L1.pack 2 c = some (beBytes 2 c) := pack_of_lt (by omega)
  have e2 : L1.pack 4 payload.length = some (beBytes 4 payload.length) := pack_of_lt (by omega)
  simp only [Proxy.sendMessage, Frame.pack, e1, e2] at h
  split at h <;> cases h

theorem opened_new {p : ProxyProtocol} : (opened p).channels.get? p.nextChannelId = some ⟨none⟩ :=
  Dict.get?_set_self _ _ _

theorem opened_sent (p : ProxyProtocol) : (opened p).sent = p.sent := by
  unfold opened remove
  split <;> rfl

/-- A call that raised has sent nothing and left its entry. -/
theorem connect_raised_unsound {n : Nat} (hnext : s.proxy.nextChannelId = n)
    (hbare : s.proxy.channels.get? n ≠ some ⟨none⟩)
    (hc : connect s.socks host port.toNat = { s.socks with proxy := opened s.proxy })
    (h : ¬ (connectBegun s host port).socks.clients.get? s.proxy.nextChannelId = some .connecting) :
    ¬ ConnectSound n (.raised h : ConnectCall s host port) := by
  have hp : (connectBegun s host port).proxy = opened s.proxy := by
    simp only [connectBegun, ProxySides.Side.proxy, hc]
  have hnew : (opened s.proxy).channels.get? n = some ⟨none⟩ := hnext ▸ opened_new
  rintro (⟨⟨payload, hd, -⟩, -⟩ | ⟨-, hr⟩)
  · rw [hp, opened_sent, List.drop_length, List.flatten_nil] at hd
    cases hd with
    | cons hl _ => cases hl
  · have hsame : (opened s.proxy).channels.get? n = s.proxy.channels.get? n := by
      rw [hp] at hr
      rcases hr with ⟨hsame, -⟩ | ⟨hsame, -⟩
      · rw [hsame]
      · rw [← hp]; exact hsame
    exact hbare (hsame ▸ hnew)

/-- A call that sent its request is sound when its id was free. -/
theorem connect_ended_sound_iff {n : Nat} {q : ProxyProtocol} (hnext : s.proxy.nextChannelId = n)
    (ha : s.proxy.attached = true) (hbare : s.proxy.channels.get? n ≠ some ⟨none⟩)
    (hlen : (encode host).length ≤ 255)
    (hq : sendMessage (opened s.proxy) Proxy.MSG_CONNECT n
      (UInt8.ofNat (encode host).length :: encode host ++ beBytes 2 port.toNat) = some q)
    (hp : (connectBegun s host port).proxy = q)
    (hw : (connectBegun s host port).socks.clients.get? s.proxy.nextChannelId = some .connecting)
    {mid : List ProxySides.Ev} {last : ProxySides.Ev} {u t : ProxySides.Side}
    (hmid : LTS.exec ProxySides.step (connectBegun s host port) mid = some u)
    (hlast : last ∈ [ProxySides.Ev.act (.resume s.proxy.nextChannelId),
      .act (.connectTimeout s.proxy.nextChannelId)])
    (hend : ProxySides.step u last = some t) :
    ConnectSound n (.ended hw mid last u t hmid hlast hend : ConnectCall s host port) ↔
      s.proxy.channels.get? n = none := by
  have hopen : (opened s.proxy).attached = true :=
    (keeps_remove s.proxy s.proxy.nextChannelId).attached.trans ha
  obtain ⟨-, bs, hsent, hdec⟩ := connect_sent hopen hq
  constructor
  · rintro (⟨-, hfree⟩ | ⟨hf, hr⟩)
    · exact hfree
    · rcases hr with ⟨hsame, -⟩ | ⟨hsame, -⟩
      · rw [hp, (sendMessage_frame hq).1] at hsame
        rw [← hsame, ← hnext] at hbare
        exact absurd opened_new hbare
      · rw [← hsame, ← hnext]
        exact connect_failed_none hlast hend hf
  · intro hfree
    refine .inl ⟨⟨_, ?_, request_payload hlen⟩, hfree⟩
    rw [hp, hsent, opened_sent, List.drop_left, List.flatten_singleton]
    exact hdec

/-- Which calls of `connect` are sound. -/
theorem connect_sound_iff {n : Nat} {es : List ProxySides.Ev}
    (hr : ProxySides.lts.Run ProxySides.fresh es s) (hn : (es.map connects).sum + 1 = n)
    (c : ConnectCall s host port) :
    ConnectSound n c ↔
      n ≤ 65535 ∧ (encode host).length ≤ 255 ∧ s.proxy.channels.get? n = none := by
  obtain ⟨hattached, hnext, hbare, hclient⟩ := connect_fresh hr hn
  have hport : L1.pack 2 port.toNat = some (beBytes 2 port.toNat) := by
    have := port.toNat_lt
    exact pack_of_lt (by omega)
  rcases connect_spec s.socks host port.toNat with ⟨hbad, hc⟩ | ⟨portBytes, q, hlen, hp, hq, hc⟩
  · have hraised : (connectBegun s host port).socks.clients.get? s.proxy.nextChannelId = none := by
      rw [hnext]
      simp only [connectBegun, hc]
      exact hclient
    have hfits : ¬ (n ≤ 65535 ∧ (encode host).length ≤ 255 ∧ s.proxy.channels.get? n = none) := by
      rintro ⟨h1, h2, -⟩
      rcases hbad with hb | hb | ⟨portBytes, -, hp, hb⟩
      · omega
      · rw [hport] at hb; cases hb
      · have htwo := (pack_eq_some hp).2.1
        have := connect_sent_none (by simp only [List.length_append, List.length_cons]; omega) hb
        rw [show s.socks.proxy.nextChannelId = n from hnext] at this
        omega
    cases c with
    | raised h => exact iff_of_false (connect_raised_unsound hnext hbare hc h) hfits
    | ended h _ _ _ _ _ _ _ => rw [hraised] at h; cases h
  · rw [hport] at hp
    cases hp
    rw [show s.socks.proxy.nextChannelId = n from hnext] at hq
    have hopen : (opened s.proxy).attached = true :=
      (keeps_remove s.proxy s.proxy.nextChannelId).attached.trans hattached
    cases c with
    | raised h =>
      refine absurd ?_ h
      simp only [connectBegun, hc]
      exact Dict.get?_set_self _ _ _
    | ended hw mid last u t hmid hlast hend =>
      have hb : (connectBegun s host port).proxy = q := by
        simp only [connectBegun, ProxySides.Side.proxy, hc]
      rw [connect_ended_sound_iff hnext hattached hbare hlen hq hb hw hmid hlast hend]
      exact ⟨fun hfree => ⟨(connect_sent hopen hq).1, hlen, hfree⟩, fun h => h.2.2⟩

end Connect

/-! ## `open_channel` -/

section Open
open Wormhole.L3.Tunnel Wormhole.L4.LocalForwarder Wormhole.L4.TunnelSides

variable {s : TunnelSides.Side} {host : String} {port : UInt16}

def openBegun (s : TunnelSides.Side) (host : String) (port : UInt16) : TunnelSides.Side :=
  { s with fwd := accept s.fwd host port.toNat }

/-- mirrors src/wh/cli/tunnel.py:187-216 -/
abbrev OpenCall (s : TunnelSides.Side) (host : String) (port : UInt16) :=
  Call TunnelSides.step (openBegun s host port) ((openChannel s.tunnel host port.toNat).2 = none)
    [.act (.resume s.tunnel.nextChannelId), .act (.openTimeout s.tunnel.nextChannelId)]

/-- The call raised or returned `None`. -/
def OpenCall.Failed : OpenCall s host port → Prop
  | .raised _ => True
  | .ended _ _ _ _ t _ _ _ => t.fwd.conns.get? s.tunnel.nextChannelId ≠ some .forwarding

/-- The wait was ended by an `OPEN_OK`. -/
def OpenCall.Answered : OpenCall s host port → Prop
  | .raised _ => False
  | .ended _ _ last u _ _ _ _ => last = .act (.resume s.tunnel.nextChannelId) ∧
      u.tunnel.pendingOpens.get? s.tunnel.nextChannelId = some (some true)

/-- What the call sent is one request for the peer, the one asked for. -/
def OpenAsked (s : TunnelSides.Side) (n : Nat) (host : String) (port : UInt16) : Prop :=
  ∃ ds, L3.Tunnel.decoder.Decodes (openBytes s.tunnel host port.toNat) ds [] ∧
    ds.filterMap id = [.handleOpen n host port.toNat]

def OpenSound (n : Nat) (c : OpenCall s host port) : Prop :=
  (OpenAsked s n host port ∧ s.tunnel.channels.get? n = none ∧
      s.tunnel.pendingOpens.get? n = none) ∨
    (OpenCall.Failed c ∧
      Restored n s.tunnel.channels (openBegun s host port).tunnel.channels
        c.lastStep.1.tunnel.channels c.lastStep.2.tunnel.channels ∧
      Restored n s.tunnel.pendingOpens (openBegun s host port).tunnel.pendingOpens
        c.lastStep.1.tunnel.pendingOpens c.lastStep.2.tunnel.pendingOpens)

theorem openBegun_tunnel (s : TunnelSides.Side) (host : String) (port : UInt16) :
    (openBegun s host port).tunnel = (openChannel s.tunnel host port.toNat).1 := by
  unfold openBegun TunnelSides.Side.tunnel accept
  split <;> rename_i h <;> rw [h]

theorem open_fresh {n : Nat} {es : List TunnelSides.Ev}
    (hr : TunnelSides.lts.Run TunnelSides.fresh es s) (hn : (es.map opens).sum + 1 = n) :
    s.tunnel.attached = true ∧ s.tunnel.nextChannelId = n ∧
      s.tunnel.pendingOpens.get? n = none := by
  have h := TunnelSides.numbered_run hr
  have hnext : s.tunnel.nextChannelId = n := by
    rw [h.nextChannelId, ← hn]
    exact Nat.add_comm 1 _
  refine ⟨h.attached, hnext, ?_⟩
  by_contra hp
  rcases h.pending n hp with hp | hp
  · exact hp rfl
  · omega

/-- The last step of a call: its channel is registered and forwards, or nothing but
the pending open is gone. -/
theorem open_end {c : Nat} {last : TunnelSides.Ev} {u t : TunnelSides.Side}
    (hlast : last ∈ [TunnelSides.Ev.act (.resume c), .act (.openTimeout c)])
    (hend : TunnelSides.step u last = some t) :
    (last = .act (.resume c) ∧ u.tunnel.pendingOpens.get? c = some (some true) ∧
      t.fwd.conns.get? c = some .forwarding) ∨
    (¬ (last = .act (.resume c) ∧ u.tunnel.pendingOpens.get? c = some (some true)) ∧
      t.fwd.conns.get? c = some .ended ∧ t.tunnel = forget u.tunnel c) := by
  rcases List.mem_pair.mp hlast with rfl | rfl
  · simp only [TunnelSides.step, TunnelSides.Readable, if_true, Option.map_eq_some_iff] at hend
    obtain ⟨fwd, hact, rfl⟩ := hend
    simp only [LocalForwarder.act] at hact
    split at hact
    · rename_i hp; cases hact; exact .inl ⟨rfl, hp, Dict.get?_set_self _ _ _⟩
    · rename_i hp
      cases hact
      refine .inr ⟨fun h => ?_, Dict.get?_set_self _ _ _, rfl⟩
      rw [show u.tunnel.pendingOpens.get? c = some (some false) from hp] at h
      cases h.2
    · cases hact
  · simp only [TunnelSides.step, TunnelSides.Readable, if_true, Option.map_eq_some_iff] at hend
    obtain ⟨fwd, hact, rfl⟩ := hend
    simp only [LocalForwarder.act] at hact
    split at hact
    · cases hact; exact .inr ⟨fun h => (by cases h.1), Dict.get?_set_self _ _ _, rfl⟩
    · cases hact

theorem restored_forget {n : Nat} {d d' e : Dict Nat (Option Bool)} (hd : d.get? n = none)
    (hset : d' = d.set n none) : Restored n d d' e (e.del n) := by
  refine .inr ⟨by rw [Dict.get?_del_self, hd], fun k hk => ⟨?_, Dict.get?_del_ne _ (Ne.symm hk)⟩⟩
  rw [hset]
  exact Dict.get?_set_ne _ _ (Ne.symm hk)

/-- The request is the one asked for when host and port spell the stray header. -/
theorem openAsked_iff {n : Nat} (ha : s.tunnel.attached = true) (hnext : s.tunnel.nextChannelId = n)
    (hn : n ≤ 65535) (hlen : (encode host).length ≤ 255) :
    OpenAsked s n host port ↔ SpellsHeader n host port.toNat := by
  subst hnext
  have hport : port.toNat ≤ 65535 := Nat.le_of_lt_succ port.toNat_lt
  unfold OpenAsked
  rw [openBytes_eq ha hn hlen hport]
  constructor
  · rintro ⟨ds, hd, hone⟩
    exact spells_of_decodes hn hlen hd hone
  · intro hs
    exact ⟨_, decodes_of_spells hn hs, rfl⟩

theorem open_len {t : TunnelProtocol} {port : Nat} (h : (openChannel t host port).2 = none) :
    (encode host).length ≤ 255 := by
  by_contra hlen
  rw [openChannel, if_pos (by omega)] at h
  cases h

/-- Which calls of `open_channel` are sound. -/
theorem open_sound_iff {n : Nat} {es : List TunnelSides.Ev}
    (hr : TunnelSides.lts.Run TunnelSides.fresh es s) (hn : (es.map opens).sum + 1 = n)
    (c : OpenCall s host port) :
    OpenSound n c ↔ 65535 < n ∨ 255 < (encode host).length ∨ ¬ OpenCall.Answered c ∨
      (SpellsHeader n host port.toNat ∧ s.tunnel.channels.get? n = none) := by
  obtain ⟨hattached, hnext, hpending⟩ := open_fresh hr hn
  have hbegun := openBegun_tunnel s host port
  rcases openChannel_spec s.tunnel host port.toNat with ⟨hraise, hc⟩ | ⟨hok, hfits, sent, hc⟩
  · rw [hc] at hbegun
    cases c with
    | ended h _ _ _ _ _ _ _ => exact absurd h hraise
    | raised h =>
      refine iff_of_true (.inr ⟨trivial, .inl ⟨?_, rfl⟩, .inl ⟨?_, rfl⟩⟩) (.inr (.inr (.inl id)))
      · rw [hbegun]
      · rw [hbegun]
  · rw [hc] at hbegun
    rw [hnext] at hfits
    have hlen := open_len hok
    have hasked : OpenAsked s n host port ↔ SpellsHeader n host port.toNat :=
      openAsked_iff hattached hnext hfits hlen
    cases c with
    | raised h => exact absurd hok h
    | ended h mid last u t hmid hlast hend =>
      rcases open_end hlast hend with ⟨hres, hp, hfwd⟩ | ⟨hnot, hended, hforget⟩
      · -- the peer's `OPEN_OK`: all that counts is the request
        have hf : ¬ OpenCall.Failed
            (.ended h mid last u t hmid hlast hend : OpenCall s host port) := fun hf => hf hfwd
        have hans : OpenCall.Answered
            (.ended h mid last u t hmid hlast hend : OpenCall s host port) := ⟨hres, hp⟩
        constructor
        · rintro (⟨ha, hfree, -⟩ | ⟨hf', -⟩)
          · exact .inr (.inr (.inr ⟨hasked.mp ha, hfree⟩))
          · exact absurd hf' hf
        · rintro (h1 | h1 | h1 | ⟨hs, hfree⟩)
          · omega
          · omega
          · exact absurd hans h1
          · exact .inl ⟨hasked.mpr hs, hfree, hpending⟩
      · refine iff_of_true (.inr ⟨fun hfwd => ?_, .inl ⟨?_, ?_⟩, ?_⟩) (.inr (.inr (.inl hnot)))
        · rw [hended] at hfwd; cases hfwd
        · rw [hbegun]
        · simp only [Call.lastStep, hforget]; rfl
        · simp only [Call.lastStep, hforget]
          rw [hbegun]
          subst hnext
          exact restored_forget hpending rfl

end Open

/-! ## The calls of a connection -/

/-- **Headline.** The `n`-th call of `connect` on a connection is sound exactly when
its id and its host fit the request and the id is in no entry. The `n`-th call of
`open_channel` is sound exactly when the id or the host does not fit, no `OPEN_OK`
ends it, or host and port spell the stray header under a free id. -/
theorem opening_sound_iff (n : Nat) (host : String) (port : UInt16) :
    (∀ (es : List ProxySides.Ev) (s : ProxySides.Side),
      ProxySides.lts.Run ProxySides.fresh es s → (es.map ProxySides.connects).sum + 1 = n →
      ∀ c : ConnectCall s host port, ConnectSound n c ↔
        n ≤ 65535 ∧ (encode host).length ≤ 255 ∧ s.proxy.channels.get? n = none) ∧
    (∀ (es : List TunnelSides.Ev) (s : TunnelSides.Side),
      TunnelSides.lts.Run TunnelSides.fresh es s → (es.map TunnelSides.opens).sum + 1 = n →
      ∀ c : OpenCall s host port, OpenSound n c ↔
        65535 < n ∨ 255 < (encode host).length ∨ ¬ OpenCall.Answered c ∨
          (L3.Tunnel.SpellsHeader n host port.toNat ∧ s.tunnel.channels.get? n = none)) :=
  ⟨fun _ _ hr hn c => connect_sound_iff hr hn c, fun _ _ hr hn c => open_sound_iff hr hn c⟩

/-- The first `connect` of a proxy, answered by `CONNECT_OK`. -/
def answeredConnect : ConnectCall ProxySides.fresh "localhost" 80 :=
  .ended rfl [.frame ⟨Proxy.MSG_CONNECT_OK, 1, []⟩] (.act (.resume 1)) _ _ rfl
    (List.mem_cons_self ..) rfl

/-- The first `open_channel` of a tunnel, refused. -/
def refusedOpen : OpenCall TunnelSides.fresh "localhost" 80 :=
  .ended rfl [.frame (.handleOpenFail 1)] (.act (.resume 1)) _ _ rfl (List.mem_cons_self ..) rfl

theorem first_calls_sound : ConnectSound 1 answeredConnect ∧ OpenSound 1 refusedOpen :=
  ⟨((opening_sound_iff 1 "localhost" 80).1 [] _ (.nil _) rfl _).mpr ⟨by omega, by decide, rfl⟩,
    ((opening_sound_iff 1 "localhost" 80).2 [] _ (.nil _) rfl _).mpr
      (.inr (.inr (.inl fun h => by cases h.2)))⟩

/-- A host of `n` bytes. -/
def hostOf (n : Nat) : String := String.ofList (List.replicate n 'a')

theorem hostOf_length (n : Nat) : (encode (hostOf n)).length = n := by
  have hone : 'a'.utf8Size = 1 := rfl
  rw [hostOf, encode_ofList]
  simp [hone]

def longHost : String := hostOf 256

/-- `connect` raises, and the entry that it has made is still there. -/
theorem long_host_stays :
    (connectBegun ProxySides.fresh longHost 80).proxy.channels.get? 1 = some ⟨none⟩ ∧
    ¬ ∀ (n : Nat) (host : String) (port : UInt16),
      (∀ (es : List ProxySides.Ev) (s : ProxySides.Side),
        ProxySides.lts.Run ProxySides.fresh es s → (es.map ProxySides.connects).sum + 1 = n →
        ∀ c : ConnectCall s host port, ConnectSound n c) ∧
      (∀ (es : List TunnelSides.Ev) (s : TunnelSides.Side),
        TunnelSides.lts.Run TunnelSides.fresh es s → (es.map TunnelSides.opens).sum + 1 = n →
        ∀ c : OpenCall s host port, OpenSound n c) := by
  have hlen : (encode longHost).length = 256 := hostOf_length 256
  have hraise : Proxy.connect Proxy.fresh longHost 80 =
      { Proxy.fresh with proxy := ProxySides.opened Proxy.fresh.proxy } := by
    rw [Proxy.connect, if_pos (by omega)]
    rfl
  have hbegun : connectBegun ProxySides.fresh longHost 80 =
      { ProxySides.fresh with
        socks := { Proxy.fresh with proxy := ProxySides.opened Proxy.fresh.proxy } } :=
    congrArg (fun socks => { ProxySides.fresh with socks := socks }) hraise
  refine ⟨by rw [hbegun]; rfl, fun h => ?_⟩
  have hsound := (h 1 longHost 80).1 [] _ (.nil _) rfl (.raised (by rw [hbegun]; nofun))
  have := ((connect_sound_iff (.nil _) rfl _).mp hsound).2.1
  omega

end Wormhole.L5.ChannelOpening
