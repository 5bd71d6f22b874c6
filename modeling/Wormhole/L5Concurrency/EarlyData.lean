import Wormhole.L4App.LocalForwarder
import Wormhole.L4App.Proxy

/-!
# Data that comes before the writer

The local ends of the tunnel (`Wormhole.L4.LocalForwarder`) and of the proxy
(`Wormhole.L4.Proxy`) against a far side that answers each channel once, then
sends data on it. The stream between them is cut into chunks anywhere, and the
coroutines of the local connections run at any time between two chunks.

Frames are dispatched inside one pass over the buffer, but a channel's writer
is registered by the coroutine that waits for the answer. `early_data_iff`: a
channel's data is all written if and only if it never reaches the protocol
while `_channels` holds no writer for it. `early_data_dropped`: it does when
it shares a chunk with the answer, and in the proxy also while the SOCKS reply
is drained.
-/
namespace Wormhole.L5.EarlyData
open Wormhole.L1 Wormhole.L3.Tunnel Wormhole.L4

/-! ## The two systems -/

abbrev TunnelSt := Link.St LocalForwarder.Forwarder UInt8 (Dict Nat LocalForwarder.FarPhase)

abbrev ProxySt := Link.St Proxy.Socks UInt8 (Dict Nat Proxy.FarPhase)

def tunnelInit : TunnelSt := ⟨⟨LocalForwarder.fresh, []⟩, [], .empty⟩

def proxyInit : ProxySt := ⟨⟨Proxy.fresh, []⟩, [], .empty⟩

def tunnel : LTS TunnelSt (Link.Lbl (Option Dispatch) LocalForwarder.Act) :=
  LocalForwarder.link.lts LocalForwarder.fresh .empty

def proxy : LTS ProxySt (Link.Lbl Proxy.Frame Proxy.Act) :=
  Proxy.link.lts Proxy.fresh .empty

/-- What the far side of the tunnel sent on a channel. -/
def tunnelSent (c : Nat) (ls : List (Link.Lbl (Option Dispatch) LocalForwarder.Act)) : Bytes :=
  LTS.gather LocalForwarder.link.step (LocalForwarder.link.sent c) tunnelInit ls

/-- What the far side of the proxy sent on a channel. -/
def proxySent (c : Nat) (ls : List (Link.Lbl Proxy.Frame Proxy.Act)) : Bytes :=
  LTS.gather Proxy.link.step (Proxy.link.sent c) proxyInit ls

/-- What the local client of a channel was written, and what is still in the
stream or the buffer, is all that was sent on it, in order. -/
def TunnelComplete (c : Nat) (ls : List (Link.Lbl (Option Dispatch) LocalForwarder.Act))
    (t : TunnelSt) : Prop :=
  LocalForwarder.writtenTo t.rx.st.tunnel c ++ LocalForwarder.link.underWay c t = tunnelSent c ls

def ProxyComplete (c : Nat) (ls : List (Link.Lbl Proxy.Frame Proxy.Act)) (t : ProxySt) : Prop :=
  Proxy.writtenTo t.rx.st.proxy c ++ Proxy.link.underWay c t = proxySent c ls

/-- **Early data is lost, and no other.** In every run of the tunnel and of the
proxy, with any chunking and any order of the tasks, the data of a channel is
complete if and only if no chunk brought data for it while `_channels` had no
writer for it: not before the coroutine that asked for the channel registered
its writer, and not after the entry was removed. -/
theorem early_data_iff (c : Nat) :
    (∀ ls (t : TunnelSt), tunnel.Run tunnelInit ls t →
      (TunnelComplete c ls t ↔
        (tunnel.restrict (LocalForwarder.link.Registers c)).Run tunnelInit ls t)) ∧
    ∀ ls (t : ProxySt), proxy.Run proxyInit ls t →
      (ProxyComplete c ls t ↔
        (proxy.restrict (Proxy.link.Registers c)).Run proxyInit ls t) :=
  ⟨fun _ _ hr => Link.lossless_iff (L := LocalForwarder.link) c rfl hr,
    fun _ _ hr => Link.lossless_iff (L := Proxy.link) c rfl hr⟩

/-! ## Runs on fixed inputs -/

/-- The answer and the first data in one chunk. -/
def tunnelEarly : List (Link.Lbl (Option Dispatch) LocalForwarder.Act) :=
  [.act (.accept "localhost" 80), .far (some (.handleOpenOk 1)),
   .far (some (.handleData 1 [104, 105])), .deliver 64, .act (.resume 1)]

/-- The answer in two chunks, the data once the coroutine has run. -/
def tunnelLate : List (Link.Lbl (Option Dispatch) LocalForwarder.Act) :=
  [.act (.accept "localhost" 80), .far (some (.handleOpenOk 1)), .deliver 2, .deliver 2,
   .act (.resume 1), .far (some (.handleData 1 [104, 105])), .deliver 3, .deliver 64]

/-- The first data while the SOCKS reply is drained. -/
def proxyEarly : List (Link.Lbl Proxy.Frame Proxy.Act) :=
  [.act (.connect "localhost" 80), .far ⟨Proxy.MSG_CONNECT_OK, 1, []⟩, .deliver 64,
   .act (.resume 1), .far ⟨Proxy.MSG_DATA, 1, [104, 105]⟩, .deliver 64, .act (.drained 1)]

def proxyLate : List (Link.Lbl Proxy.Frame Proxy.Act) :=
  [.act (.connect "localhost" 80), .far ⟨Proxy.MSG_CONNECT_OK, 1, []⟩, .deliver 64,
   .act (.resume 1), .act (.drained 1), .far ⟨Proxy.MSG_DATA, 1, [104, 105]⟩, .deliver 8,
   .deliver 64]

def tunnelAfter (ls : List (Link.Lbl (Option Dispatch) LocalForwarder.Act)) : TunnelSt :=
  LTS.after LocalForwarder.link.step tunnelInit ls

def proxyAfter (ls : List (Link.Lbl Proxy.Frame Proxy.Act)) : ProxySt :=
  LTS.after Proxy.link.step proxyInit ls

/-- Data that waits for the writer is written. -/
theorem late_data_complete :
    ((TunnelComplete 1 tunnelLate (tunnelAfter tunnelLate) ↔
        (tunnel.restrict (LocalForwarder.link.Registers 1)).Run tunnelInit tunnelLate
          (tunnelAfter tunnelLate)) ∧
      LocalForwarder.writtenTo (tunnelAfter tunnelLate).rx.st.tunnel 1 = [104, 105]) ∧
    (ProxyComplete 1 proxyLate (proxyAfter proxyLate) ↔
        (proxy.restrict (Proxy.link.Registers 1)).Run proxyInit proxyLate
          (proxyAfter proxyLate)) ∧
      Proxy.writtenTo (proxyAfter proxyLate).rx.st.proxy 1 = [104, 105] :=
  ⟨⟨(early_data_iff 1).1 _ _ (LTS.run_of_exec (LTS.exec_after (by decide +kernel))),
      by decide +kernel⟩,
    (early_data_iff 1).2 _ _ (LTS.run_of_exec (LTS.exec_after (by decide +kernel))),
    by decide +kernel⟩

/-- **The first data of a channel is dropped.** The far side answered and sent
two bytes, all of which was delivered, the local connection is being
forwarded, and nothing was written to it. -/
theorem early_data_dropped :
    (∃ t, tunnel.Run tunnelInit tunnelEarly t ∧ ¬ TunnelComplete 1 tunnelEarly t ∧
      tunnelSent 1 tunnelEarly = [104, 105] ∧ t.rx.buf ++ t.wire = [] ∧
      t.rx.st.conns.get? 1 = some .forwarding ∧
      LocalForwarder.writtenTo t.rx.st.tunnel 1 = []) ∧
    ∃ t, proxy.Run proxyInit proxyEarly t ∧ ¬ ProxyComplete 1 proxyEarly t ∧
      proxySent 1 proxyEarly = [104, 105] ∧ t.rx.buf ++ t.wire = [] ∧
      t.rx.st.clients.get? 1 = some .forwarding ∧
      Proxy.writtenTo t.rx.st.proxy 1 = [] := by
  refine ⟨⟨tunnelAfter tunnelEarly, LTS.run_of_exec (LTS.exec_after (by decide +kernel)), ?_⟩,
    ⟨proxyAfter proxyEarly, LTS.run_of_exec (LTS.exec_after (by decide +kernel)), ?_⟩⟩
  · refine ⟨?_, by decide +kernel, by decide +kernel, by decide +kernel, by decide +kernel⟩
    unfold TunnelComplete
    decide +kernel
  · refine ⟨?_, by decide +kernel, by decide +kernel, by decide +kernel, by decide +kernel⟩
    unfold ProxyComplete
    decide +kernel

end Wormhole.L5.EarlyData
