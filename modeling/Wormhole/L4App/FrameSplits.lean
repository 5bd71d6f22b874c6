import Wormhole.Core.Arrivals
import Wormhole.L4App.Proxy
import Wormhole.L4App.RsyncFrames

/-!
# Frames in any chunks

The output of `_send_message` cut into chunks anywhere and passed to `_on_data`,
with other tasks at work between two chunks, for `src/wh/cli/proxy.py` and
`src/wh/cli/rsync.py`. To be in step after a chunk (`InStep`) is to have handled
the frames that are there as a whole, each once and in order, and to keep the
incomplete one.

`frames_any_chunks`: a proxy is in step after every chunk. A peer of rsync is
exactly when no chunk brings the end of a frame whose handler raises and of
another one behind it: what is raised ends the loop, and what is complete in
the buffer waits for the next chunk.
-/
namespace Wormhole.L4.FrameSplits
open Wormhole.L1 Wormhole.Decoder

/-! ## The proxy -/

section Proxy
open Wormhole.L4.Proxy

/-- The handlers that `_process_buffer` calls; `handleConnect` is the coroutine
passed to `create_task`. -/
inductive Call
  | handleConnect (channelId : Nat) (payload : Bytes)
  | handleConnectOk (channelId : Nat)
  | handleConnectFail (channelId : Nat)
  | handleData (channelId : Nat) (payload : Bytes)
  | handleClose (channelId : Nat)
  deriving DecidableEq, Repr

/-- mirrors src/wh/cli/proxy.py:97-106 -/
def invoke (f : Frame) : Option Call :=
  if f.msgType = MSG_CONNECT then some (.handleConnect f.channelId f.payload)
  else if f.msgType = MSG_CONNECT_OK then some (.handleConnectOk f.channelId)
  else if f.msgType = MSG_CONNECT_FAIL then some (.handleConnectFail f.channelId)
  else if f.msgType = MSG_DATA then some (.handleData f.channelId f.payload)
  else if f.msgType = MSG_CLOSE then some (.handleClose f.channelId)
  else none

def perform (p : ProxyProtocol) : Call → ProxyProtocol
  | .handleConnect _ _ => p
  | .handleConnectOk channelId => setResult p channelId true
  | .handleConnectFail channelId => setResult p channelId false
  | .handleData channelId payload => Proxy.handleData p channelId payload
  | .handleClose channelId => remove p channelId

/-- A frame makes its call, or is skipped. -/
theorem dispatch_eq (p : ProxyProtocol) (f : Frame) :
    dispatch p f = match invoke f with
      | some c => perform p c
      | none => p := by
  unfold dispatch invoke
  split_ifs <;> rfl

/-- None of the handlers raises. -/
def proxyHandle (p : ProxyProtocol) (f : Frame) : ProxyProtocol × Option Empty :=
  (dispatch p f, none)

/-- What `struct.pack` and the wire can hold. -/
structure ProxyFits (f : Frame) : Prop where
  channelId : f.channelId < 2 ^ 16
  payload : f.payload.length < 2 ^ 32

/-- What `_send_message` writes. -/
def proxyBytes (f : Frame) : Bytes := f.pack.getD []

theorem proxyBytes_look {f : Frame} (h : ProxyFits f) (tl : Bytes) :
    Proxy.decoder.look (proxyBytes f ++ tl) = .item f tl := by
  have hp : ∃ bs, f.pack = some bs := by
    rw [Frame.pack, pack_of_lt (show f.channelId < 256 ^ 2 from h.channelId),
      pack_of_lt (show f.payload.length < 256 ^ 4 from h.payload)]
    exact ⟨_, rfl⟩
  obtain ⟨bs, hbs⟩ := hp
  rw [proxyBytes, hbs]
  exact Proxy.pack_look hbs tl

theorem calm_proxy (p : ProxyProtocol) (fs : List Frame) : Calm proxyHandle p fs := by
  induction fs generalizing p with
  | nil => trivial
  | cons f fs ih => exact ⟨rfl, ih _⟩

theorem proxy_inStep (p : ProxyProtocol) {fs : List Frame} (hfs : ∀ f ∈ fs, ProxyFits f)
    {es : List (Ev ProxyProtocol UInt8)} (hes : fed es = fs.flatMap proxyBytes) :
    ∀ pre chunk post, es = pre ++ Ev.data chunk :: post →
      InStep Proxy.decoder proxyHandle proxyBytes fs p (pre ++ [Ev.data chunk]) :=
  (inStep_iff (fun _ e => nomatch e) (fun f hf => proxyBytes_look (hfs f hf)) p es hes).mpr
    fun _ _ _ _ => calm_proxy _ _

end Proxy

/-! ## Rsync -/

section Rsync
open Wormhole.L4.RsyncFrames

/-- What the wire can hold. -/
def RsyncFits (f : Frame) : Prop := f.payload.length < 2 ^ 32

/-- What `_send_message` writes. -/
def rsyncBytes (f : Frame) : Bytes := f.pack.getD []

theorem rsyncBytes_look {f : Frame} (h : RsyncFits f) (tl : Bytes) :
    decoder.look (rsyncBytes f ++ tl) = .item f tl := by
  have hp : ∃ bs, f.pack = some bs := by
    rw [Frame.pack, pack_of_lt (show f.payload.length < 256 ^ 4 from h)]
    exact ⟨_, rfl⟩
  obtain ⟨bs, hbs⟩ := hp
  rw [rsyncBytes, hbs]
  exact pack_look hbs tl

variable {φ : Type} (sys : FileSystem φ) (loads : String → Option Json)

/-- Of the frames that a chunk completes, none but the last makes its handler raise. -/
def OnlyLastRaises (r : RsyncProtocol φ) (es : List (Ev (RsyncProtocol φ) UInt8)) (chunk : Bytes) :
    Prop :=
  let rx := after decoder (handle sys loads) ⟨r, []⟩ es
  Calm (handle sys loads) rx.st (decoder.items (rx.buf ++ chunk)).dropLast

end Rsync

/-! ## Both -/

/-- **Headline.** However the frames are cut into chunks, a proxy is in step after
each of them, and a peer of rsync exactly when in every chunk only the last
frame raises. -/
theorem frames_any_chunks
    (p : Proxy.ProxyProtocol) (fs : List Proxy.Frame) (es : List (Ev Proxy.ProxyProtocol UInt8))
    (hfs : ∀ f ∈ fs, ProxyFits f) (hes : fed es = fs.flatMap proxyBytes)
    {φ : Type} (sys : RsyncFrames.FileSystem φ) (loads : String → Option Json)
    (r : RsyncFrames.RsyncProtocol φ) (gs : List RsyncFrames.Frame)
    (es' : List (Ev (RsyncFrames.RsyncProtocol φ) UInt8))
    (hgs : ∀ g ∈ gs, RsyncFits g) (hes' : fed es' = gs.flatMap rsyncBytes) :
    (∀ pre chunk post, es = pre ++ .data chunk :: post →
      InStep Proxy.decoder proxyHandle proxyBytes fs p (pre ++ [.data chunk])) ∧
    ((∀ pre chunk post, es' = pre ++ .data chunk :: post →
        InStep RsyncFrames.decoder (RsyncFrames.handle sys loads) rsyncBytes gs r
          (pre ++ [.data chunk])) ↔
      ∀ pre chunk post, es' = pre ++ .data chunk :: post → OnlyLastRaises sys loads r pre chunk) :=
  ⟨proxy_inStep p hfs hes,
    inStep_iff RsyncFrames.decoder_never (fun g hg => rsyncBytes_look (hgs g hg)) r es' hes'⟩

/-! ## Two frames in one chunk -/

/-- A file system on which everything succeeds. -/
def willing : RsyncFrames.FileSystem Unit :=
  ⟨fun fs _ => (fs, true), fun fs _ _ => (fs, true), fun fs _ => (fs, true),
    fun fs _ => (fs, true)⟩

/-- A `FILE_START` without the length of its path. -/
def headless : RsyncFrames.Frame := ⟨RsyncFrames.MSG_FILE_START, []⟩

def doneFrame : RsyncFrames.Frame := ⟨RsyncFrames.MSG_DONE, []⟩

/-- A frame of an unknown type, and data for channel 1. -/
def proxyFrames : List Proxy.Frame := [⟨9, 0, [1, 2]⟩, ⟨Proxy.MSG_DATA, 1, []⟩]

theorem singleton_split {σ : Type} {c chunk : Bytes} {pre post : List (Ev σ UInt8)}
    (h : [Ev.data c] = pre ++ .data chunk :: post) : pre = [] ∧ chunk = c := by
  cases pre with
  | nil => cases h; exact ⟨rfl, rfl⟩
  | cons e pre =>
    have hnil := (List.cons.inj h).2
    cases pre <;> cases hnil

theorem sample_fits {g : RsyncFrames.Frame} (h : g = doneFrame ∨ g = headless) :
    RsyncFits g := by
  rcases h with rfl | rfl
  · exact Nat.two_pow_pos 32
  · exact Nat.two_pow_pos 32

theorem headless_last :
    (∀ pre chunk post,
      [Ev.data [9, 0, 0, 0], .task id, .data [0, 0, 2, 1, 2, 4, 0, 1, 0, 0, 0, 0]] =
        pre ++ .data chunk :: post →
      InStep Proxy.decoder proxyHandle proxyBytes proxyFrames Proxy.fresh.proxy
        (pre ++ [.data chunk])) ∧
    ∀ pre chunk post, [Ev.data [7, 0, 0, 0, 0, 3, 0, 0, 0, 0]] = pre ++ .data chunk :: post →
      InStep RsyncFrames.decoder (RsyncFrames.handle willing fun _ => none) rsyncBytes
        [doneFrame, headless] (RsyncFrames.init ()) (pre ++ [.data chunk]) := by
  have hfits : ∀ g ∈ [doneFrame, headless], RsyncFits g :=
    fun g hg => sample_fits (by simpa using hg)
  have hproxy : ∀ f ∈ proxyFrames, ProxyFits f := by
    intro f hf
    rcases List.mem_cons.mp hf with rfl | hf
    · exact ⟨by decide, by decide⟩
    · rw [List.mem_singleton.mp hf]
      exact ⟨by decide, by decide⟩
  obtain ⟨h1, h2⟩ := frames_any_chunks Proxy.fresh.proxy proxyFrames
    [.data [9, 0, 0, 0], .task id, .data [0, 0, 2, 1, 2, 4, 0, 1, 0, 0, 0, 0]] hproxy rfl
    willing (fun _ => none) (RsyncFrames.init ()) [doneFrame, headless]
    [.data [7, 0, 0, 0, 0, 3, 0, 0, 0, 0]] hfits rfl
  refine ⟨h1, h2.mpr fun pre chunk post he => ?_⟩
  obtain ⟨rfl, rfl⟩ := singleton_split he
  exact ⟨rfl, trivial⟩

/-- With the frames the other way round the second one is left in the buffer. -/
theorem headless_first : ¬ ∀ (r : RsyncFrames.RsyncProtocol Unit) (gs : List RsyncFrames.Frame)
    (es : List (Ev (RsyncFrames.RsyncProtocol Unit) UInt8)), (∀ g ∈ gs, RsyncFits g) →
    fed es = gs.flatMap rsyncBytes →
    ∀ pre chunk post, es = pre ++ .data chunk :: post →
      InStep RsyncFrames.decoder (RsyncFrames.handle willing fun _ => none) rsyncBytes gs r
        (pre ++ [.data chunk]) := by
  intro h
  have hfits : ∀ g ∈ [headless, doneFrame], RsyncFits g :=
    fun g hg => sample_fits (Or.comm.mp (by simpa using hg))
  have hes : fed [Ev.data (σ := RsyncFrames.RsyncProtocol Unit) [3, 0, 0, 0, 0, 7, 0, 0, 0, 0]] =
      [headless, doneFrame].flatMap rsyncBytes := rfl
  have hstep := h (RsyncFrames.init ()) _ _ hfits hes [] [3, 0, 0, 0, 0, 7, 0, 0, 0, 0] [] rfl
  have hd := handed_decodes (D := RsyncFrames.decoder)
    (H := RsyncFrames.handle willing fun _ => none) ⟨RsyncFrames.init (), []⟩
    [.data [3, 0, 0, 0, 0, 7, 0, 0, 0, 0]]
  have hmore := (cut_iff RsyncFrames.decoder_never (fun g hg => rsyncBytes_look (hfits g hg))
    (hes ▸ List.prefix_refl _) hd).mp hstep
  have hbuf : (after RsyncFrames.decoder (RsyncFrames.handle willing fun _ => none)
      ⟨RsyncFrames.init (), []⟩ [.data [3, 0, 0, 0, 0, 7, 0, 0, 0, 0]]).buf = [7, 0, 0, 0, 0] := rfl
  have hitem : RsyncFrames.decoder.look [7, 0, 0, 0, 0] = .item doneFrame [] :=
    rsyncBytes_look (hfits doneFrame (by simp)) []
  rw [hbuf, hitem] at hmore
  cases hmore

end Wormhole.L4.FrameSplits
