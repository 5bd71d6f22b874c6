import Wormhole.Core.Framing
import Wormhole.L1Encoding.Json
import Wormhole.L1Encoding.PyBytes

/-!
# The frames of the rsync protocol

`_process_buffer` of `src/wh/cli/rsync.py` and its handlers, on payloads as they
come in. The loop takes a frame off the buffer and calls its handler, which may
raise: on a payload it cannot read, on a future that is done, on the file
system. What the operations of the file system do is a parameter (`FileSystem`),
as is `json.loads`.

What only progress and status messages read is left out.
-/
namespace Wormhole.L4.RsyncFrames
open Wormhole.L1 Wormhole.Decoder

/-! ## Frames -/

def MSG_MANIFEST : UInt8 := 0x01
def MSG_REQUEST : UInt8 := 0x02
def MSG_FILE_START : UInt8 := 0x03
def MSG_FILE_DATA : UInt8 := 0x04
def MSG_FILE_END : UInt8 := 0x05
def MSG_DELETE : UInt8 := 0x06
def MSG_DONE : UInt8 := 0x07

structure Frame where
  msgType : UInt8
  payload : Bytes
  deriving DecidableEq, Repr

/-- `struct.pack(">BI", ...)` and the data; `none` is `struct.error`.
mirrors src/wh/cli/rsync.py:94-99 (`_send_message`) -/
def Frame.pack (f : Frame) : Option Bytes :=
  (L1.pack 4 f.payload.length).map fun len => f.msgType :: len ++ f.payload

/-- The handlers that `_process_buffer` calls. -/
inductive Call
  | handleManifest (payload : Bytes)
  | handleRequest (payload : Bytes)
  | handleFileStart (payload : Bytes)
  | handleFileData (payload : Bytes)
  | handleFileEnd
  | handleDelete (payload : Bytes)
  | handleDone
  deriving DecidableEq, Repr

/-- mirrors src/wh/cli/rsync.py:117-130 -/
def invoke (f : Frame) : Option Call :=
  if f.msgType = MSG_MANIFEST then some (.handleManifest f.payload)
  else if f.msgType = MSG_REQUEST then some (.handleRequest f.payload)
  else if f.msgType = MSG_FILE_START then some (.handleFileStart f.payload)
  else if f.msgType = MSG_FILE_DATA then some (.handleFileData f.payload)
  else if f.msgType = MSG_FILE_END then some .handleFileEnd
  else if f.msgType = MSG_DELETE then some (.handleDelete f.payload)
  else if f.msgType = MSG_DONE then some .handleDone
  else none

/-! ## What the handlers work on -/

inductive RsyncError
  | unicodeDecodeError
  | jsonDecodeError
  | structError
  | typeError
  | invalidStateError   -- `set_result` on a future that is done
  | osError
  deriving DecidableEq, Repr

/-- Operations of a file system, with whether they succeed or raise. -/
structure FileSystem (φ : Type) where
  /-- `parent.mkdir(parents=True, exist_ok=True)` and `open(path, "wb")` -/
  create : φ → String → φ × Bool
  write : φ → String → Bytes → φ × Bool
  close : φ → String → φ × Bool
  /-- `exists`, then `unlink` -/
  remove : φ → String → φ × Bool

/-- The protocol object less its buffer. A future is `none` where there is none,
`some none` while it is pending and `some (some _)` when it is done. -/
structure RsyncProtocol (φ : Type) where
  fs : φ
  currentFile : Option String
  currentFileHandle : Option String
  currentFileSize : Nat
  currentFileReceived : Nat
  filesTransferred : Nat
  bytesTransferred : Nat
  manifestFuture : Option (Option Json)
  requestFuture : Option (Option Json)
  done : Bool

/-- mirrors src/wh/cli/rsync.py:63-87 -/
def init {φ : Type} (fs : φ) : RsyncProtocol φ := ⟨fs, none, none, 0, 0, 0, 0, none, none, false⟩

variable {φ : Type} (sys : FileSystem φ) (loads : String → Option Json)

/-! ## The handlers -/

/-- `json.loads(payload.decode())`. -/
def loadsPayload (payload : Bytes) : Except RsyncError Json :=
  match decode payload with
  | none => .error .unicodeDecodeError
  | some text =>
    match loads text with
    | none => .error .jsonDecodeError
    | some x => .ok x

/-- `_handle_manifest` and `_handle_request`, on their future.
mirrors src/wh/cli/rsync.py:132-142 -/
def settle (future : Option (Option Json)) (payload : Bytes) :
    Option (Option Json) × Option RsyncError :=
  match future with
  | none => (none, none)
  | some result =>
    match loadsPayload loads payload, result with
    | .error e, _ => (some result, some e)
    | .ok _, some _ => (some result, some .invalidStateError)
    | .ok x, none => (some (some x), none)

/-- mirrors src/wh/cli/rsync.py:144-159 -/
def handleFileStart (p : RsyncProtocol φ) (payload : Bytes) :
    RsyncProtocol φ × Option RsyncError :=
  if payload.length < 2 then (p, some .structError)
  else
    let pathLen := unpack (payload.take 2)
    match decode ((payload.drop 2).take pathLen) with
    | none => (p, some .unicodeDecodeError)
    | some path =>
      let sizeBytes := (payload.drop (2 + pathLen)).take 8
      if sizeBytes.length < 8 then (p, some .structError)
      else
        let p := { p with
          currentFile := some path
          currentFileSize := unpack sizeBytes
          currentFileReceived := 0 }
        match sys.create p.fs path with
        | (fs, true) => ({ p with fs := fs, currentFileHandle := some path }, none)
        | (fs, false) => ({ p with fs := fs }, some .osError)

/-- mirrors src/wh/cli/rsync.py:161-171 -/
def handleFileData (p : RsyncProtocol φ) (payload : Bytes) :
    RsyncProtocol φ × Option RsyncError :=
  match p.currentFileHandle with
  | none => (p, none)
  | some path =>
    match sys.write p.fs path payload with
    | (fs, false) => ({ p with fs := fs }, some .osError)
    | (fs, true) =>
      ({ p with
         fs := fs
         currentFileReceived := p.currentFileReceived + payload.length
         bytesTransferred := p.bytesTransferred + payload.length }, none)

/-- mirrors src/wh/cli/rsync.py:173-180 -/
def handleFileEnd (p : RsyncProtocol φ) : RsyncProtocol φ × Option RsyncError :=
  match p.currentFileHandle with
  | none => ({ p with currentFile := none }, none)
  | some path =>
    match sys.close p.fs path with
    | (fs, false) => ({ p with fs := fs }, some .osError)
    | (fs, true) =>
      ({ p with
         fs := fs
         currentFile := none
         currentFileHandle := none
         filesTransferred := p.filesTransferred + 1 }, none)

/-- What `for path in files` goes through; `none` is `TypeError`. -/
def elements : Json → Option (List Json)
  | .arr xs => some xs
  | .obj fields => some (fields.map fun f => .str f.1)
  | .str s => some (s.toList.map fun c => .str (String.singleton c))
  | _ => none

/-- The loop of `_handle_delete`. -/
def removeAll (fs : φ) : List Json → φ × Option RsyncError
  | [] => (fs, none)
  | .str path :: rest =>
    match sys.remove fs path with
    | (fs, true) => removeAll fs rest
    | (fs, false) => (fs, some .osError)
  | _ :: _ => (fs, some .typeError)

/-- mirrors src/wh/cli/rsync.py:182-189 -/
def handleDelete (p : RsyncProtocol φ) (payload : Bytes) :
    RsyncProtocol φ × Option RsyncError :=
  match loadsPayload loads payload with
  | .error e => (p, some e)
  | .ok files =>
    match elements files with
    | none => (p, some .typeError)
    | some paths =>
      let (fs, e) := removeAll sys p.fs paths
      ({ p with fs := fs }, e)

def perform (p : RsyncProtocol φ) : Call → RsyncProtocol φ × Option RsyncError
  | .handleManifest payload =>
    let (future, e) := settle loads p.manifestFuture payload
    ({ p with manifestFuture := future }, e)
  | .handleRequest payload =>
    let (future, e) := settle loads p.requestFuture payload
    ({ p with requestFuture := future }, e)
  | .handleFileStart payload => handleFileStart sys p payload
  | .handleFileData payload => handleFileData sys p payload
  | .handleFileEnd => handleFileEnd sys p
  | .handleDelete payload => handleDelete sys loads p payload
  | .handleDone => ({ p with done := true }, none)

/-- A frame off the buffer; one of unknown type is skipped. -/
def handle (p : RsyncProtocol φ) (f : Frame) : RsyncProtocol φ × Option RsyncError :=
  match invoke f with
  | none => (p, none)
  | some c => perform sys loads p c

/-! ## The decoder -/

/-- `_process_buffer` as an incremental decoder.
mirrors src/wh/cli/rsync.py:106-116 -/
def decoder : Decoder UInt8 Frame RsyncError :=
  headed 5 five_pos (fun header => unpack (header.drop 1)) fun header payload =>
    ⟨header.headD 0, payload⟩

theorem decoder_never (buf : Bytes) (e : RsyncError) : decoder.look buf ≠ .fail e := by
  intro h
  simp only [decoder, headed] at h
  split at h <;> cases h

/-- A packed frame is one item of the loop, whatever follows it. -/
theorem pack_look {f : Frame} {bs : Bytes} (h : f.pack = some bs) (tl : Bytes) :
    decoder.look (bs ++ tl) = .item f tl := by
  obtain ⟨len, hlen, rfl⟩ := Option.map_eq_some_iff.mp h
  obtain ⟨-, h4, hv⟩ := pack_eq_some hlen
  have hh : (f.msgType :: len).length = 5 := by rw [List.length_cons, h4]
  exact headed_look hh hv tl

end Wormhole.L4.RsyncFrames
