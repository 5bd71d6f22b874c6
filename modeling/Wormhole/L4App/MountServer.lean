import Wormhole.Core.Framing
import Wormhole.Core.LTS
import Wormhole.L1Encoding.Json
import Wormhole.L1Encoding.PyBytes
import Wormhole.L4App.ServedPaths

/-!
# The mount server

The server's half of `MountProtocol` (`src/wh/cli/mount.py`): the frames, the
request handlers with their nested `try`s, and the answers, which go to the
`StreamingProtocol` in `_protocol`.

Operating system calls, `json` and `base64` are the parameter `Os`; a request's
fields are whatever `json.loads` returns, and a call raises on a wrong type. A
handler has no suspension points. A server sends no requests, so a response
that it is sent belongs to none.

* `handleRequest_one`: a request is answered by one frame with its id, sent to
  `_protocol`.
-/
namespace Wormhole.L4.Mount
open Wormhole.L1 Wormhole.PosixPath Wormhole.Decoder

/-! ## Frames -/

def MSG_GETATTR : UInt8 := 0x01
def MSG_READDIR : UInt8 := 0x02
def MSG_READ : UInt8 := 0x03
def MSG_WRITE : UInt8 := 0x04
def MSG_CREATE : UInt8 := 0x05
def MSG_MKDIR : UInt8 := 0x06
def MSG_UNLINK : UInt8 := 0x07
def MSG_RMDIR : UInt8 := 0x08
def MSG_RENAME : UInt8 := 0x09
def MSG_TRUNCATE : UInt8 := 0x0A
def MSG_CHMOD : UInt8 := 0x0B
def MSG_RESPONSE : UInt8 := 0x10
def MSG_ERROR : UInt8 := 0x11

structure Frame where
  msgType : UInt8
  requestId : Nat
  payload : Bytes
  deriving DecidableEq, Repr

/-- `struct.pack(">BII", ...)` does not raise. -/
def Frame.fits (f : Frame) : Bool := f.requestId < 256 ^ 4 && f.payload.length < 256 ^ 4

/-- `struct.pack(">BII", ...)` and the data. -/
def Frame.pack (f : Frame) : Bytes :=
  f.msgType :: (beBytes 4 f.requestId ++ beBytes 4 f.payload.length) ++ f.payload

/-- Neither a response nor an error. -/
def Frame.isRequest (f : Frame) : Bool := f.msgType ≠ MSG_RESPONSE && f.msgType ≠ MSG_ERROR

/-- The loop of `_process_buffer` as an incremental decoder.
mirrors src/wh/cli/mount.py:94-103 -/
def decoder : Decoder UInt8 Frame Empty :=
  .headed 9 (by omega) (fun header => unpack (header.drop 5)) fun header payload =>
    ⟨header.headD 0, unpack ((header.drop 1).take 4), payload⟩

theorem pack_look {f : Frame} (h : f.fits = true) (tl : Bytes) :
    decoder.look (f.pack ++ tl) = .item f tl := by
  obtain ⟨hid, hlen⟩ : f.requestId < 256 ^ 4 ∧ f.payload.length < 256 ^ 4 := by
    simpa [Frame.fits] using h
  have hid4 : (beBytes 4 f.requestId).length = 4 := length_beBytes 4 f.requestId
  have hhead : (f.msgType :: (beBytes 4 f.requestId ++ beBytes 4 f.payload.length)).length = 9 := by
    simp
  have hbody : (fun header : Bytes => unpack (header.drop 5))
      (f.msgType :: (beBytes 4 f.requestId ++ beBytes 4 f.payload.length)) = f.payload.length := by
    show unpack ((beBytes 4 f.requestId ++ beBytes 4 f.payload.length).drop 4) = _
    rw [List.drop_left' hid4, unpack_beBytes, Nat.mod_eq_of_lt hlen]
  have hmade : decoder.look (f.pack ++ tl) =
      .item ⟨f.msgType, unpack ((beBytes 4 f.requestId ++ beBytes 4 f.payload.length).take 4),
        f.payload⟩ tl :=
    headed_look hhead hbody tl
  rw [hmade, List.take_left' hid4, unpack_beBytes, Nat.mod_eq_of_lt hid]

/-! ## Exceptions and the operating system -/

/-- The exception classes that the handlers tell apart. -/
inductive Kind
  | permissionError
  | fileNotFoundError
  | other
  deriving DecidableEq, Repr

/-- An exception with its `str`. -/
structure Exn where
  kind : Kind
  text : String
  deriving DecidableEq, Repr

def EIO : Nat := 5
def ENOENT : Nat := 2
def EACCES : Nat := 13
def ENOSYS : Nat := 38

/-- What `os.stat` returns; the times are floats. -/
structure Stat where
  mode : Nat
  size : Nat
  atime : PyFloat
  mtime : PyFloat
  ctime : PyFloat
  uid : Nat
  gid : Nat
  nlink : Nat

/-- The library calls, on the files `φ`. Where a call changes files, it may have
changed some when it raises. -/
structure Os (φ : Type) where
  loads : Bytes → Except Exn Json
  dumps : Json → Bytes
  b64encode : Bytes → String
  b64decode : Json → Except Exn Bytes
  stat : φ → Str → Except Exn Stat
  listdir : φ → Str → Except Exn (List String)
  readAt : φ → Str → Json → Json → Except Exn Bytes
  writeAt : φ → Str → Json → Bytes → φ × Except Exn Nat
  create : φ → Str → Json → φ × Except Exn Unit
  mkdir : φ → Str → Json → φ × Except Exn Unit
  unlink : φ → Str → φ × Except Exn Unit
  rmdir : φ → Str → φ × Except Exn Unit
  rename : φ → Str → Str → φ × Except Exn Unit
  truncate : φ → Str → Json → φ × Except Exn Unit
  chmod : φ → Str → Json → φ × Except Exn Unit

/-! ## State -/

/-- A `StreamingProtocol` that the factory has built. -/
structure StreamingProtocol where
  connected : Bool
  written : Bytes
  deriving DecidableEq, Repr

/-- A server, less its buffer, in its process. `protocol` is `_protocol`, as a
position in `conns`. `received` is what the connections have handed over and
`requests` are the requests decoded: both are histories. -/
structure Server (φ : Type) where
  root : ServedPaths.Root
  protocol : Option Nat
  files : φ
  conns : List StreamingProtocol
  tasks : List Frame
  connected : Bool
  done : Bool
  received : Bytes
  requests : List Frame

variable {φ : Type}

/-! ## Sending -/

/-- mirrors src/wh/core/protocol.py:62-65 -/
def StreamingProtocol.send (c : StreamingProtocol) (data : Bytes) : StreamingProtocol :=
  if c.connected then { c with written := c.written ++ data } else c

def structError : Exn := ⟨.other, "'I' format requires 0 <= number <= 4294967295"⟩

/-- What a coroutine leaves behind, and what it raised. -/
abbrev Result (φ : Type) := Server φ × Option Exn

/-- mirrors src/wh/cli/mount.py:82-87 -/
def sendMessage (s : Server φ) (f : Frame) : Result φ :=
  match s.protocol with
  | none => (s, none)
  | some i =>
    if f.fits then ({ s with conns := s.conns.modify i (·.send f.pack) }, none)
    else (s, some structError)

/-- mirrors src/wh/cli/mount.py:288-290 -/
def sendResponse (os : Os φ) (s : Server φ) (id : Nat) (data : Json) : Result φ :=
  sendMessage s ⟨MSG_RESPONSE, id, os.dumps data⟩

/-- mirrors src/wh/cli/mount.py:292-295 -/
def sendError (os : Os φ) (s : Server φ) (id code : Nat) (message : String) : Result φ :=
  sendMessage s ⟨MSG_ERROR, id, os.dumps (.obj [("error", .int code), ("message", .str message)])⟩

/-! ## The handlers -/

/-- `try` a call and send its result, `except Exception` send `EIO`. -/
def reply (os : Os φ) (s : Server φ) (id : Nat) : Except Exn Json → Result φ
  | .error e => sendError os s id EIO e.text
  | .ok data =>
    match sendResponse os s id data with
    | (s, none) => (s, none)
    | (s, some e) => sendError os s id EIO e.text

def success : Json := .obj [("success", .bool true)]

/-- `reply` to a call that changes files and returns nothing. -/
def replySuccess (os : Os φ) (s : Server φ) (id : Nat) (r : φ × Except Exn Unit) : Result φ :=
  reply os { s with files := r.1 } id (r.2.map fun _ => success)

/-- mirrors src/wh/cli/mount.py:164-180 -/
def handleGetattr (os : Os φ) (s : Server φ) (id : Nat) (path : Str) : Result φ :=
  match os.stat s.files path with
  | .ok st =>
    sendResponse os s id (.obj [("mode", .int st.mode), ("size", .int st.size),
      ("atime", .float st.atime), ("mtime", .float st.mtime), ("ctime", .float st.ctime),
      ("uid", .int st.uid), ("gid", .int st.gid), ("nlink", .int st.nlink)])
  | .error e =>
    if e.kind = .fileNotFoundError then sendError os s id ENOENT "File not found"
    else (s, some e)

/-- mirrors src/wh/cli/mount.py:182-189 -/
def handleReaddir (os : Os φ) (s : Server φ) (id : Nat) (path : Str) : Result φ :=
  reply os s id ((os.listdir s.files path).map fun names =>
    .obj [("entries", .arr ([".", ".."] ++ names |>.map Json.str))])

/-- mirrors src/wh/cli/mount.py:191-204 -/
def handleRead (os : Os φ) (s : Server φ) (id : Nat) (path : Str) (request : Fields) : Result φ :=
  let offset := request.get "offset" (.int 0)
  let size := request.get "size" (.int 4096)
  reply os s id ((os.readAt s.files path offset size).map fun data =>
    .obj [("data", .str (os.b64encode data))])

/-- The data is decoded before the `try`.
mirrors src/wh/cli/mount.py:206-218 -/
def handleWrite (os : Os φ) (s : Server φ) (id : Nat) (path : Str) (request : Fields) :
    Result φ :=
  let offset := request.get "offset" (.int 0)
  match os.b64decode (request.get "data" (.str "")) with
  | .error e => (s, some e)
  | .ok data =>
    let r := os.writeAt s.files path offset data
    reply os { s with files := r.1 } id (r.2.map fun written => .obj [("written", .int written)])

/-- mirrors src/wh/cli/mount.py:220-229 -/
def handleCreate (os : Os φ) (s : Server φ) (id : Nat) (path : Str) (request : Fields) :
    Result φ :=
  replySuccess os s id (os.create s.files path (request.get "mode" (.int 0o644)))

/-- mirrors src/wh/cli/mount.py:231-239 -/
def handleMkdir (os : Os φ) (s : Server φ) (id : Nat) (path : Str) (request : Fields) :
    Result φ :=
  replySuccess os s id (os.mkdir s.files path (request.get "mode" (.int 0o755)))

/-- mirrors src/wh/cli/mount.py:241-247 -/
def handleUnlink (os : Os φ) (s : Server φ) (id : Nat) (path : Str) : Result φ :=
  replySuccess os s id (os.unlink s.files path)

/-- mirrors src/wh/cli/mount.py:249-255 -/
def handleRmdir (os : Os φ) (s : Server φ) (id : Nat) (path : Str) : Result φ :=
  replySuccess os s id (os.rmdir s.files path)

/-- `_resolve_path` of a value that `request.get` returns.
mirrors src/wh/cli/mount.py:110-123 -/
def resolvePath (root : ServedPaths.Root) : Json → Except Exn Str
  | .str path =>
    match ServedPaths.Mount.resolvePath root path.toList with
    | some resolved => .ok resolved
    | none => .error ⟨.permissionError, "Access denied: path outside root directory"⟩
  | x => .error ⟨.other, "'" ++ x.typeName ++ "' object has no attribute 'lstrip'"⟩

/-- The new path is resolved before the `try`.
mirrors src/wh/cli/mount.py:257-265 -/
def handleRename (os : Os φ) (s : Server φ) (id : Nat) (path : Str) (request : Fields) :
    Result φ :=
  match resolvePath s.root (request.get "new_path" (.str "")) with
  | .error e => (s, some e)
  | .ok newPath => replySuccess os s id (os.rename s.files path newPath)

/-- mirrors src/wh/cli/mount.py:267-276 -/
def handleTruncate (os : Os φ) (s : Server φ) (id : Nat) (path : Str) (request : Fields) :
    Result φ :=
  replySuccess os s id (os.truncate s.files path (request.get "length" (.int 0)))

/-- mirrors src/wh/cli/mount.py:278-286 -/
def handleChmod (os : Os φ) (s : Server φ) (id : Nat) (path : Str) (request : Fields) :
    Result φ :=
  replySuccess os s id (os.chmod s.files path (request.get "mode" (.int 0o644)))

/-! ## Requests -/

/-- The request of a payload: `request.get` needs a dict.
mirrors src/wh/cli/mount.py:128-129 -/
def parseRequest (os : Os φ) (payload : Bytes) : Except Exn Fields :=
  match if payload = [] then .ok (.obj []) else os.loads payload with
  | .error e => .error e
  | .ok (.obj request) => .ok request
  | .ok x => .error ⟨.other, "'" ++ x.typeName ++ "' object has no attribute 'get'"⟩

/-- mirrors src/wh/cli/mount.py:132-155 -/
def handleParsed (os : Os φ) (s : Server φ) (msgType : UInt8) (id : Nat) (resolved : Str)
    (request : Fields) : Result φ :=
  if msgType = MSG_GETATTR then handleGetattr os s id resolved
  else if msgType = MSG_READDIR then handleReaddir os s id resolved
  else if msgType = MSG_READ then handleRead os s id resolved request
  else if msgType = MSG_WRITE then handleWrite os s id resolved request
  else if msgType = MSG_CREATE then handleCreate os s id resolved request
  else if msgType = MSG_MKDIR then handleMkdir os s id resolved request
  else if msgType = MSG_UNLINK then handleUnlink os s id resolved
  else if msgType = MSG_RMDIR then handleRmdir os s id resolved
  else if msgType = MSG_RENAME then handleRename os s id resolved request
  else if msgType = MSG_TRUNCATE then handleTruncate os s id resolved request
  else if msgType = MSG_CHMOD then handleChmod os s id resolved request
  else sendError os s id ENOSYS "Not implemented"

/-- The body of the `try`.
mirrors src/wh/cli/mount.py:128-155 -/
def tryRequest (os : Os φ) (s : Server φ) (f : Frame) : Result φ :=
  match parseRequest os f.payload with
  | .error e => (s, some e)
  | .ok request =>
    match resolvePath s.root (request.get "path" (.str "/")) with
    | .error e => (s, some e)
    | .ok resolved => handleParsed os s f.msgType f.requestId resolved request

/-- mirrors src/wh/cli/mount.py:157-162 -/
def errorCode : Kind → Nat
  | .permissionError => EACCES
  | .fileNotFoundError => ENOENT
  | .other => EIO

/-- mirrors src/wh/cli/mount.py:125-162 -/
def handleRequest (os : Os φ) (s : Server φ) (f : Frame) : Result φ :=
  match tryRequest os s f with
  | (s, none) => (s, none)
  | (s, some e) => sendError os s f.requestId (errorCode e.kind) e.text

/-! ## One request, one frame -/

/-- The request with this id is answered by the frame. -/
def Frame.Answers (g : Frame) (id : Nat) : Prop :=
  (g.msgType = MSG_RESPONSE ∨ g.msgType = MSG_ERROR) ∧ g.requestId = id

/-- But for its files, the server has sent one frame, which answers the
request, or nothing at all, and then it has raised. -/
def SendsOne (s : Server φ) (id : Nat) (r : Result φ) : Prop :=
  ∃ files, (r.2 = none ∧ ∃ g : Frame, g.Answers id ∧ r = sendMessage { s with files := files } g) ∨
    ∃ e, r = ({ s with files := files }, some e)

theorem SendsOne.of_files {s : Server φ} {files : φ} {id : Nat} {r : Result φ}
    (h : SendsOne { s with files := files } id r) : SendsOne s id r := h

theorem SendsOne.raise (s : Server φ) (id : Nat) (e : Exn) : SendsOne s id (s, some e) :=
  ⟨s.files, .inr ⟨e, rfl⟩⟩

theorem sendMessage_one (s : Server φ) {g : Frame} {id : Nat} (hg : g.Answers id) :
    SendsOne s id (sendMessage s g) := by
  rcases hr : sendMessage s g with ⟨t, raised⟩
  cases raised with
  | none => exact ⟨s.files, .inl ⟨rfl, g, hg, hr.symm⟩⟩
  | some e =>
    have ht : t = s := by
      unfold sendMessage at hr
      split at hr
      · cases hr
      · split at hr <;> cases hr
        rfl
    subst ht
    exact .raise t id e

theorem sendResponse_one (os : Os φ) (s : Server φ) (id : Nat) (data : Json) :
    SendsOne s id (sendResponse os s id data) :=
  sendMessage_one s ⟨.inl rfl, rfl⟩

theorem sendError_one (os : Os φ) (s : Server φ) (id code : Nat) (message : String) :
    SendsOne s id (sendError os s id code message) :=
  sendMessage_one s ⟨.inr rfl, rfl⟩

/-- An exception that is caught is answered by an error: nothing was sent
before it was raised. -/
theorem SendsOne.caught {s t : Server φ} {id : Nat} {e : Exn} (os : Os φ)
    (h : SendsOne s id (t, some e)) (code : Nat) (message : String) :
    SendsOne s id (sendError os t id code message) := by
  obtain ⟨files, ⟨hnone, _⟩ | ⟨e', he⟩⟩ := h
  · cases hnone
  · cases he
    exact (sendError_one os { s with files := files } id code message).of_files

theorem reply_one (os : Os φ) (s : Server φ) (id : Nat) (r : Except Exn Json) :
    SendsOne s id (reply os s id r) := by
  unfold reply
  cases r with
  | error e => exact sendError_one os s id EIO e.text
  | ok data =>
    have hsend := sendResponse_one os s id data
    dsimp only
    split
    · rename_i t ht
      rwa [ht] at hsend
    · rename_i t e ht
      rw [ht] at hsend
      exact hsend.caught os EIO e.text

theorem replySuccess_one (os : Os φ) (s : Server φ) (id : Nat) (r : φ × Except Exn Unit) :
    SendsOne s id (replySuccess os s id r) :=
  (reply_one os { s with files := r.1 } id _).of_files

theorem handleGetattr_one (os : Os φ) (s : Server φ) (id : Nat) (path : Str) :
    SendsOne s id (handleGetattr os s id path) := by
  unfold handleGetattr
  split
  · exact sendResponse_one os s id _
  · rename_i e _
    split
    · exact sendError_one os s id ENOENT "File not found"
    · exact .raise s id e

theorem handleWrite_one (os : Os φ) (s : Server φ) (id : Nat) (path : Str) (request : Fields) :
    SendsOne s id (handleWrite os s id path request) := by
  unfold handleWrite
  dsimp only
  split
  · rename_i e _
    exact .raise s id e
  · exact (reply_one os _ id _).of_files

theorem handleRename_one (os : Os φ) (s : Server φ) (id : Nat) (path : Str) (request : Fields) :
    SendsOne s id (handleRename os s id path request) := by
  unfold handleRename
  split
  · rename_i e _
    exact .raise s id e
  · exact replySuccess_one os s id _

theorem ite_one {c : Prop} [Decidable c] {s : Server φ} {id : Nat} {r r' : Result φ}
    (h : SendsOne s id r) (h' : SendsOne s id r') : SendsOne s id (if c then r else r') := by
  split
  · exact h
  · exact h'

theorem handleParsed_one (os : Os φ) (s : Server φ) (msgType : UInt8) (id : Nat) (resolved : Str)
    (request : Fields) : SendsOne s id (handleParsed os s msgType id resolved request) := by
  unfold handleParsed
  refine ite_one (handleGetattr_one os s id resolved) ?_
  refine ite_one (reply_one os s id _) ?_
  refine ite_one (reply_one os s id _) ?_
  refine ite_one (handleWrite_one os s id resolved request) ?_
  refine ite_one (replySuccess_one os s id _) ?_
  refine ite_one (replySuccess_one os s id _) ?_
  refine ite_one (replySuccess_one os s id _) ?_
  refine ite_one (replySuccess_one os s id _) ?_
  refine ite_one (handleRename_one os s id resolved request) ?_
  refine ite_one (replySuccess_one os s id _) ?_
  exact ite_one (replySuccess_one os s id _) (sendError_one os s id ENOSYS "Not implemented")

theorem tryRequest_one (os : Os φ) (s : Server φ) (f : Frame) :
    SendsOne s f.requestId (tryRequest os s f) := by
  unfold tryRequest
  split
  · rename_i e _
    exact .raise s f.requestId e
  · rename_i request _
    split
    · rename_i e _
      exact .raise s f.requestId e
    · rename_i resolved _
      exact handleParsed_one os s f.msgType f.requestId resolved request

/-- **Headline.** Every request handler, on every path through its nested
`try`s, sends one frame with the request's id, unless the error frame itself
does not fit. -/
theorem handleRequest_one (os : Os φ) (s : Server φ) (f : Frame) :
    SendsOne s f.requestId (handleRequest os s f) := by
  have hone := tryRequest_one os s f
  unfold handleRequest
  split
  · rename_i t ht
    rwa [ht] at hone
  · rename_i t e ht
    rw [ht] at hone
    exact hone.caught os (errorCode e.kind) e.text

end Wormhole.L4.Mount
