import Wormhole.Core.Framing
import Wormhole.L1Encoding.PyBytes
import Wormhole.L4App.ServedPaths

/-!
# The FTP protocol object

`FTPProtocol` of `src/wh/cli/ftp.py`, one class for both sides: the handlers of
its frames (`dispatch`), and the commands of a server (`command`). A command
runs as a task and has no suspension points, so it is one step; what it sends
is one list of frames (`Result`, `answer`).

Operating system calls, with the texts of their exceptions, and Unicode's upper
case outside ASCII are the parameter `Os`. A frame of 2^32 bytes or more raises
in `struct.pack`; what was sent before stays sent.
-/
namespace Wormhole.L4.Ftp
open Wormhole.L1 Wormhole.PosixPath

/-! ## Frames -/

def MSG_COMMAND : UInt8 := 0x01
def MSG_RESPONSE : UInt8 := 0x02
def MSG_DATA_START : UInt8 := 0x03
def MSG_DATA : UInt8 := 0x04
def MSG_DATA_END : UInt8 := 0x05
def MSG_ERROR : UInt8 := 0x06

structure Frame where
  msgType : UInt8
  payload : Bytes
  deriving DecidableEq, Repr

/-- `struct.pack(">BI", ...)` and the data. -/
def Frame.pack (f : Frame) : Bytes := f.msgType :: beBytes 4 f.payload.length ++ f.payload

/-- `struct.pack` does not raise. -/
def Frame.fits (f : Frame) : Bool := f.payload.length < 256 ^ 4

/-- The loop of `_process_buffer` as an incremental decoder.
mirrors src/wh/cli/ftp.py:83-92 -/
def decoder : Decoder UInt8 Frame Unit :=
  .headed 5 Decoder.five_pos (fun header => unpack (header.drop 1)) fun header payload =>
    ⟨header.headD 0, payload⟩

theorem pack_look {f : Frame} (h : f.fits = true) (tl : Bytes) :
    decoder.look (f.pack ++ tl) = .item f tl := by
  have hlen : f.payload.length < 256 ^ 4 := of_decide_eq_true h
  have hbody : unpack ((f.msgType :: beBytes 4 f.payload.length).drop 1) = f.payload.length := by
    rw [List.drop_one, List.tail_cons, unpack_beBytes, Nat.mod_eq_of_lt hlen]
  have hhead : (f.msgType :: beBytes 4 f.payload.length).length = 5 := by simp
  exact Decoder.headed_look hhead hbody tl

/-! ## State -/

/-- A response as the client's calls return it. -/
structure Response where
  code : Nat
  message : String
  deriving DecidableEq, Repr

/-- What a call, or the future it awaits, ends with. -/
inductive Outcome
  | returned (r : Response)
  | raised (e : String)
  deriving DecidableEq, Repr

/-- `_response_future`: none, or one whose result was taken or whose wait timed
out; one without a result; one with a result. -/
inductive Future
  | settled
  | pending
  | done (o : Outcome)
  deriving DecidableEq, Repr

/-- An `FTPProtocol` with a connection, less its buffer, in its process.
`storTarget` is absent until a `STOR`. `out` was written to the connection and
not delivered yet. `answered` are the frames sent for each command, and
`storCommand` is the command that `storTarget` is from: both are histories. -/
structure FTPProtocol (φ : Type) where
  isServer : Bool
  rootDir : ServedPaths.Root
  cwd : Str
  files : φ
  future : Future
  dataBuffer : Bytes
  receivingData : Bool
  storTarget : Option Str
  tasks : List Bytes
  done : Bool
  out : Bytes
  answered : List (List Frame)
  storCommand : Nat

/-- `os.makedirs(target, exist_ok=False)`. -/
inductive Made (φ : Type)
  | made (files : φ)
  | fileExists
  | raised (files : φ) (e : String)

/-- The calls into the operating system, on the files `φ`; an exception is its
`str`. `listing` is `json.dumps` of the entries, encoded; `read` is what the
file's blocks hold up to an exception. -/
structure Os (φ : Type) where
  isdir : φ → Str → Bool
  isfile : φ → Str → Bool
  listing : φ → Str → Except String Bytes
  read : φ → Str → Bytes × Option String
  write : φ → Str → Bytes → φ × Option String
  makedirs : φ → Str → Made φ
  rmdir : φ → Str → φ × Option String
  remove : φ → Str → φ × Option String
  getsize : φ → Str → Except String Nat
  upperNonAscii : Char → List Char

variable {φ : Type}

/-- `cmd.upper()` -/
def Os.upper (os : Os φ) (s : String) : String :=
  String.ofList (s.toList.flatMap fun c => if c.val < 128 then [c.toUpper] else os.upperNonAscii c)

/-! ## Commands -/

/-- What a command does: the object and its files, what it sends, and the
exception it ends with. -/
structure Result (φ : Type) where
  ftp : FTPProtocol φ
  sends : List Frame
  raised : Option String

/-- mirrors src/wh/cli/ftp.py:153-156 (`_send_response`) -/
def response (code : Nat) (message : String) : Frame :=
  ⟨MSG_RESPONSE, beBytes 2 code ++ encode message⟩

def respond (p : FTPProtocol φ) (code : Nat) (message : String) : Result φ :=
  ⟨p, [response code message], none⟩

/-- `_resolve_path` with its exception. -/
def resolvePath (p : FTPProtocol φ) (path : String) : Except String Str :=
  match ServedPaths.Ftp.resolvePath p.rootDir p.cwd path.toList with
  | some resolved => .ok resolved
  | none => .error "Access denied: path outside root directory"

/-- A command on a resolved path. -/
def withPath (p : FTPProtocol φ) (path : String) (k : Str → Result φ) : Result φ :=
  match resolvePath p path with
  | .ok target => k target
  | .error e => ⟨p, [], some e⟩

/-- mirrors src/wh/cli/ftp.py:171-178 -/
def cmdPwd (p : FTPProtocol φ) : Result φ :=
  let rel := relpath p.cwd p.rootDir.path
  let rel := if rel = ['.'] then ['/'] else '/' :: rel
  respond p 257 ("\"" ++ String.ofList rel ++ "\" is current directory")

/-- mirrors src/wh/cli/ftp.py:180-192 -/
def cmdCwd (os : Os φ) (p : FTPProtocol φ) (path : String) : Result φ :=
  let enter (target : Str) : Result φ :=
    if os.isdir p.files target then
      respond { p with cwd := target } 250 "Directory changed successfully"
    else respond p 550 ("Directory not found: " ++ path)
  if path = "/" then enter p.rootDir.path else withPath p path enter

/-- mirrors src/wh/cli/ftp.py:194-222 -/
def cmdList (os : Os φ) (p : FTPProtocol φ) (path : String) : Result φ :=
  let list (target : Str) : Result φ :=
    if os.isdir p.files target then
      match os.listing p.files target with
      | .error e => ⟨p, [], some e⟩
      | .ok files =>
        ⟨p, [response 150 "Opening data connection", ⟨MSG_DATA_START, []⟩, ⟨MSG_DATA, files⟩,
          ⟨MSG_DATA_END, []⟩, response 226 "Transfer complete"], none⟩
    else respond p 550 ("Not a directory: " ++ path)
  if path = "" then list p.cwd else withPath p path list

/-- The frames of a file up to what ends them. -/
def fileFrames (content : Bytes) : List Frame :=
  response 150 "Opening data connection" :: ⟨MSG_DATA_START, []⟩ ::
    (reads 8192 content.length content).map (⟨MSG_DATA, ·⟩)

/-- The frames of a file that is sent to its end. -/
def wholeFile (content : Bytes) : List Frame :=
  fileFrames content ++ [⟨MSG_DATA_END, []⟩, response 226 "Transfer complete"]

/-- mirrors src/wh/cli/ftp.py:224-247 -/
def cmdRetr (os : Os φ) (p : FTPProtocol φ) (path : String) : Result φ :=
  withPath p path fun target =>
    if os.isfile p.files target then
      match os.read p.files target with
      | (content, none) => ⟨p, wholeFile content, none⟩
      | (content, some e) => ⟨p, fileFrames content ++ [⟨MSG_ERROR, encode e⟩], none⟩
    else respond p 550 ("File not found: " ++ path)

/-- mirrors src/wh/cli/ftp.py:249-261 -/
def cmdStor (p : FTPProtocol φ) (path : String) : Result φ :=
  withPath p path fun target =>
    respond { p with
        receivingData := true
        dataBuffer := []
        storTarget := some target
        storCommand := p.answered.length } 150 "Ready to receive data"

/-- An exception in place of an outcome is answered with it. -/
def respondOr (p : FTPProtocol φ) (e : Option String) (code : Nat) (message : String) : Result φ :=
  match e with
  | none => respond p code message
  | some e => respond p 550 e

/-- mirrors src/wh/cli/ftp.py:263-273 -/
def cmdMkd (os : Os φ) (p : FTPProtocol φ) (path : String) : Result φ :=
  withPath p path fun target =>
    match os.makedirs p.files target with
    | .made files => respond { p with files := files } 257 ("\"" ++ path ++ "\" directory created")
    | .fileExists => respond p 550 ("Directory already exists: " ++ path)
    | .raised files e => respond { p with files := files } 550 e

/-- mirrors src/wh/cli/ftp.py:275-287 -/
def cmdRmd (os : Os φ) (p : FTPProtocol φ) (path : String) : Result φ :=
  withPath p path fun target =>
    if os.isdir p.files target then
      let r := os.rmdir p.files target
      respondOr { p with files := r.1 } r.2 250 "Directory removed"
    else respond p 550 ("Not a directory: " ++ path)

/-- mirrors src/wh/cli/ftp.py:289-301 -/
def cmdDele (os : Os φ) (p : FTPProtocol φ) (path : String) : Result φ :=
  withPath p path fun target =>
    if os.isfile p.files target then
      let r := os.remove p.files target
      respondOr { p with files := r.1 } r.2 250 "File deleted"
    else respond p 550 ("File not found: " ++ path)

/-- mirrors src/wh/cli/ftp.py:303-312 -/
def cmdSize (os : Os φ) (p : FTPProtocol φ) (path : String) : Result φ :=
  withPath p path fun target =>
    if os.isfile p.files target then
      match os.getsize p.files target with
      | .ok size => respond p 213 (toString size)
      | .error e => ⟨p, [], some e⟩
    else respond p 550 ("File not found: " ++ path)

/-- The command of an upper-case name.
mirrors src/wh/cli/ftp.py:125-149 -/
def command (os : Os φ) (p : FTPProtocol φ) (cmd args : String) : Result φ :=
  if cmd = "PWD" then cmdPwd p
  else if cmd = "CWD" then cmdCwd os p args
  else if cmd = "LIST" then cmdList os p args
  else if cmd = "RETR" then cmdRetr os p args
  else if cmd = "STOR" then cmdStor p args
  else if cmd = "MKD" then cmdMkd os p args
  else if cmd = "RMD" then cmdRmd os p args
  else if cmd = "DELE" then cmdDele os p args
  else if cmd = "SIZE" then cmdSize os p args
  else if cmd = "QUIT" then respond { p with done := true } 221 "Goodbye"
  else respond p 502 ("Command not implemented: " ++ cmd)

/-- The exception of a frame that does not fit. -/
def structError : String := "'I' format requires 0 <= number <= 4294967295"

/-- What a command sends: up to a frame that does not fit, and the exception, if
there is one, unless that does not fit either. -/
def answer (r : Result φ) : List Frame :=
  if r.sends.all Frame.fits then
    r.sends ++ match r.raised with
      | none => []
      | some e => [response 550 e].filter Frame.fits
  else r.sends.takeWhile Frame.fits ++ [response 550 structError]

/-- mirrors src/wh/cli/ftp.py:110-124,150-151 (`_handle_command`); bytes that are no
UTF-8 end the task. -/
def handleCommand (os : Os φ) (p : FTPProtocol φ) (payload : Bytes) : Result φ :=
  match payload with
  | [] => respond p 500 "Invalid command"
  | cmdLen :: rest =>
    if rest.length < cmdLen.toNat then respond p 500 "Invalid command"
    else match decode (rest.take cmdLen.toNat), decode (rest.drop cmdLen.toNat) with
      | some cmd, some args => command os p (os.upper cmd) args
      | _, _ => ⟨p, [], none⟩

/-- A task of the server runs. -/
def runCommand (os : Os φ) (p : FTPProtocol φ) (payload : Bytes) : FTPProtocol φ :=
  let r := handleCommand os p payload
  { r.ftp with
    out := r.ftp.out ++ (answer r).flatMap Frame.pack
    answered := r.ftp.answered ++ [answer r] }

/-! ## Frames off the buffer -/

/-- The future gets its first result. -/
def Future.set (f : Future) (o : Outcome) : Future :=
  match f with
  | .pending => .done o
  | _ => f

/-- What a response or an error says to the future; `none` when the payload
does not decode, which raises. -/
def reply (f : Frame) : Option Outcome :=
  if f.msgType = MSG_RESPONSE then
    (decode (f.payload.drop 2)).map fun m => .returned ⟨unpack (f.payload.take 2), m⟩
  else if f.payload = [] then some (.raised "Unknown error")
  else (decode f.payload).map .raised

/-- mirrors src/wh/cli/ftp.py:314-323,341-346 (`_handle_response`, `_handle_error`) -/
def handleReply (p : FTPProtocol φ) (f : Frame) : FTPProtocol φ × Option Unit :=
  match reply f with
  | some o => ({ p with future := p.future.set o }, none)
  | none => (p, some ())

/-- A `DATA_END` on a server that has a target: the file is written and the
outcome sent; a text that does not fit raises.
mirrors src/wh/cli/ftp.py:325-339 -/
def handleDataComplete (os : Os φ) (p : FTPProtocol φ) : FTPProtocol φ × Option Unit :=
  match p.isServer, p.storTarget with
  | true, some target =>
    let w := os.write p.files target p.dataBuffer
    let f := match w.2 with
      | none => response 226 "Transfer complete"
      | some e => response 550 e
    let p := { p with files := w.1, storTarget := none }
    if f.fits then
      ({ p with
        out := p.out ++ f.pack
        answered := p.answered.modify p.storCommand (· ++ [f]) }, none)
    else (p, some ())
  | _, _ => (p, none)

/-- mirrors src/wh/cli/ftp.py:94-108 -/
def dispatch (os : Os φ) (p : FTPProtocol φ) (f : Frame) : FTPProtocol φ × Option Unit :=
  if f.msgType = MSG_COMMAND then ({ p with tasks := p.tasks ++ [f.payload] }, none)
  else if f.msgType = MSG_RESPONSE then if f.payload.length < 2 then (p, none) else handleReply p f
  else if f.msgType = MSG_DATA_START then ({ p with receivingData := true, dataBuffer := [] }, none)
  else if f.msgType = MSG_DATA then
    (if p.receivingData then { p with dataBuffer := p.dataBuffer ++ f.payload } else p, none)
  else if f.msgType = MSG_DATA_END then handleDataComplete os { p with receivingData := false }
  else if f.msgType = MSG_ERROR then handleReply p f
  else (p, none)

end Wormhole.L4.Ftp
