import Wormhole.Core.LTS
import Wormhole.L4App.FtpAnswers

/-!
# An FTP session

The client's calls of `src/wh/cli/ftp.py` (`send_command`, `upload_file`,
`download_file`), one after another, against the server's protocol object, over
a connection that delivers bytes in any chunks. The client's coroutine goes on
in a step of its own once its future has a result, a command runs in one once
it is decoded. The welcome was taken, and the connection stays up.

* `Clean`: a step that pairs no call with another response: `send_command` is
  not used for what opens with a 150; no response is decoded while the future's
  result is waiting to be taken; nothing times out; the local file is read and
  written without an error.
* `Right`: a call has ended with the final response to its own command, and a
  download of a whole file has written exactly the file.
-/
namespace Wormhole.L5.FtpSession
open Wormhole.L1 Wormhole.PosixPath Wormhole.L4.Ftp Wormhole.Decoder

/-! ## State -/

/-- A call, with what the local file system does in it: what an upload reads
(`none`: no file; then up to an exception) and the exception of a download's
write. -/
inductive Call
  | send (cmd args : String)
  | upload (localPath : String) (localFile : Option (Bytes × Option String)) (remotePath : String)
  | download (remotePath : String) (writeError : Option String)
  deriving DecidableEq, Repr

/-- The call that runs: whether it awaits its second response, and which command
it sent. -/
structure Pending where
  call : Call
  second : Bool
  command : Nat
  deriving DecidableEq, Repr

/-- A call that has ended; `written` is what a download has written. -/
structure Ended where
  call : Call
  command : Option Nat
  outcome : Outcome
  written : Option Bytes
  deriving DecidableEq, Repr

structure St (φ : Type) where
  client : Rx (FTPProtocol φ) UInt8
  server : Rx (FTPProtocol φ) UInt8
  current : Option Pending
  commands : Nat
  ended : List Ended

/-- The operating system and the two processes' directories and files. -/
structure Cfg (φ : Type) where
  os : Os φ
  serverRoot : L4.ServedPaths.Root
  serverFiles : φ
  clientRoot : L4.ServedPaths.Root
  clientFiles : φ

variable {φ : Type}

/-- mirrors src/wh/cli/ftp.py:47-66 -/
def fresh (isServer : Bool) (rootDir : L4.ServedPaths.Root) (files : φ) : FTPProtocol φ where
  isServer := isServer
  rootDir := rootDir
  cwd := rootDir.path
  files := files
  future := .settled
  dataBuffer := []
  receivingData := false
  storTarget := none
  tasks := []
  done := false
  out := []
  answered := []
  storCommand := 0

def init (cfg : Cfg φ) : St φ where
  client := ⟨fresh false cfg.clientRoot cfg.clientFiles, []⟩
  server := ⟨fresh true cfg.serverRoot cfg.serverFiles, []⟩
  current := none
  commands := 0
  ended := []

/-! ## The client's calls -/

/-- The command and the argument that a call sends. -/
def Call.request : Call → String × String
  | .send cmd args => (cmd, args)
  | .upload _ _ remotePath => ("STOR", remotePath)
  | .download remotePath _ => ("RETR", remotePath)

def St.mapClient (s : St φ) (f : FTPProtocol φ → FTPProtocol φ) : St φ :=
  { s with client := ⟨f s.client.st, s.client.buf⟩ }

/-- A call ends; its future, if there is one, has been used. -/
def St.finish (s : St φ) (call : Call) (command : Option Nat) (outcome : Outcome)
    (written : Option Bytes) : St φ :=
  { s with current := none, ended := s.ended ++ [⟨call, command, outcome, written⟩] }

/-- A new future; the data of an earlier transfer is dropped, but for an upload. -/
def startCall (call : Call) (p : FTPProtocol φ) : FTPProtocol φ :=
  match call with
  | .upload .. => { p with future := .pending }
  | _ => { p with future := .pending, dataBuffer := [] }

/-- A call up to its first `await`.
mirrors src/wh/cli/ftp.py:354-364,369-382,409-420 -/
def begin (s : St φ) (call : Call) : St φ :=
  match call with
  | .upload localPath none _ =>
    s.finish call none (.returned ⟨550, "Local file not found: " ++ localPath⟩) none
  | _ =>
    let s := s.mapClient (startCall call)
    let frame : Frame := ⟨MSG_COMMAND, commandPayload call.request.1 call.request.2⟩
    if 255 < (encode call.request.1).length then
      s.finish call none (.raised "bytes must be in range(0, 256)") none
    else if frame.fits then
      { s.mapClient fun p => { p with out := p.out ++ frame.pack } with
        current := some ⟨call, false, s.commands⟩
        commands := s.commands + 1 }
    else s.finish call none (.raised structError) none

/-- The frames of an upload's data. -/
def uploadFrames (content : Bytes) : List Frame :=
  ⟨MSG_DATA_START, []⟩ :: (reads 8192 content.length content).map (⟨MSG_DATA, ·⟩)

/-- The text of a call that timed out.
mirrors src/wh/cli/ftp.py:366-367,385-386,406-407,423-424,432-433 -/
def timeoutMessage (p : Pending) : String :=
  if p.second then "Transfer timed out" else "Request timed out"

/-- The call goes on with its future's response; an upload has a file.
mirrors src/wh/cli/ftp.py:364-365,382-405,420-441 -/
def proceed (s : St φ) (p : Pending) (r : Response) : St φ :=
  let ends (r : Response) (written : Option Bytes) : St φ :=
    (s.mapClient fun q => { q with future := .settled }).finish p.call (some p.command)
      (.returned r) written
  let again (frames : List Frame) : St φ :=
    { s.mapClient fun q => { q with
        future := .pending
        out := q.out ++ frames.flatMap Frame.pack } with
      current := some { p with second := true } }
  match p.call, p.second with
  | .send .., _ | .upload .., true => ends r none
  | .upload _ localFile _, false =>
    if r.code ≠ 150 then ends r none
    else match localFile.getD ([], none) with
      | (content, none) => again (uploadFrames content ++ [⟨MSG_DATA_END, []⟩])
      | (content, some e) =>
        (s.mapClient fun q => { q with
            future := .settled
            out := q.out ++ (uploadFrames content).flatMap Frame.pack }).finish p.call
          (some p.command) (.returned ⟨550, e⟩) none
  | .download .., false => if r.code ≠ 150 then ends r none else again []
  | .download _ writeError, true =>
    if r.code ≠ 226 then ends r none
    else match writeError with
      | some e => ends ⟨550, e⟩ none
      | none =>
        let data := s.client.st.dataBuffer
        ends ⟨226, "Downloaded " ++ toString data.length ++ " bytes"⟩ (some data)

/-! ## Steps -/

inductive Lbl
  | call (c : Call)
  | resume
  | timeout
  | serve
  | toServer (n : Nat)
  | toClient (n : Nat)

def step (os : Os φ) (s : St φ) : Lbl → Option (St φ)
  | .call c =>
    match s.current with
    | none => some (begin s c)
    | some _ => none
  | .resume =>
    match s.current, s.client.st.future with
    | some p, .done (.returned r) => some (proceed s p r)
    | some p, .done (.raised e) =>
      some ((s.mapClient fun q => { q with future := .settled }).finish p.call (some p.command)
        (.raised e) none)
    | _, _ => none
  | .timeout =>
    match s.current, s.client.st.future with
    -- the wait cancels the future
    | some p, .pending =>
      some ((s.mapClient fun q => { q with future := .settled }).finish p.call (some p.command)
        (.returned ⟨421, timeoutMessage p⟩) none)
    | _, _ => none
  | .serve =>
    match s.server.st.tasks with
    | payload :: tasks => some { s with
        server := ⟨runCommand os { s.server.st with tasks := tasks } payload, s.server.buf⟩ }
    | [] => none
  | .toServer n => some { s with
      client := ⟨{ s.client.st with out := s.client.st.out.drop n }, s.client.buf⟩
      server := (onData decoder (dispatch os) s.server (s.client.st.out.take n)).1 }
  | .toClient n => some { s with
      server := ⟨{ s.server.st with out := s.server.st.out.drop n }, s.server.buf⟩
      client := (onData decoder (dispatch os) s.client (s.server.st.out.take n)).1 }

def lts (cfg : Cfg φ) : LTS (St φ) Lbl := .ofStep (· = init cfg) (step cfg.os)

/-! ## Clean steps -/

/-- A download's local file is written, an upload's is read to its end. -/
def LocalOk : Call → Prop
  | .send .. => True
  | .upload _ localFile _ => ∀ content e, localFile ≠ some (content, some e)
  | .download _ writeError => writeError = none

/-- The responses decoded in one pass find the future waiting, one at most. -/
def Timely (os : Os φ) (s : St φ) (n : Nat) : Prop :=
  let said := replies (taken decoder (dispatch os) s.client (s.server.st.out.take n))
  if s.client.st.future = .pending then said.length ≤ 1 else said = []

/-- A step that lets no response go astray. -/
def Clean (os : Os φ) (s : St φ) : Lbl → Prop
  | .call c => LocalOk c
  | .serve => ∀ p cmd args, s.current = some p → p.call = .send cmd args →
    opens os s.server.st (os.upper cmd) args = false
  | .toClient n => Timely os s n
  | .timeout => False
  | .resume | .toServer _ => True

/-! ## Calls and answers -/

/-- A call that has ended with the final response to its command, the last of
what the server has sent for it; a download of a whole file with a 226 and the
file's content. -/
def Right (answered : List (List Frame)) (e : Ended) : Prop :=
  ∀ k, e.command = some k → ∃ A f, answered[k]? = some A ∧ A.getLast? = some f ∧
    match e.call with
    | .download .. =>
      (∃ content, A = wholeFile content ∧
        e.outcome = .returned ⟨226, "Downloaded " ++ toString content.length ++ " bytes"⟩ ∧
        e.written = some content) ∨
      ((∀ content, A ≠ wholeFile content) ∧ said f = some e.outcome ∧
        (∀ m, e.outcome ≠ .returned ⟨150, m⟩) ∧ e.written = none)
    | _ => said f = some e.outcome ∧ ∀ m, e.outcome ≠ .returned ⟨150, m⟩

/-- A call that cannot go on by itself: it waits and nothing is under way. -/
structure Stuck (s : St φ) (p : Pending) : Prop where
  current : s.current = some p
  future : s.client.st.future = .pending
  toClient : s.client.buf ++ s.server.st.out = []
  toServer : s.server.buf ++ s.client.st.out = []
  tasks : s.server.st.tasks = []

/-- A server has sent no final response for a command. -/
def Unanswered (answered : List (List Frame)) (k : Nat) : Prop :=
  ∃ A, answered[k]? = some A ∧ ∀ f ∈ A, ∃ m, f = response 150 m

end Wormhole.L5.FtpSession
