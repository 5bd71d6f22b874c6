import Mathlib.Logic.Embedding.Basic
import Wormhole.Core.Dict
import Wormhole.Core.PosixPath
import Wormhole.L1Encoding.PyBytes

/-!
# The rsync protocol

`src/wh/cli/rsync.py`. Both peers run `RsyncProtocol`, whose handlers are
called frame by frame; a frame is modelled with its payload decoded. A file
system is a map from absolute paths, by components, to contents; directories
are those of the files, `dest_path` and the working directory, and have no
entries of their own. Paths are followed lexically. Checksums are injective.

A handler that raises leaves what it has done so far (`malformed` payloads
raise at once). Writes go to the path that was opened. Left out are sizes and
times in a manifest, which nothing compares, and what only progress messages
read.
-/
namespace Wormhole.L4.Rsync
open Wormhole.L1 Wormhole.PosixPath

abbrev Path := List Str

abbrev Files := Dict Path Bytes

/-! ## Manifests -/

/-- A file of a manifest. -/
structure Entry (κ : Type) where
  path : Str
  checksum : κ

variable {κ : Type} [DecidableEq κ]

/-- `str(rel_path)` -/
def relString (cs : Path) : Str := ['/'].intercalate cs

/-- mirrors src/wh/cli/rsync.py:38-57 -/
def scanDirectory (md5 : Bytes ↪ κ) (files : Files) (base : Path) : List (Entry κ) :=
  files.entries.filterMap fun e =>
    if base <+: e.1 ∧ base ≠ e.1 then some ⟨relString (e.1.drop base.length), md5 e.2⟩ else none

/-- `{f["path"]: f for f in manifest}` -/
def byPath (m : List (Entry κ)) : Dict Str κ :=
  m.foldl (fun d e => d.set e.path e.checksum) .empty

/-- Files to send and files to delete.
mirrors src/wh/cli/rsync.py:255-283 -/
def compareManifests (localM remoteM : List (Entry κ)) (delete : Bool) : List Str × List Str :=
  let localDict := byPath localM
  let remoteDict := byPath remoteM
  let toSend := (localDict.entries.filter fun e => remoteDict.get? e.1 ≠ some e.2).map Prod.fst
  let toDelete := if delete then
      (remoteDict.entries.filter fun e => localDict.get? e.1 = none).map Prod.fst
    else []
  (toSend, toDelete)

/-! ## Frames -/

/-- A message with its payload decoded. In `delete`, an element of the JSON
list that is no string is `none`; `malformed` is a payload that raises. -/
inductive Frame (κ : Type)
  | manifest (files : List (Entry κ))
  | request (files : List Str)
  | fileStart (path : Str)
  | fileData (payload : Bytes)
  | fileEnd
  | delete (files : List (Option Str))
  | done
  | malformed

/-! ## Receiving files -/

/-- A process as the file frames see it: its working directory, the
`dest_path` of the listener, the files, and of the protocol object the open
file, the two counters and `_done`. -/
structure Receiver where
  cwd : Path
  dest : Path
  files : Files
  handle : Option Path
  filesTransferred : Nat
  bytesTransferred : Nat
  done : Bool

/-- Where `Path(path)` leads in a working directory. -/
def locate (cwd : Path) (path : Str) : Path :=
  walk (if isAbs path then [] else cwd) (components path)

/-- A directory: of a file, of `dest_path` or of the working directory. -/
def isDir (cwd dest : Path) (files : Files) (p : Path) : Bool :=
  p.isPrefixOf cwd || p.isPrefixOf dest || files.keys.any fun q => p.isPrefixOf q && p ≠ q

/-- `parent.mkdir(parents=True, exist_ok=True)` and `open(path, "wb")` both
succeed: no directory above is a file, and the path is no directory. -/
def canOpen (cwd dest : Path) (files : Files) (p : Path) : Bool :=
  !isDir cwd dest files p && !files.keys.any fun q => q.isPrefixOf p && q ≠ p

/-- An embedded null byte, on which `open` raises and `exists` is false. -/
def hasNul (path : Str) : Bool := path.contains '\x00'

/-- mirrors src/wh/cli/rsync.py:144-159 -/
def handleFileStart (r : Receiver) (path : Str) : Receiver :=
  let p := locate r.cwd path
  if !hasNul path && canOpen r.cwd r.dest r.files p then
    { r with files := r.files.set p [], handle := some p }
  else r

/-- mirrors src/wh/cli/rsync.py:161-171 -/
def handleFileData (r : Receiver) (payload : Bytes) : Receiver :=
  match r.handle with
  | none => r
  | some p =>
    { r with
      files := match r.files.get? p with
        | some old => r.files.set p (old ++ payload)
        -- removed while open
        | none => r.files
      bytesTransferred := r.bytesTransferred + payload.length }

/-- mirrors src/wh/cli/rsync.py:173-180 -/
def handleFileEnd (r : Receiver) : Receiver :=
  match r.handle with
  | none => r
  | some _ => { r with handle := none, filesTransferred := r.filesTransferred + 1 }

/-- The loop of `_handle_delete`; `unlink` raises on a directory.
mirrors src/wh/cli/rsync.py:182-189 -/
def unlinkAll (cwd dest : Path) : Files → List (Option Str) → Files
  | files, [] => files
  | files, none :: _ => files
  | files, some path :: rest =>
    let p := locate cwd path
    if hasNul path then unlinkAll cwd dest files rest
    else if files.contains p then unlinkAll cwd dest (files.del p) rest
    else if isDir cwd dest files p then files
    else unlinkAll cwd dest files rest

/-- The handlers that touch files, and `_handle_done`.
mirrors src/wh/cli/rsync.py:121-130,182-193 -/
def receive (r : Receiver) : Frame κ → Receiver
  | .manifest _ | .request _ | .malformed => r
  | .fileStart path => handleFileStart r path
  | .fileData payload => handleFileData r payload
  | .fileEnd => handleFileEnd r
  | .delete files => { r with files := unlinkAll r.cwd r.dest r.files files }
  | .done => { r with done := true }

/-! ## A peer -/

/-- A process with its protocol object. A future is `none` until it is created
and `some none` until it has a result. -/
structure Peer (κ : Type) where
  receiver : Receiver
  manifestFuture : Option (Option (List (Entry κ)))
  requestFuture : Option (Option (List Str))

/-- A result is set once; a second one raises. -/
def setResult {α : Type} (f : Option (Option α)) (x : α) : Option (Option α) :=
  match f with
  | some none => some (some x)
  | _ => f

/-- The handler of a frame.
mirrors src/wh/cli/rsync.py:106-142 -/
def handle (pr : Peer κ) : Frame κ → Peer κ
  | .manifest files => { pr with manifestFuture := setResult pr.manifestFuture files }
  | .request files => { pr with requestFuture := setResult pr.requestFuture files }
  | f => { pr with receiver := receive pr.receiver f }

/-! ## Sending -/

/-- mirrors src/wh/cli/rsync.py:223-243 -/
def sendFile (relPath : Str) (content : Bytes) : List (Frame κ) :=
  .fileStart relPath :: (reads 32768 content.length content).map .fileData ++ [.fileEnd]

/-- The content below `source_path` that `source_path / rel_path` names. What a
request may ask for beyond the tree is left out. -/
def sourceContent (source : Files) (relPath : Str) : Option Bytes :=
  if isAbs relPath then none else source.get? (walk [] (components relPath))

/-- One turn of the client's loop over the requested paths: a path that does
not exist is skipped.
mirrors src/wh/cli/rsync.py:541-548 -/
def sendOne (source : Files) (relPath : Str) : List (Frame κ) :=
  match sourceContent source relPath with
  | some content => sendFile relPath content
  | none => []

/-- What the client sends for a request: the files it has, the paths to delete
if there are any, and that it is done. `source` is the tree below `source_path`.
mirrors src/wh/cli/rsync.py:540-555 -/
def sendRequested (source : Files) (requested toDelete : List Str) : List (Frame κ) :=
  requested.flatMap (sendOne source) ++
  (if toDelete = [] then [] else [.delete (toDelete.map some)]) ++ [.done]

end Wormhole.L4.Rsync
