import Wormhole.Core.Dict
import Wormhole.L4App.MountServer

/-!
# The mount client

The client's half of `MountProtocol` (`src/wh/cli/mount.py`): the operations, the table of pending
requests and what becomes of their futures. The other half is there as well: `_handle_request` does
not look at `is_server`.

A future is that of a position in `calls`, which is where `_pending_requests` points.

* `handleResponse_call`, `connectionLost_call`: what an answer, or the end of the connection, does
  to one call.
-/
namespace Wormhole.L4.Mount
open Wormhole.L1

def ETIMEDOUT : Nat := 110

/-! ## Operations -/

inductive Op
  | getattr (path : String)
  | readdir (path : String)
  | read (path : String) (offset size : Int)
  | write (path : String) (offset : Int) (data : Bytes)
  | create (path : String) (mode : Int)
  | mkdir (path : String) (mode : Int)
  | unlink (path : String)
  | rmdir (path : String)
  | rename (oldPath newPath : String)
  | truncate (path : String) (length : Int)
  | chmod (path : String) (mode : Int)
  deriving DecidableEq, Repr

variable {φ : Type}

/-- mirrors src/wh/cli/mount.py:335-396 -/
def Op.msgType : Op → UInt8
  | .getattr _ => MSG_GETATTR
  | .readdir _ => MSG_READDIR
  | .read .. => MSG_READ
  | .write .. => MSG_WRITE
  | .create .. => MSG_CREATE
  | .mkdir .. => MSG_MKDIR
  | .unlink _ => MSG_UNLINK
  | .rmdir _ => MSG_RMDIR
  | .rename .. => MSG_RENAME
  | .truncate .. => MSG_TRUNCATE
  | .chmod .. => MSG_CHMOD

/-- mirrors src/wh/cli/mount.py:335-396 -/
def Op.data (os : Os φ) : Op → Json
  | .getattr path => .obj [("path", .str path)]
  | .readdir path => .obj [("path", .str path)]
  | .read path offset size =>
    .obj [("path", .str path), ("offset", .int offset), ("size", .int size)]
  | .write path offset data =>
    .obj [("path", .str path), ("offset", .int offset), ("data", .str (os.b64encode data))]
  | .create path mode => .obj [("path", .str path), ("mode", .int mode)]
  | .mkdir path mode => .obj [("path", .str path), ("mode", .int mode)]
  | .unlink path => .obj [("path", .str path)]
  | .rmdir path => .obj [("path", .str path)]
  | .rename oldPath newPath => .obj [("path", .str oldPath), ("new_path", .str newPath)]
  | .truncate path length => .obj [("path", .str path), ("length", .int length)]
  | .chmod path mode => .obj [("path", .str path), ("mode", .int mode)]

theorem msgType_isRequest (op : Op) (id : Nat) (payload : Bytes) :
    (Frame.mk op.msgType id payload).isRequest = true := by
  cases op <;> rfl

/-! ## Results -/

/-- What a call raises: the `OSError` of an error that was answered, with whatever the answer has
for a code and a message, or any other exception. -/
inductive Raised
  | osError (code message : Json)
  | exn (e : Exn)

def connectionLostError : Raised := .exn ⟨.other, "Connection lost"⟩

def timedOutError : Raised := .osError (.int ETIMEDOUT) (.str "Request timed out")

structure FileAttr where
  mode : Json
  size : Json
  atime : Json
  mtime : Json
  ctime : Json
  uid : Json
  gid : Json
  nlink : Json

/-- What an operation returns. -/
inductive Value
  | attr (a : FileAttr)
  | json (x : Json)
  | bytes (data : Bytes)
  | none

/-- `result[key]`. -/
def subscript (result : Json) (key : String) : Except Exn Json :=
  match result with
  | .obj fields =>
    match fields.find? fun f => f.1 = key with
    | some f => .ok f.2
    | none => .error ⟨.other, "'" ++ key ++ "'"⟩
  | .arr _ => .error ⟨.other, "list indices must be integers or slices, not str"⟩
  | .str _ => .error ⟨.other, "string indices must be integers, not 'str'"⟩
  | x => .error ⟨.other, "'" ++ x.typeName ++ "' object is not subscriptable"⟩

/-- `result.get(key, default)`. -/
def getField (result : Json) (key : String) (default : Json) : Except Exn Json :=
  match result with
  | .obj fields => .ok (Fields.get fields key default)
  | x => .error ⟨.other, "'" ++ x.typeName ++ "' object has no attribute 'get'"⟩

/-- mirrors src/wh/cli/mount.py:337-347 -/
def fileAttr (result : Json) : Except Exn FileAttr := do
  return {
    mode := ← subscript result "mode"
    size := ← subscript result "size"
    atime := ← subscript result "atime"
    mtime := ← subscript result "mtime"
    ctime := ← subscript result "ctime"
    uid := ← getField result "uid" (.int 0)
    gid := ← getField result "gid" (.int 0)
    nlink := ← getField result "nlink" (.int 1) }

/-- What an operation makes of the answer.
mirrors src/wh/cli/mount.py:335-396 -/
def Op.value (os : Os φ) (result : Json) : Op → Except Exn Value
  | .getattr _ => (fileAttr result).map .attr
  | .readdir _ => (subscript result "entries").map .json
  | .read .. => do return .bytes (← os.b64decode (← subscript result "data"))
  | .write .. => (subscript result "written").map .json
  | _ => .ok .none

/-- An operation after its `await`. -/
def Op.outcome (os : Os φ) (op : Op) : Except Raised Json → Except Raised Value
  | .error e => .error e
  | .ok result => (op.value os result).mapError .exn

/-- What the future of a request is set to.
mirrors src/wh/cli/mount.py:302-309 -/
def answerOf (os : Os φ) (f : Frame) : Except Raised Json :=
  match if f.payload = [] then .ok (.obj []) else os.loads f.payload with
  | .error e => .error (.exn e)
  | .ok data =>
    if f.msgType = MSG_ERROR then
      match getField data "error" (.int EIO), getField data "message" (.str "Error") with
      | .ok code, .ok message => .error (.osError code message)
      | .error e, _ => .error (.exn e)
      | _, .error e => .error (.exn e)
    else .ok data

/-- An `OSError` with this number is a `TimeoutError`, and from Python 3.11 on that is what
`asyncio.TimeoutError` is. -/
def timesOut : Except Raised Json → Bool
  | .error (.osError (.int code) _) => code == ETIMEDOUT
  | _ => false

/-- What `_send_request` makes of what its future was set to.
mirrors src/wh/cli/mount.py:328-332 -/
def awaited (x : Except Raised Json) : Except Raised Json :=
  if timesOut x then .error timedOutError else x

/-! ## State -/

inductive Future
  | pending
  | done (r : Except Raised Json)
  | cancelled

/-- Where a call is: in `wait_for`, there with its time up, or through. -/
inductive Stage
  | waiting
  | expired
  | returned (r : Except Raised Value)
  | cancelled

structure Call where
  op : Op
  requestId : Nat
  future : Future
  stage : Stage

/-- `node` is what a client has in common with a server. -/
structure Client (φ : Type) where
  node : Server φ
  requestId : Nat
  pendingRequests : Dict Nat Nat
  calls : List Call

/-! ## Futures -/

/-- Sets the future unless it is done. -/
def Future.resolve (r : Except Raised Json) : Future → Future
  | .pending => .done r
  | f => f

/-- `future.cancel()`. -/
def Future.cancel : Future → Future
  | .pending => .cancelled
  | f => f

def Call.resolve (r : Except Raised Json) (call : Call) : Call :=
  { call with future := call.future.resolve r }

/-! ## Requests and answers -/

/-- The frame of a request. -/
def Op.frame (os : Os φ) (op : Op) (id : Nat) : Frame := ⟨op.msgType, id, os.dumps (op.data os)⟩

/-- Up to the `await`. What `_send_message` raises leaves the request in the table.
mirrors src/wh/cli/mount.py:318-329 -/
def sendRequest (os : Os φ) (c : Client φ) (op : Op) : Client φ :=
  let id := c.requestId + 1
  let sent := sendMessage c.node (op.frame os id)
  { node := sent.1
    requestId := id
    pendingRequests := c.pendingRequests.set id c.calls.length
    calls := c.calls ++ [⟨op, id, .pending,
      match sent.2 with
      | none => .waiting
      | some e => .returned (.error (.exn e))⟩] }

/-- mirrors src/wh/cli/mount.py:297-309 -/
def handleResponse (os : Os φ) (c : Client φ) (f : Frame) : Client φ :=
  match c.pendingRequests.get? f.requestId with
  | none => c
  | some j => { c with
      pendingRequests := c.pendingRequests.del f.requestId
      calls := c.calls.modify j (·.resolve (answerOf os f)) }

/-- mirrors src/wh/cli/mount.py:311-316 -/
def onConnectionLost (c : Client φ) : Client φ :=
  { c with
    node := { c.node with done := true }
    calls := c.pendingRequests.values.foldl
      (fun calls j => calls.modify j (·.resolve (.error connectionLostError))) c.calls }

/-! ## What they do to one call -/

/-- The table has every request under its own id, and the ids count the calls. -/
structure Numbered (c : Client φ) : Prop where
  count : c.requestId = c.calls.length
  ids : ∀ j call, c.calls[j]? = some call → call.requestId = j + 1
  table : ∀ id j, c.pendingRequests.get? id = some j → id = j + 1 ∧ j < c.calls.length

theorem getElem?_modify_of_some {α : Type} {xs : List α} {i : Nat} {x : α} (h : xs[i]? = some x)
    (j : Nat) (g : α → α) : (xs.modify j g)[i]? = some (if j = i then g x else x) := by
  rw [List.getElem?_modify, h]
  rfl

/-- Some of the calls are resolved, in whatever order and however often. -/
theorem foldl_resolve (r : Except Raised Json) (js : List Nat) {calls : List Call} {i : Nat}
    {call : Call} (h : calls[i]? = some call) :
    (js.foldl (fun calls j => calls.modify j (·.resolve r)) calls)[i]? =
      some (if i ∈ js then call.resolve r else call) := by
  induction js generalizing calls call with
  | nil => simpa using h
  | cons j js ih =>
    rw [List.foldl_cons, ih (getElem?_modify_of_some h j _)]
    have htwice : (call.resolve r).resolve r = call.resolve r := by
      cases call with
      | mk op id future stage => cases future <;> rfl
    by_cases hj : j = i
    · subst hj
      simp [htwice]
    · simp [hj, Ne.symm hj]

theorem length_foldl_resolve (r : Except Raised Json) (js : List Nat) (calls : List Call) :
    (js.foldl (fun calls j => calls.modify j (·.resolve r)) calls).length = calls.length := by
  induction js generalizing calls with
  | nil => rfl
  | cons j js ih => rw [List.foldl_cons, ih, List.length_modify]

variable {os : Os φ} {c : Client φ}

/-- An answer to a request in the table takes the request out and resolves its call; any other does
nothing. -/
theorem handleResponse_call (os : Os φ) (hn : Numbered c) {j : Nat} {call : Call}
    (h : c.calls[j]? = some call)
    (f : Frame) : (handleResponse os c f).calls[j]? =
      some (if f.requestId = j + 1 ∧ c.pendingRequests.get? (j + 1) = some j
        then call.resolve (answerOf os f) else call) := by
  unfold handleResponse
  split
  · rename_i hnone
    rw [h, if_neg]
    intro ⟨hid, hget⟩
    rw [hid, hget] at hnone
    cases hnone
  · rename_i i hget
    obtain ⟨hid, -⟩ := hn.table _ _ hget
    rw [getElem?_modify_of_some h]
    by_cases hi : i = j
    · rw [if_pos hi, if_pos ⟨by rw [hid, hi], by rw [← hi, ← hid]; rw [hget]⟩]
    · rw [if_neg hi, if_neg]
      intro h'
      omega

/-- The end of the connection resolves the calls of the requests in the table. -/
theorem connectionLost_call (hn : Numbered c) {j : Nat} {call : Call}
    (h : c.calls[j]? = some call) :
    (onConnectionLost c).calls[j]? =
      some (if c.pendingRequests.get? (j + 1) = some j
        then call.resolve (.error connectionLostError) else call) := by
  have hmem : j ∈ c.pendingRequests.values ↔ c.pendingRequests.get? (j + 1) = some j := by
    unfold Dict.values
    rw [List.mem_map]
    constructor
    · intro ⟨⟨id, i⟩, he, hi⟩
      have hget := Dict.mem_entries.mp he
      obtain ⟨hid, -⟩ := hn.table _ _ hget
      cases hi
      rwa [hid] at hget
    · intro hget
      exact ⟨(j + 1, j), Dict.mem_entries.mpr hget, rfl⟩
  show (c.pendingRequests.values.foldl _ c.calls)[j]? = _
  rw [foldl_resolve _ _ h]
  simp only [hmem]

/-! ## The numbers -/

theorem numbered_sendRequest (hn : Numbered c) (op : Op) : Numbered (sendRequest os c op) where
  count := by
    show c.requestId + 1 = (c.calls ++ [_]).length
    rw [List.length_append, hn.count]
    rfl
  ids := by
    intro j call h
    have hcalls : (c.calls ++ [_])[j]? = some call := h
    rcases Nat.lt_trichotomy j c.calls.length with hlt | heq | hgt
    · rw [List.getElem?_append_left hlt] at hcalls
      exact hn.ids j call hcalls
    · subst heq
      rw [List.getElem?_concat_length] at hcalls
      cases hcalls
      show c.requestId + 1 = _
      rw [hn.count]
    · rw [List.getElem?_eq_none (by simp; omega)] at hcalls
      cases hcalls
  table := by
    intro id j h
    have hget : (c.pendingRequests.set (c.requestId + 1) c.calls.length).get? id = some j := h
    rw [Dict.get?_set] at hget
    show _ ∧ j < (c.calls ++ [_]).length
    rw [List.length_append, List.length_singleton]
    split at hget
    · rename_i hid
      cases hget
      have := hn.count
      omega
    · have := hn.table id j hget
      omega

theorem numbered_handleResponse (hn : Numbered c) (f : Frame) :
    Numbered (handleResponse os c f) := by
  unfold handleResponse
  split
  · exact hn
  · rename_i i hget
    refine ⟨by rw [List.length_modify]; exact hn.count, ?_, ?_⟩
    · intro j call h
      rw [List.getElem?_modify] at h
      obtain ⟨old, hold, rfl⟩ := Option.map_eq_some_iff.mp h
      have hid := hn.ids j old hold
      split
      · exact hid
      · exact hid
    · intro id j h
      rw [List.length_modify]
      rw [Dict.get?_del] at h
      split at h
      · cases h
      · exact hn.table id j h

theorem numbered_onConnectionLost (hn : Numbered c) : Numbered (onConnectionLost c) where
  count := by
    show c.requestId = (c.pendingRequests.values.foldl _ c.calls).length
    rw [length_foldl_resolve]
    exact hn.count
  ids := by
    intro j call h
    have hlt : j < c.calls.length := by
      have := (List.getElem?_eq_some_iff.mp h).1
      unfold onConnectionLost at this
      rwa [length_foldl_resolve] at this
    rw [connectionLost_call hn (List.getElem?_eq_getElem hlt)] at h
    cases h
    have hid := hn.ids j _ (List.getElem?_eq_getElem hlt)
    split
    · exact hid
    · exact hid
  table := by
    intro id j h
    show _ ∧ j < (c.pendingRequests.values.foldl _ c.calls).length
    rw [length_foldl_resolve]
    exact hn.table id j h

end Wormhole.L4.Mount
