import Wormhole.L1Encoding.PyBytes

/-!
# The daemon's bridged connections and its receive endpoint

`src/wh/cli/daemon.py`. A dilated connection is bridged from Twisted to an
asyncio queue: `BridgeProtocol` schedules each chunk, and `None` for the end
of the connection, with `call_soon_threadsafe`, and the event loop runs the
scheduled `put_nowait`s in that order. An HTTP client reads the queue with
`GET .../recv?max_bytes=n`. `handle_recv` suspends once, on
`wait_for(read_queue.get(), timeout)`: `handleRecv` is the part before,
`handleGot` and `handleTimeout` are the two continuations.

`max_bytes` is a natural number; a negative one would slice from the other
end of the chunk.
-/
namespace Wormhole.L4.Daemon
open Wormhole.L1

/-- What `handle_recv` reads and writes of a `ConnectionState`; `none` in the
queue is the end of the stream.
mirrors src/wh/cli/daemon.py:42-51 -/
structure ConnectionState where
  readQueue : List (Option Bytes)
  closed : Bool
  deriving DecidableEq, Repr

/-- An answer: the status, the raw body of a `web.Response`, the text under
`error` of a `json_response`. -/
structure Response where
  status : Nat
  body : Bytes
  error : Option String
  deriving DecidableEq, Repr

/-- `request.query.get('max_bytes', '65536')` -/
def defaultMaxBytes : Nat := 65536

/-! ## `BridgeProtocol` -/

/-- One connection: its `conn_state` and the callbacks that
`call_soon_threadsafe` has still to run, each a `read_queue.put_nowait`. -/
structure Bridge where
  connState : Option ConnectionState
  scheduled : List (Option Bytes)
  deriving DecidableEq, Repr

/-- mirrors src/wh/cli/daemon.py:481-483 -/
def Bridge.init : Bridge := ⟨none, []⟩

/-- mirrors src/wh/cli/daemon.py:485-498 -/
def Bridge.connectionMade (b : Bridge) : Bridge := { b with connState := some ⟨[], false⟩ }

/-- mirrors src/wh/cli/daemon.py:503-508 -/
def Bridge.dataReceived (b : Bridge) (data : Bytes) : Bridge :=
  match b.connState with
  | none => b
  | some _ => { b with scheduled := b.scheduled ++ [some data] }

/-- mirrors src/wh/cli/daemon.py:510-517 -/
def Bridge.connectionLost (b : Bridge) : Bridge :=
  match b.connState with
  | none => b
  | some c => ⟨some { c with closed := true }, b.scheduled ++ [none]⟩

/-- The event loop runs the oldest scheduled `put_nowait`. -/
def Bridge.runScheduled (b : Bridge) : Option Bridge :=
  match b.scheduled, b.connState with
  | x :: rest, some c => some ⟨some { c with readQueue := c.readQueue ++ [x] }, rest⟩
  | _, _ => none

/-! ## `handle_recv` -/

/-- Up to the `await`: `some` is an answer given at once.
mirrors src/wh/cli/daemon.py:650-661 -/
def handleRecv (conn : Option ConnectionState) : Option Response :=
  match conn with
  | none => some ⟨404, [], some "Connection not found"⟩
  | some c => if c.closed then some ⟨410, [], some "Connection closed"⟩ else none

/-- After `read_queue.get()`: the answer, and what is put back into the queue.
mirrors src/wh/cli/daemon.py:670-687 -/
def handleGot (maxBytes : Nat) (data : Option Bytes) : Response × List (Option Bytes) :=
  match data with
  | none => (⟨204, [], none⟩, [])
  | some data =>
    if maxBytes < data.length then
      -- `put` appends: the remainder goes behind everything queued meanwhile
      (⟨200, data.take maxBytes, none⟩, [some (data.drop maxBytes)])
    else (⟨200, data, none⟩, [])

/-- mirrors src/wh/cli/daemon.py:689-693 -/
def handleTimeout : Response := ⟨408, [], none⟩

/-- The answers that end a poller's loop: no content, gone. -/
def Response.isEof (r : Response) : Bool := r.status = 204 || r.status = 410

@[simp] theorem isEof_handleTimeout : handleTimeout.isEof = false := rfl

/-! ## What the queue still owes -/

/-- The bytes of queued chunks, in order. -/
def chunkBytes (q : List (Option Bytes)) : Bytes := (q.filterMap id).flatten

@[simp] theorem chunkBytes_nil : chunkBytes [] = [] := rfl

@[simp] theorem chunkBytes_some (data : Bytes) (q : List (Option Bytes)) :
    chunkBytes (some data :: q) = data ++ chunkBytes q := rfl

@[simp] theorem chunkBytes_none (q : List (Option Bytes)) :
    chunkBytes (none :: q) = chunkBytes q := rfl

@[simp] theorem chunkBytes_append (p q : List (Option Bytes)) :
    chunkBytes (p ++ q) = chunkBytes p ++ chunkBytes q := by
  simp [chunkBytes]

/-- **A read conserves bytes, not their place.** The body and what goes back
are the chunk; when nothing but empty chunks is queued behind it, the
remainder also keeps its place. -/
theorem handleGot_bytes (maxBytes : Nat) (data : Option Bytes) :
    (handleGot maxBytes data).1.body ++ chunkBytes (handleGot maxBytes data).2 =
      chunkBytes [data] := by
  cases data with
  | none => rfl
  | some data =>
    simp only [handleGot]
    split
    · simp only [chunkBytes_some, chunkBytes_nil, List.append_nil, List.take_append_drop]
    · simp only [chunkBytes_some, chunkBytes_nil, List.append_nil]

theorem isEof_handleGot (maxBytes : Nat) (data : Option Bytes) :
    (handleGot maxBytes data).1.isEof = true ↔ data = none := by
  cases data with
  | none => exact ⟨fun _ => rfl, fun _ => rfl⟩
  | some data =>
    simp only [handleGot]
    split
    · simp [Response.isEof]
    · simp [Response.isEof]

end Wormhole.L4.Daemon
