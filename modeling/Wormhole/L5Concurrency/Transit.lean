import Mathlib.Data.List.DropRight
import Wormhole.Core.Dict
import Wormhole.Core.LTS
import Wormhole.L1Encoding.PyBytes

/-!
# The transit relay

`src/wh/relay/transit.py`. Clients connect, send `please relay <token>` and
are paired by token. Each connection has a handler coroutine
(`_handle_client`), and one cleanup task runs beside them; they share the
dict `pending` under one `asyncio.Lock`.

A coroutine runs from one `await` to the next without interruption, so a
state of the system is where every coroutine waits (`Task`, `Sweep`) and what
the shared objects hold; a step resumes one coroutine at its `await` and runs
it to its next one. The steps are those of `step`:

* `accept`, `line`: a connection arrives; its handshake line is read, or the
  read times out or raises;
* `enter`: the first `async with self._lock` of `_find_or_wait_peer`. Under
  the lock the handler either takes the entry of its token and writes `ok`,
  keeping the lock over two `drain`s (`okSelf`, `okPeer`), or inserts its own
  entry and starts to wait;
* `wake`, `poll`, `expire`: the wait loop. `sleep(0.1)` ends; the membership
  test under the lock; the removal of the entry on timeout under the lock;
* `drained`: an awaited `drain` returns or raises;
* `relayed`: one of the two directions of `_relay_data` makes a step;
  `gathered`: both have ended;
* `sweepWake`, `sweepEnter`, `sweepDrained`: the cleanup loop;
* `tick`: time passes (milliseconds). A sleep ends no earlier than it should
  and arbitrarily later.

The lock is granted to any waiter when it is free; `asyncio.Lock`'s FIFO
order is one of the orders this allows. The server is running throughout:
`stop` and task cancellation at shutdown are not modelled, nor are the
statistics.
-/
namespace Wormhole.L5.Transit
open Wormhole.L1

abbrev ConnId := Nat

/-- What the relay writes to a client. -/
inductive Written
  | ok
  | timeout
  | badHandshake
  | badToken
  | data (bs : Bytes)
  deriving DecidableEq, Repr

/-! ## The handshake line -/

def relayPrefix : List Char := "please relay ".toList

/-- How a line that was read is taken. -/
inductive Hello
  | eof
  | undecodable
  | badHandshake
  | badToken
  | token (t : String)
  deriving DecidableEq, Repr

/-- mirrors src/wh/relay/transit.py:128-148 -/
def parseHandshake (line : Bytes) : Hello :=
  if line = [] then .eof
  else match decode line with
    | none => .undecodable
    | some text =>
      let handshake := strip text.toList
      if ¬ relayPrefix <+: handshake then .badHandshake
      else
        let token := handshake.drop 13
        if token = [] then .badToken else .token (String.ofList token)

theorem strip_getLast (cs : List Char) (h : strip cs ≠ []) :
    ¬ pyIsSpace ((strip cs).getLast h) :=
  List.rdropWhile_last_not pyIsSpace (cs.dropWhile pyIsSpace) h

/-- No stripped text is the prefix alone, which ends with a blank. -/
theorem strip_ne_relayPrefix (cs : List Char) : strip cs ≠ relayPrefix := by
  intro h
  have hne : strip cs ≠ [] := by rw [h]; decide
  have hl : (strip cs).getLast hne = ' ' := by
    have : (strip cs).getLast? = some ' ' := by rw [h]; decide
    rw [List.getLast?_eq_some_getLast hne] at this
    exact Option.some.inj this
  have hs := strip_getLast cs hne
  rw [hl] at hs
  exact hs (by decide)

/-- The empty-token branch is dead: the strip that comes first removes the
blank that the prefix ends with. -/
theorem parseHandshake_ne_badToken (line : Bytes) : parseHandshake line ≠ .badToken := by
  unfold parseHandshake
  split
  · simp
  · split
    · simp
    · rename_i text _
      simp only
      split
      · simp
      · rename_i hpre
        simp only [not_not] at hpre
        split
        · rename_i hnil
          obtain ⟨tl, htl⟩ := hpre
          have hlen : relayPrefix.length = 13 := rfl
          rw [← htl, ← hlen, List.drop_left] at hnil
          subst hnil
          exact absurd htl.symm (by simpa using strip_ne_relayPrefix text.toList)
        · simp

/-! ## State -/

/-- One direction of `_relay_data`: awaiting `src.read`, awaiting `dst.drain`,
or past its `finally`. -/
inductive Dir
  | reading
  | draining
  | ended
  deriving DecidableEq, Repr

/-- Where the handler of a connection waits. -/
inductive Task
  | fresh                                            -- not connected yet
  | handshake (since : Nat)                          -- `reader.readline()`
  | rejected                                         -- `drain` after a bad handshake
  | enter (token : String)                           -- the lock, on arrival
  | okSelf (token : String) (peer : ConnId)          -- `writer.drain()`, lock held
  | okPeer (token : String) (peer : ConnId)          -- `peer.writer.drain()`, lock held
  | sleep (token : String) (start wake : Nat)        -- `asyncio.sleep(0.1)`
  | poll (token : String) (start : Nat)              -- the lock, for the membership test
  | expire (token : String)                          -- the lock, to remove the entry
  | expired                                          -- `drain` after `timeout`
  | relay (peer : ConnId) (fwd bwd : Dir)            -- `asyncio.gather`
  | closing                                          -- `writer.wait_closed()`
  | done
  deriving DecidableEq, Repr

/-- A connection: its handler, whether the relay called `writer.close()`, and
what it wrote. -/
structure Conn where
  task : Task
  closed : Bool
  out : List Written
  deriving DecidableEq, Repr

/-- mirrors src/wh/relay/transit.py:24-30; `conn` stands for reader and writer. -/
structure PendingConnection where
  conn : ConnId
  token : String
  timestamp : Nat
  deriving DecidableEq, Repr

inductive Holder
  | client (i : ConnId)
  | sweep
  deriving DecidableEq, Repr

/-- Where the cleanup task waits; `now` is the time it read before it asked
for the lock, `rest` the stale tokens still to remove. -/
inductive Sweep
  | sleeping (wake : Nat)
  | wanting (now : Nat)
  | draining (conn : ConnId) (rest : List String)
  deriving DecidableEq, Repr

structure St where
  now : Nat
  conn : ConnId → Conn
  pending : Dict String PendingConnection
  lock : Option Holder
  sweep : Sweep

/-- `timeout` in milliseconds; `pollEvery` and `sweepEvery` are the literals
0.1 and 10 of the two `asyncio.sleep` calls. -/
structure Cfg where
  timeout : Nat
  deriving DecidableEq, Repr

def pollEvery : Nat := 100
def sweepEvery : Nat := 10000

def init : St := ⟨0, fun _ => ⟨.fresh, false, []⟩, .empty, none, .sleeping sweepEvery⟩

/-! ## Steps -/

/-- What an awaited `readline` under `wait_for` does. -/
inductive Read
  | line (bs : Bytes)
  | timeout
  | raised
  deriving DecidableEq, Repr

/-- What one direction of the relay sees. -/
inductive RelayEv
  | chunk (b : UInt8) (bs : Bytes)
  | eof
  | readFails
  | drained
  | drainFails
  deriving DecidableEq, Repr

inductive Lbl
  | tick (d : Nat)
  | accept (i : ConnId)
  | line (i : ConnId) (r : Read)
  | enter (i : ConnId)
  | wake (i : ConnId)
  | poll (i : ConnId)
  | expire (i : ConnId)
  | drained (i : ConnId) (ok : Bool)
  | relayed (i : ConnId) (fwd : Bool) (e : RelayEv)
  | gathered (i : ConnId)
  | closed (i : ConnId)
  | sweepWake
  | sweepEnter
  | sweepDrained (ok : Bool)
  deriving DecidableEq, Repr

def St.upd (s : St) (i : ConnId) (f : Conn → Conn) : St :=
  { s with conn := fun j => if j = i then f (s.conn j) else s.conn j }

def Conn.goto (t : Task) (c : Conn) : Conn := { c with task := t }
def Conn.write (w : Written) (c : Conn) : Conn := { c with out := c.out ++ [w] }
def Conn.close (c : Conn) : Conn := { c with closed := true }

/-- The `finally` of `_handle_client`, up to `wait_closed`.
mirrors src/wh/relay/transit.py:163-168 -/
def finish (s : St) (i : ConnId) : St := s.upd i fun c => c.close.goto .closing

/-- mirrors src/wh/relay/transit.py:178-203 -/
def enter (s : St) (i : ConnId) (token : String) : St :=
  match s.pending.get? token with
  | some peer =>
    { s.upd i fun c => (c.write .ok).goto (.okSelf token peer.conn) with
      pending := s.pending.del token, lock := some (.client i) }
  | none =>
    { s.upd i fun c => c.goto (.sleep token s.now (s.now + pollEvery)) with
      pending := s.pending.set token ⟨i, token, s.now⟩ }

/-- mirrors src/wh/relay/transit.py:207-217 -/
def poll (c : Cfg) (s : St) (i : ConnId) (token : String) (start : Nat) : St :=
  if s.pending.contains token then
    if start + c.timeout < s.now then s.upd i (.goto (.expire token))
    else s.upd i (.goto (.sleep token start (s.now + pollEvery)))
  else finish s i

/-- mirrors src/wh/relay/transit.py:213-217 -/
def expire (s : St) (i : ConnId) (token : String) : St :=
  { s.upd i fun c => (c.write .timeout).goto .expired with pending := s.pending.del token }

/-- One direction of `_relay_data`, writing to `dst`.
mirrors src/wh/relay/transit.py:236-255 -/
def relayDir (s : St) (dst : ConnId) : Dir → RelayEv → Option (St × Dir)
  | .reading, .chunk b bs => some (s.upd dst (.write (.data (b :: bs))), .draining)
  | .reading, .eof => some (s.upd dst .close, .ended)
  | .reading, .readFails => some (s.upd dst .close, .ended)
  | .draining, .drained => some (s, .reading)
  | .draining, .drainFails => some (s.upd dst .close, .ended)
  | _, _ => none

/-- The tokens whose entries are older than the timeout.
mirrors src/wh/relay/transit.py:276-279 -/
def staleTokens (c : Cfg) (s : St) (now : Nat) : List String :=
  (s.pending.entries.filter fun e => e.2.timestamp + c.timeout < now).map Prod.fst

/-- The removal loop of the cleanup, up to its next `drain`, or to the release
of the lock.
mirrors src/wh/relay/transit.py:281-289 -/
def sweepNext (s : St) : List String → St
  | [] => { s with lock := none, sweep := .sleeping (s.now + sweepEvery) }
  | token :: rest =>
    match s.pending.get? token with
    | none => sweepNext s rest
    | some e =>
      { s.upd e.conn (.write .timeout) with
        pending := s.pending.del token, lock := some .sweep, sweep := .draining e.conn rest }

/-- mirrors src/wh/relay/transit.py:110-290 -/
def step (c : Cfg) (s : St) : Lbl → Option St
  | .tick d => some { s with now := s.now + d }
  | .accept i =>
    match (s.conn i).task with
    | .fresh => some (s.upd i (.goto (.handshake s.now)))
    | _ => none
  | .line i r =>
    match (s.conn i).task, r with
    | .handshake since, .timeout => if since + c.timeout ≤ s.now then some (finish s i) else none
    | .handshake _, .raised => some (finish s i)
    | .handshake _, .line bs =>
      match parseHandshake bs with
      | .eof | .undecodable => some (finish s i)
      | .badHandshake => some (s.upd i fun c => (c.write .badHandshake).goto .rejected)
      | .badToken => some (s.upd i fun c => (c.write .badToken).goto .rejected)
      | .token t => some (s.upd i (.goto (.enter t)))
    | _, _ => none
  | .enter i =>
    match (s.conn i).task, s.lock with
    | .enter token, none => some (enter s i token)
    | _, _ => none
  | .wake i =>
    match (s.conn i).task with
    | .sleep token start wake =>
      if wake ≤ s.now then some (s.upd i (.goto (.poll token start))) else none
    | _ => none
  | .poll i =>
    match (s.conn i).task, s.lock with
    | .poll token start, none => some (poll c s i token start)
    | _, _ => none
  | .expire i =>
    match (s.conn i).task, s.lock with
    | .expire token, none => some (expire s i token)
    | _, _ => none
  | .drained i ok =>
    match (s.conn i).task, ok with
    | .rejected, _ => some (finish s i)
    | .expired, _ => some (finish s i)
    | .okSelf token peer, true =>
      some ((s.upd peer (.write .ok)).upd i (.goto (.okPeer token peer)))
    | .okPeer _ peer, true =>
      some { s.upd i (.goto (.relay peer .reading .reading)) with lock := none }
    | .okSelf _ _, false => some { finish s i with lock := none }
    | .okPeer _ _, false => some { finish s i with lock := none }
    | _, _ => none
  | .relayed i true e =>
    match (s.conn i).task with
    | .relay peer fwd bwd =>
      (relayDir s peer fwd e).map fun (s', d) => s'.upd i (.goto (.relay peer d bwd))
    | _ => none
  | .relayed i false e =>
    match (s.conn i).task with
    | .relay peer fwd bwd =>
      (relayDir s i bwd e).map fun (s', d) => s'.upd i (.goto (.relay peer fwd d))
    | _ => none
  | .gathered i =>
    match (s.conn i).task with
    | .relay _ .ended .ended => some (finish s i)
    | _ => none
  | .closed i =>
    match (s.conn i).task with
    | .closing => some (s.upd i (.goto .done))
    | _ => none
  | .sweepWake =>
    match s.sweep with
    | .sleeping wake => if wake ≤ s.now then some { s with sweep := .wanting s.now } else none
    | _ => none
  | .sweepEnter =>
    match s.sweep, s.lock with
    | .wanting now, none => some (sweepNext s (staleTokens c s now))
    | _, _ => none
  | .sweepDrained ok =>
    match s.sweep with
    | .draining conn rest => some (sweepNext (if ok then s.upd conn .close else s) rest)
    | _ => none

def lts (c : Cfg) : LTS St Lbl := .ofStep (· = init) (step c)

@[simp] theorem upd_conn (s : St) (i j : ConnId) (f : Conn → Conn) :
    (s.upd i f).conn j = if j = i then f (s.conn j) else s.conn j := rfl
@[simp] theorem upd_pending (s : St) (i : ConnId) (f : Conn → Conn) :
    (s.upd i f).pending = s.pending := rfl
@[simp] theorem upd_sweep (s : St) (i : ConnId) (f : Conn → Conn) :
    (s.upd i f).sweep = s.sweep := rfl
@[simp] theorem upd_lock (s : St) (i : ConnId) (f : Conn → Conn) : (s.upd i f).lock = s.lock := rfl

@[simp] theorem goto_task (c : Conn) (t : Task) : (c.goto t).task = t := rfl
@[simp] theorem goto_closed (c : Conn) (t : Task) : (c.goto t).closed = c.closed := rfl
@[simp] theorem goto_out (c : Conn) (t : Task) : (c.goto t).out = c.out := rfl
@[simp] theorem write_task (c : Conn) (w : Written) : (c.write w).task = c.task := rfl
@[simp] theorem write_closed (c : Conn) (w : Written) : (c.write w).closed = c.closed := rfl
@[simp] theorem write_out (c : Conn) (w : Written) : (c.write w).out = c.out ++ [w] := rfl
@[simp] theorem close_task (c : Conn) : c.close.task = c.task := rfl
@[simp] theorem close_closed (c : Conn) : c.close.closed = true := rfl
@[simp] theorem close_out (c : Conn) : c.close.out = c.out := rfl

/-! ## What a step can do -/

/-- The two ends of a direction: `fwd` writes to the peer. -/
def dstOf (i peer : ConnId) (fwd : Bool) : ConnId := if fwd then peer else i

/-- The direction reaches EOF or fails. -/
def RelayEv.ends : RelayEv → Bool
  | .eof => true
  | .readFails => true
  | .drainFails => true
  | _ => false

/-- Replace the state of one direction. -/
def setDir (peer : ConnId) (f b : Dir) (fwd : Bool) (d : Dir) : Task :=
  if fwd then .relay peer d b else .relay peer f d

/-- The state of one direction. -/
def getDir (f b : Dir) (fwd : Bool) : Dir := if fwd then f else b

/-- Every step, with what it required and what it left. -/
inductive Move (c : Cfg) (s : St) : Lbl → St → Prop
  | tick (d) : Move c s (.tick d) { s with now := s.now + d }
  | accept (i) (ht : (s.conn i).task = .fresh) :
      Move c s (.accept i) (s.upd i (.goto (.handshake s.now)))
  | hello (i r since token) (ht : (s.conn i).task = .handshake since) :
      Move c s (.line i r) (s.upd i (.goto (.enter token)))
  | reject (i r since w) (ht : (s.conn i).task = .handshake since) (hw : w ≠ .timeout) :
      Move c s (.line i r) (s.upd i fun c => (c.write w).goto .rejected)
  | hangup (i r since) (ht : (s.conn i).task = .handshake since) : Move c s (.line i r) (finish s i)
  | takePeer (i token e) (ht : (s.conn i).task = .enter token) (hl : s.lock = none)
      (he : s.pending.get? token = some e) :
      Move c s (.enter i) { s.upd i fun c => (c.write .ok).goto (.okSelf token e.conn) with
        pending := s.pending.del token, lock := some (.client i) }
  | insertSelf (i token) (ht : (s.conn i).task = .enter token) (hl : s.lock = none)
      (he : s.pending.get? token = none) :
      Move c s (.enter i) { s.upd i fun c => c.goto (.sleep token s.now (s.now + pollEvery)) with
        pending := s.pending.set token ⟨i, token, s.now⟩ }
  | wake (i token start wake) (ht : (s.conn i).task = .sleep token start wake) :
      Move c s (.wake i) (s.upd i (.goto (.poll token start)))
  | leaveMatched (i token start) (ht : (s.conn i).task = .poll token start)
      (he : s.pending.get? token = none) : Move c s (.poll i) (finish s i)
  | pollOn (i token start e t) (ht : (s.conn i).task = .poll token start)
      (he : s.pending.get? token = some e)
      (hn : t = .expire token ∨ t = .sleep token start (s.now + pollEvery)) :
      Move c s (.poll i) (s.upd i (.goto t))
  | expire (i token) (ht : (s.conn i).task = .expire token) (hl : s.lock = none) :
      Move c s (.expire i) { s.upd i fun c => (c.write .timeout).goto .expired with
        pending := s.pending.del token }
  | lastDrain (i ok) (ht : (s.conn i).task = .rejected ∨ (s.conn i).task = .expired) :
      Move c s (.drained i ok) (finish s i)
  | okSelf (i token p) (ht : (s.conn i).task = .okSelf token p) :
      Move c s (.drained i true) ((s.upd p (.write .ok)).upd i (.goto (.okPeer token p)))
  | okPeer (i token p) (ht : (s.conn i).task = .okPeer token p) :
      Move c s (.drained i true) { s.upd i (.goto (.relay p .reading .reading)) with lock := none }
  | okFails (i token p) (ht : (s.conn i).task = .okSelf token p ∨ (s.conn i).task = .okPeer token p) :
      Move c s (.drained i false) { finish s i with lock := none }
  | relayWrite (i fwd e p f b bs) (ht : (s.conn i).task = .relay p f b)
      (hd : getDir f b fwd = .reading) :
      Move c s (.relayed i fwd e)
        ((s.upd (dstOf i p fwd) (.write (.data bs))).upd i (.goto (setDir p f b fwd .draining)))
  | relayOn (i fwd e p f b) (ht : (s.conn i).task = .relay p f b)
      (hd : getDir f b fwd = .draining) :
      Move c s (.relayed i fwd e) (s.upd i (.goto (setDir p f b fwd .reading)))
  | relayEnd (i fwd e p f b) (ht : (s.conn i).task = .relay p f b) (hd : getDir f b fwd ≠ .ended)
      (he : e.ends = true) :
      Move c s (.relayed i fwd e)
        ((s.upd (dstOf i p fwd) .close).upd i (.goto (setDir p f b fwd .ended)))
  | gathered (i p) (ht : (s.conn i).task = .relay p .ended .ended) :
      Move c s (.gathered i) (finish s i)
  | closed (i) (ht : (s.conn i).task = .closing) : Move c s (.closed i) (s.upd i (.goto .done))
  | sweepWake (wake) (hs : s.sweep = .sleeping wake) :
      Move c s .sweepWake { s with sweep := .wanting s.now }
  | sweepEnter (now) (hs : s.sweep = .wanting now) (hl : s.lock = none) :
      Move c s .sweepEnter (sweepNext s (staleTokens c s now))
  | sweepDrained (q rest ok) (hs : s.sweep = .draining q rest) :
      Move c s (.sweepDrained ok) (sweepNext (if ok then s.upd q .close else s) rest)

theorem relayDir_cases {s s' : St} {dst : ConnId} {d d' : Dir} {e : RelayEv}
    (h : relayDir s dst d e = some (s', d')) :
    (∃ bs, d = .reading ∧ s' = s.upd dst (.write (.data bs)) ∧ d' = .draining) ∨
    (d = .draining ∧ s' = s ∧ d' = .reading) ∨
    (d ≠ .ended ∧ e.ends = true ∧ s' = s.upd dst .close ∧ d' = .ended) := by
  cases d <;> cases e <;> simp only [relayDir, Option.some.injEq, Prod.mk.injEq, reduceCtorEq] at h
  case reading.chunk b bs => exact .inl ⟨b :: bs, rfl, h.1.symm, h.2.symm⟩
  case draining.drained => exact .inr (.inl ⟨rfl, h.1.symm, h.2.symm⟩)
  all_goals exact .inr (.inr ⟨by simp, rfl, h.1.symm, h.2.symm⟩)

theorem step_relayed (c : Cfg) (s : St) (i : ConnId) (fwd : Bool) (e : RelayEv) :
    step c s (.relayed i fwd e) =
      match (s.conn i).task with
      | .relay p f b => (relayDir s (dstOf i p fwd) (getDir f b fwd) e).map fun (s', d) =>
          s'.upd i (.goto (setDir p f b fwd d))
      | _ => none := by
  cases fwd <;> rfl

theorem relayed_cases {c : Cfg} {s s' : St} {i : ConnId} {fwd : Bool} {e : RelayEv}
    (h : step c s (.relayed i fwd e) = some s') : Move c s (.relayed i fwd e) s' := by
  rw [step_relayed] at h
  split at h
  · rename_i p f b ht
    simp only [Option.map_eq_some_iff] at h
    obtain ⟨⟨s1, d⟩, hr, rfl⟩ := h
    rcases relayDir_cases hr with ⟨bs, hd, rfl, rfl⟩ | ⟨hd, rfl, rfl⟩ | ⟨hd, he, rfl, rfl⟩
    · exact .relayWrite i fwd e p f b bs ht hd
    · exact .relayOn i fwd e p f b ht hd
    · exact .relayEnd i fwd e p f b ht hd he
  · cases h

theorem line_cases {c : Cfg} {s s' : St} {i : ConnId} {r : Read}
    (h : step c s (.line i r) = some s') : Move c s (.line i r) s' := by
  simp only [step] at h
  split at h
  · rename_i since ht
    split at h
    · cases h; exact .hangup i _ since ht
    · cases h
  · rename_i since ht
    cases h; exact .hangup i _ since ht
  · rename_i since bs ht
    split at h
    · cases h; exact .hangup i _ since ht
    · cases h; exact .hangup i _ since ht
    · cases h; exact .reject i _ since .badHandshake ht (by simp)
    · cases h; exact .reject i _ since .badToken ht (by simp)
    · cases h; exact .hello i _ since _ ht
  · cases h

theorem step_move {c : Cfg} {s s' : St} {l : Lbl} (h : step c s l = some s') : Move c s l s' := by
  cases l with
  | tick d => cases h; exact .tick d
  | accept i =>
    simp only [step] at h
    split at h
    · rename_i ht; cases h; exact .accept i ht
    · cases h
  | line i r => exact line_cases h
  | enter i =>
    simp only [step] at h
    split at h
    · rename_i token ht hl
      cases h
      rw [enter]
      split
      · rename_i e he; exact .takePeer i token e ht hl he
      · rename_i he; exact .insertSelf i token ht hl he
    · cases h
  | wake i =>
    simp only [step] at h
    split at h
    · rename_i token start w ht
      split at h
      · cases h; exact .wake i token start w ht
      · cases h
    · cases h
  | poll i =>
    simp only [step] at h
    split at h
    · rename_i token start ht hl
      cases h
      rw [poll, Dict.contains_eq]
      cases he : s.pending.get? token with
      | none => exact .leaveMatched i token start ht he
      | some e =>
        simp only [Option.isSome_some, if_true]
        split
        · exact .pollOn i token start e _ ht he (.inl rfl)
        · exact .pollOn i token start e _ ht he (.inr rfl)
    · cases h
  | expire i =>
    simp only [step] at h
    split at h
    · rename_i token ht hl; cases h; exact .expire i token ht hl
    · cases h
  | drained i ok =>
    simp only [step] at h
    split at h
    · rename_i ht; cases h; exact .lastDrain i _ (.inl ht)
    · rename_i ht; cases h; exact .lastDrain i _ (.inr ht)
    · rename_i token p ht; cases h; exact .okSelf i token p ht
    · rename_i token p ht; cases h; exact .okPeer i token p ht
    · rename_i token p ht; cases h; exact .okFails i token p (.inl ht)
    · rename_i token p ht; cases h; exact .okFails i token p (.inr ht)
    · cases h
  | relayed i fwd e => exact relayed_cases h
  | gathered i =>
    simp only [step] at h
    split at h
    · rename_i p ht; cases h; exact .gathered i p ht
    · cases h
  | closed i =>
    simp only [step] at h
    split at h
    · rename_i ht; cases h; exact .closed i ht
    · cases h
  | sweepWake =>
    simp only [step] at h
    split at h
    · rename_i w hs
      split at h
      · cases h; exact .sweepWake w hs
      · cases h
    · cases h
  | sweepEnter =>
    simp only [step] at h
    split at h
    · rename_i now hs hl; cases h; exact .sweepEnter now hs hl
    · cases h
  | sweepDrained ok =>
    simp only [step] at h
    split at h
    · rename_i q rest hs; cases h; exact .sweepDrained q rest ok hs
    · cases h

end Wormhole.L5.Transit
