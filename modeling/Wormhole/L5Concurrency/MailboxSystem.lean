import Wormhole.Core.LTS
import Wormhole.L4App.MailboxServer

/-!
# The mailbox server under any interleaving

Each websocket has a handler coroutine (`_handle_client`); they share the
server's dicts. Every `await` is a `websocket.send`, or the wait for the next
message of `async for`. A state of the system is what the dicts hold and where
every coroutine waits (`Task`); a step resumes one coroutine:

* `connect`: a websocket arrives, its `welcome` is about to be sent;
* `recv`: the next message is read and handled up to the handler's first
  `await` (`Wormhole.L4.MailboxServer.handleMessage`);
* `send`: the awaited send of a reply, of the next message of a replay, or of
  an error completes, or raises because the connection is closed;
* `notify`: the same for one subscriber of a fan-out. `list(subscribers)` has
  no fixed order, so any of those that are left may be next;
* `drop`: a connection closes; `leave`: its `async for` ends.

An exception in a handler ends it; the error frame is sent next (`fail`). An
exception on a send of the outer `try` ends the coroutine (`finish`). A
connection that has closed stays closed, so sends to it fail from then on.
`stop` is not modelled.
-/
namespace Wormhole.L5.MailboxSystem
open Wormhole.L1 Wormhole.L4.MailboxServer

/-! ## State -/

/-- Where the coroutine of a websocket waits. -/
inductive Task
  | absent                                                        -- not connected yet
  | greet                                                         -- the send of `welcome`
  | idle                                                          -- `async for`
  | reply (f : Frame)                                             -- `_send` of a handler
  | replay (m : Key) (msgs : List Message)                        -- the loop of `_handle_open`
  | notify (m : Key) (msg : Message) (rest : Finset ConnId)       -- the loop of `_handle_add`
  | fail (e : ErrorText)                                          -- `_send_error` after an exception
  | gone

structure Conn where
  state : ClientState
  task : Task
  up : Bool

/-- `clients` is `self.clients`. -/
structure St where
  server : Server
  clients : Finset ConnId
  conn : ConnId → Conn

def init (appId : String) : St := ⟨.init appId, ∅, fun _ => ⟨.init, .absent, false⟩⟩

/-! ## Steps -/

/-- What `json.loads` makes of a message. -/
inductive Incoming
  | json (data : Json)
  | notJson
  | raises (text : String)

inductive Lbl
  | connect (i : ConnId)
  | recv (i : ConnId) (inc : Incoming) (token : String)
  | send (i : ConnId)
  | notify (i dst : ConnId)
  | drop (i : ConnId)
  | leave (i : ConnId)

def St.upd (s : St) (i : ConnId) (f : Conn → Conn) : St :=
  { s with conn := fun j => if j = i then f (s.conn j) else s.conn j }

def Conn.goto (t : Task) (c : Conn) : Conn := { c with task := t }
def Conn.down (c : Conn) : Conn := { c with up := false }

/-- The loop of `_handle_open` at its next message, or past its end. -/
def replaying (m : Key) (msgs : List Message) : Task :=
  if msgs.isEmpty then .idle else .replay m msgs

/-- The loop of `_handle_add` with these subscribers left. -/
def notifying (m : Key) (msg : Message) (rest : Finset ConnId) : Task :=
  if rest = ∅ then .idle else .notify m msg rest

def nextTask : Next → Task
  | .reply f => .reply f
  | .replay m msgs => replaying m msgs
  | .notify m msg subs => notifying m msg subs
  | .raise e => .fail (.exc e)

/-- A handler's first segment. -/
def receive (s : St) (i : ConnId) (out : Out) : St :=
  { s with server := out.server }.upd i fun c =>
    { c with state := out.state, task := nextTask out.next }

/-- The `finally` of `_handle_client`.
mirrors src/wh/relay/mailbox.py:173-178 -/
def finish (s : St) (i : ConnId) : St :=
  { s.upd i (.goto .gone) with
    clients := s.clients.erase i
    server := match (s.conn i).state.mailbox with
      | some m => s.server.unsubscribe m i
      | none => s.server }

/-- mirrors src/wh/relay/mailbox.py:139-178 -/
def step (s : St) : Lbl → Option St
  | .connect i =>
    match (s.conn i).task with
    | .absent => some { s.upd i fun _ => ⟨.init, .greet, true⟩ with clients := insert i s.clients }
    | _ => none
  | .recv i inc token =>
    match (s.conn i).task, inc with
    | .idle, .json data =>
      some (receive s i (handleMessage s.server (s.conn i).state i data token))
    | .idle, .notJson => some (s.upd i (.goto (.fail .invalidJson)))
    | .idle, .raises text => some (s.upd i (.goto (.fail (.exc (.loads text)))))
    | _, _ => none
  | .send i =>
    match (s.conn i).task, (s.conn i).up with
    | .greet, true => some (s.upd i (.goto .idle))
    | .greet, false => some (finish s i)
    | .reply _, true => some (s.upd i (.goto .idle))
    | .reply _, false => some (s.upd i (.goto (.fail (.exc .connectionClosed))))
    | .replay m (_ :: rest), true => some (s.upd i (.goto (replaying m rest)))
    | .replay _ _, false => some (s.upd i (.goto (.fail (.exc .connectionClosed))))
    | .fail _, true => some (s.upd i (.goto .idle))
    | .fail _, false => some (finish s i)
    | _, _ => none
  | .notify i dst =>
    match (s.conn i).task with
    | .notify m msg rest =>
      if dst ∈ rest then
        some { s.upd i (.goto (notifying m msg (rest.erase dst))) with
          server := if (s.conn dst).up then s.server else s.server.unsubscribe m dst }
      else none
    | _ => none
  | .drop i => some (s.upd i .down)
  | .leave i =>
    match (s.conn i).task, (s.conn i).up with
    | .idle, false => some (finish s i)
    | _, _ => none

def lts (appId : String) : LTS St Lbl := .ofStep (· = init appId) step

/-! ## What is sent -/

/-- Which loop a frame comes from. -/
inductive Via
  | own
  | replay (m : Key)
  | notify (m : Key)
  deriving DecidableEq

structure Sent where
  dst : ConnId
  frame : Frame
  via : Via

/-- The frame that a step hands to its websocket. -/
def emitted (s : St) : Lbl → Option Sent
  | .send i =>
    match (s.conn i).task, (s.conn i).up with
    | .greet, true => some ⟨i, .welcome, .own⟩
    | .reply f, true => some ⟨i, f, .own⟩
    | .replay m (msg :: _), true => some ⟨i, .message msg, .replay m⟩
    | .fail e, true => some ⟨i, .error e, .own⟩
    | _, _ => none
  | .notify i dst =>
    match (s.conn i).task with
    | .notify m msg rest =>
      if dst ∈ rest ∧ (s.conn dst).up then some ⟨dst, .message msg, .notify m⟩ else none
    | _ => none
  | _ => none

@[simp] theorem upd_conn (s : St) (i j : ConnId) (f : Conn → Conn) :
    (s.upd i f).conn j = if j = i then f (s.conn j) else s.conn j := rfl
@[simp] theorem upd_server (s : St) (i : ConnId) (f : Conn → Conn) :
    (s.upd i f).server = s.server := rfl
@[simp] theorem upd_clients (s : St) (i : ConnId) (f : Conn → Conn) :
    (s.upd i f).clients = s.clients := rfl

@[simp] theorem goto_task (c : Conn) (t : Task) : (c.goto t).task = t := rfl
@[simp] theorem goto_state (c : Conn) (t : Task) : (c.goto t).state = c.state := rfl
@[simp] theorem goto_up (c : Conn) (t : Task) : (c.goto t).up = c.up := rfl
@[simp] theorem down_task (c : Conn) : c.down.task = c.task := rfl
@[simp] theorem down_state (c : Conn) : c.down.state = c.state := rfl
@[simp] theorem down_up (c : Conn) : c.down.up = false := rfl

@[simp] theorem receive_server (s : St) (i : ConnId) (out : Out) :
    (receive s i out).server = out.server := rfl
@[simp] theorem receive_clients (s : St) (i : ConnId) (out : Out) :
    (receive s i out).clients = s.clients := rfl
@[simp] theorem receive_conn (s : St) (i j : ConnId) (out : Out) :
    (receive s i out).conn j =
      if j = i then { s.conn j with state := out.state, task := nextTask out.next }
      else s.conn j := rfl

/-! ## What a step can do -/

/-- A task that awaits one frame of its own. -/
def Task.owes : Task → Option Frame
  | .greet => some .welcome
  | .reply f => some f
  | .fail e => some (.error e)
  | _ => none

/-- Every step, with what it required and what it left. -/
inductive Move (s : St) : Lbl → St → Prop
  | connect (i) (ht : (s.conn i).task = .absent) :
      Move s (.connect i)
        { s.upd i fun _ => ⟨.init, .greet, true⟩ with clients := insert i s.clients }
  | badText (i inc token e) (ht : (s.conn i).task = .idle) (hinc : ∀ data, inc ≠ .json data) :
      Move s (.recv i inc token) (s.upd i (.goto (.fail e)))
  | handled (i data token out) (ht : (s.conn i).task = .idle)
      (ho : handleMessage s.server (s.conn i).state i data token = out)
      (h : Handled s.server (s.conn i).state i token data out) :
      Move s (.recv i (.json data) token) (receive s i out)
  | sent (i f) (ht : (s.conn i).task.owes = some f) (hup : (s.conn i).up = true) :
      Move s (.send i) (s.upd i (.goto .idle))
  | replayed (i m msg rest) (ht : (s.conn i).task = .replay m (msg :: rest))
      (hup : (s.conn i).up = true) : Move s (.send i) (s.upd i (.goto (replaying m rest)))
  | failed (i) (ht : (∃ f, (s.conn i).task = .reply f) ∨ ∃ m msgs, (s.conn i).task = .replay m msgs)
      (hup : (s.conn i).up = false) :
      Move s (.send i) (s.upd i (.goto (.fail (.exc .connectionClosed))))
  | quit (i) (ht : (s.conn i).task = .greet ∨ ∃ e, (s.conn i).task = .fail e)
      (hup : (s.conn i).up = false) : Move s (.send i) (finish s i)
  | notified (i dst m msg rest) (ht : (s.conn i).task = .notify m msg rest) (hdst : dst ∈ rest)
      (hup : (s.conn dst).up = true) :
      Move s (.notify i dst) (s.upd i (.goto (notifying m msg (rest.erase dst))))
  | discarded (i dst m msg rest) (ht : (s.conn i).task = .notify m msg rest) (hdst : dst ∈ rest)
      (hup : (s.conn dst).up = false) :
      Move s (.notify i dst) { s.upd i (.goto (notifying m msg (rest.erase dst))) with
        server := s.server.unsubscribe m dst }
  | drop (i) : Move s (.drop i) (s.upd i .down)
  | leave (i) (ht : (s.conn i).task = .idle) (hup : (s.conn i).up = false) :
      Move s (.leave i) (finish s i)

theorem step_move {s s' : St} {l : Lbl} (h : step s l = some s') : Move s l s' := by
  cases l with
  | connect i =>
    simp only [step] at h
    split at h
    · rename_i ht; cases h; exact .connect i ht
    · cases h
  | recv i inc token =>
    simp only [step] at h
    split at h
    · rename_i data ht
      cases h
      exact .handled i data token _ ht rfl (handled _ _ _ _ _)
    · rename_i ht; cases h; exact .badText i _ token _ ht (by simp)
    · rename_i ht; cases h; exact .badText i _ token _ ht (by simp)
    · cases h
  | send i =>
    simp only [step] at h
    split at h
    · rename_i ht hup; cases h; exact .sent i .welcome (by rw [ht]; rfl) hup
    · rename_i ht hup; cases h; exact .quit i (.inl ht) hup
    · rename_i f ht hup; cases h; exact .sent i f (by rw [ht]; rfl) hup
    · rename_i f ht hup; cases h; exact .failed i (.inl ⟨f, ht⟩) hup
    · rename_i m msg rest ht hup; cases h; exact .replayed i m msg rest ht hup
    · rename_i m msgs ht hup; cases h; exact .failed i (.inr ⟨m, msgs, ht⟩) hup
    · rename_i e ht hup; cases h; exact .sent i (.error e) (by rw [ht]; rfl) hup
    · rename_i e ht hup; cases h; exact .quit i (.inr ⟨e, ht⟩) hup
    · cases h
  | notify i dst =>
    simp only [step] at h
    split at h
    · rename_i m msg rest ht
      split at h
      · rename_i hdst
        cases h
        cases hup : (s.conn dst).up with
        | true => exact .notified i dst m msg rest ht hdst hup
        | false => exact .discarded i dst m msg rest ht hdst hup
      · cases h
    · cases h
  | drop i => cases h; exact .drop i
  | leave i =>
    simp only [step] at h
    split at h
    · rename_i ht hup; cases h; exact .leave i ht hup
    · cases h

/-- The coroutine a step resumes, or whose connection it changes. -/
def Lbl.subject : Lbl → ConnId
  | .connect i => i
  | .recv i _ _ => i
  | .send i => i
  | .notify i _ => i
  | .drop i => i
  | .leave i => i

theorem conn_frame {s s' : St} {l : Lbl} (hm : Move s l s') {j : ConnId} (hj : j ≠ l.subject) :
    s'.conn j = s.conn j := by
  cases hm <;> exact if_neg hj

theorem replaying_atWork (m : Key) (msgs : List Message) :
    replaying m msgs ≠ .absent ∧ replaying m msgs ≠ .gone := by
  unfold replaying
  split <;> simp

theorem notifying_atWork (m : Key) (msg : Message) (rest : Finset ConnId) :
    notifying m msg rest ≠ .absent ∧ notifying m msg rest ≠ .gone := by
  unfold notifying
  split <;> simp

theorem nextTask_atWork (next : Next) : nextTask next ≠ .absent ∧ nextTask next ≠ .gone := by
  cases next with
  | replay m msgs => exact replaying_atWork m msgs
  | notify m msg subs => exact notifying_atWork m msg subs
  | _ => simp [nextTask]

theorem nextTask_reply {next : Next} {f : Frame} (h : nextTask next = .reply f) :
    next = .reply f := by
  cases next with
  | reply g => cases h; rfl
  | replay m msgs => simp only [nextTask, replaying] at h; split at h <;> cases h
  | notify m msg subs => simp only [nextTask, notifying] at h; split at h <;> cases h
  | raise e => cases h

theorem nextTask_replay {next : Next} {m : Key} {msgs : List Message}
    (h : nextTask next = .replay m msgs) : next = .replay m msgs := by
  cases next with
  | replay m' msgs' => simp only [nextTask, replaying] at h; split at h <;> cases h; rfl
  | notify m' msg subs => simp only [nextTask, notifying] at h; split at h <;> cases h
  | _ => cases h

theorem nextTask_notify {next : Next} {m : Key} {msg : Message} {subs : Finset ConnId}
    (h : nextTask next = .notify m msg subs) : next = .notify m msg subs := by
  cases next with
  | replay m' msgs => simp only [nextTask, replaying] at h; split at h <;> cases h
  | notify m' msg' subs' => simp only [nextTask, notifying] at h; split at h <;> cases h; rfl
  | _ => cases h

/-- Only a message changes nameplates and mailboxes. -/
theorem server_frame {s s' : St} {l : Lbl} (hm : Move s l s')
    (hne : ∀ i data token, l ≠ .recv i (.json data) token) :
    s'.server.nameplates = s.server.nameplates ∧ s'.server.mailboxes = s.server.mailboxes ∧
      s'.server.nextNameplate = s.server.nextNameplate := by
  have hfinish : ∀ i, (finish s i).server.nameplates = s.server.nameplates ∧
      (finish s i).server.mailboxes = s.server.mailboxes ∧
      (finish s i).server.nextNameplate = s.server.nextNameplate := by
    intro i
    simp only [finish]
    split <;> simp
  cases hm with
  | handled i data token out ht ho hd => exact absurd rfl (hne i data token)
  | quit i ht hup => exact hfinish i
  | leave i ht hup => exact hfinish i
  | discarded i dst m msg rest ht hdst hup => simp
  | _ => exact ⟨rfl, rfl, rfl⟩

/-- The state of a client starts at its `connect` and changes only by its own
messages. -/
theorem state_frame {s s' : St} {l : Lbl} (hm : Move s l s')
    (hne : ∀ i data token, l ≠ .recv i (.json data) token) {j : ConnId} (hj : j ∈ s'.clients) :
    (s'.conn j).state = .init ∨ (j ∈ s.clients ∧ (s'.conn j).state = (s.conn j).state) := by
  have hstay : ∀ i (f : Conn → Conn), (∀ c, (f c).state = c.state) →
      ((s.upd i f).conn j).state = (s.conn j).state := by
    intro i f hf
    rw [upd_conn]
    split
    · exact hf _
    · rfl
  cases hm with
  | connect i ht =>
    simp only [upd_conn]
    split
    · exact .inl rfl
    · rename_i hji; exact .inr ⟨Finset.mem_of_mem_insert_of_ne hj hji, rfl⟩
  | handled i data token out ht ho hd => exact absurd rfl (hne i data token)
  | quit i ht hup => exact .inr ⟨Finset.mem_of_mem_erase hj, hstay i (.goto .gone) fun _ => rfl⟩
  | leave i ht hup => exact .inr ⟨Finset.mem_of_mem_erase hj, hstay i (.goto .gone) fun _ => rfl⟩
  | drop i => exact .inr ⟨hj, hstay i .down fun _ => rfl⟩
  | _ => exact .inr ⟨hj, hstay _ (.goto _) fun _ => rfl⟩

theorem emitted_own {s : St} {i : ConnId} {f : Frame} (ht : (s.conn i).task.owes = some f)
    (hup : (s.conn i).up = true) : emitted s (.send i) = some ⟨i, f, .own⟩ := by
  unfold emitted
  cases htask : (s.conn i).task <;> rw [htask] at ht <;> cases ht <;> simp [htask, hup]

/-- The step is the reading of an `open` of `m` by `c` that succeeds. -/
def Opens (c : ConnId) (m : Key) (s : St) (l : Lbl) : Prop :=
  ∃ data token, l = .recv c (.json data) token ∧ OpensMailbox (s.conn c).state m data

theorem mem_finish {s : St} {i j : ConnId} {m : Key}
    (h : j ∈ (finish s i).server.subscribers m) : j ∈ s.server.subscribers m := by
  simp only [finish] at h
  split at h
  · exact (mem_unsubscribe.mp h).1
  · exact h

/-- Only an `open` subscribes. -/
theorem subscribers_step {s s' : St} {l : Lbl} (hm : Move s l s') {j : ConnId} {m : Key}
    (h : j ∈ s'.server.subscribers m) : j ∈ s.server.subscribers m ∨ Opens j m s l := by
  cases hm with
  | handled i data token out ht ho hd =>
    rcases subscribers_handled hd h with h | ⟨rfl, h⟩
    · exact .inl h
    · exact .inr ⟨data, token, rfl, h⟩
  | quit i ht hup => exact .inl (mem_finish h)
  | leave i ht hup => exact .inl (mem_finish h)
  | discarded i dst m' msg rest ht hdst hup => exact .inl (mem_unsubscribe.mp h).1
  | _ => exact .inl h

/-- A mailbox id that `secrets.token_hex` returns is not in use. -/
def FreshToken (s : St) : Lbl → Prop
  | .recv _ (.json data) token =>
      drawsMailbox s.server data = true → s.server.mailboxes.get? (.str token) = none
  | _ => True

/-- A coroutine at work is one of `self.clients`. -/
def Registered (s : St) : Prop :=
  ∀ i, (s.conn i).task ≠ .absent → (s.conn i).task ≠ .gone → i ∈ s.clients

theorem registered_step {s s' : St} {l : Lbl} (h : Registered s) (hm : Move s l s') :
    Registered s' := by
  intro j h1 h2
  by_cases hj : j = l.subject
  · subst hj
    cases hm with
    | connect i ht => exact Finset.mem_insert_self i s.clients
    | drop i => exact h i (by simpa [Lbl.subject] using h1) (by simpa [Lbl.subject] using h2)
    | quit i ht hup => exact absurd (by simp [finish, Lbl.subject]) h2
    | leave i ht hup => exact absurd (by simp [finish, Lbl.subject]) h2
    | sent i f ht hup =>
      exact h i (fun e => by rw [e] at ht; cases ht) (fun e => by rw [e] at ht; cases ht)
    | failed i ht hup =>
      refine h i (fun e => ?_) (fun e => ?_)
      · rw [e] at ht; rcases ht with ⟨_, ht⟩ | ⟨_, _, ht⟩ <;> cases ht
      · rw [e] at ht; rcases ht with ⟨_, ht⟩ | ⟨_, _, ht⟩ <;> cases ht
    | badText i inc token e ht hinc => exact h i (by rw [ht]; simp) (by rw [ht]; simp)
    | handled i data token out ht ho hd => exact h i (by rw [ht]; simp) (by rw [ht]; simp)
    | replayed i m msg rest ht hup => exact h i (by rw [ht]; simp) (by rw [ht]; simp)
    | notified i dst m msg rest ht hdst hup => exact h i (by rw [ht]; simp) (by rw [ht]; simp)
    | discarded i dst m msg rest ht hdst hup => exact h i (by rw [ht]; simp) (by rw [ht]; simp)
  · rw [conn_frame hm hj] at h1 h2
    have hin := h j h1 h2
    cases hm with
    | connect i ht => exact Finset.mem_insert_of_mem hin
    | quit i ht hup => exact Finset.mem_erase_of_ne_of_mem hj hin
    | leave i ht hup => exact Finset.mem_erase_of_ne_of_mem hj hin
    | _ => exact hin

theorem registered_reachable (appId : String) : ∀ s, (lts appId).Reachable s → Registered s :=
  LTS.Inductive.reachable
    ⟨by rintro s rfl i h1; exact absurd rfl h1, fun _ _ _ h hs => registered_step h (step_move hs)⟩

/-! ## Runs on fixed inputs -/

/-- A message of type `type` with one more field. -/
def request (type key : String) (value : Json) : Incoming :=
  .json (.obj [("type", .str type), (key, value)])

/-- Client `i` connects and gets its welcome. -/
def arrive (i : ConnId) : List Lbl := [.connect i, .send i]

end Wormhole.L5.MailboxSystem
