import Wormhole.L4App.Background
import Wormhole.L5Concurrency.PhaseFifo

/-!
# Fetches and WebSockets on one wormhole

Every `receive` of the background script draws the next phase of the same
wormhole, whoever calls it. The fetches of one address take turns; the ports do
not, and a port in its loop always has a call waiting.

A `Traffic` is what the tasks do with the wormhole: who waits in which call,
what each has `heard`, and the peer's messages with whom they are for. An
`Effect` is everything that can happen to it.

* `effect_of_step`: a step of the background script is one of a few effects.
* `own_effect`: where each message is met by the call of the task it is for, a
  task has heard, or is about to hear, exactly the messages for it.
* `unmixed_of_matched`: so in the runs of which that holds throughout nothing is
  mixed up.
* `listener_takes_response`: a port in its loop takes the response to a fetch
  and drops it.
-/
namespace Wormhole.L5.SharedPhases
open Wormhole.L1 Wormhole.L3 Wormhole.L4.Background Wormhole.L4.MailboxClient
  Wormhole.L4.WormholeMessages Wormhole.L4.PhaseReceiver Wormhole.L5.PhaseFifo

/-- A call of `fetchOverUndilatedWormhole`, or a port. -/
inductive Consumer
  | fetch (j : Nat)
  | port (k : Nat)
  deriving DecidableEq

/-- Not there yet, in the queue of promises, in `wormhole.send`, in call `i` of
`wormhole.receive`, over. -/
inductive Task
  | absent
  | queued
  | sending
  | receiving (i : Nat)
  | ended
  deriving DecidableEq

/-- `log` has the peer's messages with the task that each is for; the peer's
half of the wormhole is in `fifo`. -/
structure Traffic where
  fifo : PhaseFifo.St
  task : Consumer → Task
  heard : Consumer → List Reply
  log : List (Consumer × Body)

inductive Result
  | pending
  | resolved (response : Reply) (contentType : Option String)
  | rejected (message : String)
  deriving DecidableEq

/-- What we send: a request that the peer answers, or a frame of a WebSocket. -/
inductive Out
  | request (c : Consumer)
  | message (k : Nat) (data : String)
  | close (k : Nat) (code : Nat) (reason : String)
  deriving DecidableEq

/-- `outbox` has what we sent, in the order of the phases; `read` is how much of
it the peer has read. -/
structure St extends Traffic where
  fetches : Nat
  result : Nat → Result
  ports : Nat
  port : Nat → Port
  outbox : List Out
  read : Nat

def Traffic.setTask (s : Traffic) (c : Consumer) (x : Task) : Traffic :=
  { s with task := fun d => if d = c then x else s.task d }

/-- `wormhole.receive()`. -/
def Traffic.startReceive (s : Traffic) (c : Consumer) : Traffic :=
  { s with fifo := { s.fifo with receiver := s.fifo.receiver.receive } }.setTask c
    (.receiving s.fifo.receiver.nextRxPhase)

def Traffic.hear (s : Traffic) (c : Consumer) (v : Except String Reply) : Traffic :=
  { s with heard := fun d => if d = c then s.heard d ++ v.toOption.toList else s.heard d }

/-- The task has dealt with what it heard: `receive` again, or the end. -/
def Traffic.goOn (s : Traffic) (c : Consumer) (again : Bool) : Traffic :=
  if again then s.startReceive c else s.setTask c .ended

def St.setPort (s : St) (k : Nat) (p : Port) : St :=
  { s with port := fun k' => if k' = k then p else s.port k' }

inductive Lbl
  | fetch
  | fetchSend (j : Nat)
  | wsOpen (streamId : String)
  | sent (c : Consumer)
  | sendFailed (c : Consumer) (message : String)
  | resume (c : Consumer)
  | wsSend (k : Nat) (data : String)
  | wsClose (k : Nat) (code : Nat) (reason : String)
  | wsClosed (k : Nat) (code : Nat) (reason : String)
  | wsTimeout (k : Nat)
  | answer (data : Body)
  | skip
  | push (k : Nat) (data : Body)
  | wire (l : PhaseFifo.Lbl)

/-- What the peer and the mailbox do by themselves. -/
def isWire : PhaseFifo.Lbl → Bool
  | .send _ => false
  | .receive => false
  | _ => true

/-- The peer sends a message for `c`. -/
def Traffic.post (s : Traffic) (c : Consumer) (data : Body) : Traffic :=
  { s with
    fifo := { s.fifo with
      nextTxPhase := s.fifo.nextTxPhase + 1
      sending := some (s.fifo.nextTxPhase, data)
      sent := s.fifo.sent ++ [data] }
    log := s.log ++ [(c, data)] }

section
variable (parse : Option Bytes → Except String Reply) (P : Crypto) (a b : Session)

/-- What call `i` gives its task, when it is over. `parse` is
`JSON.parse(new TextDecoder().decode(data))` with the message of what it throws. -/
def settled (s : Traffic) (i : Nat) : Option (Except String Reply) :=
  match s.fifo.receiver.rx i with
  | .resolved data => some (parse data)
  | .timedOut => some (.error ("Timeout waiting for phase: " ++ toString i))
  | _ => none

def resultOf : Except String Reply → Result
  | .ok response => .resolved response (contentType response)
  | .error message => .rejected message

/-- Task `c` goes on with what its call gave it.

mirrors browser-extension/src/background.js:459-469, 768-807, 888-936 -/
def resume (s : St) (c : Consumer) (i : Nat) (v : Except String Reply) : St :=
  match c with
  | .fetch j =>
    { s with
      toTraffic := (s.toTraffic.hear c v).goOn c false
      result := fun j' => if j' = j then resultOf v else s.result j' }
  | .port k =>
    let p := s.port k
    let r := if p.opened then listened p v
      else acknowledged
        { p with timer := p.timer && s.fifo.receiver.rx i == .timedOut } v
    { s.setPort k r.1 with toTraffic := (s.toTraffic.hear c v).goOn c r.2 }

/-- The message of the peer is in order: the answer to WS_OPEN says so, whatever
else is for a port has its stream. -/
def forRequest (c : Consumer) (data : Body) : Bool :=
  match c, parse (some (toBytes data)) with
  | .fetch _, .ok _ => true
  | .port _, .ok r => r.type == some "websocket_open"
  | _, .error _ => false

def forStream (s : St) (k : Nat) (data : Body) : Bool :=
  match parse (some (toBytes data)) with
  | .ok r => r.streamId == some (s.port k).streamId
  | .error _ => false

/-- mirrors browser-extension/src/background.js:450-476, 728-874, 888-936

`answer` is the peer's answer to the request it reads next, `skip` reads a frame,
`push` is a message for the stream of port `k`, which the peer has accepted. -/
def step (s : St) : Lbl → Option St
  | .fetch => some { s with
      toTraffic := s.toTraffic.setTask (.fetch s.fetches) .queued
      fetches := s.fetches + 1 }
  | .fetchSend j =>
    if s.task (.fetch j) = .queued ∧ ∀ j' < j, s.task (.fetch j') = .ended then
      some { s with
        toTraffic := s.toTraffic.setTask (.fetch j) .sending
        outbox := s.outbox ++ [.request (.fetch j)] }
    else none
  | .wsOpen streamId => some { s.setPort s.ports (.new streamId) with
      toTraffic := s.toTraffic.setTask (.port s.ports) .sending
      ports := s.ports + 1
      outbox := s.outbox ++ [.request (.port s.ports)] }
  | .sent c =>
    if s.task c = .sending then
      let s' := { s with toTraffic := s.toTraffic.startReceive c }
      match c with
      | .fetch _ => some s'
      | .port k => some (s'.setPort k { s.port k with timer := true })
    else none
  | .sendFailed c message =>
    if s.task c = .sending then
      let s' := { s with toTraffic := s.toTraffic.setTask c .ended }
      match c with
      | .fetch j => some { s' with
          result := fun j' => if j' = j then .rejected message else s.result j' }
      | .port k => some (s'.setPort k (failed (s.port k) message))
    else none
  | .resume c =>
    match s.task c with
    | .receiving i => (settled parse s.toTraffic i).map (resume s c i)
    | _ => none
  | .wsSend k data =>
    if (s.port k).connected then some { s with outbox := s.outbox ++ [.message k data] }
    else some s
  | .wsClose k code reason =>
    if k < s.ports then
      some { s.setPort k { s.port k with closing := (s.port k).closing + 1 } with
        outbox := s.outbox ++ [.close k code reason] }
    else none
  | .wsClosed k code reason =>
    if k < s.ports ∧ 0 < (s.port k).closing then
      some (s.setPort k ({ s.port k with
        connected := false
        closing := (s.port k).closing - 1 }.post [.closed code reason true]))
    else none
  | .wsTimeout k =>
    if k < s.ports ∧ (s.port k).timer then
      let p := { s.port k with timer := false }
      some (s.setPort k (if p.connected then p else
        p.post [.error "WebSocket connection timeout", .closed 1006 "Connection timeout" false]))
    else none
  | .answer data =>
    match s.outbox[s.read]? with
    | some (.request c) =>
      if s.fifo.sending = none ∧ forRequest parse c data then
        some { s with toTraffic := s.toTraffic.post c data, read := s.read + 1 }
      else none
    | _ => none
  | .skip =>
    match s.outbox[s.read]? with
    | some (.message _ _) => some { s with read := s.read + 1 }
    | some (.close _ _ _) => some { s with read := s.read + 1 }
    | _ => none
  | .push k data =>
    if s.fifo.sending = none ∧ k < s.ports ∧ forStream parse s k data ∧
        (s.log.any fun p => p.1 == .port k &&
          ((parse (some (toBytes p.2))).toOption.map accepted).getD false) then
      some { s with toTraffic := s.toTraffic.post (.port k) data }
    else none
  | .wire l =>
    if isWire l then
      (PhaseFifo.step P a b s.fifo l).map fun fifo => { s with fifo := fifo }
    else none

def init : St where
  fifo := PhaseFifo.init
  task _ := .absent
  heard _ := []
  log := []
  fetches := 0
  result _ := .pending
  ports := 0
  port _ := .new ""
  outbox := []
  read := 0

def lts : LTS St Lbl := .ofStep (· = init) (step parse P a b)

end

/-! ## Steps -/

/-- A port of the same stream, to which no message was posted. -/
structure SamePort (p q : Port) : Prop where
  streamId : q.streamId = p.streamId
  opened : q.opened = p.opened
  messages : q.messages = p.messages

/-- Everything a step can do. -/
inductive Move (parse : Option Bytes → Except String Reply) (P : Crypto) (a b : Session) (s : St) :
    Lbl → St → Prop
  | fetch : Move parse P a b s .fetch { s with
      toTraffic := s.toTraffic.setTask (.fetch s.fetches) .queued
      fetches := s.fetches + 1 }
  | fetchSend (j : Nat) (hc : s.task (.fetch j) = .queued) :
      Move parse P a b s (.fetchSend j) { s with
        toTraffic := s.toTraffic.setTask (.fetch j) .sending
        outbox := s.outbox ++ [.request (.fetch j)] }
  | wsOpen (streamId : String) :
      Move parse P a b s (.wsOpen streamId) { s.setPort s.ports (.new streamId) with
        toTraffic := s.toTraffic.setTask (.port s.ports) .sending
        ports := s.ports + 1
        outbox := s.outbox ++ [.request (.port s.ports)] }
  | sentFetch (j : Nat) (hc : s.task (.fetch j) = .sending) :
      Move parse P a b s (.sent (.fetch j)) { s with
        toTraffic := s.toTraffic.startReceive (.fetch j) }
  | sentPort (k : Nat) (p : Port) (hc : s.task (.port k) = .sending) (hp : SamePort (s.port k) p) :
      Move parse P a b s (.sent (.port k)) { s.setPort k p with
        toTraffic := s.toTraffic.startReceive (.port k) }
  | failedFetch (j : Nat) (message : String) (hc : s.task (.fetch j) = .sending) :
      Move parse P a b s (.sendFailed (.fetch j) message) { s with
        toTraffic := s.toTraffic.setTask (.fetch j) .ended
        result := fun j' => if j' = j then .rejected message else s.result j' }
  | failedPort (k : Nat) (message : String) (p : Port) (hc : s.task (.port k) = .sending)
      (hp : SamePort (s.port k) p) :
      Move parse P a b s (.sendFailed (.port k) message) { s.setPort k p with
        toTraffic := s.toTraffic.setTask (.port k) .ended }
  | resume (c : Consumer) (i : Nat) (v : Except String Reply) (hc : s.task c = .receiving i)
      (hv : settled parse s.toTraffic i = some v) :
      Move parse P a b s (.resume c) (resume s c i v)
  | frame (l : Lbl) (frames : List Out) (read : Nat) (hl : ∀ w, l ≠ .wire w)
      (hf : ∀ c, .request c ∉ frames) :
      Move parse P a b s l { s with outbox := s.outbox ++ frames, read := read }
  | edit (l : Lbl) (k : Nat) (p : Port) (frames : List Out) (hl : ∀ w, l ≠ .wire w)
      (hf : ∀ c, .request c ∉ frames) (hp : SamePort (s.port k) p) :
      Move parse P a b s l { s.setPort k p with outbox := s.outbox ++ frames }
  | answer (c : Consumer) (data : Body) (hr : .request c ∈ s.outbox) (hs : s.fifo.sending = none)
      (hd : forRequest parse c data = true) :
      Move parse P a b s (.answer data) { s with
        toTraffic := s.toTraffic.post c data
        read := s.read + 1 }
  | push (k : Nat) (data : Body) (hk : k < s.ports) (hs : s.fifo.sending = none)
      (hd : forStream parse s k data = true) :
      Move parse P a b s (.push k data) { s with toTraffic := s.toTraffic.post (.port k) data }
  | wire (l : PhaseFifo.Lbl) (fifo : PhaseFifo.St) (hl : isWire l = true)
      (hm : PhaseFifo.Move P a b s.fifo l fifo) :
      Move parse P a b s (.wire l) { s with fifo := fifo }

section
variable {parse : Option Bytes → Except String Reply} {P : Crypto} {a b : Session}

theorem SamePort.post {p q : Port} {events : List Posted} (h : SamePort p q)
    (he : events.filterMap Posted.data? = []) : SamePort p (q.post events) :=
  ⟨h.streamId, h.opened, by rw [messages_post, he, List.append_nil, h.messages]⟩

theorem step_move {s t : St} {l : Lbl} (h : step parse P a b s l = some t) :
    Move parse P a b s l t := by
  have hsame : ∀ l read, (∀ w, l ≠ .wire w) → Move parse P a b s l { s with read := read } := by
    intro l read hl
    have : Move parse P a b s l { s with outbox := s.outbox ++ [], read := read } :=
      .frame l [] read hl nofun
    rwa [List.append_nil] at this
  have hedit : ∀ l k p, (∀ w, l ≠ .wire w) → SamePort (s.port k) p →
      Move parse P a b s l (s.setPort k p) := by
    intro l k p hl hp
    have : Move parse P a b s l { s.setPort k p with outbox := s.outbox ++ [] } :=
      .edit l k p [] hl nofun hp
    rwa [List.append_nil] at this
  unfold step at h
  split at h
  · cases h; exact .fetch
  · split at h
    · rename_i hc; cases h; exact .fetchSend _ hc.1
    · cases h
  · cases h; exact .wsOpen _
  · split at h
    · rename_i hc
      split at h
      · cases h; exact .sentFetch _ hc
      · cases h; exact .sentPort _ _ hc ⟨rfl, rfl, rfl⟩
    · cases h
  · split at h
    · rename_i hc
      split at h
      · cases h; exact .failedFetch _ _ hc
      · cases h; exact .failedPort _ _ _ hc (.post ⟨rfl, rfl, rfl⟩ rfl)
    · cases h
  · split at h
    · rename_i i hc
      obtain ⟨v, hv, rfl⟩ := Option.map_eq_some_iff.mp h
      exact .resume _ i v hc hv
    · cases h
  · split at h
    · cases h; exact .frame _ [.message _ _] s.read nofun (by simp)
    · cases h; exact hsame _ s.read nofun
  · split at h
    · cases h; exact .edit _ _ _ [.close _ _ _] nofun (by simp) ⟨rfl, rfl, rfl⟩
    · cases h
  · split at h
    · cases h; exact hedit _ _ _ nofun (.post ⟨rfl, rfl, rfl⟩ rfl)
    · cases h
  · split at h
    · cases h
      refine hedit _ _ _ nofun ?_
      split
      · exact ⟨rfl, rfl, rfl⟩
      · exact .post ⟨rfl, rfl, rfl⟩ rfl
    · cases h
  · split at h
    · rename_i c hr
      split at h
      · rename_i hg; cases h; exact .answer c _ (List.mem_of_getElem? hr) hg.1 hg.2
      · cases h
    · cases h
  · split at h
    · cases h; exact hsame _ _ nofun
    · cases h; exact hsame _ _ nofun
    · cases h
  · split at h
    · rename_i hg; cases h; exact .push _ _ hg.2.1 hg.1 hg.2.2.1
    · cases h
  · split at h
    · rename_i hl
      obtain ⟨fifo, hf, rfl⟩ := Option.map_eq_some_iff.mp h
      exact .wire _ fifo hl (PhaseFifo.step_move hf)
    · cases h

end

/-! ## Effects on the traffic -/

/-- Everything that a step can do to the traffic. -/
inductive Effect (parse : Option Bytes → Except String Reply) (P : Crypto) (a b : Session)
    (s : Traffic) : Lbl → Traffic → Prop
  | same (l : Lbl) (hl : ∀ w, l ≠ .wire w) : Effect parse P a b s l s
  | idle (l : Lbl) (c : Consumer) (x : Task) (hl : ∀ w, l ≠ .wire w)
      (hc : ∀ i, s.task c ≠ .receiving i) (hx : ∀ i, x ≠ .receiving i) :
      Effect parse P a b s l (s.setTask c x)
  | start (c : Consumer) (hc : s.task c = .sending) :
      Effect parse P a b s (.sent c) (s.startReceive c)
  | take (c : Consumer) (i : Nat) (v : Except String Reply) (again : Bool)
      (hc : s.task c = .receiving i) (hv : settled parse s i = some v) :
      Effect parse P a b s (.resume c) ((s.hear c v).goOn c again)
  | post (l : Lbl) (c : Consumer) (data : Body) (hl : ∀ w, l ≠ .wire w)
      (hs : s.fifo.sending = none) : Effect parse P a b s l (s.post c data)
  | wire (l : PhaseFifo.Lbl) (fifo : PhaseFifo.St) (hl : isWire l = true)
      (hm : PhaseFifo.Move P a b s.fifo l fifo) :
      Effect parse P a b s (.wire l) { s with fifo := fifo }

section
variable {parse : Option Bytes → Except String Reply} {P : Crypto} {a b : Session}

/-- `fetch` and `wsOpen` make a task that was not there. -/
structure New (s : St) : Prop where
  fetch : ∀ j, s.fetches ≤ j → s.task (.fetch j) = .absent
  port : ∀ k, s.ports ≤ k → s.task (.port k) = .absent

theorem effect_of_move {s t : St} {l : Lbl} (hn : New s) (h : Move parse P a b s l t) :
    Effect parse P a b s.toTraffic l t.toTraffic := by
  cases h with
  | fetch =>
    refine .idle _ _ _ nofun (fun i hi => ?_) nofun
    have := hn.fetch s.fetches (Nat.le_refl _)
    rw [hi] at this
    cases this
  | fetchSend j hc =>
    refine .idle _ _ _ nofun (fun i hi => ?_) nofun
    rw [hi] at hc
    cases hc
  | wsOpen streamId =>
    refine .idle _ _ _ nofun (fun i hi => ?_) nofun
    have := hn.port s.ports (Nat.le_refl _)
    rw [hi] at this
    cases this
  | sentFetch j hc => exact .start _ hc
  | sentPort k p hc hp => exact .start _ hc
  | failedFetch j message hc =>
    refine .idle _ _ _ nofun (fun i hi => ?_) nofun
    rw [hi] at hc
    cases hc
  | failedPort k message p hc hp =>
    refine .idle _ _ _ nofun (fun i hi => ?_) nofun
    rw [hi] at hc
    cases hc
  | resume c i v hc hv =>
    cases c with
    | fetch j => exact .take _ i v false hc hv
    | port k => exact .take _ i v _ hc hv
  | frame l frames read hl hf => exact .same l hl
  | edit l k p frames hl hf hp => exact .same l hl
  | answer c data hr hs hd => exact .post _ c data nofun hs
  | push k data hk hs hd => exact .post _ _ data nofun hs
  | wire l fifo hl hm => exact .wire l fifo hl hm

/-! ## Heard, about to hear, sent -/

/-- What the call that a task waits in has got, or will get when it is decrypted. -/
def inFlight (parse : Option Bytes → Except String Reply) (P : Crypto) (b : Session) (s : Traffic)
    (c : Consumer) : List Reply :=
  match s.task c with
  | .receiving i =>
    (outcome P b s.fifo.receiver i).toList.flatMap fun data => (parse data).toOption.toList
  | _ => []

/-- The peer's messages for `c` that have arrived. -/
def inbox (parse : Option Bytes → Except String Reply) (s : Traffic) (c : Consumer) : List Reply :=
  (s.log.take s.fifo.delivered).filterMap fun p =>
    if p.1 = c then (parse (some (toBytes p.2))).toOption else none

/-- A message that arrives is expected, and the task it is for waits for it. -/
def Matched (s : Traffic) (l : Lbl) : Prop :=
  ∀ id, l = .wire (.arrive id) → Expected s.fifo id ∧
    ∀ c data, s.log[s.fifo.delivered]? = some (c, data) → s.task c = .receiving s.fifo.delivered

/-- The peer's messages are those of the wormhole; a call is made by one task. -/
structure Calls (P : Crypto) (a : Session) (s : Traffic) : Prop where
  wf : Wf P a s.fifo
  sent : s.fifo.sent = s.log.map Prod.snd
  made : ∀ c i, s.task c = .receiving i → i < s.fifo.receiver.nextRxPhase
  apart : ∀ c d i, s.task c = .receiving i → s.task d = .receiving i → c = d

theorem inFlight_of_task {s t : Traffic} {c : Consumer} (ht : t.task c = s.task c)
    (ho : ∀ i, s.task c = .receiving i →
      outcome P b t.fifo.receiver i = outcome P b s.fifo.receiver i) :
    inFlight parse P b t c = inFlight parse P b s c := by
  unfold inFlight
  rw [ht]
  split
  · rename_i i hi
    rw [ho i hi]
  · rfl

theorem inFlight_nil {s : Traffic} {c : Consumer} (h : ∀ i, s.task c ≠ .receiving i) :
    inFlight parse P b s c = [] := by
  unfold inFlight
  split
  · rename_i i hi
    exact absurd hi (h i)
  · rfl

/-- The message that a new call is for has not arrived. -/
theorem inFlight_startReceive {s : Traffic} (h : Calls P a s) (c : Consumer) :
    inFlight parse P b (s.startReceive c) c = [] := by
  have hw : (s.startReceive c).fifo.receiver.rx s.fifo.receiver.nextRxPhase = .waiting :=
    h.wf.calls.unmade _ (Nat.le_refl _)
  unfold inFlight
  have ht : (s.startReceive c).task c = .receiving s.fifo.receiver.nextRxPhase := if_pos rfl
  rw [ht]
  dsimp only
  unfold outcome
  rw [hw]
  rfl

theorem calls_setTask {s : Traffic} (h : Calls P a s) (c : Consumer) {x : Task}
    (hx : ∀ i, x ≠ .receiving i) : Calls P a (s.setTask c x) := by
  have hold : ∀ d i, (s.setTask c x).task d = .receiving i → s.task d = .receiving i := by
    intro d i hd
    have hd : (if d = c then x else s.task d) = .receiving i := hd
    split at hd
    · exact absurd hd (hx i)
    · exact hd
  exact ⟨h.wf, h.sent, fun d i hd => h.made d i (hold d i hd),
    fun d e i hd he => h.apart d e i (hold d i hd) (hold e i he)⟩

theorem calls_startReceive (hab : a.side ≠ b.side) {s : Traffic} (h : Calls P a s)
    (c : Consumer) : Calls P a (s.startReceive c) := by
  have hold : ∀ d i, (s.startReceive c).task d = .receiving i →
      (d = c ∧ i = s.fifo.receiver.nextRxPhase) ∨
        (d ≠ c ∧ s.task d = .receiving i ∧ i < s.fifo.receiver.nextRxPhase) := by
    intro d i hd
    have hd : (if d = c then Task.receiving s.fifo.receiver.nextRxPhase else s.task d) =
        .receiving i := hd
    split at hd
    · rename_i hdc
      cases hd
      exact .inl ⟨hdc, rfl⟩
    · rename_i hdc
      exact .inr ⟨hdc, hd, h.made d i hd⟩
  refine ⟨PhaseFifo.wf_step (b := b) hab h.wf .receive, h.sent, fun d i hd => ?_,
    fun d e i hd he => ?_⟩
  · show i < s.fifo.receiver.nextRxPhase + 1
    rcases hold d i hd with ⟨-, h'⟩ | ⟨-, -, h'⟩
    · omega
    · omega
  · rcases hold d i hd with ⟨hd, hi⟩ | ⟨hd, hd', hi⟩
    · rcases hold e i he with ⟨he, -⟩ | ⟨-, -, hi'⟩
      · rw [hd, he]
      · omega
    · rcases hold e i he with ⟨-, hi'⟩ | ⟨-, he', -⟩
      · omega
      · exact h.apart d e i hd' he'

theorem calls_goOn (hab : a.side ≠ b.side) {s : Traffic} (h : Calls P a s) (c : Consumer)
    (again : Bool) : Calls P a (s.goOn c again) := by
  unfold Traffic.goOn
  split
  · exact calls_startReceive hab h c
  · exact calls_setTask h c nofun

theorem nextRxPhase_wire {s t : PhaseFifo.St} {l : PhaseFifo.Lbl} (hl : isWire l = true)
    (hm : PhaseFifo.Move P a b s l t) : t.receiver.nextRxPhase = s.receiver.nextRxPhase := by
  have hh : ∀ (r : Receiver) msg, (r.handleMessage b.side msg).nextRxPhase = r.nextRxPhase := by
    intro r msg
    unfold Receiver.handleMessage
    split <;> rfl
  cases hm with
  | send data hs => cases hl
  | receive => cases hl
  | arrive id phase body hm => exact hh _ _
  | own msg hs => exact hh _ _
  | finish i r hr =>
    unfold Receiver.finish at hr
    split at hr
    · cases hr
      rfl
    · cases hr
  | timeout i r hr =>
    unfold Receiver.timeout at hr
    split at hr
    · cases hr
      rfl
    · cases hr
  | _ => rfl

theorem sent_wire {s t : PhaseFifo.St} {l : PhaseFifo.Lbl} (hl : isWire l = true)
    (hm : PhaseFifo.Move P a b s l t) : t.sent = s.sent := by
  cases hm with
  | send data hs => cases hl
  | _ => rfl

theorem calls_effect (hab : a.side ≠ b.side) {s t : Traffic} {l : Lbl} (h : Calls P a s)
    (he : Effect parse P a b s l t) : Calls P a t := by
  cases he with
  | same l hl => exact h
  | idle l c x hl hc hx => exact calls_setTask h c hx
  | start c hc => exact calls_startReceive hab h c
  | take c i v again hc hv =>
    exact calls_goOn hab (s := s.hear c v) ⟨h.wf, h.sent, h.made, h.apart⟩ c again
  | post l c data hl hs =>
    refine ⟨wf_send h.wf hs data, ?_, h.made, h.apart⟩
    show s.fifo.sent ++ [data] = (s.log ++ [(c, data)]).map Prod.snd
    rw [h.sent, List.map_append]
    rfl
  | wire l fifo hl hm =>
    refine ⟨PhaseFifo.wf_step hab h.wf hm, (sent_wire hl hm).trans h.sent, fun c i hc => ?_,
      h.apart⟩
    show i < fifo.receiver.nextRxPhase
    rw [nextRxPhase_wire hl hm]
    exact h.made c i hc

/-- A task has heard, or is about to hear, the messages for it and no others. -/
def Own (parse : Option Bytes → Except String Reply) (P : Crypto) (b : Session)
    (s : Traffic) : Prop :=
  ∀ c, s.heard c ++ inFlight parse P b s c = inbox parse s c

theorem task_other {s : Traffic} {c d : Consumer} {x : Task} (h : d ≠ c) :
    (s.setTask c x).task d = s.task d := if_neg h

/-- The end of a call, or the next one, adds nothing that was not heard. -/
theorem inFlight_goOn {s : Traffic} (h : Calls P a s) (c d : Consumer) (again : Bool) :
    inFlight parse P b (s.goOn c again) d =
      if d = c then [] else inFlight parse P b s d := by
  have hended : inFlight parse P b (s.setTask c .ended) c = [] := by
    refine inFlight_nil fun i hi => ?_
    have hi : (if c = c then Task.ended else s.task c) = .receiving i := hi
    rw [if_pos rfl] at hi
    cases hi
  by_cases hd : d = c
  · rw [if_pos hd, hd]
    cases again with
    | true => exact inFlight_startReceive h c
    | false => exact hended
  · rw [if_neg hd]
    cases again with
    | true => exact inFlight_of_task (task_other hd) fun _ _ => rfl
    | false => exact inFlight_of_task (task_other hd) fun _ _ => rfl

/-- What a call gives is what was in flight. -/
theorem inFlight_settled {s : Traffic} {c : Consumer} {i : Nat} {v : Except String Reply}
    (hc : s.task c = .receiving i) (hv : settled parse s i = some v) :
    inFlight parse P b s c = v.toOption.toList := by
  unfold inFlight outcome
  rw [hc]
  dsimp only
  unfold settled at hv
  split at hv
  · rename_i data hx
    cases hv
    rw [hx]
    exact List.append_nil _
  · rename_i hx
    cases hv
    rw [hx]
    rfl
  · cases hv

theorem own_take {s : Traffic} {c : Consumer} {i : Nat} {v : Except String Reply}
    (h : Calls P a s) (ho : Own parse P b s) (again : Bool) (hc : s.task c = .receiving i)
    (hv : settled parse s i = some v) : Own parse P b ((s.hear c v).goOn c again) := by
  intro d
  have hinbox : inbox parse ((s.hear c v).goOn c again) d = inbox parse s d := by
    unfold Traffic.goOn
    split <;> rfl
  have hheard : ((s.hear c v).goOn c again).heard d =
      if d = c then s.heard d ++ v.toOption.toList else s.heard d := by
    unfold Traffic.goOn
    split <;> rfl
  have hcalls : Calls P a (s.hear c v) := ⟨h.wf, h.sent, h.made, h.apart⟩
  rw [hinbox, hheard, inFlight_goOn hcalls, ← ho d]
  split
  · rename_i hd
    rw [hd, inFlight_settled hc hv, List.append_nil]
  · rfl

theorem own_post {s : Traffic} (h : Calls P a s) (ho : Own parse P b s) (c : Consumer)
    (data : Body) : Own parse P b (s.post c data) := by
  intro d
  have hlen : s.fifo.delivered ≤ s.log.length := by
    have h1 := h.wf.arrived
    have h2 := h.wf.count
    rw [h.sent, List.length_map] at h2
    omega
  have hinbox : inbox parse (s.post c data) d = inbox parse s d := by
    show ((s.log ++ [(c, data)]).take s.fifo.delivered).filterMap _ = _
    rw [List.take_append_of_le_length hlen]
    rfl
  rw [hinbox]
  exact ho d

/-- The message arrives at the task it is for. -/
theorem own_arrive (hab : Paired a b) {s : Traffic} {fifo : PhaseFifo.St} {id : String}
    (h : Calls P a s) (ho : Own parse P b s) (hm : Matched s (.wire (.arrive id)))
    (hmove : PhaseFifo.Move P a b s.fifo (.arrive id) fifo) :
    Own parse P b { s with fifo := fifo } := by
  intro d
  obtain ⟨hexp, hfor⟩ := hm id rfl
  have hdel : fifo.delivered = s.fifo.delivered + 1 := by
    cases hmove with
    | arrive id phase body hmsg => rfl
  have hlt : s.fifo.delivered < s.log.length := by
    cases hmove with
    | arrive id phase body hmsg =>
      have h1 := (List.getElem?_eq_some_iff.mp hmsg).1
      have h2 := h.wf.count
      rw [h.sent, List.length_map] at h2
      omega
  obtain ⟨⟨c, data⟩, hlog⟩ : ∃ p, s.log[s.fifo.delivered]? = some p :=
    ⟨_, List.getElem?_eq_getElem hlt⟩
  have hc := hfor c data hlog
  have hsent : s.fifo.sent[s.fifo.delivered]? = some data := by
    rw [h.sent, List.getElem?_map, hlog]
    rfl
  have hout := (outcome_arrive hab h.wf hsent hmove).mpr hexp
  have hinbox : inbox parse { s with fifo := fifo } d =
      inbox parse s d ++
        if c = d then (parse (some (toBytes data))).toOption.toList else [] := by
    show (s.log.take fifo.delivered).filterMap _ = _
    rw [hdel, List.take_add_one, hlog, List.filterMap_append]
    unfold inbox
    congr 1
    by_cases hcd : c = d
    · rw [if_pos hcd]
      cases hp : (parse (some (toBytes data))).toOption <;> simp [hcd, hp]
    · rw [if_neg hcd]
      simp [hcd]
  rw [hinbox, ← ho d]
  have hflight : inFlight parse P b { s with fifo := fifo } d = inFlight parse P b s d ++
      if c = d then (parse (some (toBytes data))).toOption.toList else [] := by
    by_cases hcd : c = d
    · subst hcd
      rw [if_pos rfl]
      have hnone : outcome P b s.fifo.receiver s.fifo.delivered = none := by
        unfold outcome
        rcases h.wf.calls.idle (Nat.le_refl _) with hx | hx <;> rw [hx]
      unfold inFlight
      rw [hc]
      dsimp only
      rw [hout, hnone]
      exact List.append_nil _
    · rw [if_neg hcd, List.append_nil]
      refine inFlight_of_task rfl fun i hi => ?_
      refine outcome_step hab.sides h.wf (fun heq => ?_) hmove
      rw [heq] at hi
      exact absurd (h.apart _ _ _ hc hi) hcd
  rw [hflight, List.append_assoc]

/-- **Everyone hears what is for him**, where each message is met by the task it
is for. -/
theorem own_effect (hab : Paired a b) {s t : Traffic} {l : Lbl} (h : Calls P a s)
    (ho : Own parse P b s) (hm : Matched s l) (he : Effect parse P a b s l t) :
    Own parse P b t := by
  cases he with
  | same l hl => exact ho
  | idle l c x hl hc hx =>
    intro d
    refine Eq.trans ?_ (ho d)
    by_cases hd : d = c
    · rw [hd, inFlight_nil hc, inFlight_nil (s := s.setTask c x)]
      · rfl
      · intro i hi
        have hi : (if c = c then x else s.task c) = .receiving i := hi
        rw [if_pos rfl] at hi
        exact hx i hi
    · rw [inFlight_of_task (task_other hd) fun _ _ => rfl]
      rfl
  | start c hc =>
    intro d
    have hnil : inFlight parse P b s c = [] := inFlight_nil fun i hi => by
      rw [hc] at hi
      cases hi
    have hgo : inFlight parse P b (s.startReceive c) d =
        if d = c then [] else inFlight parse P b s d := inFlight_goOn h c d true
    refine Eq.trans ?_ (ho d)
    rw [hgo]
    split
    · rename_i hd
      rw [hd, hnil]
      rfl
    · rfl
  | take c i v again hc hv => exact own_take h ho again hc hv
  | post l c data hl hs => exact own_post h ho c data
  | wire l fifo hl hmove =>
    by_cases harr : ∃ id, l = .arrive id
    · obtain ⟨id, rfl⟩ := harr
      exact own_arrive hab h ho hm hmove
    · have hne : ∀ id, l ≠ .arrive id := fun id heq => harr ⟨id, heq⟩
      have hdel : fifo.delivered = s.fifo.delivered := by
        cases hmove with
        | arrive id phase body hmsg => exact absurd rfl (hne id)
        | _ => rfl
      intro d
      have hinbox : inbox parse { s with fifo := fifo } d = inbox parse s d := by
        show (s.log.take fifo.delivered).filterMap _ = _
        rw [hdel]
        rfl
      rw [hinbox, ← ho d]
      rw [inFlight_of_task (s := s) (t := { s with fifo := fifo }) rfl fun i _ =>
        outcome_step hab.sides h.wf (fun _ => hne) hmove]

/-! ## What becomes of what was heard -/

def Result.heard : Result → List Reply
  | .resolved response _ => [response]
  | _ => []

/-- A fetch has its result when it is over, from what it heard. -/
structure FetchLink (result : Result) (heard : List Reply) (task : Task) : Prop where
  heard : heard = result.heard
  pending : task ≠ .ended → result = .pending
  type : ∀ r ct, result = .resolved r ct → ct = contentType r

/-- The first that a port heard is the answer to WS_OPEN; the messages posted
are those it heard after it. -/
structure PortLink (p : Port) (heard : List Reply) (task : Task) : Prop where
  messages : p.messages = (heard.drop 1).filterMap (messageOf p.streamId)
  before : p.opened = false → task ≠ .ended → heard = []
  head : ∀ r, heard.head? = some r → p.opened = accepted r
  after : p.opened = true → heard ≠ []

theorem PortLink.same {p q : Port} {heard : List Reply} {x y : Task} (h : PortLink p heard x)
    (hq : SamePort p q) (hxy : y ≠ .ended → x ≠ .ended) : PortLink q heard y := by
  refine ⟨?_, fun ho hy => ?_, fun r hr => ?_, fun ho => ?_⟩
  · rw [hq.messages, hq.streamId]
    exact h.messages
  · exact h.before (hq.opened ▸ ho) (hxy hy)
  · rw [hq.opened]
    exact h.head r hr
  · exact h.after (hq.opened ▸ ho)

/-- The answer to WS_OPEN, or the exception in its place. -/
theorem PortLink.acknowledged {p q : Port} {heard : List Reply} {x y : Task}
    (v : Except String Reply) (h : PortLink p heard x) (ho : p.opened = false)
    (hx : x ≠ .ended) (hq : SamePort p q) (hy : y ≠ .ended → (acknowledged q v).2 = true) :
    PortLink (acknowledged q v).1 (heard ++ v.toOption.toList) y := by
  have hnil := h.before ho hx
  have hmsg : p.messages = [] := by
    rw [h.messages, hnil]
    rfl
  obtain ⟨h1, h2, h3⟩ := opened_acknowledged q v (hq.opened.trans ho)
  rw [hnil, List.nil_append]
  refine ⟨?_, fun hf hne => ?_, fun r hr => ?_, fun ht => ?_⟩
  · rw [messages_acknowledged, hq.messages, hmsg]
    cases v <;> rfl
  · have := hy hne
    rw [h3, ← h1, hf] at this
    cases this
  · rw [h1]
    cases v with
    | error m => cases hr
    | ok r' =>
      cases hr
      rfl
  · rw [h1] at ht
    cases v with
    | error m => cases ht
    | ok r' => exact List.cons_ne_nil _ _

/-- A turn of the loop. -/
theorem PortLink.listened {p : Port} {heard : List Reply} {x y : Task} (v : Except String Reply)
    (h : PortLink p heard x) (ho : p.opened = true) :
    PortLink (listened p v).1 (heard ++ v.toOption.toList) y := by
  obtain ⟨h1, h2, h3⟩ := messages_listened p v
  obtain ⟨ack, rest, hheard⟩ := List.exists_cons_of_ne_nil (h.after ho)
  have hm := h.messages
  rw [hheard] at hm ⊢
  refine ⟨?_, fun hf => ?_, fun r hr => ?_, fun _ => List.cons_ne_nil _ _⟩
  · rw [h1, h3, hm]
    show _ = (rest ++ v.toOption.toList).filterMap _
    rw [List.filterMap_append]
    cases v with
    | error m => rfl
    | ok r =>
      show _ ++ (messageOf p.streamId r).toList = _ ++ [r].filterMap (messageOf p.streamId)
      cases hr : messageOf p.streamId r <;> simp [hr]
  · rw [h2, ho] at hf
    cases hf
  · rw [h2]
    refine h.head r ?_
    rw [hheard]
    exact hr

/-- The links between what the tasks heard and the results and posts, and the
peer's messages for ports. -/
structure Links (parse : Option Bytes → Except String Reply) (s : St) : Prop where
  new : New s
  quiet : ∀ k, s.ports ≤ k → s.heard (.port k) = []
  fetch : ∀ j, FetchLink (s.result j) (s.heard (.fetch j)) (s.task (.fetch j))
  port : ∀ k, k < s.ports → PortLink (s.port k) (s.heard (.port k)) (s.task (.port k))
  asked : ∀ k, .request (.port k) ∈ s.outbox → k < s.ports
  stream : ∀ k data, (.port k, data) ∈ s.log → k < s.ports ∧
    ∀ r, parse (some (toBytes data)) = .ok r →
      r.type = some "websocket_open" ∨ r.streamId = some (s.port k).streamId

theorem FetchLink.going {result : Result} {heard : List Reply} {x y : Task}
    (h : FetchLink result heard x) (hx : x ≠ .ended) : FetchLink result heard y :=
  ⟨h.heard, fun _ => h.pending hx, h.type⟩

/-- A step that is about fetch `j` alone. -/
theorem Links.at_fetch {s t : St} (h : Links parse s) (j : Nat) (hp : t.ports = s.ports)
    (hq : t.port = s.port) (hl : t.log = s.log)
    (ho : ∀ k, .request (.port k) ∈ t.outbox → .request (.port k) ∈ s.outbox)
    (hf : s.fetches ≤ t.fetches) (hj : j < t.fetches)
    (htask : ∀ d, d ≠ .fetch j → t.task d = s.task d)
    (hheard : ∀ d, d ≠ .fetch j → t.heard d = s.heard d)
    (hres : ∀ i, i ≠ j → t.result i = s.result i)
    (hlink : FetchLink (t.result j) (t.heard (.fetch j)) (t.task (.fetch j))) :
    Links parse t := by
  refine ⟨⟨fun i hi => ?_, fun k hk => ?_⟩, fun k hk => ?_, fun i => ?_, fun k hk => ?_,
    fun k hk => ?_, fun k data hd => ?_⟩
  · have hij : Consumer.fetch i ≠ .fetch j := fun heq => by
      have := Consumer.fetch.inj heq
      omega
    rw [htask _ hij]
    exact h.new.fetch i (by omega)
  · rw [htask (.port k) nofun]
    exact h.new.port k (hp ▸ hk)
  · rw [hheard (.port k) nofun]
    exact h.quiet k (hp ▸ hk)
  · by_cases hij : i = j
    · rw [hij]
      exact hlink
    · have hne : Consumer.fetch i ≠ .fetch j := fun heq => hij (Consumer.fetch.inj heq)
      rw [htask _ hne, hheard _ hne, hres i hij]
      exact h.fetch i
  · rw [hq, htask (.port k) nofun, hheard (.port k) nofun]
    exact h.port k (hp ▸ hk)
  · rw [hp]
    exact h.asked k (ho k hk)
  · rw [hp, hq]
    exact h.stream k data (hl ▸ hd)

/-- A step that is about port `k` alone. -/
theorem Links.at_port {s t : St} (h : Links parse s) (k : Nat) (hk : k < s.ports)
    (hp : t.ports = s.ports) (hf : t.fetches = s.fetches) (hl : t.log = s.log)
    (hr : t.result = s.result)
    (ho : ∀ k, .request (.port k) ∈ t.outbox → .request (.port k) ∈ s.outbox)
    (hq : ∀ i, i ≠ k → t.port i = s.port i) (hid : (t.port k).streamId = (s.port k).streamId)
    (htask : ∀ d, d ≠ .port k → t.task d = s.task d)
    (hheard : ∀ d, d ≠ .port k → t.heard d = s.heard d)
    (hlink : PortLink (t.port k) (t.heard (.port k)) (t.task (.port k))) : Links parse t := by
  have hne : ∀ i, s.ports ≤ i → Consumer.port i ≠ .port k := fun i hi heq => by
    have := Consumer.port.inj heq
    omega
  refine ⟨⟨fun i hi => ?_, fun i hi => ?_⟩, fun i hi => ?_, fun i => ?_, fun i hi => ?_,
    fun i hi => ?_, fun i data hd => ?_⟩
  · rw [htask (.fetch i) nofun]
    exact h.new.fetch i (hf ▸ hi)
  · rw [htask _ (hne i (hp ▸ hi))]
    exact h.new.port i (hp ▸ hi)
  · rw [hheard _ (hne i (hp ▸ hi))]
    exact h.quiet i (hp ▸ hi)
  · rw [htask (.fetch i) nofun, hheard (.fetch i) nofun, hr]
    exact h.fetch i
  · by_cases hik : i = k
    · rw [hik]
      exact hlink
    · have hne : Consumer.port i ≠ .port k := fun heq => hik (Consumer.port.inj heq)
      rw [htask _ hne, hheard _ hne, hq i hik]
      exact h.port i (hp ▸ hi)
  · rw [hp]
    exact h.asked i (ho i hi)
  · have hstream := h.stream i data (hl ▸ hd)
    have hsid : (t.port i).streamId = (s.port i).streamId := by
      by_cases hik : i = k
      · rw [hik]
        exact hid
      · rw [hq i hik]
    rw [hp, hsid]
    exact hstream

/-- The peer sends a message that is in order. -/
theorem Links.post {s : St} (h : Links parse s) (c : Consumer) (data : Body) (read : Nat)
    (hc : ∀ k, c = .port k → k < s.ports ∧ ∀ r, parse (some (toBytes data)) = .ok r →
      r.type = some "websocket_open" ∨ r.streamId = some (s.port k).streamId) :
    Links parse { s with toTraffic := s.toTraffic.post c data, read := read } := by
  refine ⟨⟨h.new.fetch, h.new.port⟩, h.quiet, h.fetch, h.port, h.asked, fun k d hd => ?_⟩
  have hd : (Consumer.port k, d) ∈ s.log ++ [(c, data)] := hd
  rcases List.mem_append.mp hd with hd | hd
  · exact h.stream k d hd
  · have hd := List.mem_singleton.mp hd
    cases hd
    exact hc k rfl

theorem lt_of_task {s : St} (h : Links parse s) {j : Nat} (ht : s.task (.fetch j) ≠ .absent) :
    j < s.fetches := by
  by_contra hj
  exact ht (h.new.fetch j (by omega))

theorem lt_of_task_port {s : St} (h : Links parse s) {k : Nat}
    (ht : s.task (.port k) ≠ .absent) : k < s.ports := by
  by_contra hk
  exact ht (h.new.port k (by omega))

theorem Links.wsOpen {s : St} (h : Links parse s) (streamId : String) :
    Links parse { s.setPort s.ports (.new streamId) with
      toTraffic := s.toTraffic.setTask (.port s.ports) .sending
      ports := s.ports + 1
      outbox := s.outbox ++ [.request (.port s.ports)] } := by
  have hport : ∀ k, k ≠ s.ports → (s.setPort s.ports (.new streamId)).port k = s.port k :=
    fun k hk => if_neg hk
  have htask : ∀ k, k ≠ s.ports →
      (s.toTraffic.setTask (.port s.ports) .sending).task (.port k) = s.task (.port k) :=
    fun k hk => task_other fun heq => hk (Consumer.port.inj heq)
  refine ⟨⟨h.new.fetch, fun k hk => ?_⟩, fun k hk => ?_, h.fetch, fun k hk => ?_,
    fun k hk => ?_, fun k data hd => ?_⟩
  · have hk : s.ports + 1 ≤ k := hk
    exact (htask k (by omega)).trans (h.new.port k (by omega))
  · have hk : s.ports + 1 ≤ k := hk
    exact h.quiet k (by omega)
  · by_cases hkn : k = s.ports
    · have hnew : (s.setPort s.ports (.new streamId)).port k = .new streamId := if_pos hkn
      have hheard : s.heard (.port k) = [] := h.quiet k (by omega)
      show PortLink ((s.setPort s.ports (.new streamId)).port k) (s.heard (.port k)) _
      rw [hnew, hheard]
      exact ⟨rfl, fun _ _ => rfl, nofun, nofun⟩
    · have hk' : k < s.ports := by
        have hk : k < s.ports + 1 := hk
        omega
      show PortLink ((s.setPort s.ports (.new streamId)).port k) (s.heard (.port k))
        ((s.toTraffic.setTask (.port s.ports) .sending).task (.port k))
      rw [hport k hkn, htask k hkn]
      exact h.port k hk'
  · show k < s.ports + 1
    have hk : Out.request (.port k) ∈ s.outbox ++ [.request (.port s.ports)] := hk
    rcases List.mem_append.mp hk with hk | hk
    · have := h.asked k hk
      omega
    · cases List.mem_singleton.mp hk
      omega
  · obtain ⟨hk, hr⟩ := h.stream k data hd
    refine ⟨Nat.lt_succ_of_lt hk, fun r hp => ?_⟩
    show _ ∨ _ = some ((s.setPort s.ports (.new streamId)).port k).streamId
    rw [hport k (by omega)]
    exact hr r hp

theorem task_goOn (s : Traffic) (c : Consumer) (again : Bool) :
    ((s.goOn c again).task c ≠ .ended → again = true) ∧
      (∀ d, d ≠ c → (s.goOn c again).task d = s.task d) ∧
      (s.goOn c again).heard = s.heard ∧ (s.goOn c again).log = s.log := by
  cases again with
  | true => exact ⟨fun _ => rfl, fun d hd => task_other hd, rfl, rfl⟩
  | false => exact ⟨fun h => absurd (if_pos rfl) h, fun d hd => task_other hd, rfl, rfl⟩

theorem links_resume {s : St} (h : Links parse s) {c : Consumer} {i : Nat}
    (v : Except String Reply) (hc : s.task c = .receiving i) : Links parse (resume s c i v) := by
  have hne : s.task c ≠ .ended := by
    rw [hc]
    exact nofun
  have habs : s.task c ≠ .absent := by
    rw [hc]
    exact nofun
  cases c with
  | fetch j =>
    have hlink := h.fetch j
    have hnil : s.heard (.fetch j) = [] := by
      rw [hlink.heard, hlink.pending hne]
      rfl
    refine h.at_fetch j rfl rfl rfl (fun _ hk => hk) (Nat.le_refl _) (lt_of_task h habs)
      (fun d hd => task_other hd) (fun d hd => if_neg hd) (fun i hi => if_neg hi) ?_
    have hres : (resume s (.fetch j) i v).result j = resultOf v := if_pos rfl
    have hheard : (resume s (.fetch j) i v).heard (.fetch j) =
        s.heard (.fetch j) ++ v.toOption.toList := if_pos rfl
    have htask : (resume s (.fetch j) i v).task (.fetch j) = .ended := if_pos rfl
    rw [hres, hheard, htask, hnil]
    cases v with
    | error m => exact ⟨rfl, fun he => absurd rfl he, nofun⟩
    | ok r =>
      refine ⟨rfl, fun he => absurd rfl he, fun r' ct heq => ?_⟩
      cases heq
      rfl
  | port k =>
    have hk := lt_of_task_port h habs
    have hlink := h.port k hk
    unfold resume
    dsimp only
    generalize hr : (if (s.port k).opened then listened (s.port k) v
      else acknowledged
        { s.port k with timer := (s.port k).timer && s.fifo.receiver.rx i == .timedOut } v) = r
    obtain ⟨h1, h2, h3, h4⟩ := task_goOn (s.toTraffic.hear (.port k) v) (.port k) r.2
    have hpk : (s.setPort k r.1).port k = r.1 := if_pos rfl
    have hheard : (s.toTraffic.hear (.port k) v).heard (.port k) =
        s.heard (.port k) ++ v.toOption.toList := if_pos rfl
    have hnew : r.1.streamId = (s.port k).streamId ∧ PortLink r.1
        (s.heard (.port k) ++ v.toOption.toList)
        (((s.toTraffic.hear (.port k) v).goOn (.port k) r.2).task (.port k)) := by
      rw [← hr] at h1 ⊢
      split at h1
      · rename_i ho
        rw [if_pos ho]
        exact ⟨(messages_listened _ v).2.2, hlink.listened v ho⟩
      · rename_i ho
        rw [if_neg ho]
        have ho := Bool.eq_false_iff.mpr ho
        have hq : SamePort (s.port k)
            { s.port k with timer := (s.port k).timer && s.fifo.receiver.rx i == .timedOut } :=
          ⟨rfl, rfl, rfl⟩
        exact ⟨(opened_acknowledged _ v (hq.opened.trans ho)).2.1,
          hlink.acknowledged v ho hne hq h1⟩
    refine h.at_port k hk rfl rfl h4 rfl (fun _ hk => hk) (fun i hi => if_neg hi) ?_
      (fun d hd => h2 d hd) (fun d hd => ?_) ?_
    · exact (congrArg Port.streamId hpk).trans hnew.1
    · exact (congrFun h3 d).trans (if_neg hd)
    · show PortLink ((s.setPort k r.1).port k)
        (((s.toTraffic.hear (.port k) v).goOn (.port k) r.2).heard (.port k)) _
      rw [hpk, h3, hheard]
      exact hnew.2

theorem links_move {s t : St} {l : Lbl} (h : Links parse s) (hm : Move parse P a b s l t) :
    Links parse t := by
  have hsame : ∀ k, Out.request (.port k) ∈ s.outbox → Out.request (.port k) ∈ s.outbox :=
    fun _ hk => hk
  have hframes : ∀ {frames : List Out}, (∀ k, .request (.port k) ∉ frames) → ∀ k,
      Out.request (.port k) ∈ s.outbox ++ frames → Out.request (.port k) ∈ s.outbox := by
    intro frames hf k hk
    rcases List.mem_append.mp hk with hk | hk
    · exact hk
    · exact absurd hk (hf _)
  cases hm with
  | fetch =>
    have hlink := h.fetch s.fetches
    rw [h.new.fetch _ (Nat.le_refl _)] at hlink
    refine h.at_fetch s.fetches rfl rfl rfl hsame (Nat.le_succ _) (Nat.lt_succ_self _)
      (fun d hd => task_other hd) (fun d hd => rfl) (fun i hi => rfl) ?_
    exact hlink.going nofun
  | fetchSend j hc =>
    have hlink := h.fetch j
    rw [hc] at hlink
    refine h.at_fetch j rfl rfl rfl (hframes (by simp)) (Nat.le_refl _)
      (lt_of_task h (by rw [hc]; exact nofun)) (fun d hd => task_other hd) (fun d hd => rfl)
      (fun i hi => rfl) ?_
    exact hlink.going nofun
  | wsOpen streamId => exact h.wsOpen streamId
  | sentFetch j hc =>
    have hlink := h.fetch j
    rw [hc] at hlink
    refine h.at_fetch j rfl rfl rfl hsame (Nat.le_refl _)
      (lt_of_task h (by rw [hc]; exact nofun)) (fun d hd => task_other hd) (fun d hd => rfl)
      (fun i hi => rfl) ?_
    exact hlink.going nofun
  | sentPort k p hc hp =>
    have hk := lt_of_task_port h (by rw [hc]; exact nofun)
    have hlink := h.port k hk
    rw [hc] at hlink
    have hpk : (s.setPort k p).port k = p := if_pos rfl
    refine h.at_port k hk rfl rfl rfl rfl hsame (fun i hi => if_neg hi)
      ((congrArg Port.streamId hpk).trans hp.streamId) (fun d hd => task_other hd)
      (fun d hd => rfl) ?_
    show PortLink ((s.setPort k p).port k) (s.heard (.port k)) _
    rw [hpk]
    exact hlink.same hp fun _ => nofun
  | failedFetch j message hc =>
    have hlink := h.fetch j
    rw [hc] at hlink
    refine h.at_fetch j rfl rfl rfl hsame (Nat.le_refl _)
      (lt_of_task h (by rw [hc]; exact nofun)) (fun d hd => task_other hd) (fun d hd => rfl)
      (fun i hi => if_neg hi) ?_
    have hnil : s.heard (.fetch j) = [] := by
      rw [hlink.heard, hlink.pending nofun]
      rfl
    have hres : (fun j' => if j' = j then Result.rejected message else s.result j') j =
        .rejected message := if_pos rfl
    have htask : (s.toTraffic.setTask (.fetch j) .ended).task (.fetch j) = .ended := if_pos rfl
    show FetchLink ((fun j' => if j' = j then Result.rejected message else s.result j') j)
      (s.heard (.fetch j)) ((s.toTraffic.setTask (.fetch j) .ended).task (.fetch j))
    rw [hres, htask, hnil]
    exact ⟨rfl, fun he => absurd rfl he, nofun⟩
  | failedPort k message p hc hp =>
    have hk := lt_of_task_port h (by rw [hc]; exact nofun)
    have hlink := h.port k hk
    rw [hc] at hlink
    have hpk : (s.setPort k p).port k = p := if_pos rfl
    refine h.at_port k hk rfl rfl rfl rfl hsame (fun i hi => if_neg hi)
      ((congrArg Port.streamId hpk).trans hp.streamId) (fun d hd => task_other hd)
      (fun d hd => rfl) ?_
    show PortLink ((s.setPort k p).port k) (s.heard (.port k)) _
    rw [hpk]
    exact hlink.same hp fun _ => nofun
  | resume c i v hc hv => exact links_resume h v hc
  | frame l frames read hl hf =>
    exact ⟨⟨h.new.fetch, h.new.port⟩, h.quiet, h.fetch, h.port,
      fun k hk => h.asked k (hframes (fun k => hf (.port k)) k hk), h.stream⟩
  | edit l k p frames hl hf hp =>
    have hport : ∀ i, SamePort (s.port i) ((s.setPort k p).port i) := by
      intro i
      show SamePort (s.port i) (if i = k then p else s.port i)
      split
      · rename_i hik
        rw [hik]
        exact hp
      · exact ⟨rfl, rfl, rfl⟩
    refine ⟨⟨h.new.fetch, h.new.port⟩, h.quiet, h.fetch,
      fun i hi => (h.port i hi).same (hport i) id,
      fun i hi => h.asked i (hframes (fun k => hf (.port k)) i hi),
      fun i data hd => ?_⟩
    obtain ⟨hi, hr⟩ := h.stream i data hd
    refine ⟨hi, fun r hp => ?_⟩
    show _ ∨ _ = some ((s.setPort k p).port i).streamId
    rw [(hport i).streamId]
    exact hr r hp
  | answer c data hr hs hd =>
    refine h.post c data (s.read + 1) fun k hc => ⟨h.asked k (hc ▸ hr), fun r hp => .inl ?_⟩
    unfold forRequest at hd
    rw [hc, hp] at hd
    exact beq_iff_eq.mp hd
  | push k data hk hs hd =>
    refine h.post (.port k) data s.read fun i hi => ?_
    cases hi
    refine ⟨hk, fun r hp => .inr ?_⟩
    unfold forStream at hd
    rw [hp] at hd
    exact beq_iff_eq.mp hd
  | wire l fifo hl hm =>
    exact ⟨⟨h.new.fetch, h.new.port⟩, h.quiet, h.fetch, h.port, h.asked, h.stream⟩

theorem links_reachable : ∀ s, (lts parse P a b).Reachable s → Links parse s := by
  refine LTS.Inductive.reachable ⟨fun s hs => ?_, fun s l t h hs => links_move h (step_move hs)⟩
  cases hs
  exact ⟨⟨fun _ _ => rfl, fun _ _ => rfl⟩, fun _ _ => rfl,
    fun j => ⟨rfl, fun _ => rfl, nofun⟩, nofun, nofun, nofun⟩

/-! ## No mixing -/

/-- The data of a `websocket_message`, of whatever stream. -/
def websocketMessage (r : Reply) : Option String :=
  if r.type = some "websocket_message" then some r.data else none

/-- What each task has heard, with what it is about to hear, is what the peer
sent it: all of that, and nothing else. A fetch resolves with what it heard, a
port is open when the first it heard accepts it, and all messages that it heard
after that are posted to it. -/
structure Unmixed (parse : Option Bytes → Except String Reply) (P : Crypto) (b : Session)
    (s : St) : Prop where
  own : Own parse P b s.toTraffic
  fetch : ∀ j, s.heard (.fetch j) = (s.result j).heard
  acknowledged : ∀ k r, k < s.ports → (s.heard (.port k)).head? = some r →
    (s.port k).opened = accepted r
  posted : ∀ k, k < s.ports →
    (s.port k).messages = ((s.heard (.port k)).drop 1).filterMap websocketMessage

/-- What a port hears after the answer is of its stream. -/
theorem messages_own {s : St} (h : Links parse s) (ho : Own parse P b s.toTraffic) {k : Nat}
    (hk : k < s.ports) :
    (s.port k).messages = ((s.heard (.port k)).drop 1).filterMap websocketMessage := by
  rw [(h.port k hk).messages]
  refine List.filterMap_congr fun r hr => ?_
  have hin : r ∈ inbox parse s.toTraffic (.port k) := by
    rw [← ho]
    exact List.mem_append_left _ (List.mem_of_mem_drop hr)
  unfold inbox at hin
  obtain ⟨⟨c, data⟩, hmem, hp⟩ := List.mem_filterMap.mp hin
  have hlog := List.mem_of_mem_take hmem
  dsimp only at hp
  split at hp
  · rename_i hc
    rw [hc] at hlog
    have hok : parse (some (toBytes data)) = .ok r := by
      cases hv : parse (some (toBytes data)) with
      | error m =>
        rw [hv] at hp
        cases hp
      | ok r' =>
        rw [hv] at hp
        cases hp
        rfl
    unfold messageOf websocketMessage
    rcases (h.stream k data hlog).2 r hok with ht | hs
    · rw [if_neg fun hc => by rw [ht] at hc; simp at hc, if_neg (by rw [ht]; simp)]
    · by_cases ht : r.type = some "websocket_message"
      · rw [if_pos ⟨hs, ht⟩, if_pos ht]
      · rw [if_neg fun hc => ht hc.2, if_neg ht]
  · cases hp

/-- **Fetches and WebSockets do not mix**, in every run in which each message of
the peer is expected and finds the task it is for in the call of its number. -/
theorem unmixed_of_matched (hab : Paired a b) : ∀ s,
    ((lts parse P a b).restrict fun s l => Matched s.toTraffic l).Reachable s →
    Unmixed parse P b s := by
  have hown : ∀ s, ((lts parse P a b).restrict fun s l => Matched s.toTraffic l).Reachable s →
      Calls P a s.toTraffic ∧ Own parse P b s.toTraffic := by
    refine LTS.Inductive.of_known (fun s hs => links_reachable (P := P) (a := a) (b := b) s
      hs.of_restrict) ?_ ?_
    · intro s hs
      cases hs
      have hw := PhaseFifo.wf_reachable (P := P) hab.sides PhaseFifo.init (.init rfl)
      exact ⟨⟨hw, rfl, nofun, nofun⟩, fun c => rfl⟩
    · intro s l t hr hl hI hs
      have he := effect_of_move hl.new (step_move hs.2)
      exact ⟨calls_effect hab.sides hI.1 he, own_effect hab hI.1 hI.2 hs.1 he⟩
  intro s hs
  have hl := links_reachable (P := P) (a := a) (b := b) s hs.of_restrict
  have ho := (hown s hs).2
  exact ⟨ho, fun j => (hl.fetch j).heard, fun k r hk hr => (hl.port k hk).head r hr,
    fun k hk => messages_own hl ho hk⟩

end

/-! ## One port and one fetch -/

def ackText : String := "\x7b\"type\":\"websocket_open\",\"success\":true\x7d"
def pageText : String := "\x7b\"status\":200\x7d"

def page : Reply := ⟨none, none, false, "", "", "", "", 0, "", none⟩
def ack : Reply := { page with type := some "websocket_open", success := true }

/-- `JSON.parse` on these two texts. -/
def parseTwo : Option Bytes → Except String Reply
  | none => .error "The provided value is null"
  | some bytes =>
    if bytes = encode ackText then .ok ack
    else if bytes = encode pageText then .ok page
    else .error "Unexpected token"

/-- `Matched`, as a test. -/
def matchedCheck (s : St) : Lbl → Bool
  | .wire (.arrive id) =>
    decide (s.fifo.delivered ∈ s.fifo.receiver.handlers) &&
      (id == "" || decide (id ∉ s.fifo.receiver.pendingRequests)) &&
      (s.fifo.messages[s.fifo.delivered]?.all fun p => (hexToString p.2).isNone) &&
      (s.log[s.fifo.delivered]?.all fun p => s.task p.1 == .receiving s.fifo.delivered)
  | _ => true

theorem matched_of_check (s : St) (l : Lbl) (h : matchedCheck s l = true) :
    Matched s.toTraffic l := by
  intro id hl
  rw [hl] at h
  unfold matchedCheck at h
  simp only [Bool.and_eq_true, Bool.or_eq_true, beq_iff_eq, decide_eq_true_eq] at h
  obtain ⟨⟨⟨hcall, hid⟩, hbin⟩, hfor⟩ := h
  refine ⟨⟨hcall, hid, fun phase body hm => ?_⟩, fun c data hc => ?_⟩
  · rw [hm] at hbin
    exact Option.isNone_iff_eq_none.mp hbin
  · rw [hc] at hfor
    exact beq_iff_eq.mp hfor

/-- A fetch and a WS_OPEN at the same time; the fetch is answered first. -/
def inTurn : List Lbl :=
  [.fetch, .fetchSend 0, .wsOpen "ws-stream-1", .sent (.fetch 0), .sent (.port 0),
    .answer (.text pageText), .wire (.added zeroNonce), .wire (.arrive "m1"),
    .wire (.finish 0), .resume (.fetch 0)]

theorem in_turn_unmixed : Unmixed parseTwo .plain bob
    (LTS.after (LTS.checked matchedCheck (step parseTwo .plain alice bob)) init inTurn) :=
  unmixed_of_matched paired_alice_bob _ (LTS.restrict_reachable_of_exec rfl
    matched_of_check (LTS.exec_after (by decide +kernel)))

/-- A port has opened and waits for its first message; then comes a fetch. -/
def listening : List Lbl :=
  [.wsOpen "ws-stream-1", .sent (.port 0), .answer (.text ackText), .wire (.added zeroNonce),
    .wire (.arrive "m1"), .wire (.finish 0), .resume (.port 0), .fetch, .fetchSend 0,
    .sent (.fetch 0), .answer (.text pageText), .wire (.added zeroNonce), .wire (.arrive "m2"),
    .wire (.finish 1), .resume (.port 0)]

/-- The answer to WS_OPEN is there. -/
def acknowledging : St :=
  let s := LTS.after (step parseTwo .plain alice bob) init (listening.take 3)
  { s with fifo := received .plain alice s.fifo 0 (.text ackText) zeroNonce }

/-- So is the response, which the port's second call has taken. -/
def responding : St :=
  let s := LTS.after (step parseTwo .plain alice bob) acknowledging ((listening.drop 6).take 5)
  { s with fifo := received .plain alice s.fifo 1 (.text pageText) zeroNonce }

/-- What the mailbox and the peer do for one message. -/
theorem wire_run {parse : Option Bytes → Except String Reply} {P : Crypto} {a b : Session} {s : St}
    {nonce : Nonce} {id : String} {n : Nat} {fifo : PhaseFifo.St}
    (h : LTS.exec (PhaseFifo.step P a b) s.fifo [.added nonce, .arrive id, .finish n] = some fifo) :
    (lts parse P a b).Run s [.wire (.added nonce), .wire (.arrive id), .wire (.finish n)]
      { s with fifo := fifo } := by
  simp only [LTS.exec, Option.bind_eq_some_iff] at h
  obtain ⟨f, hf, g, hg, k, hk, heq⟩ := h
  cases heq
  have hadded : step parse P a b s (.wire (.added nonce)) = some { s with fifo := f } := by
    simp only [step, isWire, if_true, hf, Option.map_some]
  have harrive : step parse P a b { s with fifo := f } (.wire (.arrive id)) =
      some { s with fifo := g } := by
    simp only [step, isWire, if_true, hg, Option.map_some]
  have hfinish : step parse P a b { s with fifo := g } (.wire (.finish n)) =
      some { s with fifo := fifo } := by
    simp only [step, isWire, if_true, hk, Option.map_some]
  exact .cons hadded (.cons harrive (.single hfinish))

/-- **The listening port takes the response.** It is for the fetch, but the next
call is the port's, which drops it. -/
theorem listener_takes_response : ∃ s, (lts parseTwo .plain alice bob).Reachable s ∧
    inbox parseTwo s.toTraffic (.fetch 0) = [page] ∧ s.heard (.fetch 0) = [] ∧
    inFlight parseTwo .plain bob s.toTraffic (.fetch 0) = [] ∧
    s.task (.fetch 0) = .receiving 2 ∧ s.heard (.port 0) = [ack, page] ∧
    (s.port 0).messages = [] := by
  -- The run is cut where a message is on its way: what becomes of it is known.
  have hopens : (lts parseTwo .plain alice bob).Run init (listening.take 3)
      (LTS.after (step parseTwo .plain alice bob) init (listening.take 3)) :=
    LTS.run_of_exec (LTS.exec_after (by decide +kernel))
  have hack : (lts parseTwo .plain alice bob).Run _ ((listening.drop 3).take 3) acknowledging :=
    wire_run (received_run paired_alice_bob (by decide +kernel) (by decide +kernel)
      (by decide +kernel) (by decide +kernel) (by decide +kernel) (by decide +kernel)
      (by decide +kernel))
  have hasks : (lts parseTwo .plain alice bob).Run acknowledging ((listening.drop 6).take 5)
      (LTS.after (step parseTwo .plain alice bob) acknowledging ((listening.drop 6).take 5)) :=
    LTS.run_of_exec (LTS.exec_after (by decide +kernel))
  have hpage : (lts parseTwo .plain alice bob).Run _ ((listening.drop 11).take 3) responding :=
    wire_run (received_run paired_alice_bob (by decide +kernel) (by decide +kernel)
      (by decide +kernel) (by decide +kernel) (by decide +kernel) (by decide +kernel)
      (by decide +kernel))
  have htakes : (lts parseTwo .plain alice bob).Run responding (listening.drop 14)
      (LTS.after (step parseTwo .plain alice bob) responding (listening.drop 14)) :=
    LTS.run_of_exec (LTS.exec_after (by decide +kernel))
  have hstart : (lts parseTwo .plain alice bob).Reachable init := ⟨init, [], rfl, .nil init⟩
  exact ⟨_, ((((hstart.run hopens).run hack).run hasks).run hpage).run htakes, by decide +kernel⟩

end Wormhole.L5.SharedPhases
