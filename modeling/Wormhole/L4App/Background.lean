import Wormhole.L1Encoding.PyBytes

/-!
# Traffic over an undilated wormhole (`browser-extension/src/background.js`)

The extension's background script sends HTTP requests and WebSocket frames as
messages of one wormhole and takes the peer's messages from `receive`. Every
`fetchOverUndilatedWormhole` waits for its turn in a queue of promises; a port
with a WebSocket sends WS_OPEN and then loops in `listenForWebSocketMessages`,
and does not use that queue.

`acknowledged` and `listened` are what a port makes of a message, or of the
exception in its place, and whether it calls `receive` again.
-/
namespace Wormhole.L4.Background
open Wormhole.L1

/-- A message of the peer, parsed. A missing text is empty, a missing code 0. -/
structure Reply where
  type : Option String
  streamId : Option String
  success : Bool
  data : String
  protocol : String
  extensions : String
  error : String
  code : Nat
  reason : String
  headers : Option (List (String × String))
  deriving DecidableEq

/-- What a port is sent. -/
inductive Posted
  | opened (protocol extensions : String)
  | message (data : String)
  | error (message : String)
  | closed (code : Nat) (reason : String) (wasClean : Bool)
  deriving DecidableEq

/-- `x || y` on strings. -/
def orElse (x y : String) : String := if x = "" then y else x

/-- mirrors browser-extension/src/background.js:462-467 (`fetchOverUndilatedWormhole`) -/
def contentType (response : Reply) : Option String :=
  response.headers.map fun headers =>
    orElse ((headers.lookup "Content-Type").getD "")
      (orElse ((headers.lookup "content-type").getD "") "text/html")

/-- `wsState`, with the messages posted to the port. `opened` says that the
listening loop was entered, `timer` that the ten seconds of WS_OPEN run, and
`closing` counts the WS_CLOSE that are being sent. -/
structure Port where
  streamId : String
  connected : Bool
  opened : Bool
  timer : Bool
  closing : Nat
  posted : List Posted
  deriving DecidableEq

def Port.new (streamId : String) : Port := ⟨streamId, false, false, false, 0, []⟩

def Port.post (p : Port) (events : List Posted) : Port := { p with posted := p.posted ++ events }

/-- mirrors browser-extension/src/background.js:795-807 (`catch`) -/
def failed (p : Port) (message : String) : Port :=
  p.post [.error message, .closed 1006 message false]

def accepted (response : Reply) : Bool :=
  response.type == some "websocket_open" && response.success

/-- The first `receive` of a port, and whether the loop starts.

mirrors browser-extension/src/background.js:768-807 (`WS_OPEN`) -/
def acknowledged (p : Port) : Except String Reply → Port × Bool
  | .error message => (failed p message, false)
  | .ok response =>
    if accepted response then
      (({ p with connected := true, opened := true }).post
        [.opened response.protocol response.extensions], true)
    else
      (p.post [.error (orElse response.error "WebSocket connection refused"),
        .closed 1006 (orElse response.error "Connection refused") false], false)

/-- One turn of the loop, and whether there is another.

mirrors browser-extension/src/background.js:888-936 (`listenForWebSocketMessages`) -/
def listened (p : Port) : Except String Reply → Port × Bool
  | .error message => if p.connected then (p.post [.error message], true) else (p, false)
  | .ok message =>
    if message.streamId ≠ some p.streamId then (p, p.connected)
    else
      match message.type with
      | some "websocket_message" => (p.post [.message message.data], p.connected)
      | some "websocket_close" =>
        ({ p with connected := false }.post
          [.closed (if message.code = 0 then 1000 else message.code) message.reason true], false)
      | some "websocket_error" =>
        (p.post [.error (orElse message.error "Unknown error")], p.connected)
      | _ => (p, p.connected)

/-! ## What reaches the port -/

/-- The data of a `websocket_message` of a stream. -/
def messageOf (streamId : String) (message : Reply) : Option String :=
  if message.streamId = some streamId ∧ message.type = some "websocket_message" then
    some message.data
  else none

def Posted.data? : Posted → Option String
  | .message data => some data
  | _ => none

/-- The data of the `message` events of a port. -/
def Port.messages (p : Port) : List String := p.posted.filterMap Posted.data?

theorem messages_post (p : Port) (events : List Posted) :
    (p.post events).messages = p.messages ++ events.filterMap Posted.data? := by
  unfold Port.messages Port.post
  exact List.filterMap_append

theorem messages_acknowledged (p : Port) (v : Except String Reply) :
    (acknowledged p v).1.messages = p.messages := by
  unfold acknowledged failed
  cases v with
  | error message =>
    dsimp only
    rw [messages_post]
    exact List.append_nil _
  | ok response =>
    dsimp only
    split
    · rw [messages_post]
      exact List.append_nil _
    · rw [messages_post]
      exact List.append_nil _

theorem opened_acknowledged (p : Port) (v : Except String Reply) (hp : p.opened = false) :
    (acknowledged p v).1.opened = (v.toOption.map accepted).getD false ∧
      (acknowledged p v).1.streamId = p.streamId ∧
      (acknowledged p v).2 = (v.toOption.map accepted).getD false := by
  unfold acknowledged failed Port.post
  cases v with
  | error message => exact ⟨hp, rfl, rfl⟩
  | ok response =>
    dsimp only
    split
    · rename_i ha
      exact ⟨ha.symm, rfl, ha.symm⟩
    · rename_i ha
      have ha := Bool.eq_false_iff.mpr ha
      exact ⟨hp.trans ha.symm, rfl, ha.symm⟩

/-- A message of the stream is posted, and nothing else is posted as one. -/
theorem messages_listened (p : Port) (v : Except String Reply) :
    (listened p v).1.messages =
        p.messages ++ (v.toOption.bind (messageOf p.streamId)).toList ∧
      (listened p v).1.opened = p.opened ∧ (listened p v).1.streamId = p.streamId := by
  unfold listened
  cases v with
  | error message =>
    dsimp only
    split
    · refine ⟨?_, rfl, rfl⟩
      rw [messages_post]
      rfl
    · exact ⟨(List.append_nil _).symm, rfl, rfl⟩
  | ok message =>
    dsimp only
    show _ = p.messages ++ (messageOf p.streamId message).toList ∧ _
    unfold messageOf
    split
    · rename_i hs
      rw [if_neg fun h => hs h.1]
      exact ⟨(List.append_nil _).symm, rfl, rfl⟩
    · rename_i hs
      have hs := not_not.mp hs
      have hother : message.type ≠ some "websocket_message" →
          ¬ (message.streamId = some p.streamId ∧ message.type = some "websocket_message") :=
        fun ht h => ht h.2
      split
      · rename_i ht
        rw [if_pos ⟨hs, ht⟩, messages_post]
        exact ⟨rfl, rfl, rfl⟩
      · rename_i ht
        rw [if_neg (hother (by rw [ht]; simp)), messages_post]
        exact ⟨rfl, rfl, rfl⟩
      · rename_i ht
        rw [if_neg (hother (by rw [ht]; simp)), messages_post]
        exact ⟨rfl, rfl, rfl⟩
      · rename_i h1 h2 h3
        rw [if_neg fun h => h1 h.2]
        exact ⟨(List.append_nil _).symm, rfl, rfl⟩

end Wormhole.L4.Background
