import Wormhole.L1Encoding.Json
import Wormhole.L4App.MailboxClient

/-!
# The mailbox client's requests (`packages/mailbox/src/index.js`)

`request` gives every message it sends a fresh `id` and waits, thirty seconds
at most, for a message that carries the same `id`; `allocate`, `claim`, `open`,
`addMessage` and `release` go on from there. `claim` also waits for a `claimed`
message that comes in by its type.

A `Call` is one of these calls that got as far as `request`; it stays in the
record when it is over. A promise that settles resumes the call that awaits it
before the next message is handled, so `handleMessage` does both. `close` is
not modelled, nor are the handlers of `onMessage`, which are all registered for
the type `message`. `null` stands for `undefined` too: `open` and `release` send
true values only.

* `replyTo`: which request a message is taken to answer.
* `handleMessage_reply`, `handleMessage_other`: what a message does to a client.
-/
namespace Wormhole.L4.MailboxRequests
open Wormhole.L1 Wormhole.L4.MailboxClient

/-- `if (x)` on a value that `JSON.parse` returns. -/
def jsTruthy : Json → Bool
  | .arr _ => true
  | .obj _ => true
  | .float .nan => false
  | x => x.truthy

/-- `x || y`. -/
def orElse (x y : Json) : Json := if jsTruthy x then x else y

/-- `msg.key`. -/
def field (msg : Json) (key : String) : Json :=
  match msg with
  | .obj fields => Fields.get fields key
  | _ => .null

/-- The id a message is sent with. -/
def idOf (data : Json) : Option String :=
  match field data "id" with
  | .str id => some id
  | _ => none

/-- The calls that make a request. An object as a body is given as its JSON text. -/
inductive Api
  | allocate
  | claim (nameplate : String)
  | openMailbox (mailbox : Json)
  | addMessage (phase : String) (body : Body)
  | release

inductive Promise
  | pending
  | resolved (msg : Json)
  | rejected (error : Json)
  | timedOut

/-- `promise` is the one `request` returned, `claimed` what the handler of
`claim` was given. -/
structure Call where
  id : String
  api : Api
  promise : Promise
  claimed : Option Json

/-- What the call itself has come to.

mirrors packages/mailbox/src/index.js:151-153 (`allocate`), :180-183 (`claim`),
:197 (`open`), :224 (`addMessage`), :315 (`release`) and :363-366 (`request`) -/
def Call.result (call : Call) : Option (Except Json Json) :=
  match call.promise with
  | .pending => none
  | .rejected error => some (.error error)
  | .timedOut => some (.error (.str "Request timeout"))
  | .resolved msg =>
    match call.api with
    | .allocate => some (.ok (field msg "nameplate"))
    | .claim _ => call.claimed.map .ok
    | _ => some (.ok .null)

inductive State
  | disconnected
  | connecting
  | connected
  | opened
  deriving DecidableEq

/-- The handlers of `connect` and `claim`, each of which takes itself out when
it is called. -/
inductive Handler
  | welcome
  | error
  | claimed (id : String)

/-- `connection` is the promise of `connect`.

mirrors packages/mailbox/src/index.js:48-64 (`constructor`) -/
structure Client where
  appId : String
  side : String
  state : State
  connection : Promise
  nameplate : Json
  mailbox : Json
  messageId : Nat
  pendingRequests : List String
  messageHandlers : String → List Handler
  calls : List Call

def Client.new (appId side : String) : Client :=
  ⟨appId, side, .disconnected, .pending, .null, .null, 0, [], fun _ => [], []⟩

/-- mirrors packages/mailbox/src/index.js:409-414 -/
def Client.on (c : Client) (type : String) (handler : Handler) : Client :=
  { c with messageHandlers := fun t =>
      if t = type then c.messageHandlers t ++ [handler] else c.messageHandlers t }

/-- mirrors packages/mailbox/src/index.js:83-139 (`connect`) -/
def Client.connect (c : Client) : Client :=
  (({ c with state := .connecting }).on "welcome" .welcome).on "error" .error

/-- `onopen`, with the message it sends.

mirrors packages/mailbox/src/index.js:103-108 (`connect`) -/
def Client.onOpen (c : Client) : Client × Json :=
  ({ c with state := .connected },
    .obj [("type", .str "bind"), ("appid", .str c.appId), ("side", .str c.side)])

/-- The next id of `request`. -/
def Client.nextId (c : Client) : String := toString (c.messageId + 1)

/-- mirrors packages/mailbox/src/index.js:358-371 -/
def Client.request (c : Client) (api : Api) (msg : Fields) : Client × Json :=
  ({ c with
      messageId := c.messageId + 1
      pendingRequests := c.pendingRequests ++ [c.nextId]
      calls := c.calls ++ [⟨c.nextId, api, .pending, none⟩] },
    .obj (msg ++ [("id", .str c.nextId)]))

/-- A call up to its `request`, with the message that is sent.

mirrors packages/mailbox/src/index.js:146-151 (`allocate`), :161-180 (`claim`),
:191-197 (`open`), :207-228 (`addMessage`) and :311-315 (`release`) -/
def Client.call (c : Client) : Api → Except String (Client × Option Json)
  | .allocate =>
    if c.state = .connected then
      let (c, msg) := c.request .allocate [("type", .str "allocate")]
      .ok (c, some msg)
    else .error "Not connected"
  | .claim nameplate =>
    if c.state = .connected then
      let waiting := { c with nameplate := .str nameplate }.on "claimed" (.claimed c.nextId)
      let (c, msg) := waiting.request (.claim nameplate)
        [("type", .str "claim"), ("nameplate", .str nameplate)]
      .ok (c, some msg)
    else .error "Not connected"
  | .openMailbox mailbox =>
    if jsTruthy c.nameplate then
      let mailboxId := orElse mailbox c.nameplate
      let (c, msg) := { c with mailbox := mailboxId }.request (.openMailbox mailbox)
        [("type", .str "open"), ("mailbox", mailboxId)]
      .ok (c, some msg)
    else .error "No nameplate claimed"
  | .addMessage phase body =>
    if c.state = .opened then
      let (c, msg) := c.request (.addMessage phase body)
        [("type", .str "add"), ("phase", .str phase), ("body", .str (addBody body))]
      .ok (c, some msg)
    else .error "Mailbox not open"
  | .release =>
    if jsTruthy c.nameplate then
      let (c, msg) := c.request .release [("type", .str "release"), ("nameplate", c.nameplate)]
      .ok (c, some msg)
    else .ok (c, none)

def Client.find (c : Client) (id : String) : Option Call :=
  c.calls.find? fun call => call.id = id

def Client.setCall (c : Client) (id : String) (f : Call → Call) : Client :=
  { c with calls := c.calls.map fun call => if call.id = id then f call else call }

/-- What a call does when its request has been answered.

mirrors packages/mailbox/src/index.js:152 (`allocate`), :198 (`open`) and :316 (`release`) -/
def Client.resume (c : Client) (api : Api) (msg : Json) : Client :=
  match api with
  | .allocate => { c with nameplate := field msg "nameplate" }
  | .openMailbox _ => { c with state := .opened }
  | .release => { c with nameplate := .null }
  | _ => c

/-- The promise of request `id` settles; nothing else settles it later. -/
def Client.settle (c : Client) (id : String) (promise : Promise) : Client :=
  let settled := { c with pendingRequests := c.pendingRequests.erase id }.setCall id
    fun call => { call with promise := promise }
  match promise, c.find id with
  | .resolved msg, some call => settled.resume call.api msg
  | _, _ => settled

/-- The request that a message is taken to answer.

mirrors packages/mailbox/src/index.js:379 (`handleMessage`) -/
def Client.replyTo (c : Client) (msg : Json) : Option String :=
  match field msg "id" with
  | .str id => if id ≠ "" ∧ id ∈ c.pendingRequests then some id else none
  | _ => none

/-- `msg.error || text`. -/
def errorOf (msg : Json) (text : String) : Json := orElse (field msg "error") (.str text)

def settleConnection (promise : Promise) (c : Client) : Client :=
  match c.connection with
  | .pending => { c with connection := promise }
  | _ => c

/-- mirrors packages/mailbox/src/index.js:130-138 (`connect`) and :170-175 (`claim`) -/
def Client.handle (msg : Json) (c : Client) : Handler → Client
  | .welcome => settleConnection (.resolved msg) c
  | .error => settleConnection (.rejected (errorOf msg "Unknown error")) c
  | .claimed id => c.setCall id fun call =>
      { call with claimed := some (call.claimed.getD msg) }

/-- mirrors packages/mailbox/src/index.js:392-401 (`handleMessage`) -/
def Client.dispatchTo (c : Client) (type : String) (msg : Json) : Client :=
  let walked := dispatch (fun _ => true) (c.messageHandlers type)
  walked.2.foldl (Client.handle msg)
    { c with messageHandlers := fun t => if t = type then walked.1 else c.messageHandlers t }

/-- mirrors packages/mailbox/src/index.js:377-402 -/
def Client.handleMessage (c : Client) (msg : Json) : Client :=
  match c.replyTo msg with
  | some id =>
    c.settle id (match field msg "type" with
      | .str "error" => .rejected (errorOf msg "Request failed")
      | _ => .resolved msg)
  | none =>
    match field msg "type" with
    | .str type => c.dispatchTo type msg
    | _ => c

/-- mirrors packages/mailbox/src/index.js:363-366 (`request`) -/
def Client.timeout (c : Client) (id : String) : Option Client :=
  if id ∈ c.pendingRequests then some (c.settle id .timedOut) else none

/-! ## What a message can do -/

section
variable {c : Client} {id id' : String} {call : Call} {msg : Json}

@[simp] theorem find_setCall (c : Client) (id id' : String) {f : Call → Call}
    (hf : ∀ call, (f call).id = call.id) :
    (c.setCall id f).find id' =
      (c.find id').map fun call => if call.id = id then f call else call := by
  unfold Client.setCall Client.find
  rw [List.find?_map]
  congr 2
  funext call
  rw [Function.comp_apply]
  split
  · rw [hf]
  · rfl

@[simp] theorem resume_find (c : Client) (api : Api) (msg : Json) (id : String) :
    (c.resume api msg).find id = c.find id := by
  cases api <;> rfl
@[simp] theorem resume_pendingRequests (c : Client) (api : Api) (msg : Json) :
    (c.resume api msg).pendingRequests = c.pendingRequests := by
  cases api <;> rfl
@[simp] theorem resume_messageId (c : Client) (api : Api) (msg : Json) :
    (c.resume api msg).messageId = c.messageId := by
  cases api <;> rfl
@[simp] theorem resume_messageHandlers (c : Client) (api : Api) (msg : Json) :
    (c.resume api msg).messageHandlers = c.messageHandlers := by
  cases api <;> rfl

/-- The client while the promise of request `id` settles, before the call goes on. -/
def Client.settled (c : Client) (id : String) (promise : Promise) : Client :=
  { c with pendingRequests := c.pendingRequests.erase id }.setCall id
    fun call => { call with promise := promise }

theorem find_settled (c : Client) (id id' : String) (promise : Promise) :
    (c.settled id promise).find id' =
      (c.find id').map fun call => if call.id = id then { call with promise := promise } else call :=
  find_setCall _ id id' fun _ => rfl

theorem settle_resolved (h : c.find id = some call) (msg : Json) :
    c.settle id (.resolved msg) = (c.settled id (.resolved msg)).resume call.api msg := by
  unfold Client.settle Client.settled
  rw [h]

theorem settle_failed {promise : Promise} (h : ∀ msg, promise ≠ .resolved msg) :
    c.settle id promise = c.settled id promise := by
  unfold Client.settle Client.settled
  split
  · exact absurd rfl (h _)
  · rfl

theorem replyTo_mem (h : c.replyTo msg = some id) : id ∈ c.pendingRequests := by
  unfold Client.replyTo at h
  split at h
  · split at h
    · rename_i hid
      cases h
      exact hid.2
    · cases h
  · cases h

theorem handleMessage_reply (h : c.replyTo msg = some id) :
    c.handleMessage msg = c.settle id (.resolved msg) ∨
      ∃ error, c.handleMessage msg = c.settle id (.rejected error) := by
  unfold Client.handleMessage
  rw [h]
  dsimp only
  split
  · exact .inr ⟨_, rfl⟩
  · exact .inl rfl

/-- `call'` is `call`, except that it may have been given `msg` as `claimed`. -/
structure Heard (msg : Json) (call call' : Call) : Prop where
  id : call'.id = call.id
  api : call'.api = call.api
  promise : call'.promise = call.promise
  claimed : call'.claimed = call.claimed ∨
    call'.claimed = some msg ∧ field msg "type" = .str "claimed"

/-- What handlers of `msg` leave as it is. -/
structure Dispatched (msg : Json) (c c' : Client) : Prop where
  state : c'.state = c.state
  nameplate : c'.nameplate = c.nameplate
  mailbox : c'.mailbox = c.mailbox
  messageId : c'.messageId = c.messageId
  pendingRequests : c'.pendingRequests = c.pendingRequests
  none : ∀ id, c.find id = none → c'.find id = none
  some : ∀ id call, c.find id = some call → ∃ call', c'.find id = some call' ∧ Heard msg call call'

theorem Heard.refl (msg : Json) (call : Call) : Heard msg call call := ⟨rfl, rfl, rfl, .inl rfl⟩

theorem Heard.trans {call₁ call₂ call₃ : Call} (h : Heard msg call₁ call₂)
    (h' : Heard msg call₂ call₃) : Heard msg call₁ call₃ := by
  refine ⟨h'.id.trans h.id, h'.api.trans h.api, h'.promise.trans h.promise, ?_⟩
  rcases h'.claimed with h' | h'
  · rw [h']
    exact h.claimed
  · exact .inr h'

theorem Dispatched.of_calls {c' : Client} (h1 : c'.state = c.state)
    (h2 : c'.nameplate = c.nameplate) (h3 : c'.mailbox = c.mailbox)
    (h4 : c'.messageId = c.messageId) (h5 : c'.pendingRequests = c.pendingRequests)
    (h6 : c'.calls = c.calls) : Dispatched msg c c' := by
  have hfind : ∀ id, c'.find id = c.find id := by
    intro id
    unfold Client.find
    rw [h6]
  refine ⟨h1, h2, h3, h4, h5, ?_, ?_⟩
  · intro id h
    rw [hfind, h]
  · intro id call h
    exact ⟨call, by rw [hfind, h], .refl msg call⟩

theorem Dispatched.trans {c₁ c₂ c₃ : Client} (h : Dispatched msg c₁ c₂)
    (h' : Dispatched msg c₂ c₃) : Dispatched msg c₁ c₃ := by
  refine ⟨h'.state.trans h.state, h'.nameplate.trans h.nameplate, h'.mailbox.trans h.mailbox,
    h'.messageId.trans h.messageId, h'.pendingRequests.trans h.pendingRequests, ?_, ?_⟩
  · intro id hn
    exact h'.none id (h.none id hn)
  · intro id call hs
    obtain ⟨call₂, h2, hh2⟩ := h.some id call hs
    obtain ⟨call₃, h3, hh3⟩ := h'.some id call₂ h2
    exact ⟨call₃, h3, hh2.trans hh3⟩

theorem settleConnection_dispatched (c : Client) (promise : Promise) :
    Dispatched msg c (settleConnection promise c) := by
  unfold settleConnection
  split
  · exact .of_calls rfl rfl rfl rfl rfl rfl
  · exact .of_calls rfl rfl rfl rfl rfl rfl

theorem handle_dispatched (c : Client) {h : Handler}
    (hh : ∀ id, h = .claimed id → field msg "type" = .str "claimed") :
    Dispatched msg c (c.handle msg h) := by
  cases h with
  | welcome => exact settleConnection_dispatched c _
  | error => exact settleConnection_dispatched c _
  | claimed id =>
    have hfind := fun id' => find_setCall c id id' (f := fun call =>
      { call with claimed := some (call.claimed.getD msg) }) fun _ => rfl
    refine ⟨rfl, rfl, rfl, rfl, rfl, ?_, ?_⟩
    · intro id' hn
      exact (hfind id').trans (by rw [hn]; rfl)
    · intro id' call hs
      refine ⟨_, (hfind id').trans (by rw [hs]; rfl), ?_⟩
      dsimp only
      split
      · refine ⟨rfl, rfl, rfl, ?_⟩
        cases hc : call.claimed with
        | none => exact .inr ⟨rfl, hh id rfl⟩
        | some old => exact .inl rfl
      · exact .refl msg call

/-- The handlers of `claim` are registered for the type `claimed`. -/
def Tidy (c : Client) : Prop :=
  ∀ type id, Handler.claimed id ∈ c.messageHandlers type → type = "claimed"

theorem dispatchTo_dispatched (hc : Tidy c) {type : String} (ht : field msg "type" = .str type) :
    Dispatched msg c (c.dispatchTo type msg) := by
  have hfold : ∀ (hs : List Handler) (c : Client),
      (∀ h ∈ hs, ∀ id, h = Handler.claimed id → type = "claimed") →
        Dispatched msg c (hs.foldl (Client.handle msg) c) := by
    intro hs
    induction hs with
    | nil => exact fun c _ => .of_calls rfl rfl rfl rfl rfl rfl
    | cons h hs ih =>
      intro c hhs
      have h1 : Dispatched msg c (c.handle msg h) := handle_dispatched c fun id hid => by
        rw [ht, hhs h List.mem_cons_self id hid]
      exact h1.trans (ih _ fun h' hh' => hhs h' (List.mem_cons_of_mem h hh'))
  let walked := dispatch (fun _ => true) (c.messageHandlers type)
  have h1 : Dispatched msg c { c with messageHandlers := fun t =>
      if t = type then walked.1 else c.messageHandlers t } := .of_calls rfl rfl rfl rfl rfl rfl
  refine h1.trans (hfold walked.2 _ ?_)
  intro h hh id hid
  exact hc type id (hid ▸ mem_dispatch (.inr hh))

theorem handleMessage_other (hc : Tidy c) (h : c.replyTo msg = none) :
    Dispatched msg c (c.handleMessage msg) := by
  unfold Client.handleMessage
  rw [h]
  dsimp only
  split
  · rename_i type ht
    exact dispatchTo_dispatched hc ht
  · exact .of_calls rfl rfl rfl rfl rfl rfl

/-! ## Events -/

/-- What a message, or a timer, does to a client: it settles a pending request or
leaves the calls to themselves. -/
inductive Event (msg : Json) (c : Client) : Client → Prop
  | resolved (id : String) (h : id ∈ c.pendingRequests) : Event msg c (c.settle id (.resolved msg))
  | failed (id : String) (promise) (h : id ∈ c.pendingRequests)
      (hp : (∃ error, promise = .rejected error) ∨ promise = .timedOut) :
      Event msg c (c.settled id promise)
  | other (c') (h : Dispatched msg c c') : Event msg c c'

theorem event_handleMessage (hc : Tidy c) (msg : Json) : Event msg c (c.handleMessage msg) := by
  cases hr : c.replyTo msg with
  | some id =>
    rcases handleMessage_reply hr with he | ⟨error, he⟩
    · rw [he]
      exact .resolved id (replyTo_mem hr)
    · rw [he, settle_failed fun _ h => by cases h]
      exact .failed id _ (replyTo_mem hr) (.inl ⟨error, rfl⟩)
  | none => exact .other _ (handleMessage_other hc hr)

theorem event_timeout {c' : Client} (msg : Json) (h : c.timeout id = some c') : Event msg c c' := by
  unfold Client.timeout at h
  split at h
  · rename_i hid
    cases h
    rw [settle_failed fun _ h => by cases h]
    exact .failed id _ hid (.inr rfl)
  · cases h

/-- Request `id` is the only one under way. -/
structure Awaits (c : Client) (id : String) (api : Api) : Prop where
  pending : c.pendingRequests = [id]
  call : ∃ claimed, c.find id = some ⟨id, api, .pending, claimed⟩

/-- What becomes of the one request under way. -/
inductive Outcome (msg : Json) (c : Client) (id : String) (api : Api) : Client → Prop
  | resolved (claimed) (c') (hp : c'.pendingRequests = [])
      (hc : c.find id = some ⟨id, api, .pending, claimed⟩)
      (hf : c'.find id = some ⟨id, api, .resolved msg, claimed⟩)
      (he : c' = (c.settled id (.resolved msg)).resume api msg) : Outcome msg c id api c'
  | failed (error) (c') (hp : c'.pendingRequests = [])
      (hf : (c'.find id).bind Call.result = some (.error error))
      (he : ∃ promise, c' = c.settled id promise) : Outcome msg c id api c'
  | other (c') (ha : Awaits c' id api) (h : Dispatched msg c c') : Outcome msg c id api c'

theorem Awaits.outcome {api : Api} {c' : Client} (h : Awaits c id api) (he : Event msg c c') :
    Outcome msg c id api c' := by
  obtain ⟨claimed, hcall⟩ := h.call
  have hsettled : ∀ promise, (c.settled id promise).pendingRequests = [] ∧
      (c.settled id promise).find id = some ⟨id, api, promise, claimed⟩ := by
    intro promise
    constructor
    · show c.pendingRequests.erase id = []
      rw [h.pending]
      exact List.erase_cons_head id []
    · rw [find_settled, hcall]
      show some (if id = id then _ else _) = _
      rw [if_pos rfl]
  cases he with
  | resolved id' hid =>
    rw [h.pending, List.mem_singleton] at hid
    subst hid
    refine .resolved claimed _ ?_ hcall ?_ (settle_resolved hcall msg)
    · rw [settle_resolved hcall, resume_pendingRequests]
      exact (hsettled _).1
    · rw [settle_resolved hcall, resume_find]
      exact (hsettled _).2
  | failed id' promise hid hp =>
    rw [h.pending, List.mem_singleton] at hid
    subst hid
    rcases hp with ⟨error, rfl⟩ | rfl
    · exact .failed error _ (hsettled _).1 (by rw [(hsettled _).2]; rfl) ⟨_, rfl⟩
    · exact .failed (.str "Request timeout") _ (hsettled _).1 (by rw [(hsettled _).2]; rfl) ⟨_, rfl⟩
  | other c' hd =>
    obtain ⟨call', hf, hh⟩ := hd.some id _ hcall
    refine .other c' ⟨hd.pendingRequests.trans h.pending, call'.claimed, ?_⟩ hd
    rw [hf]
    cases call'
    cases hh.id
    cases hh.api
    cases hh.promise
    rfl

/-! ## Well-formed clients -/

/-- No call has an id that `request` has yet to give. -/
structure Client.Wf (c : Client) : Prop where
  tidy : Tidy c
  fresh : ∀ k, c.messageId < k → c.find (toString k) = none

theorem Client.Wf.nextId (h : c.Wf) : c.find c.nextId = none :=
  h.fresh _ (Nat.lt_succ_self _)

theorem Client.Wf.of_eq {c' : Client} (h : c.Wf) (h1 : c'.messageHandlers = c.messageHandlers)
    (h2 : c'.messageId = c.messageId) (h3 : ∀ id, c.find id = none → c'.find id = none) :
    c'.Wf := by
  refine ⟨?_, ?_⟩
  · intro type id hid
    rw [h1] at hid
    exact h.tidy type id hid
  · intro k hk
    rw [h2] at hk
    exact h3 _ (h.fresh k hk)

theorem wf_new (appId side : String) : (Client.new appId side).Wf :=
  ⟨fun _ _ h => (nomatch h), fun _ _ => rfl⟩

theorem tidy_on (h : Tidy c) (type : String) {handler : Handler}
    (hh : ∀ id, handler = .claimed id → type = "claimed") : Tidy (c.on type handler) := by
  intro t id hid
  unfold Client.on at hid
  dsimp only at hid
  split at hid
  · rename_i ht
    rcases List.mem_append.mp hid with hid | hid
    · exact h t id hid
    · rw [ht]
      exact hh id (List.mem_singleton.mp hid).symm
  · exact h t id hid

theorem wf_connect (h : c.Wf) : c.connect.Wf := by
  refine ⟨tidy_on (tidy_on h.tidy "welcome" ?_) "error" ?_, h.fresh⟩
  · intro id hid
    cases hid
  · intro id hid
    cases hid

theorem find_request (c : Client) (api : Api) (msg : Fields) (id : String) :
    (c.request api msg).1.find id =
      (c.find id).or (if c.nextId = id then some ⟨c.nextId, api, .pending, none⟩ else none) := by
  unfold Client.request Client.find
  dsimp only
  rw [List.find?_append, List.find?_singleton]
  simp only [decide_eq_true_eq]

theorem wf_request (h : c.Wf) (api : Api) (msg : Fields) : (c.request api msg).1.Wf := by
  refine ⟨h.tidy, ?_⟩
  intro k hk
  have hk : c.messageId + 1 < k := hk
  rw [find_request, h.fresh k (by omega), if_neg]
  · rfl
  · intro heq
    have := toString_inj heq
    omega

theorem wf_settled (h : c.Wf) (id : String) (promise : Promise) : (c.settled id promise).Wf := by
  refine h.of_eq rfl rfl fun id' hn => ?_
  rw [find_settled, hn]
  rfl

theorem wf_settle (h : c.Wf) (id : String) (promise : Promise) : (c.settle id promise).Wf := by
  have hs := wf_settled h id promise
  unfold Client.settle
  dsimp only
  split
  · exact hs.of_eq (resume_messageHandlers _ _ _) (resume_messageId _ _ _) fun id' hn => by
      rw [resume_find]
      exact hn
  · exact hs

@[simp] theorem handle_messageHandlers (msg : Json) (c : Client) (h : Handler) :
    (c.handle msg h).messageHandlers = c.messageHandlers := by
  have hs : ∀ promise, (settleConnection promise c).messageHandlers = c.messageHandlers := by
    intro promise
    unfold settleConnection
    split
    · rfl
    · rfl
  cases h with
  | welcome => exact hs _
  | error => exact hs _
  | claimed id => rfl

theorem tidy_dispatchTo (h : Tidy c) (type : String) (msg : Json) :
    Tidy (c.dispatchTo type msg) := by
  have hfold : ∀ (hs : List Handler) (c : Client),
      (hs.foldl (Client.handle msg) c).messageHandlers = c.messageHandlers := by
    intro hs
    induction hs with
    | nil => exact fun _ => rfl
    | cons h hs ih => exact fun c => (ih _).trans (handle_messageHandlers msg c h)
  intro t id hid
  unfold Client.dispatchTo at hid
  rw [hfold] at hid
  dsimp only at hid
  split at hid
  · rename_i ht
    rw [ht]
    exact h type id (mem_dispatch (.inl hid))
  · exact h t id hid

theorem wf_timeout {c' : Client} (h : c.Wf) (ht : c.timeout id = some c') : c'.Wf := by
  unfold Client.timeout at ht
  split at ht
  · cases ht
    exact wf_settle h id _
  · cases ht

theorem wf_handleMessage (h : c.Wf) (msg : Json) : (c.handleMessage msg).Wf := by
  cases hr : c.replyTo msg with
  | some id =>
    rcases handleMessage_reply hr with he | ⟨error, he⟩
    · rw [he]
      exact wf_settle h id _
    · rw [he]
      exact wf_settle h id _
  | none =>
    have hd := handleMessage_other h.tidy hr
    refine ⟨?_, ?_⟩
    · unfold Client.handleMessage
      rw [hr]
      dsimp only
      split
      · exact tidy_dispatchTo h.tidy _ msg
      · exact h.tidy
    · intro k hk
      rw [hd.messageId] at hk
      exact hd.none _ (h.fresh k hk)

/-! ## Calls -/

/-- What a call does before its `request`, and what it requests. -/
inductive Prepared (c : Client) : Api → Client → Fields → Prop
  | allocate (hs : c.state = .connected) :
      Prepared c .allocate c [("type", .str "allocate")]
  | claim (nameplate) (hs : c.state = .connected) :
      Prepared c (.claim nameplate)
        ({ c with nameplate := .str nameplate }.on "claimed" (.claimed c.nextId))
        [("type", .str "claim"), ("nameplate", .str nameplate)]
  | openMailbox (mailbox) (hn : jsTruthy c.nameplate = true) :
      Prepared c (.openMailbox mailbox) { c with mailbox := orElse mailbox c.nameplate }
        [("type", .str "open"), ("mailbox", orElse mailbox c.nameplate)]
  | addMessage (phase body) (hs : c.state = .opened) :
      Prepared c (.addMessage phase body) c
        [("type", .str "add"), ("phase", .str phase), ("body", .str (addBody body))]
  | release (hn : jsTruthy c.nameplate = true) :
      Prepared c .release c [("type", .str "release"), ("nameplate", c.nameplate)]

theorem call_prepared {api : Api} {c' : Client} {sent : Option Json}
    (h : c.call api = .ok (c', sent)) :
    (api = .release ∧ c' = c ∧ sent = none) ∨
      ∃ c₁ fields, Prepared c api c₁ fields ∧ c' = (c₁.request api fields).1 ∧
        sent = some (c₁.request api fields).2 := by
  cases api with
  | allocate =>
    unfold Client.call at h
    dsimp only at h
    split at h
    · rename_i hs
      cases h
      exact .inr ⟨_, _, .allocate hs, rfl, rfl⟩
    · cases h
  | claim nameplate =>
    unfold Client.call at h
    dsimp only at h
    split at h
    · rename_i hs
      cases h
      exact .inr ⟨_, _, .claim nameplate hs, rfl, rfl⟩
    · cases h
  | openMailbox mailbox =>
    unfold Client.call at h
    dsimp only at h
    split at h
    · rename_i hn
      cases h
      exact .inr ⟨_, _, .openMailbox mailbox hn, rfl, rfl⟩
    · cases h
  | addMessage phase body =>
    unfold Client.call at h
    dsimp only at h
    split at h
    · rename_i hs
      cases h
      exact .inr ⟨_, _, .addMessage phase body hs, rfl, rfl⟩
    · cases h
  | release =>
    unfold Client.call at h
    dsimp only at h
    split at h
    · rename_i hn
      cases h
      exact .inr ⟨_, _, .release hn, rfl, rfl⟩
    · cases h
      exact .inl ⟨rfl, rfl, rfl⟩

/-- What a call has left as it was when it comes to its `request`. -/
theorem Prepared.frame {api : Api} {c₁ : Client} {fields : Fields}
    (h : Prepared c api c₁ fields) (hc : c.Wf) :
    c₁.Wf ∧ c₁.state = c.state ∧ c₁.pendingRequests = c.pendingRequests ∧
      c₁.nextId = c.nextId ∧ ∀ id, c₁.find id = c.find id := by
  cases h with
  | claim nameplate hs =>
    refine ⟨⟨tidy_on (c := { c with nameplate := .str nameplate }) hc.tidy _ ?_, hc.fresh⟩,
      rfl, rfl, rfl, fun _ => rfl⟩
    intro id hid
    rfl
  | openMailbox mailbox hn => exact ⟨⟨hc.tidy, hc.fresh⟩, rfl, rfl, rfl, fun _ => rfl⟩
  | _ => exact ⟨hc, rfl, rfl, rfl, fun _ => rfl⟩

theorem find_new (hc : c.Wf) (api : Api) (fields : Fields) :
    (c.request api fields).1.find c.nextId = some ⟨c.nextId, api, .pending, none⟩ := by
  rw [find_request, hc.nextId, if_pos rfl]
  rfl

/-- A call that is made while no other waits for the relay is the one that does. -/
theorem awaits_request (hc : c.Wf) (hp : c.pendingRequests = []) (api : Api) (fields : Fields) :
    Awaits (c.request api fields).1 c.nextId api := by
  refine ⟨?_, none, find_new hc api fields⟩
  show c.pendingRequests ++ [c.nextId] = [c.nextId]
  rw [hp]
  rfl

end

end Wormhole.L4.MailboxRequests
