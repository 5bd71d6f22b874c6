import Mathlib.Data.Finset.Card
import Wormhole.Core.Dict
import Wormhole.L1Encoding.Json

/-!
# The handlers of the mailbox server

`src/wh/relay/mailbox.py`. The server keeps three dicts, `nameplates`,
`mailboxes` and `client_subscriptions`; a client's messages are handled one
after the other on its own `client_state`.

A handler runs from the message to its first `await` without interruption.
`Out` is what it has made of the shared dicts and of the client's state by
then, and what it does from there on (`Next`): send one frame, replay a
mailbox, notify the subscribers, or raise. The sends themselves are steps of
the system (`Wormhole.L5.MailboxSystem`).

Values of the wrong JSON type reach the dicts and sets as they are. A list or
an object as a key raises `TypeError` at the point of use, possibly after
other dicts have changed; `raise` therefore carries the state as it is then.

The results of `secrets.token_hex` are a parameter of the handlers. Fields
that nothing reads are left out (`created`, `timestamp`, `Mailbox.id`), as are
log lines. Nameplates are allocated under an `asyncio.Lock` that is never held
over an `await`, so it never blocks.

`handled` is the inversion of `handleMessage`: everything a message can do.
-/
namespace Wormhole.L4.MailboxServer
open Wormhole.L1

abbrev ConnId := Nat

/-! ## State -/

/-- mirrors src/wh/relay/mailbox.py:26-33 -/
structure Message where
  id : String
  side : Json
  phase : Json
  body : Json

/-- mirrors src/wh/relay/mailbox.py:36-59; `get_messages()` without a side to
exclude is `messages`. -/
structure Mailbox where
  sides : Finset Key
  messages : List Message

/-- mirrors src/wh/relay/mailbox.py:62-68 -/
structure Nameplate where
  id : Json
  mailboxId : String
  sides : Finset Key

/-- mirrors src/wh/relay/mailbox.py:81-103 -/
structure Server where
  appId : String
  nameplates : Dict Key Nameplate
  mailboxes : Dict Key Mailbox
  clientSubscriptions : Dict Key (Finset ConnId)
  nextNameplate : Nat

/-- `client_state`; nameplate and mailbox are `None` or the key of a true value.
mirrors src/wh/relay/mailbox.py:141-146 -/
structure ClientState where
  side : Json
  appId : Json
  nameplate : Option Key
  mailbox : Option Key

def Server.init (appId : String) : Server := ⟨appId, .empty, .empty, .empty, 1⟩

def ClientState.init : ClientState := ⟨.null, .null, none, none⟩

/-! ## Frames -/

/-- What a handler can raise. -/
inductive PyExc
  | unhashable (value : Json)      -- `TypeError`
  | noGet (data : Json)            -- `AttributeError`: `data` has no `get`
  | loads (text : String)          -- from `json.loads`, not a `JSONDecodeError`
  | connectionClosed               -- from `websocket.send`

inductive ErrorText
  | missingNameplate
  | missingMailbox
  | noMailboxOpen
  | mailboxNotFound
  | unknownType (type : Json)
  | invalidJson
  | exc (e : PyExc)

/-- `str` on JSON values and on exceptions. -/
structure PyStr where
  json : Json → String
  exc : PyExc → String

def ErrorText.text (P : PyStr) : ErrorText → String
  | .missingNameplate => "Missing nameplate"
  | .missingMailbox => "Missing mailbox"
  | .noMailboxOpen => "No mailbox open"
  | .mailboxNotFound => "Mailbox not found"
  | .unknownType t => "Unknown message type: " ++ P.json t
  | .invalidJson => "Invalid JSON"
  | .exc e => P.exc e

/-- What the server sends. -/
inductive Frame
  | welcome
  | ack
  | allocated (nameplate : String)
  | claimed (mailbox : String)
  | released
  | message (msg : Message)
  | closed
  | nameplates (ids : List Json)
  | pong (value : Json)
  | error (e : ErrorText)

def Frame.toJson (P : PyStr) : Frame → Json
  | .welcome => .obj [("type", .str "welcome"), ("welcome", .obj
      [("current_cli_version", .str "0.14.0"), ("motd", .str "Welcome to wh relay server")])]
  | .ack => .obj [("type", .str "ack")]
  | .allocated n => .obj [("type", .str "allocated"), ("nameplate", .str n)]
  | .claimed m => .obj [("type", .str "claimed"), ("mailbox", .str m)]
  | .released => .obj [("type", .str "released")]
  | .message msg => .obj [("type", .str "message"), ("side", msg.side), ("phase", msg.phase),
      ("body", msg.body), ("id", .str msg.id)]
  | .closed => .obj [("type", .str "closed")]
  | .nameplates ids => .obj [("type", .str "nameplates"),
      ("nameplates", .arr (ids.map fun id => .obj [("id", id)]))]
  | .pong v => .obj [("type", .str "pong"), ("pong", v)]
  | .error e => .obj [("type", .str "error"), ("error", .str (e.text P))]

def Frame.isError : Frame → Bool
  | .error _ => true
  | _ => false

/-- The `error` frames are those of type `error` on the wire. -/
theorem isError_iff (P : PyStr) (f : Frame) :
    f.isError = true ↔
      ∃ fields, f.toJson P = .obj fields ∧ Fields.get fields "type" = .str "error" := by
  cases f <;> simp [Frame.isError, Frame.toJson, Fields.get]

/-! ## Handlers -/

/-- What follows the first segment of a handler. -/
inductive Next
  | reply (f : Frame)
  | replay (m : Key) (msgs : List Message)
  | notify (m : Key) (msg : Message) (subscribers : Finset ConnId)
  | raise (e : PyExc)

structure Out where
  server : Server
  state : ClientState
  next : Next

/-- `client_subscriptions.get(mailbox_id, set())`. -/
def Server.subscribers (srv : Server) (m : Key) : Finset ConnId :=
  (srv.clientSubscriptions.get? m).getD ∅

/-- mirrors src/wh/relay/mailbox.py:290-292 -/
def Server.subscribe (srv : Server) (m : Key) (i : ConnId) : Server :=
  { srv with clientSubscriptions := srv.clientSubscriptions.set m (insert i (srv.subscribers m)) }

/-- `client_subscriptions[mailbox_id].discard(websocket)` when there is a set.
mirrors src/wh/relay/mailbox.py:346-347 -/
def Server.unsubscribe (srv : Server) (m : Key) (i : ConnId) : Server :=
  match srv.clientSubscriptions.get? m with
  | some subs => { srv with clientSubscriptions := srv.clientSubscriptions.set m (subs.erase i) }
  | none => srv

/-- `if side: sides.discard(side)`; `none` is the `TypeError` of an unhashable
side. -/
def dropSide (side : Json) (sides : Finset Key) : Option (Finset Key) :=
  if side.truthy then side.key.map sides.erase else some sides

/-- mirrors src/wh/relay/mailbox.py:205-210 -/
def handleBind (srv : Server) (st : ClientState) (data : Fields) (token : String) : Out :=
  ⟨srv, { st with appId := Fields.get data "appid" (.str srv.appId)
                  side := Fields.get data "side" (.str token) }, .reply .ack⟩

/-- mirrors src/wh/relay/mailbox.py:212-229 -/
def handleAllocate (srv : Server) (st : ClientState) (token : String) : Out :=
  let nameplateId := toString srv.nextNameplate
  ⟨{ srv with
      nextNameplate := srv.nextNameplate + 1
      nameplates := srv.nameplates.set (.str nameplateId) ⟨.str nameplateId, token, ∅⟩
      mailboxes := srv.mailboxes.set (.str token) ⟨∅, []⟩ },
    st, .reply (.allocated nameplateId)⟩

/-- mirrors src/wh/relay/mailbox.py:231-256 -/
def handleClaim (srv : Server) (st : ClientState) (data : Fields) (token : String) : Out :=
  let nameplateId := Fields.get data "nameplate"
  if !nameplateId.truthy then ⟨srv, st, .reply (.error .missingNameplate)⟩
  else match nameplateId.key with
    | none => ⟨srv, st, .raise (.unhashable nameplateId)⟩
    | some k =>
      let (srv, nameplate) := match srv.nameplates.get? k with
        | some nameplate => (srv, nameplate)
        | none =>
          let nameplate : Nameplate := ⟨nameplateId, token, ∅⟩
          ({ srv with
              nameplates := srv.nameplates.set k nameplate
              mailboxes := srv.mailboxes.set (.str token) ⟨∅, []⟩ }, nameplate)
      match st.side.key with
      | none => ⟨srv, st, .raise (.unhashable st.side)⟩
      | some side =>
        ⟨{ srv with nameplates :=
            srv.nameplates.set k { nameplate with sides := insert side nameplate.sides } },
          { st with nameplate := some k }, .reply (.claimed nameplate.mailboxId)⟩

/-- `data.get("nameplate") or state.get("nameplate")`, looked up as a key;
`none` is the `TypeError`. -/
def releaseKey (st : ClientState) (data : Fields) : Option (Option Key) :=
  let nameplateId := Fields.get data "nameplate"
  if nameplateId.truthy then nameplateId.key.map some else some st.nameplate

/-- mirrors src/wh/relay/mailbox.py:258-273 -/
def handleRelease (srv : Server) (st : ClientState) (data : Fields) : Out :=
  let done : Server → Out := fun srv => ⟨srv, { st with nameplate := none }, .reply .released⟩
  match releaseKey st data with
  | none => ⟨srv, st, .raise (.unhashable (Fields.get data "nameplate"))⟩
  | some none => done srv
  | some (some k) =>
    match srv.nameplates.get? k with
    | none => done srv
    | some nameplate =>
      match dropSide st.side nameplate.sides with
      | none => ⟨srv, st, .raise (.unhashable st.side)⟩
      | some sides =>
        done { srv with nameplates :=
          if sides = ∅ then srv.nameplates.del k
          else srv.nameplates.set k { nameplate with sides := sides } }

/-- mirrors src/wh/relay/mailbox.py:275-304 -/
def handleOpen (srv : Server) (st : ClientState) (i : ConnId) (data : Fields) : Out :=
  let mailboxId := Fields.get data "mailbox"
  if !mailboxId.truthy then ⟨srv, st, .reply (.error .missingMailbox)⟩
  else match mailboxId.key with
    | none => ⟨srv, st, .raise (.unhashable mailboxId)⟩
    | some m =>
      let (srv, mailbox) := match srv.mailboxes.get? m with
        | some mailbox => (srv, mailbox)
        | none => ({ srv with mailboxes := srv.mailboxes.set m ⟨∅, []⟩ }, ⟨∅, []⟩)
      match st.side.key with
      | none => ⟨srv, st, .raise (.unhashable st.side)⟩
      | some side =>
        let srv : Server :=
          { srv with mailboxes :=
              srv.mailboxes.set m { mailbox with sides := insert side mailbox.sides } }
        ⟨srv.subscribe m i, { st with mailbox := some m }, .replay m mailbox.messages⟩

/-- mirrors src/wh/relay/mailbox.py:306-338 -/
def handleAdd (srv : Server) (st : ClientState) (data : Fields) (token : String) : Out :=
  match st.mailbox with
  | none => ⟨srv, st, .reply (.error .noMailboxOpen)⟩
  | some m =>
    match srv.mailboxes.get? m with
    | none => ⟨srv, st, .reply (.error .mailboxNotFound)⟩
    | some mailbox =>
      let msg : Message := ⟨token, st.side, Fields.get data "phase", Fields.get data "body"⟩
      ⟨{ srv with mailboxes :=
          srv.mailboxes.set m { mailbox with messages := mailbox.messages ++ [msg] } },
        st, .notify m msg (srv.subscribers m)⟩

/-- mirrors src/wh/relay/mailbox.py:340-362 -/
def handleClose (srv : Server) (st : ClientState) (i : ConnId) : Out :=
  let done : Server → Out := fun srv => ⟨srv, { st with mailbox := none }, .reply .closed⟩
  match st.mailbox with
  | none => done srv
  | some m =>
    let srv := srv.unsubscribe m i
    match srv.mailboxes.get? m with
    | none => done srv
    | some mailbox =>
      match dropSide st.side mailbox.sides with
      | none => ⟨srv, st, .raise (.unhashable st.side)⟩
      | some sides =>
        done { srv with mailboxes :=
          if sides = ∅ then srv.mailboxes.del m
          else srv.mailboxes.set m { mailbox with sides := sides } }

/-- mirrors src/wh/relay/mailbox.py:364-375 -/
def handleList (srv : Server) (st : ClientState) : Out :=
  ⟨srv, st, .reply (.nameplates
    ((srv.nameplates.values.filter fun np => np.sides.card < 2).map Nameplate.id))⟩

/-- mirrors src/wh/relay/mailbox.py:180-203 -/
def handleMessage (srv : Server) (st : ClientState) (i : ConnId) (data : Json) (token : String) :
    Out :=
  match data with
  | .obj data =>
    match Fields.get data "type" with
    | .str "bind" => handleBind srv st data token
    | .str "allocate" => handleAllocate srv st token
    | .str "claim" => handleClaim srv st data token
    | .str "release" => handleRelease srv st data
    | .str "open" => handleOpen srv st i data
    | .str "add" => handleAdd srv st data token
    | .str "close" => handleClose srv st i
    | .str "list" => handleList srv st
    | .str "ping" => ⟨srv, st, .reply (.pong (Fields.get data "ping" (.int 0)))⟩
    | type => ⟨srv, st, .reply (.error (.unknownType type))⟩
  | data => ⟨srv, st, .raise (.noGet data)⟩

/-! ## Subscriptions -/

@[simp] theorem subscribe_mailboxes (srv : Server) (m : Key) (i : ConnId) :
    (srv.subscribe m i).mailboxes = srv.mailboxes := rfl
@[simp] theorem subscribe_nameplates (srv : Server) (m : Key) (i : ConnId) :
    (srv.subscribe m i).nameplates = srv.nameplates := rfl
@[simp] theorem subscribe_nextNameplate (srv : Server) (m : Key) (i : ConnId) :
    (srv.subscribe m i).nextNameplate = srv.nextNameplate := rfl

@[simp] theorem unsubscribe_mailboxes (srv : Server) (m : Key) (i : ConnId) :
    (srv.unsubscribe m i).mailboxes = srv.mailboxes := by unfold Server.unsubscribe; split <;> rfl
@[simp] theorem unsubscribe_nameplates (srv : Server) (m : Key) (i : ConnId) :
    (srv.unsubscribe m i).nameplates = srv.nameplates := by unfold Server.unsubscribe; split <;> rfl
@[simp] theorem unsubscribe_nextNameplate (srv : Server) (m : Key) (i : ConnId) :
    (srv.unsubscribe m i).nextNameplate = srv.nextNameplate := by
  unfold Server.unsubscribe; split <;> rfl

theorem subscribers_subscribe (srv : Server) (m m' : Key) (i : ConnId) :
    (srv.subscribe m i).subscribers m' =
      if m = m' then insert i (srv.subscribers m) else srv.subscribers m' := by
  simp only [Server.subscribe, Server.subscribers, Dict.get?_set]
  split <;> rfl

theorem subscribers_unsubscribe (srv : Server) (m m' : Key) (i : ConnId) :
    (srv.unsubscribe m i).subscribers m' =
      if m = m' then (srv.subscribers m).erase i else srv.subscribers m' := by
  unfold Server.unsubscribe Server.subscribers
  split
  · rename_i subs hs
    simp only [Dict.get?_set, hs]
    split <;> rfl
  · rename_i hs
    split
    · rename_i hm; subst hm; simp [hs]
    · rfl

theorem mem_unsubscribe {srv : Server} {m m' : Key} {i j : ConnId} :
    j ∈ (srv.unsubscribe m i).subscribers m' ↔ j ∈ srv.subscribers m' ∧ ¬ (m = m' ∧ j = i) := by
  rw [subscribers_unsubscribe]
  split
  · rename_i h; subst h; simp [and_comm]
  · rename_i h; simp [h]

/-! ## What a message can do -/

/-- An answer of a message that changes nothing. -/
def Next.quiet : Next → Bool
  | .reply (.nameplates _) => true
  | .reply (.pong _) => true
  | .reply (.error _) => true
  | .raise _ => true
  | _ => false

/-- The message draws the id of a new mailbox. -/
def drawsMailbox (srv : Server) : Json → Bool
  | .obj d =>
    match Fields.get d "type" with
    | .str "allocate" => true
    | .str "claim" =>
      (Fields.get d "nameplate").truthy && (match (Fields.get d "nameplate").key with
        | some k => !srv.nameplates.contains k
        | none => false)
    | _ => false
  | _ => false

/-- Everything a message can do. -/
inductive Handled (srv : Server) (st : ClientState) (i : ConnId) (token : String) :
    Json → Out → Prop
  | quiet (data next) (h : next.quiet = true) (hd : drawsMailbox srv data = false) :
      Handled srv st i token data ⟨srv, st, next⟩
  | bind (d a sd) (ht : Fields.get d "type" = .str "bind") :
      Handled srv st i token (.obj d) ⟨srv, { st with appId := a, side := sd }, .reply .ack⟩
  | allocate (d) (ht : Fields.get d "type" = .str "allocate") :
      Handled srv st i token (.obj d) (handleAllocate srv st token)
  | claimNew (d k side) (ht : Fields.get d "type" = .str "claim")
      (htr : (Fields.get d "nameplate").truthy = true) (hk : (Fields.get d "nameplate").key = some k)
      (hn : srv.nameplates.get? k = none) (hs : st.side.key = some side) :
      Handled srv st i token (.obj d)
        ⟨{ srv with
            nameplates := srv.nameplates.set k ⟨Fields.get d "nameplate", token, {side}⟩
            mailboxes := srv.mailboxes.set (.str token) ⟨∅, []⟩ },
          { st with nameplate := some k }, .reply (.claimed token)⟩
  | claimNewRaise (d k) (ht : Fields.get d "type" = .str "claim")
      (htr : (Fields.get d "nameplate").truthy = true) (hk : (Fields.get d "nameplate").key = some k)
      (hn : srv.nameplates.get? k = none) (hs : st.side.key = none) :
      Handled srv st i token (.obj d)
        ⟨{ srv with
            nameplates := srv.nameplates.set k ⟨Fields.get d "nameplate", token, ∅⟩
            mailboxes := srv.mailboxes.set (.str token) ⟨∅, []⟩ },
          st, .raise (.unhashable st.side)⟩
  | claimOld (d k np side) (ht : Fields.get d "type" = .str "claim")
      (htr : (Fields.get d "nameplate").truthy = true) (hk : (Fields.get d "nameplate").key = some k)
      (hn : srv.nameplates.get? k = some np) (hs : st.side.key = some side) :
      Handled srv st i token (.obj d)
        ⟨{ srv with nameplates := srv.nameplates.set k { np with sides := insert side np.sides } },
          { st with nameplate := some k }, .reply (.claimed np.mailboxId)⟩
  | releaseMiss (d) (ht : Fields.get d "type" = .str "release") (hk : releaseKey st d ≠ none)
      (hn : ∀ k, releaseKey st d = some (some k) → srv.nameplates.get? k = none) :
      Handled srv st i token (.obj d) ⟨srv, { st with nameplate := none }, .reply .released⟩
  | release (d k np sides) (ht : Fields.get d "type" = .str "release")
      (hk : releaseKey st d = some (some k)) (hn : srv.nameplates.get? k = some np)
      (hs : dropSide st.side np.sides = some sides) :
      Handled srv st i token (.obj d)
        ⟨{ srv with
            nameplates := if sides = ∅ then srv.nameplates.del k
              else srv.nameplates.set k { np with sides := sides } },
          { st with nameplate := none }, .reply .released⟩
  | openRaise (d m) (ht : Fields.get d "type" = .str "open")
      (htr : (Fields.get d "mailbox").truthy = true) (hm : (Fields.get d "mailbox").key = some m)
      (hn : srv.mailboxes.get? m = none) (hs : st.side.key = none) :
      Handled srv st i token (.obj d)
        ⟨{ srv with mailboxes := srv.mailboxes.set m ⟨∅, []⟩ }, st, .raise (.unhashable st.side)⟩
  | opened (d m side) (mb : Mailbox) (ht : Fields.get d "type" = .str "open")
      (htr : (Fields.get d "mailbox").truthy = true) (hm : (Fields.get d "mailbox").key = some m)
      (hmb : mb = (srv.mailboxes.get? m).getD ⟨∅, []⟩) (hs : st.side.key = some side) :
      Handled srv st i token (.obj d)
        ⟨Server.subscribe
            { srv with
              mailboxes := srv.mailboxes.set m { mb with sides := insert side mb.sides } } m i,
          { st with mailbox := some m }, .replay m mb.messages⟩
  | add (d m msg) (mb : Mailbox) (ht : Fields.get d "type" = .str "add") (hst : st.mailbox = some m)
      (hm : srv.mailboxes.get? m = some mb)
      (hmsg : msg = ⟨token, st.side, Fields.get d "phase", Fields.get d "body"⟩) :
      Handled srv st i token (.obj d)
        ⟨{ srv with mailboxes := srv.mailboxes.set m { mb with messages := mb.messages ++ [msg] } },
          st, .notify m msg (srv.subscribers m)⟩
  | closeNone (d) (ht : Fields.get d "type" = .str "close") (hst : st.mailbox = none) :
      Handled srv st i token (.obj d) ⟨srv, st, .reply .closed⟩
  | closeMiss (d m) (ht : Fields.get d "type" = .str "close") (hst : st.mailbox = some m)
      (hm : srv.mailboxes.get? m = none) :
      Handled srv st i token (.obj d)
        ⟨srv.unsubscribe m i, { st with mailbox := none }, .reply .closed⟩
  | close (d m sides) (mb : Mailbox) (ht : Fields.get d "type" = .str "close")
      (hst : st.mailbox = some m) (hm : srv.mailboxes.get? m = some mb)
      (hs : dropSide st.side mb.sides = some sides) :
      Handled srv st i token (.obj d)
        ⟨{ srv.unsubscribe m i with
            mailboxes := if sides = ∅ then srv.mailboxes.del m
              else srv.mailboxes.set m { mb with sides := sides } },
          { st with mailbox := none }, .reply .closed⟩
  | closeRaise (d m) (mb : Mailbox) (ht : Fields.get d "type" = .str "close")
      (hst : st.mailbox = some m) (hm : srv.mailboxes.get? m = some mb)
      (hs : dropSide st.side mb.sides = none) :
      Handled srv st i token (.obj d) ⟨srv.unsubscribe m i, st, .raise (.unhashable st.side)⟩

/-- The message is an `open` of `m` that succeeds. -/
def OpensMailbox (st : ClientState) (m : Key) (data : Json) : Prop :=
  ∃ d, data = .obj d ∧ Fields.get d "type" = .str "open" ∧
    (Fields.get d "mailbox").truthy = true ∧ (Fields.get d "mailbox").key = some m ∧
    st.side.key ≠ none

variable {srv : Server} {st : ClientState} {i : ConnId} {token : String} {d : Fields}

theorem draws_allocate (ht : Fields.get d "type" = .str "allocate") :
    drawsMailbox srv (.obj d) = true := by
  simp [drawsMailbox, ht]

theorem draws_claim {k : Key} (ht : Fields.get d "type" = .str "claim")
    (htr : (Fields.get d "nameplate").truthy = true) (hk : (Fields.get d "nameplate").key = some k)
    (hn : srv.nameplates.get? k = none) : drawsMailbox srv (.obj d) = true := by
  simp [drawsMailbox, ht, htr, hk, hn]

/-- Only `allocate` and `claim` draw a mailbox id. -/
theorem draws_other (h1 : Fields.get d "type" ≠ .str "allocate")
    (h2 : Fields.get d "type" ≠ .str "claim") : drawsMailbox srv (.obj d) = false := by
  simp only [drawsMailbox]

theorem handled_claim (ht : Fields.get d "type" = .str "claim") :
    Handled srv st i token (.obj d) (handleClaim srv st d token) := by
  simp only [handleClaim]
  split
  · rename_i htr
    exact .quiet _ _ rfl (by simp_all [drawsMailbox])
  · rename_i htr
    simp only [Bool.not_eq_true', Bool.not_eq_false] at htr
    split
    · rename_i hk
      exact .quiet _ _ rfl (by simp [drawsMailbox, ht, hk])
    · rename_i k hk
      cases hn : srv.nameplates.get? k with
      | none =>
        cases hs : st.side.key with
        | none => exact .claimNewRaise d k ht htr hk hn hs
        | some side =>
          simp only [Dict.set_set]
          exact .claimNew d k side ht htr hk hn hs
      | some np =>
        cases hs : st.side.key with
        | none => exact .quiet _ _ rfl (by simp [drawsMailbox, ht, hk, hn])
        | some side => exact .claimOld d k np side ht htr hk hn hs

theorem handled_release (ht : Fields.get d "type" = .str "release") :
    Handled srv st i token (.obj d) (handleRelease srv st d) := by
  have hd : drawsMailbox srv (.obj d) = false := draws_other (by simp [ht]) (by simp [ht])
  simp only [handleRelease]
  split
  · exact .quiet _ _ rfl hd
  · rename_i hk
    exact .releaseMiss d ht (by simp [hk]) (by simp [hk])
  · rename_i k hk
    split
    · rename_i hn
      exact .releaseMiss d ht (by simp [hk]) (by simp [hk, hn])
    · rename_i np hn
      split
      · exact .quiet _ _ rfl hd
      · rename_i sides hs
        exact .release d k np sides ht hk hn hs

theorem handled_open (ht : Fields.get d "type" = .str "open") :
    Handled srv st i token (.obj d) (handleOpen srv st i d) := by
  have hd : drawsMailbox srv (.obj d) = false := draws_other (by simp [ht]) (by simp [ht])
  simp only [handleOpen]
  split
  · exact .quiet _ _ rfl hd
  · rename_i htr
    simp only [Bool.not_eq_true', Bool.not_eq_false] at htr
    split
    · exact .quiet _ _ rfl hd
    · rename_i m hm
      cases hn : srv.mailboxes.get? m with
      | none =>
        cases hs : st.side.key with
        | none => exact .openRaise d m ht htr hm hn hs
        | some side =>
          simp only [Dict.set_set]
          exact .opened d m side ⟨∅, []⟩ ht htr hm (by rw [hn]; rfl) hs
      | some mb =>
        cases hs : st.side.key with
        | none => exact .quiet _ _ rfl hd
        | some side => exact .opened d m side mb ht htr hm (by rw [hn]; rfl) hs

theorem handled_add (ht : Fields.get d "type" = .str "add") :
    Handled srv st i token (.obj d) (handleAdd srv st d token) := by
  have hd : drawsMailbox srv (.obj d) = false := draws_other (by simp [ht]) (by simp [ht])
  simp only [handleAdd]
  split
  · exact .quiet _ _ rfl hd
  · rename_i m hst
    split
    · exact .quiet _ _ rfl hd
    · rename_i mb hm
      exact .add d m _ mb ht hst hm rfl

theorem handled_close (ht : Fields.get d "type" = .str "close") :
    Handled srv st i token (.obj d) (handleClose srv st i) := by
  simp only [handleClose]
  split
  · rename_i hst
    have hst' : { st with mailbox := none } = st := by cases st; cases hst; rfl
    rw [hst']
    exact .closeNone d ht hst
  · rename_i m hst
    simp only [unsubscribe_mailboxes]
    split
    · rename_i hm
      exact .closeMiss d m ht hst hm
    · rename_i mb hm
      split
      · rename_i hs; exact .closeRaise d m mb ht hst hm hs
      · rename_i sides hs; exact .close d m sides mb ht hst hm hs

theorem handled (srv : Server) (st : ClientState) (i : ConnId) (data : Json) (token : String) :
    Handled srv st i token data (handleMessage srv st i data token) := by
  unfold handleMessage
  split
  · rename_i d
    split
    · rename_i ht; exact .bind d _ _ ht
    · rename_i ht; exact .allocate d ht
    · rename_i ht; exact handled_claim ht
    · rename_i ht; exact handled_release ht
    · rename_i ht; exact handled_open ht
    · rename_i ht; exact handled_add ht
    · rename_i ht; exact handled_close ht
    · rename_i ht; exact .quiet _ _ rfl (draws_other (by simp [ht]) (by simp [ht]))
    · rename_i ht; exact .quiet _ _ rfl (draws_other (by simp [ht]) (by simp [ht]))
    · exact .quiet _ _ rfl (draws_other (by assumption) (by assumption))
  · exact .quiet _ _ rfl (by unfold drawsMailbox; split <;> simp_all)

theorem draws_type {t : String} (ht : Fields.get d "type" = .str t) (h1 : t ≠ "allocate")
    (h2 : t ≠ "claim") : drawsMailbox srv (.obj d) = false :=
  draws_other (by simpa [ht] using h1) (by simpa [ht] using h2)

/-- The mailbox that is drawn is new and empty. -/
theorem mailboxes_drawn {data : Json} {out : Out} (h : Handled srv st i token data out)
    (hdraw : drawsMailbox srv data = true) :
    out.server.mailboxes = srv.mailboxes.set (.str token) ⟨∅, []⟩ := by
  have hother : ∀ {d : Fields} {t : String}, Fields.get d "type" = .str t → t ≠ "allocate" →
      t ≠ "claim" → drawsMailbox srv (.obj d) ≠ true := by
    intro d t ht h1 h2
    rw [draws_type ht h1 h2]
    simp
  cases h with
  | quiet data next hq hdr => rw [hdraw] at hdr; cases hdr
  | allocate d ht => rfl
  | claimNew d k side ht htr hk hn hs => rfl
  | claimNewRaise d k ht htr hk hn hs => rfl
  | claimOld d k np side ht htr hk hn hs => simp [drawsMailbox, ht, hk, hn] at hdraw
  | bind d a sd ht => exact absurd hdraw (hother ht (by decide) (by decide))
  | releaseMiss d ht hk hn => exact absurd hdraw (hother ht (by decide) (by decide))
  | release d k np sides ht hk hn hs => exact absurd hdraw (hother ht (by decide) (by decide))
  | openRaise d m ht htr hk hn hs => exact absurd hdraw (hother ht (by decide) (by decide))
  | opened d m side mb ht htr hk hmb hs => exact absurd hdraw (hother ht (by decide) (by decide))
  | add d m msg mb ht hst hmb hmsg => exact absurd hdraw (hother ht (by decide) (by decide))
  | closeNone d ht hst => exact absurd hdraw (hother ht (by decide) (by decide))
  | closeMiss d m ht hst hn => exact absurd hdraw (hother ht (by decide) (by decide))
  | close d m sides mb ht hst hmb hs => exact absurd hdraw (hother ht (by decide) (by decide))
  | closeRaise d m mb ht hst hmb hs => exact absurd hdraw (hother ht (by decide) (by decide))

/-- Only an `open` subscribes, and it subscribes the client it is from. -/
theorem subscribers_handled {data : Json} {out : Out} {m : Key} {j : ConnId}
    (h : Handled srv st i token data out) (hj : j ∈ out.server.subscribers m) :
    j ∈ srv.subscribers m ∨ (j = i ∧ OpensMailbox st m data) := by
  cases h with
  | opened d m' side mb ht htr hm hmb hs =>
    rw [subscribers_subscribe] at hj
    split at hj
    · rename_i hm'
      subst hm'
      rcases Finset.mem_insert.mp hj with rfl | hj
      · exact .inr ⟨rfl, d, rfl, ht, htr, hm, by simp [hs]⟩
      · exact .inl hj
    · exact .inl hj
  | closeMiss d m' ht hst hm => exact .inl (mem_unsubscribe.mp hj).1
  | close d m' sides mb ht hst hm hs => exact .inl (mem_unsubscribe.mp hj).1
  | closeRaise d m' mb ht hst hm hs => exact .inl (mem_unsubscribe.mp hj).1
  | _ => exact .inl hj

theorem handleMessage_opens (srv : Server) (i : ConnId) (token : String) {st : ClientState}
    {m : Key} {data : Json} (h : OpensMailbox st m data) :
    ∃ side mb, mb = (srv.mailboxes.get? m).getD ⟨∅, []⟩ ∧
      handleMessage srv st i data token =
        ⟨Server.subscribe
            { srv with
              mailboxes := srv.mailboxes.set m { mb with sides := insert side mb.sides } } m i,
          { st with mailbox := some m }, .replay m mb.messages⟩ := by
  obtain ⟨d, rfl, ht, htr, hk, hs⟩ := h
  obtain ⟨side, hside⟩ := Option.ne_none_iff_exists'.mp hs
  refine ⟨side, _, rfl, ?_⟩
  simp only [handleMessage, ht, handleOpen, htr, hk, hside, Bool.not_true, Bool.false_eq_true,
    if_false]
  cases hn : srv.mailboxes.get? m with
  | none => simp only [Dict.set_set, Option.getD_none]
  | some mb => simp only [Option.getD_some]

end Wormhole.L4.MailboxServer
