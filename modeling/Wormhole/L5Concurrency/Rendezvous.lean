import Wormhole.Core.LTS
import Wormhole.L4App.MailboxServer
import Wormhole.L4App.WormholeOpening

/-!
# Two wormholes meet at a relay

An initiator and a receiver (`packages/protocol/src/index.js`) over a relay that
keeps the dicts of `src/wh/relay/mailbox.py` and answers every request: with
an `ack`, with the frames of the handler (`own`), or both, of which at least one
carries the id of the request. Which, and in what order, is the relay's choice
(`read`). It also forwards stored messages at any time, and it handles the
messages of other clients in between.

`found` lists the mailbox ids that the relay's `nameplates` held for the claims
of the receiver. No step looks at it.

* `same_mailbox_iff`: what each side has opened. The initiator opens its
  nameplate, the receiver the mailbox behind it.
-/
namespace Wormhole.L5.Rendezvous
open Wormhole.L1 Wormhole.L4.MailboxServer Wormhole.L4.MailboxClient Wormhole.L4.MailboxRequests
open Wormhole.L4.WormholeOpening

/-! ## State -/

inductive Role
  | initiator
  | receiver
  deriving DecidableEq

/-- The relay's connection of a wormhole; the others are of other clients. -/
def Role.conn : Role → ConnId
  | .initiator => 0
  | .receiver => 1

/-- A frame of the relay, and the request id that is put into it. -/
structure Reply where
  frame : Frame
  id : Option String

structure Peer where
  wormhole : Wormhole
  up : List Json
  down : List Reply

structure St where
  server : Server
  states : ConnId → ClientState
  peer : Role → Peer
  found : List String

/-- What a run does not change. -/
structure Site where
  P : PyStr
  str : Json → String
  serverApp : String
  appId : String
  side : Role → String

def init (L : Site) : St where
  server := .init L.serverApp
  states := fun _ => .init
  peer := fun r => ⟨.new L.appId (L.side r), [], []⟩
  found := []

def St.upd (s : St) (r : Role) (f : Peer → Peer) : St :=
  { s with peer := fun r' => if r' = r then f (s.peer r') else s.peer r' }

/-- A wormhole goes on, and what it sends. -/
def Peer.goes (p : Peer) (w : Wormhole × List Json) : Peer :=
  { p with wormhole := w.1, up := p.up ++ w.2 }

/-! ## The relay -/

def withId (msg : Json) (id : Option String) : Json :=
  match msg, id with
  | .obj fields, some id => .obj (fields ++ [("id", .str id)])
  | msg, _ => msg

def Reply.toJson (P : PyStr) (r : Reply) : Json := withId (r.frame.toJson P) r.id

/-- The frames that a handler sends to its own client in answer. -/
def ownFrames : Next → List Frame
  | .reply f => [f]
  | .replay _ msgs => msgs.map .message
  | .notify _ _ _ => []
  | .raise e => [.error (.exc e)]

inductive Answer
  | ack (withId : Bool)
  | own (withId : Bool)

/-- A stored message has an id already. -/
def tagged (f : Frame) (id : Option String) : Reply :=
  match f with
  | .message msg => ⟨.message msg, none⟩
  | f => ⟨f, id⟩

def replies (next : Next) (id : Option String) : Answer → List Reply
  | .ack b => [⟨.ack, if b then id else none⟩]
  | .own b => (ownFrames next).map fun f => tagged f (if b then id else none)

def isClaim (data : Json) : Bool :=
  match field data "type" with
  | .str type => type == "claim"
  | _ => false

/-- The mailbox id that `nameplates` has for a claim, or is about to have. -/
def mailboxIdOf (srv : Server) (data : Json) (token : String) : Option String :=
  (field data "nameplate").key.map fun k =>
    ((srv.nameplates.get? k).map Nameplate.mailboxId).getD token

/-! ## Steps -/

inductive Lbl
  | allocate (numWords : Nat)
  | connect
  | waitForPeer
  | opened (r : Role)
  | read (r : Role) (token : String) (answers : List Answer)
  | forward (r : Role) (msg : Message)
  | other (j : ConnId) (data : Json) (token : String)
  | receive (r : Role) (words : List String)
  | timeout (r : Role) (id : String)
  | addMessage (r : Role) (phase : String) (body : Body)

def handle (s : St) (j : ConnId) (out : Out) : St :=
  { s with server := out.server, states := fun k => if k = j then out.state else s.states k }

def step (L : Site) (s : St) : Lbl → Option St
  | .allocate numWords =>
    match (s.peer .initiator).wormhole.stage with
    | .created => some (s.upd .initiator fun p =>
        { p with wormhole := p.wormhole.allocate numWords })
    | _ => none
  | .connect =>
    match (s.peer .receiver).wormhole.stage, (s.peer .initiator).wormhole.code with
    | .created, some code => some (s.upd .receiver fun p =>
        { p with wormhole := p.wormhole.connect code })
    | _, _ => none
  | .waitForPeer =>
    match (s.peer .initiator).wormhole.stage with
    | .waiting => some (s.upd .initiator fun p => p.goes p.wormhole.waitForPeer)
    | _ => none
  | .opened r =>
    match (s.peer r).wormhole.stage, (s.peer r).wormhole.mailbox.state with
    | .connecting, .connecting => some (s.upd r fun p =>
        { wormhole := { p.wormhole with mailbox := p.wormhole.mailbox.onOpen.1 }
          up := p.up ++ [p.wormhole.mailbox.onOpen.2]
          down := p.down ++ [⟨.welcome, none⟩] })
    | _, _ => none
  | .read r token answers =>
    match (s.peer r).up with
    | data :: rest =>
      let out := handleMessage s.server (s.states r.conn) r.conn data token
      let sent := answers.flatMap (replies out.next (idOf data))
      if (idOf data).isNone || sent.any fun reply => reply.id.isSome then
        some { (handle s r.conn out).upd r fun p => { p with up := rest, down := p.down ++ sent } with
          found := if r = .receiver ∧ isClaim data then
            s.found ++ (mailboxIdOf s.server data token).toList else s.found }
      else none
    | [] => none
  | .forward r msg => some (s.upd r fun p => { p with down := p.down ++ [⟨.message msg, none⟩] })
  | .other j data token =>
    if 2 ≤ j then some (handle s j (handleMessage s.server (s.states j) j data token)) else none
  | .receive r words =>
    match (s.peer r).down with
    | reply :: rest =>
      if (s.peer r).wormhole.mailbox.state ≠ .connecting ∧
          selectable (s.peer r).wormhole.numWords words then
        some (s.upd r fun p =>
          { p with down := rest }.goes (p.wormhole.receive L.str words (reply.toJson L.P)))
      else none
    | [] => none
  | .timeout r id =>
    ((s.peer r).wormhole.mailbox.timeout id).map fun c => s.upd r fun p =>
      p.goes ({ p.wormhole with mailbox := c }.resume L.str [])
  | .addMessage r phase body =>
    match (s.peer r).wormhole.stage with
    | .exchanging => some (s.upd r fun p =>
        p.goes (p.wormhole.await (.addMessage phase body) fun _ => .exchanging))
    | _ => none

def lts (L : Site) : LTS St Lbl := .ofStep (· = init L) (step L)

/-! ## A client with one request at a time -/

section
variable {c c' : Client} {msg : Json} {w : Wormhole} {id : String} {str : Json → String}
  {words : List String}

/-- No request is under way. -/
def Idle (c : Client) : Prop := c.pendingRequests = []

theorem Idle.dispatched (h : Idle c) (he : Event msg c c') : Dispatched msg c c' := by
  unfold Idle at h
  cases he with
  | resolved id hid => rw [h] at hid; cases hid
  | failed id promise hid hp => rw [h] at hid; cases hid
  | other c' hd => exact hd

theorem Idle.of_dispatched (h : Idle c) (hd : Dispatched msg c c') : Idle c' :=
  hd.pendingRequests.trans h

/-- The mailbox is open, and only `addMessage` waits for the relay. -/
structure Adding (c : Client) : Prop where
  opened : c.state = .opened
  calls : ∀ id ∈ c.pendingRequests, ∃ call phase body,
    c.find id = some call ∧ call.api = .addMessage phase body

theorem Adding.settled (h : Adding c) (id : String) (promise : Promise) :
    Adding (c.settled id promise) := by
  refine ⟨h.opened, ?_⟩
  intro id' hid
  obtain ⟨call, phase, body, hcall, hapi⟩ := h.calls id' (List.mem_of_mem_erase hid)
  refine ⟨_, phase, body, (find_settled c id id' promise).trans (by rw [hcall]; rfl), ?_⟩
  dsimp only
  split
  · exact hapi
  · exact hapi

theorem Adding.event (h : Adding c) (he : Event msg c c') :
    Adding c' ∧ c'.nameplate = c.nameplate ∧ c'.mailbox = c.mailbox := by
  cases he with
  | resolved id hid =>
    obtain ⟨call, phase, body, hcall, hapi⟩ := h.calls id hid
    have hs : c.settle id (.resolved msg) = c.settled id (.resolved msg) := by
      rw [settle_resolved hcall, hapi]
      rfl
    rw [hs]
    exact ⟨h.settled id _, rfl, rfl⟩
  | failed id promise hid hp => exact ⟨h.settled id promise, rfl, rfl⟩
  | other c' hd =>
    refine ⟨⟨hd.state.trans h.opened, ?_⟩, hd.nameplate, hd.mailbox⟩
    intro id hid
    rw [hd.pendingRequests] at hid
    obtain ⟨call, phase, body, hcall, hapi⟩ := h.calls id hid
    obtain ⟨call', hcall', hh⟩ := hd.some id call hcall
    exact ⟨call', phase, body, hcall', hh.api.trans hapi⟩

theorem Adding.request (h : Adding c) (hc : c.Wf) (phase : String) (body : Body) (fields : Fields) :
    Adding (c.request (.addMessage phase body) fields).1 := by
  refine ⟨h.opened, ?_⟩
  intro id hid
  rw [find_request]
  rcases List.mem_append.mp hid with hid | hid
  · obtain ⟨call, phase', body', hcall, hapi⟩ := h.calls id hid
    exact ⟨call, phase', body', by rw [hcall]; rfl, hapi⟩
  · rw [List.mem_singleton] at hid
    subst hid
    exact ⟨_, phase, body, by rw [hc.nextId, if_pos rfl]; rfl, rfl⟩

/-- What becomes of an `open` under way. -/
theorem opening_event (str : Json → String) (words : List String) {mailbox : Json}
    (hs : w.stage = .opening id)
    (ha : Awaits w.mailbox id (.openMailbox mailbox)) (ho : w.mailbox.state ≠ .opened)
    (he : Event msg w.mailbox c') :
    ∃ stage, { w with mailbox := c' }.resume str words =
        ({ w with mailbox := c', stage := stage }, []) ∧
      c'.nameplate = w.mailbox.nameplate ∧ c'.mailbox = w.mailbox.mailbox ∧
      ((stage = .exchanging ∧ Adding c') ∨ (stage = .failed ∧ Idle c' ∧ c'.state ≠ .opened) ∨
        (stage = .opening id ∧ Awaits c' id (.openMailbox mailbox) ∧ c'.state ≠ .opened)) := by
  rw [resume_opening (w := { w with mailbox := c' }) hs]
  cases ha.outcome he with
  | resolved claimed c' hp hc hf he =>
    rw [hf]
    refine ⟨.exchanging, rfl, by rw [he]; rfl, by rw [he]; rfl, .inl ⟨rfl, by rw [he]; rfl, ?_⟩⟩
    intro id' hid
    rw [hp] at hid
    cases hid
  | failed error c' hp hf he =>
    rw [hf]
    obtain ⟨promise, he⟩ := he
    refine ⟨.failed, rfl, by rw [he]; rfl, by rw [he]; rfl, .inr (.inl ⟨rfl, hp, ?_⟩)⟩
    rw [he]
    exact ho
  | other c' ha' hd =>
    obtain ⟨claimed, hf⟩ := ha'.call
    rw [hf]
    refine ⟨.opening id, ?_, hd.nameplate, hd.mailbox, .inr (.inr ⟨rfl, ha', by rwa [hd.state]⟩)⟩
    rw [← hs]
    rfl

/-- What becomes of a call that is made. -/
theorem await_idle (api : Api) (stage : String → Stage) (hc : w.mailbox.Wf) (hi : Idle w.mailbox)
    (hapi : api ≠ .release) :
    w.await api stage = ({ w with stage := .failed }, []) ∨
      ∃ c fields, Prepared w.mailbox api c fields ∧
        (c.request api fields).1.Wf ∧ Awaits (c.request api fields).1 w.mailbox.nextId api ∧
        (c.request api fields).1.find w.mailbox.nextId =
          some ⟨w.mailbox.nextId, api, .pending, none⟩ ∧
        w.await api stage = ({ w with
            mailbox := (c.request api fields).1
            stage := stage w.mailbox.nextId }, [(c.request api fields).2]) := by
  unfold Wormhole.await
  split
  · rename_i c' sent hcall
    rcases call_prepared hcall with ⟨hr, _⟩ | ⟨c, fields, hp, rfl, rfl⟩
    · exact absurd hr hapi
    · obtain ⟨hwf, _, hpend, hid, _⟩ := hp.frame hc
      refine .inr ⟨c, fields, hp, wf_request hwf api fields, ?_⟩
      rw [← hid]
      exact ⟨awaits_request hwf (hpend.trans hi) api fields, find_new hwf api fields, rfl⟩
  · exact .inl rfl

/-! ## The initiator -/

/-- What the relay may say of a nameplate. -/
def NamesNameplate (msg : Json) : Prop :=
  field msg "nameplate" = .null ∨ ∃ n : Nat, field msg "nameplate" = .str (toString n)

/-- `allocate` has returned a code for the client's nameplate. -/
structure Coded (str : Json → String) (w : Wormhole) : Prop where
  code : ∃ words, w.code = some (generateCode (template str w.mailbox.nameplate) words)
  nameplate : w.mailbox.nameplate = .null ∨ ∃ n : Nat, w.mailbox.nameplate = .str (toString n)

/-- The mailbox that is opened is the nameplate itself. -/
def OpensNameplate (w : Wormhole) : Prop :=
  ∃ (n : Nat) (words : List String), w.code = some (generateCode (toString n) words) ∧
    w.mailbox.mailbox = .str (toString n)

/-- How far an initiator has come. -/
inductive Initiating (str : Json → String) (w : Wormhole) : Prop
  | before (hs : w.stage = .created ∨ w.stage = .connecting ∧ w.isInitiator = true)
      (hcode : w.code = none) (hi : Idle w.mailbox) (ho : w.mailbox.state ≠ .opened)
  | allocating (id : String) (hs : w.stage = .allocating id) (hcode : w.code = none)
      (ha : Awaits w.mailbox id .allocate) (ho : w.mailbox.state ≠ .opened)
  | waiting (hs : w.stage = .waiting) (hcode : Coded str w) (hi : Idle w.mailbox)
      (ho : w.mailbox.state ≠ .opened)
  | opening (id : String) (mailbox : Json) (hs : w.stage = .opening id) (hm : OpensNameplate w)
      (ha : Awaits w.mailbox id (.openMailbox mailbox)) (ho : w.mailbox.state ≠ .opened)
  | exchanging (hs : w.stage = .exchanging) (hm : OpensNameplate w) (ha : Adding w.mailbox)
  | failed (hs : w.stage = .failed) (hi : Idle w.mailbox) (ho : w.mailbox.state ≠ .opened)

theorem Initiating.opensNameplate (h : Initiating str w) (ho : w.mailbox.state = .opened) :
    OpensNameplate w := by
  cases h with
  | exchanging hs hm ha => exact hm
  | before hs hcode hi ho' => exact absurd ho ho'
  | allocating id hs hcode ha ho' => exact absurd ho ho'
  | waiting hs hcode hi ho' => exact absurd ho ho'
  | opening id mailbox hs hm ha ho' => exact absurd ho ho'
  | failed hs hi ho' => exact absurd ho ho'

/-- The relay answers the initiator, or keeps it waiting for too long. A code that
has been given away stays. -/
theorem Initiating.event (h : Initiating str w) (hc' : c'.Wf) (hmsg : NamesNameplate msg)
    (he : Event msg w.mailbox c') {w' : Wormhole} {sent : List Json}
    (hw : { w with mailbox := c' }.resume str words = (w', sent)) :
    Initiating str w' ∧ w'.mailbox.Wf ∧ ∀ code, w.code = some code → w'.code = some code := by
  cases h with
  | before hs hcode hi ho =>
    have hd := hi.dispatched he
    have hi' := hi.of_dispatched hd
    have ho' : c'.state ≠ .opened := by rwa [hd.state]
    rcases hs with hs | ⟨hs, hr⟩
    · rw [resume_rest (w := { w with mailbox := c' }) (.inl hs)] at hw
      cases hw
      exact ⟨.before (.inl hs) hcode hi' ho', hc', fun _ h => h⟩
    · rw [resume_connecting (w := { w with mailbox := c' }) hs] at hw
      split at hw
      · cases hw
        exact ⟨.before (.inr ⟨hs, hr⟩) hcode hi' ho', hc', fun _ h => h⟩
      · split at hw
        · rcases await_idle (w := { w with mailbox := c' }) .allocate .allocating hc' hi' nofun with
            ha | ha
          · rw [ha] at hw
            cases hw
            exact ⟨.failed rfl hi' ho', hc', fun _ h => h⟩
          · obtain ⟨c, fields, hp, hwf, hawaits, hnew, ha⟩ := ha
            rw [ha] at hw
            cases hw
            refine ⟨.allocating _ rfl hcode hawaits ?_, hwf, fun _ h => h⟩
            cases hp
            exact ho'
        · rename_i hr'
          exact absurd hr hr'
      · cases hw
        exact ⟨.failed rfl hi' ho', hc', fun _ h => h⟩
  | allocating id hs hcode ha ho =>
    rw [resume_allocating (w := { w with mailbox := c' }) hs] at hw
    cases ha.outcome he with
    | resolved claimed c' hp hcall hf he' =>
      rw [hf] at hw
      cases hw
      have hn : c'.nameplate = field msg "nameplate" := by rw [he']; rfl
      refine ⟨.waiting rfl ⟨⟨words, by rw [← hn]⟩, ?_⟩ hp ?_, hc', ?_⟩
      · show c'.nameplate = .null ∨ ∃ n : Nat, c'.nameplate = .str (toString n)
        rw [hn]
        exact hmsg
      · show c'.state ≠ .opened
        rw [he']
        exact ho
      · intro code h
        rw [hcode] at h
        cases h
    | failed error c' hp hf he' =>
      rw [hf] at hw
      cases hw
      obtain ⟨promise, he'⟩ := he'
      refine ⟨.failed rfl hp ?_, hc', fun _ h => h⟩
      show c'.state ≠ .opened
      rw [he']
      exact ho
    | other c' ha' hd =>
      obtain ⟨claimed, hf⟩ := ha'.call
      rw [hf] at hw
      cases hw
      exact ⟨.allocating id hs hcode ha' (by rwa [hd.state]), hc', fun _ h => h⟩
  | waiting hs hcode hi ho =>
    have hd := hi.dispatched he
    rw [resume_rest (w := { w with mailbox := c' }) (.inr (.inl hs))] at hw
    cases hw
    refine ⟨.waiting hs ⟨?_, ?_⟩ (hi.of_dispatched hd) (by rwa [hd.state]), hc', fun _ h => h⟩
    · rw [hd.nameplate]
      exact hcode.code
    · rw [hd.nameplate]
      exact hcode.nameplate
  | opening id mailbox hs hm ha ho =>
    obtain ⟨stage, hr, hn, hmb, hcases⟩ := opening_event str words hs ha ho he
    rw [hr] at hw
    cases hw
    obtain ⟨n, words, hcode, hm⟩ := hm
    have hm' : OpensNameplate { w with mailbox := c', stage := stage } :=
      ⟨n, words, hcode, hmb.trans hm⟩
    refine ⟨?_, hc', fun _ h => h⟩
    rcases hcases with ⟨rfl, ha'⟩ | ⟨rfl, hi', ho'⟩ | ⟨rfl, ha', ho'⟩
    · exact .exchanging rfl hm' ha'
    · exact .failed rfl hi' ho'
    · exact .opening id mailbox rfl hm' ha' ho'
  | exchanging hs hm ha =>
    obtain ⟨ha', hn, hmb⟩ := ha.event he
    rw [resume_rest (w := { w with mailbox := c' }) (.inr (.inr (.inl hs)))] at hw
    cases hw
    obtain ⟨n, words, hcode, hm⟩ := hm
    exact ⟨.exchanging hs ⟨n, words, hcode, hmb.trans hm⟩ ha', hc', fun _ h => h⟩
  | failed hs hi ho =>
    have hd := hi.dispatched he
    rw [resume_rest (w := { w with mailbox := c' }) (.inr (.inr (.inr hs)))] at hw
    cases hw
    exact ⟨.failed hs (hi.of_dispatched hd) (by rwa [hd.state]), hc', fun _ h => h⟩

/-- mirrors packages/protocol/src/index.js:144: the argument of `open` is left out. -/
theorem Initiating.waitForPeer (h : Initiating str w) (hc : w.mailbox.Wf)
    (hs : w.stage = .waiting) {w' : Wormhole} {sent : List Json}
    (hw : w.waitForPeer = (w', sent)) :
    Initiating str w' ∧ w'.mailbox.Wf ∧ w'.code = w.code := by
  cases h with
  | waiting _ hcode hi ho =>
    unfold Wormhole.waitForPeer at hw
    rcases await_idle (.openMailbox .null) .opening hc hi nofun with ha | ha
    · rw [ha] at hw
      cases hw
      exact ⟨.failed rfl hi ho, hc, rfl⟩
    · obtain ⟨c, fields, hp, hwf, hawaits, hnew, ha⟩ := ha
      rw [ha] at hw
      cases hw
      refine ⟨?_, hwf, rfl⟩
      obtain ⟨⟨words, hcode⟩, hn⟩ := hcode
      cases hp with
      | openMailbox mailbox ht =>
        rcases hn with hn | ⟨n, hn⟩
        · rw [hn] at ht
          cases ht
        · refine .opening _ .null rfl ⟨n, words, ?_, hn⟩ hawaits ho
          rw [hn] at hcode
          exact hcode
  | before hs' hcode hi ho =>
    rcases hs' with hs' | ⟨hs', _⟩
    · rw [hs] at hs'; cases hs'
    · rw [hs] at hs'; cases hs'
  | allocating id hs' hcode ha ho => rw [hs] at hs'; cases hs'
  | opening id mailbox hs' hm ha ho => rw [hs] at hs'; cases hs'
  | exchanging hs' hm ha => rw [hs] at hs'; cases hs'
  | failed hs' hi ho => rw [hs] at hs'; cases hs'

/-! ## The receiver -/

/-- The message gives one of the mailbox ids. -/
def Told (found : List String) (msg : Json) : Prop :=
  ∃ id ∈ found, field msg "mailbox" = .str id

/-- What the relay may say of the mailbox behind a nameplate. -/
def NamesMailbox (found : List String) (msg : Json) : Prop :=
  field msg "type" = .str "claimed" → Told found msg

def ToldBy (found : List String) (c : Client) (id : String) : Prop :=
  ∀ call msg, c.find id = some call → call.claimed = some msg → Told found msg

/-- The code is for this nameplate, which the client has noted. -/
def Asks (w : Wormhole) (nameplate : String) : Prop :=
  (∃ password, w.code.bind parseCode = some (nameplate, password)) ∧
    w.mailbox.nameplate = .str nameplate

/-- The mailbox that is opened is the one the relay has found. -/
def OpensFound (found : List String) (w : Wormhole) : Prop :=
  ∃ nameplate password, ∃ id ∈ found, w.code.bind parseCode = some (nameplate, password) ∧
    w.mailbox.mailbox = orElse (.str id) (.str nameplate)

/-- How far a receiver has come. -/
inductive Receiving (found : List String) (w : Wormhole) : Prop
  | created (hs : w.stage = .created) (hr : w.isInitiator = false) (hi : Idle w.mailbox)
      (ho : w.mailbox.state ≠ .opened)
  | connecting (hs : w.stage = .connecting) (hr : w.isInitiator = false) (hi : Idle w.mailbox)
      (ho : w.mailbox.state ≠ .opened)
  | claiming (id nameplate : String) (hs : w.stage = .claiming id) (hn : Asks w nameplate)
      (ha : Awaits w.mailbox id (.claim nameplate)) (ht : ToldBy found w.mailbox id)
      (ho : w.mailbox.state ≠ .opened)
  | acked (id nameplate : String) (msg : Json) (hs : w.stage = .claiming id)
      (hn : Asks w nameplate) (hi : Idle w.mailbox)
      (hf : w.mailbox.find id = some ⟨id, .claim nameplate, .resolved msg, none⟩)
      (ho : w.mailbox.state ≠ .opened)
  | opening (id : String) (mailbox : Json) (hs : w.stage = .opening id) (hm : OpensFound found w)
      (ha : Awaits w.mailbox id (.openMailbox mailbox)) (ho : w.mailbox.state ≠ .opened)
  | exchanging (hs : w.stage = .exchanging) (hm : OpensFound found w) (ha : Adding w.mailbox)
  | failed (hs : w.stage = .failed) (hi : Idle w.mailbox) (ho : w.mailbox.state ≠ .opened)

variable {found found' : List String}

theorem Receiving.opensFound (h : Receiving found w) (ho : w.mailbox.state = .opened) :
    OpensFound found w := by
  cases h with
  | exchanging hs hm ha => exact hm
  | created hs hr hi ho' => exact absurd ho ho'
  | connecting hs hr hi ho' => exact absurd ho ho'
  | claiming id nameplate hs hn ha ht ho' => exact absurd ho ho'
  | acked id nameplate msg hs hn hi hf ho' => exact absurd ho ho'
  | opening id mailbox hs hm ha ho' => exact absurd ho ho'
  | failed hs hi ho' => exact absurd ho ho'

theorem OpensFound.mono (hsub : found ⊆ found') (h : OpensFound found w) :
    OpensFound found' w := by
  obtain ⟨nameplate, password, id, hid, hp, hm⟩ := h
  exact ⟨nameplate, password, id, hsub hid, hp, hm⟩

theorem Receiving.mono (hsub : found ⊆ found') (h : Receiving found w) : Receiving found' w := by
  cases h with
  | created hs hr hi ho => exact .created hs hr hi ho
  | connecting hs hr hi ho => exact .connecting hs hr hi ho
  | claiming id nameplate hs hn ha ht ho =>
    refine .claiming id nameplate hs hn ha ?_ ho
    intro call msg hf hc
    obtain ⟨id', hid', hm⟩ := ht call msg hf hc
    exact ⟨id', hsub hid', hm⟩
  | acked id nameplate msg hs hn hi hf ho => exact .acked id nameplate msg hs hn hi hf ho
  | opening id mailbox hs hm ha ho => exact .opening id mailbox hs (hm.mono hsub) ha ho
  | exchanging hs hm ha => exact .exchanging hs (hm.mono hsub) ha
  | failed hs hi ho => exact .failed hs hi ho

/-- How many claims a receiver has sent at most. -/
def claimed (w : Wormhole) : Nat :=
  match w.stage with
  | .created => 0
  | .connecting => 0
  | _ => 1

/-- What a receiver keeps to when it goes on, besides how far it has come. -/
structure Onward (found : List String) (w w' : Wormhole) (sent : List Json) : Prop where
  receiving : Receiving found w'
  wf : w'.mailbox.Wf
  code : w'.code = w.code
  claims : sent.countP isClaim + claimed w ≤ claimed w'

/-- The relay has said which mailbox to open. -/
theorem open_told {nameplate : String} (hc : w.mailbox.Wf) (hn : Asks w nameplate)
    (hi : Idle w.mailbox) (ho : w.mailbox.state ≠ .opened) (ht : Told found msg)
    (hs : w.stage = .claiming id) {w' : Wormhole} {sent : List Json}
    (hw : w.await (.openMailbox (field msg "mailbox")) .opening = (w', sent)) :
    Onward found w w' sent := by
  have hcl : claimed w = 1 := by unfold claimed; rw [hs]
  rcases await_idle (.openMailbox (field msg "mailbox")) .opening hc hi nofun with ha | ha
  · rw [ha] at hw
    cases hw
    exact ⟨.failed rfl hi ho, hc, rfl, by rw [hcl]; rfl⟩
  · obtain ⟨c, fields, hp, hwf, hawaits, hnew, ha⟩ := ha
    rw [ha] at hw
    cases hw
    obtain ⟨⟨password, hcode⟩, hn⟩ := hn
    obtain ⟨id', hid', hm⟩ := ht
    cases hp
    refine ⟨.opening _ _ rfl ⟨nameplate, password, id', hid', hcode, ?_⟩ hawaits ho, hwf, rfl, ?_⟩
    · show orElse (field msg "mailbox") w.mailbox.nameplate = _
      rw [hm, hn]
    · rw [hcl]
      rfl

/-- The relay answers the receiver, or keeps it waiting for too long. -/
theorem Receiving.event (h : Receiving found w) (hc' : c'.Wf) (hmsg : NamesMailbox found msg)
    (he : Event msg w.mailbox c') {w' : Wormhole} {sent : List Json}
    (hw : { w with mailbox := c' }.resume str words = (w', sent)) : Onward found w w' sent := by
  cases h with
  | created hs hr hi ho =>
    have hd := hi.dispatched he
    rw [resume_rest (w := { w with mailbox := c' }) (.inl hs)] at hw
    cases hw
    exact ⟨.created hs hr (hi.of_dispatched hd) (by rwa [hd.state]), hc', rfl,
      (Nat.zero_add _).le⟩
  | connecting hs hr hi ho =>
    have hd := hi.dispatched he
    have hi' := hi.of_dispatched hd
    have ho' : c'.state ≠ .opened := by rwa [hd.state]
    have hcl : claimed w = 0 := by unfold claimed; rw [hs]
    rw [resume_connecting (w := { w with mailbox := c' }) hs] at hw
    split at hw
    · cases hw
      exact ⟨.connecting hs hr hi' ho', hc', rfl, (Nat.zero_add _).le⟩
    · split at hw
      · rename_i hr'
        rw [hr] at hr'
        cases hr'
      · split at hw
        · rename_i nameplate password hcode
          rcases await_idle (w := { w with mailbox := c' }) (.claim nameplate) .claiming hc' hi'
            nofun with ha | ha
          · rw [ha] at hw
            cases hw
            exact ⟨.failed rfl hi' ho', hc', rfl, by rw [hcl]; exact Nat.zero_le _⟩
          · obtain ⟨c, fields, hp, hwf, hawaits, hnew, ha⟩ := ha
            rw [ha] at hw
            cases hw
            cases hp
            refine ⟨.claiming _ nameplate rfl ⟨⟨password, hcode⟩, rfl⟩ hawaits ?_ ho', hwf, rfl, ?_⟩
            · intro call msg hf hc
              rw [hnew] at hf
              cases hf
              cases hc
            · rw [hcl]
              rfl
        · cases hw
          exact ⟨.failed rfl hi' ho', hc', rfl, by rw [hcl]; exact Nat.zero_le _⟩
    · cases hw
      exact ⟨.failed rfl hi' ho', hc', rfl, by rw [hcl]; exact Nat.zero_le _⟩
  | claiming id nameplate hs hn ha ht ho =>
    have hcl : claimed w = 1 := by unfold claimed; rw [hs]
    rw [resume_claiming (w := { w with mailbox := c' }) hs] at hw
    cases ha.outcome he with
    | resolved cl c' hp hcall hf he' =>
      have hn' : Asks { w with mailbox := c' } nameplate :=
        ⟨hn.1, by rw [he']; exact hn.2⟩
      have ho' : c'.state ≠ .opened := by rw [he']; exact ho
      rw [hf] at hw
      cases cl with
      | none =>
        cases hw
        exact ⟨.acked id nameplate msg hs hn' hp hf ho', hc', rfl, (Nat.zero_add _).le⟩
      | some m =>
        have h := open_told (w := { w with mailbox := c' }) hc' hn' hp ho'
          (ht _ m hcall rfl) hs hw
        exact ⟨h.receiving, h.wf, h.code, h.claims⟩
    | failed error c' hp hf he' =>
      rw [hf] at hw
      cases hw
      obtain ⟨promise, he'⟩ := he'
      exact ⟨.failed rfl hp (by rw [he']; exact ho), hc', rfl, by rw [hcl]; rfl⟩
    | other c' ha' hd =>
      obtain ⟨cl, hf⟩ := ha'.call
      rw [hf] at hw
      cases hw
      refine ⟨.claiming id nameplate hs ⟨hn.1, hd.nameplate.trans hn.2⟩ ha' ?_
        (by rwa [hd.state]), hc', rfl, (Nat.zero_add _).le⟩
      intro call m hf hm
      obtain ⟨cl, hcall⟩ := ha.call
      obtain ⟨call', hf', hh⟩ := hd.some id _ hcall
      rw [hf'] at hf
      cases hf
      rcases hh.claimed with hh | ⟨hh, htype⟩
      · exact ht _ m hcall (hh.symm.trans hm)
      · rw [hh] at hm
        cases hm
        exact hmsg htype
  | acked id nameplate m hs hn hi hf ho =>
    have hd := hi.dispatched he
    have hi' := hi.of_dispatched hd
    have ho' : c'.state ≠ .opened := by rwa [hd.state]
    have hn' : Asks { w with mailbox := c' } nameplate := ⟨hn.1, hd.nameplate.trans hn.2⟩
    obtain ⟨⟨id', api', promise', cl⟩, hf', hh⟩ := hd.some id _ hf
    cases hh.id
    cases hh.api
    cases hh.promise
    rw [resume_claiming (w := { w with mailbox := c' }) hs] at hw
    rw [hf'] at hw
    rcases hh.claimed with hcl | ⟨hcl, htype⟩
    · cases hcl
      cases hw
      exact ⟨.acked id nameplate m hs hn' hi' hf' ho', hc', rfl, (Nat.zero_add _).le⟩
    · cases hcl
      have h := open_told (w := { w with mailbox := c' }) hc' hn' hi' ho' (hmsg htype) hs hw
      exact ⟨h.receiving, h.wf, h.code, h.claims⟩
  | opening id mailbox hs hm ha ho =>
    have hcl : claimed w = 1 := by unfold claimed; rw [hs]
    obtain ⟨stage, hr, hn, hmb, hcases⟩ := opening_event str words hs ha ho he
    rw [hr] at hw
    cases hw
    obtain ⟨nameplate, password, id', hid', hcode, hm⟩ := hm
    have hm' : OpensFound found { w with mailbox := c', stage := stage } :=
      ⟨nameplate, password, id', hid', hcode, hmb.trans hm⟩
    rcases hcases with ⟨rfl, ha'⟩ | ⟨rfl, hi', ho'⟩ | ⟨rfl, ha', ho'⟩
    · exact ⟨.exchanging rfl hm' ha', hc', rfl, by rw [hcl]; rfl⟩
    · exact ⟨.failed rfl hi' ho', hc', rfl, by rw [hcl]; rfl⟩
    · exact ⟨.opening id mailbox rfl hm' ha' ho', hc', rfl, by rw [hcl]; rfl⟩
  | exchanging hs hm ha =>
    obtain ⟨ha', hn, hmb⟩ := ha.event he
    rw [resume_rest (w := { w with mailbox := c' }) (.inr (.inr (.inl hs)))] at hw
    cases hw
    obtain ⟨nameplate, password, id', hid', hcode, hm⟩ := hm
    exact ⟨.exchanging hs ⟨nameplate, password, id', hid', hcode, hmb.trans hm⟩ ha', hc', rfl,
      (Nat.zero_add _).le⟩
  | failed hs hi ho =>
    have hd := hi.dispatched he
    rw [resume_rest (w := { w with mailbox := c' }) (.inr (.inr (.inr hs)))] at hw
    cases hw
    exact ⟨.failed hs (hi.of_dispatched hd) (by rwa [hd.state]), hc', rfl, (Nat.zero_add _).le⟩

end

/-! ## The relay's answers -/

section
variable {srv : Server} {st : ClientState} {j : ConnId} {token : String} {data : Json} {out : Out}
  {reply : Reply} {found : List String}

theorem names_nameplate (P : PyStr)
    (h : ∀ n, reply.frame = .allocated n → ∃ k : Nat, n = toString k) :
    NamesNameplate (reply.toJson P) := by
  obtain ⟨frame, id⟩ := reply
  unfold NamesNameplate Reply.toJson
  cases frame with
  | allocated n =>
    obtain ⟨k, rfl⟩ := h n rfl
    refine .inr ⟨k, ?_⟩
    cases id <;> rfl
  | _ => left; cases id <;> rfl

theorem names_mailbox (P : PyStr) (h : ∀ m, reply.frame = .claimed m → m ∈ found) :
    NamesMailbox found (reply.toJson P) := by
  obtain ⟨frame, id⟩ := reply
  unfold NamesMailbox Told Reply.toJson
  cases frame with
  | claimed m =>
    intro _
    refine ⟨m, h m rfl, ?_⟩
    cases id <;> rfl
  | _ => intro ht; cases id <;> simp [Frame.toJson, withId, field, Fields.get] at ht

theorem mem_replies {next : Next} {id : Option String} {answers : List Answer}
    (h : reply ∈ answers.flatMap (replies next id)) :
    reply.frame = .ack ∨ (∃ msg, reply.frame = .message msg) ∨ (∃ e, reply.frame = .error e) ∨
      next = .reply reply.frame := by
  obtain ⟨answer, _, h⟩ := List.mem_flatMap.mp h
  cases answer with
  | ack b =>
    cases List.mem_singleton.mp h
    exact .inl rfl
  | own b =>
    obtain ⟨f, hf, rfl⟩ := List.mem_map.mp h
    have hframe : (tagged f (if b then id else none)).frame = f := by
      unfold tagged
      split <;> rfl
    rw [hframe]
    unfold ownFrames at hf
    split at hf
    · cases List.mem_singleton.mp hf
      exact .inr (.inr (.inr rfl))
    · obtain ⟨msg, _, rfl⟩ := List.mem_map.mp hf
      exact .inr (.inl ⟨msg, rfl⟩)
    · cases hf
    · cases List.mem_singleton.mp hf
      exact .inr (.inr (.inl ⟨_, rfl⟩))

theorem next_allocated (h : Handled srv st j token data out) {n : String}
    (hn : out.next = .reply (.allocated n)) : ∃ k : Nat, n = toString k := by
  cases h with
  | allocate d ht => cases hn; exact ⟨_, rfl⟩
  | quiet data next hq hd => cases hn; cases hq
  | _ => cases hn

/-- The relay tells a claimant what its `nameplates` had. -/
theorem next_claimed (h : Handled srv st j token data out) {m : String}
    (hm : out.next = .reply (.claimed m)) :
    isClaim data = true ∧ mailboxIdOf srv data token = some m := by
  unfold isClaim mailboxIdOf field
  cases h with
  | claimNew d k side ht htr hk hn hs =>
    cases hm
    dsimp only
    rw [ht, hk, Option.map_some, hn]
    exact ⟨rfl, rfl⟩
  | claimOld d k np side ht htr hk hn hs =>
    cases hm
    dsimp only
    rw [ht, hk, Option.map_some, hn]
    exact ⟨rfl, rfl⟩
  | quiet data next hq hd => cases hm; cases hq
  | _ => cases hm

theorem replies_allocated (h : Handled srv st j token data out) {id : Option String}
    {answers : List Answer} (hr : reply ∈ answers.flatMap (replies out.next id)) {n : String}
    (hn : reply.frame = .allocated n) : ∃ k : Nat, n = toString k := by
  rcases mem_replies hr with hf | ⟨_, hf⟩ | ⟨_, hf⟩ | hf
  · rw [hn] at hf; cases hf
  · rw [hn] at hf; cases hf
  · rw [hn] at hf; cases hf
  · exact next_allocated h (hn ▸ hf)

theorem replies_claimed (h : Handled srv st j token data out) {id : Option String}
    {answers : List Answer} (hr : reply ∈ answers.flatMap (replies out.next id)) {m : String}
    (hm : reply.frame = .claimed m) :
    isClaim data = true ∧ mailboxIdOf srv data token = some m := by
  rcases mem_replies hr with hf | ⟨_, hf⟩ | ⟨_, hf⟩ | hf
  · rw [hm] at hf; cases hf
  · rw [hm] at hf; cases hf
  · rw [hm] at hf; cases hf
  · exact next_claimed h (hm ▸ hf)

end

/-! ## Invariant -/

/-- Where both sides are, and what the relay has said and will say. -/
structure Inv (L : Site) (s : St) : Prop where
  initiating : Initiating L.str (s.peer .initiator).wormhole
  receiving : Receiving s.found (s.peer .receiver).wormhole
  wf : ∀ r, (s.peer r).wormhole.mailbox.Wf
  code : ∀ code, (s.peer .receiver).wormhole.code = some code →
    (s.peer .initiator).wormhole.code = some code
  nameplates : ∀ r, ∀ reply ∈ (s.peer r).down, ∀ n, reply.frame = .allocated n →
    ∃ k : Nat, n = toString k
  mailboxes : ∀ reply ∈ (s.peer .receiver).down, ∀ m, reply.frame = .claimed m → m ∈ s.found
  claims : (s.peer .receiver).up.countP isClaim + s.found.length ≤
    claimed (s.peer .receiver).wormhole

section
variable {L : Site} {s t : St}

theorem Inv.same (h : Inv L s) (hp : t.peer = s.peer) (hf : t.found = s.found) : Inv L t := by
  refine ⟨?_, ?_, ?_, ?_, ?_, ?_, ?_⟩
  · rw [hp]; exact h.initiating
  · rw [hp, hf]; exact h.receiving
  · rw [hp]; exact h.wf
  · rw [hp]; exact h.code
  · rw [hp]; exact h.nameplates
  · rw [hp, hf]; exact h.mailboxes
  · rw [hp, hf]; exact h.claims

theorem Inv.upd_initiator (h : Inv L s) (f : Peer → Peer)
    (hI : Initiating L.str (f (s.peer .initiator)).wormhole)
    (hwf : (f (s.peer .initiator)).wormhole.mailbox.Wf)
    (hcode : ∀ code, (s.peer .initiator).wormhole.code = some code →
      (f (s.peer .initiator)).wormhole.code = some code)
    (hdown : ∀ reply ∈ (f (s.peer .initiator)).down, ∀ n, reply.frame = .allocated n →
      ∃ k : Nat, n = toString k) : Inv L (s.upd .initiator f) := by
  refine ⟨hI, h.receiving, ?_, fun code hc => hcode code (h.code code hc), ?_, h.mailboxes,
    h.claims⟩
  · intro r
    cases r with
    | initiator => exact hwf
    | receiver => exact h.wf .receiver
  · intro r
    cases r with
    | initiator => exact hdown
    | receiver => exact h.nameplates .receiver

theorem Inv.upd_receiver (h : Inv L s) (f : Peer → Peer)
    (hR : Receiving s.found (f (s.peer .receiver)).wormhole)
    (hwf : (f (s.peer .receiver)).wormhole.mailbox.Wf)
    (hcode : ∀ code, (f (s.peer .receiver)).wormhole.code = some code →
      (s.peer .initiator).wormhole.code = some code)
    (hdown : ∀ reply ∈ (f (s.peer .receiver)).down, (∀ n, reply.frame = .allocated n →
      ∃ k : Nat, n = toString k) ∧ ∀ m, reply.frame = .claimed m → m ∈ s.found)
    (hclaims : (f (s.peer .receiver)).up.countP isClaim + s.found.length ≤
      claimed (f (s.peer .receiver)).wormhole) : Inv L (s.upd .receiver f) := by
  refine ⟨h.initiating, hR, ?_, hcode, ?_, fun reply hr => (hdown reply hr).2, hclaims⟩
  · intro r
    cases r with
    | initiator => exact h.wf .initiator
    | receiver => exact hwf
  · intro r
    cases r with
    | initiator => exact h.nameplates .initiator
    | receiver => exact fun reply hr => (hdown reply hr).1

/-- A message or a timer of one side. -/
theorem Inv.event (h : Inv L s) (r : Role) (f : Peer → Peer) {msg : Json} {c' : Client}
    {words : List String} {down : List Reply} (hc' : c'.Wf)
    (he : Event msg (s.peer r).wormhole.mailbox c') (hnames : NamesNameplate msg)
    (htold : r = .receiver → NamesMailbox s.found msg) (hsub : down ⊆ (s.peer r).down)
    (hf : f (s.peer r) = { s.peer r with down := down }.goes
      ({ (s.peer r).wormhole with mailbox := c' }.resume L.str words)) : Inv L (s.upd r f) := by
  cases r with
  | initiator =>
    generalize hres : ({ (s.peer .initiator).wormhole with mailbox := c' } : Wormhole).resume
      L.str words = res at hf
    obtain ⟨w', sent⟩ := res
    obtain ⟨h1, h2, h3⟩ := h.initiating.event hc' hnames he hres
    refine h.upd_initiator f ?_ ?_ ?_ ?_
    · rw [hf]; exact h1
    · rw [hf]; exact h2
    · rw [hf]; exact h3
    · rw [hf]; exact fun reply hr => h.nameplates .initiator reply (hsub hr)
  | receiver =>
    generalize hres : ({ (s.peer .receiver).wormhole with mailbox := c' } : Wormhole).resume
      L.str words = res at hf
    obtain ⟨w', sent⟩ := res
    have ho := h.receiving.event hc' (htold rfl) he hres
    refine h.upd_receiver f ?_ ?_ ?_ ?_ ?_
    · rw [hf]; exact ho.receiving
    · rw [hf]; exact ho.wf
    · rw [hf]; exact fun code hcode => h.code code (ho.code ▸ hcode)
    · rw [hf]
      exact fun reply hr => ⟨h.nameplates .receiver reply (hsub hr), h.mailboxes reply (hsub hr)⟩
    · rw [hf]
      have h1 := h.claims
      have h2 := ho.claims
      show ((s.peer .receiver).up ++ sent).countP isClaim + s.found.length ≤ claimed w'
      rw [List.countP_append]
      omega

/-- One side's connection to the relay opens. -/
theorem inv_opened (h : Inv L s) (r : Role) (hs : (s.peer r).wormhole.stage = .connecting) :
    Inv L (s.upd r fun p =>
      { wormhole := { p.wormhole with mailbox := p.wormhole.mailbox.onOpen.1 }
        up := p.up ++ [p.wormhole.mailbox.onOpen.2]
        down := p.down ++ [⟨.welcome, none⟩] }) := by
  have hnames : ∀ reply ∈ (s.peer r).down ++ [⟨.welcome, none⟩], ∀ n,
      reply.frame = .allocated n → ∃ k : Nat, n = toString k := by
    intro reply hr n hn
    rcases List.mem_append.mp hr with hr | hr
    · exact h.nameplates r reply hr n hn
    · cases List.mem_singleton.mp hr
      cases hn
  have hwf : (s.peer r).wormhole.mailbox.onOpen.1.Wf := ⟨(h.wf r).tidy, (h.wf r).fresh⟩
  cases r with
  | initiator =>
    refine h.upd_initiator _ ?_ hwf (fun _ hc => hc) hnames
    cases h.initiating with
    | before hs' hcode hi ho =>
      refine .before ?_ hcode hi nofun
      exact hs'
    | allocating id hs' hcode ha ho => rw [hs] at hs'; cases hs'
    | waiting hs' hcode hi ho => rw [hs] at hs'; cases hs'
    | opening id mailbox hs' hm ha ho => rw [hs] at hs'; cases hs'
    | exchanging hs' hm ha => rw [hs] at hs'; cases hs'
    | failed hs' hi ho => rw [hs] at hs'; cases hs'
  | receiver =>
    refine h.upd_receiver _ ?_ hwf h.code ?_ ?_
    · cases h.receiving with
      | connecting hs' hr hi ho => exact .connecting hs' hr hi nofun
      | created hs' hr hi ho => rw [hs] at hs'; cases hs'
      | claiming id nameplate hs' hn ha ht ho => rw [hs] at hs'; cases hs'
      | acked id nameplate msg hs' hn hi hf ho => rw [hs] at hs'; cases hs'
      | opening id mailbox hs' hm ha ho => rw [hs] at hs'; cases hs'
      | exchanging hs' hm ha => rw [hs] at hs'; cases hs'
      | failed hs' hi ho => rw [hs] at hs'; cases hs'
    · intro reply hr
      refine ⟨hnames reply hr, fun m hm => ?_⟩
      rcases List.mem_append.mp hr with hr | hr
      · exact h.mailboxes reply hr m hm
      · cases List.mem_singleton.mp hr
        cases hm
    · show ((s.peer .receiver).up ++ _).countP isClaim + _ ≤ claimed (s.peer .receiver).wormhole
      rw [List.countP_append]
      exact h.claims

/-- The relay handles a message of one side. -/
theorem inv_read (h : Inv L s) (r : Role) (token : String) (answers : List Answer) {data : Json}
    {rest : List Json} {out : Out} (hup : (s.peer r).up = data :: rest)
    (ho : Handled s.server (s.states r.conn) r.conn token data out) :
    Inv L { (handle s r.conn out).upd r fun p =>
        { p with up := rest, down := p.down ++ answers.flatMap (replies out.next (idOf data)) } with
      found := if r = .receiver ∧ isClaim data then
        s.found ++ (mailboxIdOf s.server data token).toList else s.found } := by
  have hnames : ∀ reply ∈ (s.peer r).down ++ answers.flatMap (replies out.next (idOf data)), ∀ n,
      reply.frame = .allocated n → ∃ k : Nat, n = toString k := by
    intro reply hr n hn
    rcases List.mem_append.mp hr with hr | hr
    · exact h.nameplates r reply hr n hn
    · exact replies_allocated ho hr hn
  cases r with
  | initiator =>
    refine (h.upd_initiator (fun p => { p with
        up := rest, down := p.down ++ answers.flatMap (replies out.next (idOf data)) })
      h.initiating (h.wf .initiator) (fun _ hc => hc) hnames).same rfl ?_
    show (if Role.initiator = .receiver ∧ isClaim data = true then
      s.found ++ (mailboxIdOf s.server data token).toList else s.found) = s.found
    rw [if_neg]
    intro hr
    cases hr.1
  | receiver =>
    have hsub : s.found ⊆ if Role.receiver = .receiver ∧ isClaim data = true then
        s.found ++ (mailboxIdOf s.server data token).toList else s.found := by
      split
      · exact List.subset_append_left _ _
      · exact fun _ h => h
    refine ⟨h.initiating, h.receiving.mono hsub, ?_, h.code, ?_, ?_, ?_⟩
    · intro r
      cases r with
      | initiator => exact h.wf .initiator
      | receiver => exact h.wf .receiver
    · intro r
      cases r with
      | initiator => exact h.nameplates .initiator
      | receiver => exact hnames
    · intro reply hr m hm
      rcases List.mem_append.mp hr with hr | hr
      · exact hsub (h.mailboxes reply hr m hm)
      · obtain ⟨hclaim, hid⟩ := replies_claimed ho hr hm
        show m ∈ if Role.receiver = .receiver ∧ isClaim data = true then _ else _
        rw [if_pos ⟨rfl, hclaim⟩, hid]
        exact List.mem_append_right _ (List.mem_singleton_self m)
    · have hclaims := h.claims
      rw [hup, List.countP_cons] at hclaims
      show rest.countP isClaim + (if Role.receiver = .receiver ∧ isClaim data = true then
        _ else _ : List String).length ≤ claimed (s.peer .receiver).wormhole
      split
      · rename_i hc
        rw [if_pos hc.2] at hclaims
        rw [List.length_append]
        have : (mailboxIdOf s.server data token).toList.length ≤ 1 := by
          cases mailboxIdOf s.server data token <;> simp
        omega
      · omega

/-- One side adds a message. -/
theorem inv_addMessage (h : Inv L s) (r : Role) (phase : String) (body : Body)
    (hs : (s.peer r).wormhole.stage = .exchanging) :
    Inv L (s.upd r fun p =>
      p.goes (p.wormhole.await (.addMessage phase body) fun _ => .exchanging)) := by
  have hgo : ∀ w : Wormhole, Adding w.mailbox → w.mailbox.Wf →
      ∃ fields, isClaim (w.mailbox.request (.addMessage phase body) fields).2 = false ∧
        w.await (.addMessage phase body) (fun _ => .exchanging) = ({ w with
          mailbox := (w.mailbox.request (.addMessage phase body) fields).1
          stage := .exchanging }, [(w.mailbox.request (.addMessage phase body) fields).2]) := by
    intro w ha hc
    refine ⟨[("type", .str "add"), ("phase", .str phase), ("body", .str (addBody body))], rfl, ?_⟩
    unfold Wormhole.await Client.call
    dsimp only
    rw [if_pos ha.opened]
    rfl
  cases r with
  | initiator =>
    cases h.initiating with
    | exchanging hs' hm ha =>
      obtain ⟨fields, _, hw⟩ := hgo _ ha (h.wf .initiator)
      refine h.upd_initiator _ ?_ ?_ ?_ (h.nameplates .initiator)
      · rw [hw]; exact .exchanging rfl hm (ha.request (h.wf .initiator) phase body fields)
      · rw [hw]; exact wf_request (h.wf .initiator) _ fields
      · rw [hw]; exact fun _ hc => hc
    | before hs' hcode hi ho =>
      rcases hs' with hs' | ⟨hs', _⟩
      · rw [hs] at hs'; cases hs'
      · rw [hs] at hs'; cases hs'
    | allocating id hs' hcode ha ho => rw [hs] at hs'; cases hs'
    | waiting hs' hcode hi ho => rw [hs] at hs'; cases hs'
    | opening id mailbox hs' hm ha ho => rw [hs] at hs'; cases hs'
    | failed hs' hi ho => rw [hs] at hs'; cases hs'
  | receiver =>
    cases h.receiving with
    | exchanging hs' hm ha =>
      obtain ⟨fields, hclaim, hw⟩ := hgo _ ha (h.wf .receiver)
      refine h.upd_receiver _ ?_ ?_ ?_ ?_ ?_
      · rw [hw]; exact .exchanging rfl hm (ha.request (h.wf .receiver) phase body fields)
      · rw [hw]; exact wf_request (h.wf .receiver) _ fields
      · rw [hw]; exact h.code
      · rw [hw]
        exact fun reply hr => ⟨h.nameplates .receiver reply hr, h.mailboxes reply hr⟩
      · rw [hw]
        have hcl := h.claims
        unfold claimed at hcl
        rw [hs] at hcl
        show ((s.peer .receiver).up ++ [_]).countP isClaim + s.found.length ≤ 1
        rw [List.countP_append, List.countP_singleton, hclaim]
        exact hcl
    | created hs' hr hi ho => rw [hs] at hs'; cases hs'
    | connecting hs' hr hi ho => rw [hs] at hs'; cases hs'
    | claiming id nameplate hs' hn ha ht ho => rw [hs] at hs'; cases hs'
    | acked id nameplate msg hs' hn hi hf ho => rw [hs] at hs'; cases hs'
    | opening id mailbox hs' hm ha ho => rw [hs] at hs'; cases hs'
    | failed hs' hi ho => rw [hs] at hs'; cases hs'

/-- One side starts. -/
theorem inv_allocate (h : Inv L s) (numWords : Nat)
    (hs : (s.peer .initiator).wormhole.stage = .created) :
    Inv L (s.upd .initiator fun p => { p with wormhole := p.wormhole.allocate numWords }) := by
  refine h.upd_initiator _ ?_ (wf_connect (h.wf .initiator)) (fun _ hc => hc)
    (h.nameplates .initiator)
  cases h.initiating with
  | before hs' hcode hi ho => exact .before (.inr ⟨rfl, rfl⟩) hcode hi nofun
  | allocating id hs' hcode ha ho => rw [hs] at hs'; cases hs'
  | waiting hs' hcode hi ho => rw [hs] at hs'; cases hs'
  | opening id mailbox hs' hm ha ho => rw [hs] at hs'; cases hs'
  | exchanging hs' hm ha => rw [hs] at hs'; cases hs'
  | failed hs' hi ho => rw [hs] at hs'; cases hs'

theorem inv_connect (h : Inv L s) {code : String}
    (hs : (s.peer .receiver).wormhole.stage = .created)
    (hcode : (s.peer .initiator).wormhole.code = some code) :
    Inv L (s.upd .receiver fun p => { p with wormhole := p.wormhole.connect code }) := by
  have hcl : (s.peer .receiver).up.countP isClaim + s.found.length ≤ 0 := by
    have hcl := h.claims
    unfold claimed at hcl
    rw [hs] at hcl
    exact hcl
  have hw : Receiving s.found ((s.peer .receiver).wormhole.connect code) ∧
      ((s.peer .receiver).wormhole.connect code).mailbox.Wf ∧
      ((s.peer .receiver).wormhole.connect code).code = some code := by
    unfold Wormhole.connect
    cases h.receiving with
    | created hs' hr hi ho =>
      split
      · exact ⟨.connecting rfl hr hi nofun, wf_connect (h.wf .receiver), rfl⟩
      · exact ⟨.failed rfl hi ho, h.wf .receiver, rfl⟩
    | connecting hs' hr hi ho => rw [hs] at hs'; cases hs'
    | claiming id nameplate hs' hn ha ht ho => rw [hs] at hs'; cases hs'
    | acked id nameplate msg hs' hn hi hf ho => rw [hs] at hs'; cases hs'
    | opening id mailbox hs' hm ha ho => rw [hs] at hs'; cases hs'
    | exchanging hs' hm ha => rw [hs] at hs'; cases hs'
    | failed hs' hi ho => rw [hs] at hs'; cases hs'
  refine h.upd_receiver _ hw.1 hw.2.1 ?_ ?_ ?_
  · intro code' hc
    have hc : ((s.peer .receiver).wormhole.connect code).code = some code' := hc
    rw [hw.2.2] at hc
    rw [hcode, hc]
  · exact fun reply hr => ⟨h.nameplates .receiver reply hr, h.mailboxes reply hr⟩
  · show (s.peer .receiver).up.countP isClaim + s.found.length ≤ _
    omega

theorem inv_step {l : Lbl} (h : Inv L s) (hs : step L s l = some t) : Inv L t := by
  cases l with
  | allocate numWords =>
    simp only [step] at hs
    split at hs
    · rename_i hst; cases hs; exact inv_allocate h numWords hst
    · cases hs
  | connect =>
    simp only [step] at hs
    split at hs
    · rename_i code hst hcode; cases hs; exact inv_connect h hst hcode
    · cases hs
  | waitForPeer =>
    simp only [step] at hs
    split at hs
    · rename_i hst
      cases hs
      obtain ⟨h1, h2, h3⟩ := h.initiating.waitForPeer (h.wf .initiator) hst rfl
      exact h.upd_initiator _ h1 h2 (fun _ hc => h3.trans hc) (h.nameplates .initiator)
    · cases hs
  | opened r =>
    simp only [step] at hs
    split at hs
    · rename_i hst _; cases hs; exact inv_opened h r hst
    · cases hs
  | read r token answers =>
    simp only [step] at hs
    split at hs
    · rename_i data rest hup
      split at hs
      · cases hs
        exact inv_read h r token answers hup (handled _ _ _ _ _)
      · cases hs
    · cases hs
  | forward r msg =>
    cases hs
    have hdown : ∀ reply ∈ (s.peer r).down ++ [⟨.message msg, none⟩],
        reply ∈ (s.peer r).down ∨ reply.frame = .message msg := by
      intro reply hr
      rcases List.mem_append.mp hr with hr | hr
      · exact .inl hr
      · exact .inr (by rw [List.mem_singleton.mp hr])
    cases r with
    | initiator =>
      refine h.upd_initiator _ h.initiating (h.wf .initiator) (fun _ hc => hc) ?_
      intro reply hr n hn
      rcases hdown reply hr with hr | hr
      · exact h.nameplates .initiator reply hr n hn
      · rw [hr] at hn; cases hn
    | receiver =>
      refine h.upd_receiver _ h.receiving (h.wf .receiver) h.code ?_ h.claims
      intro reply hr
      rcases hdown reply hr with hr | hr
      · exact ⟨h.nameplates .receiver reply hr, h.mailboxes reply hr⟩
      · rw [hr]
        exact ⟨nofun, nofun⟩
  | other j data token =>
    simp only [step] at hs
    split at hs
    · cases hs; exact h.same rfl rfl
    · cases hs
  | receive r words =>
    simp only [step] at hs
    split at hs
    · rename_i reply rest hdown
      split at hs
      · cases hs
        have hmem : reply ∈ (s.peer r).down := by rw [hdown]; exact List.mem_cons_self
        refine h.event r _ (wf_handleMessage (h.wf r) _) (event_handleMessage (h.wf r).tidy _)
          (names_nameplate L.P (h.nameplates r reply hmem)) ?_ ?_ rfl
        · rintro rfl
          exact names_mailbox L.P (h.mailboxes reply hmem)
        · rw [hdown]
          exact List.subset_cons_self reply rest
      · cases hs
    · cases hs
  | timeout r id =>
    simp only [step] at hs
    obtain ⟨c', hc', rfl⟩ := Option.map_eq_some_iff.mp hs
    refine h.event r _ (wf_timeout (h.wf r) hc') (event_timeout .null hc') (.inl rfl) ?_
      (List.Subset.refl (s.peer r).down) rfl
    intro _ ht
    cases ht
  | addMessage r phase body =>
    simp only [step] at hs
    split at hs
    · rename_i hst; cases hs; exact inv_addMessage h r phase body hst
    · cases hs

theorem inv_reachable (h : (lts L).Reachable s) : Inv L s := by
  refine LTS.Inductive.reachable (M := lts L) ⟨?_, ?_⟩ s h
  · rintro s rfl
    refine ⟨.before (.inl rfl) rfl rfl nofun, .created rfl rfl rfl nofun, ?_, nofun, ?_, ?_,
      Nat.le_refl 0⟩
    · exact fun r => wf_new L.appId (L.side r)
    · intro r reply hr; cases hr
    · intro reply hr; cases hr
  · intro s l t hI hs
    exact inv_step hI hs

/-! ## What both have opened -/

theorem orElse_str (id nameplate : String) :
    orElse (.str id) (.str nameplate) = .str (if id = "" then nameplate else id) := by
  unfold orElse jsTruthy Json.truthy
  by_cases h : id = ""
  · simp [h]
  · simp [h]

/-- **The initiator waits in the mailbox that is called like its nameplate.** The
receiver goes to the one behind the nameplate, so they meet only where the relay
gave that mailbox the name of the nameplate. -/
theorem same_mailbox_iff (h : (lts L).Reachable s)
    (hi : (s.peer .initiator).wormhole.mailbox.state = .opened)
    (hr : (s.peer .receiver).wormhole.mailbox.state = .opened) :
    ∃ code nameplate password id,
      (s.peer .initiator).wormhole.code = some code ∧
      (s.peer .receiver).wormhole.code = some code ∧
      parseCode code = some (nameplate, password) ∧ s.found = [id] ∧
      ((s.peer .initiator).wormhole.mailbox.mailbox = (s.peer .receiver).wormhole.mailbox.mailbox ↔
        id = nameplate ∨ id = "") := by
  have hI := inv_reachable h
  obtain ⟨n, words, hcode, hm1⟩ := hI.initiating.opensNameplate hi
  obtain ⟨nameplate, password, id, hid, hparse, hm2⟩ := hI.receiving.opensFound hr
  obtain ⟨code, hcode', hparse⟩ := Option.bind_eq_some_iff.mp hparse
  have hsame := hI.code code hcode'
  rw [hcode] at hsame
  cases hsame
  have hn : nameplate = toString n := parseCode_generateCode (dash_not_mem_toString n) hparse
  subst hn
  have hfound : s.found = [id] := by
    have hlen : s.found.length ≤ 1 := by
      have h1 := hI.claims
      have h2 : claimed (s.peer .receiver).wormhole ≤ 1 := by
        unfold claimed
        split <;> omega
      omega
    match hf : s.found, hlen with
    | [], _ => rw [hf] at hid; cases hid
    | [id'], _ => rw [hf, List.mem_singleton] at hid; rw [hid]
  refine ⟨_, _, password, id, hcode, hcode', hparse, hfound, ?_⟩
  rw [hm1, hm2, orElse_str]
  by_cases he : id = ""
  · rw [if_pos he]
    exact ⟨fun _ => .inr he, fun _ => rfl⟩
  · rw [if_neg he, Json.str.injEq]
    constructor
    · intro hid
      exact .inl hid.symm
    · intro hid
      exact (hid.resolve_right he).symm

end

/-! ## Runs on fixed inputs -/

/-- `str` on the values these runs convert. -/
def pyStr : PyStr := ⟨fun _ => "", fun _ => ""⟩

def site : Site where
  P := pyStr
  str := fun _ => "undefined"
  serverApp := "wh.tools/v1"
  appId := "wh.tools/v1"
  side
    | .initiator => "side-0badc0ffee"
    | .receiver => "side-0ddba11000"

/-- Allocating, waiting and connecting, where the relay draws `token` as the id of
the nameplate's mailbox. A claim is answered with an `ack` and then `claimed`. -/
def meetRun (token : String) : List Lbl :=
  [.allocate 2, .opened .initiator, .read .initiator "" [.own false],
   .receive .initiator ["guitar", "sunset"], .receive .initiator ["guitar", "sunset"],
   .read .initiator token [.own true], .receive .initiator ["guitar", "sunset"],
   .waitForPeer, .read .initiator "" [.ack true], .receive .initiator ["guitar", "sunset"],
   .connect, .opened .receiver, .read .receiver "" [.own false],
   .receive .receiver [], .receive .receiver [],
   .read .receiver "" [.ack true, .own false], .receive .receiver [], .receive .receiver [],
   .read .receiver "" [.ack true], .receive .receiver []]

def met (token : String) : St := LTS.after (step site) (init site) (meetRun token)

/-- They meet when the mailbox of nameplate 1 is called 1. -/
theorem met_in_nameplate :
    ((met "1").peer .initiator).wormhole.mailbox.mailbox =
      ((met "1").peer .receiver).wormhole.mailbox.mailbox := by
  have hr : (lts site).Reachable (met "1") :=
    LTS.reachable_of_exec rfl (LTS.exec_after (by decide +kernel))
  obtain ⟨code, nameplate, password, id, hc, _, hp, hf, hiff⟩ :=
    same_mailbox_iff hr (by decide +kernel) (by decide +kernel)
  have hcode : ((met "1").peer .initiator).wormhole.code = some "1-guitar-sunset" := by
    decide +kernel
  have hfound : (met "1").found = ["1"] := by decide +kernel
  have hparse : parseCode "1-guitar-sunset" = some ("1", "guitar-sunset") := by decide +kernel
  rw [hc] at hcode
  cases hcode
  rw [hparse] at hp
  cases hp
  rw [hfound] at hf
  cases hf
  exact hiff.mpr (.inl rfl)

/-- The name of a mailbox. -/
def nameOf : Json → Option String
  | .str s => some s
  | _ => none

def drawn : String := "5ad0b5a5f8c811edb1b30242ac120002"

/-- The initiator waits in mailbox "1", and the receiver, with the code the
initiator was given, opens the mailbox behind nameplate 1. -/
theorem opened_apart :
    ∃ s, (lts site).Reachable s ∧
      (s.peer .initiator).wormhole.mailbox.state = .opened ∧
      (s.peer .receiver).wormhole.mailbox.state = .opened ∧
      (s.peer .receiver).wormhole.code = (s.peer .initiator).wormhole.code ∧
      nameOf (s.peer .initiator).wormhole.mailbox.mailbox = some "1" ∧
      nameOf (s.peer .receiver).wormhole.mailbox.mailbox = some drawn ∧
      (s.peer .initiator).wormhole.mailbox.mailbox ≠
        (s.peer .receiver).wormhole.mailbox.mailbox := by
  have hr : (lts site).Reachable (met drawn) :=
    LTS.reachable_of_exec rfl (LTS.exec_after (by decide +kernel))
  have h1 : nameOf ((met drawn).peer .initiator).wormhole.mailbox.mailbox = some "1" := by
    decide +kernel
  have h2 : nameOf ((met drawn).peer .receiver).wormhole.mailbox.mailbox = some drawn := by
    decide +kernel
  refine ⟨_, hr, by decide +kernel, by decide +kernel, by decide +kernel, h1, h2, ?_⟩
  intro he
  rw [he, h2] at h1
  exact absurd h1 (by decide)

end Wormhole.L5.Rendezvous
