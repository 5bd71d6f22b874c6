import Wormhole.L4App.MailboxRequests
import Wormhole.L5Concurrency.MailboxSystem

/-!
# A mailbox client against the mailbox server

One `MailboxClient` (`packages/mailbox/src/index.js`) is connection `i` of a
`MailboxServer` (`src/wh/relay/mailbox.py`) that any other clients use as well.
Both directions of its socket are queues that lose nothing (`up`, `down`), and
the socket stays open. The server is `Wormhole.L5.MailboxSystem`: `read` hands
it the client's next message, `server` is any other step of it.

`answering` is the request whose message the client's coroutine read last, and
`received` is what has reached the client, each with the request the client
took it to answer. Neither is looked at by a step.

The server sends no `id` but that of a stored message, so the client takes none
of its replies for an answer (`isReply_unmatched`), and no request is ever
settled by its reply (`answered_iff`). `reply_ignored` is the run in which `allocate` times
out with the reply long received.
-/
namespace Wormhole.L5.RequestReplies
open Wormhole.L1 Wormhole.L4.MailboxServer Wormhole.L4.MailboxRequests
open Wormhole.L5.MailboxSystem (Via Sent emitted)

/-! ## State -/

/-- A frame to the client; `answering` is the request its coroutine was at. -/
structure Delivery where
  frame : Frame
  via : Via
  answering : Option String

structure St where
  server : MailboxSystem.St
  client : Client
  up : List Json
  down : List Delivery
  answering : Option String
  received : List (Delivery × Option String)

/-- What a run does not change. `i` is the client's connection. -/
structure Link where
  P : PyStr
  i : ConnId
  serverApp : String
  appId : String
  side : String

def init (L : Link) : St :=
  ⟨MailboxSystem.init L.serverApp, .new L.appId L.side, [], [], none, []⟩

/-! ## Steps -/

inductive Lbl
  | connect
  | opened
  | call (api : Api)
  | read (token : String)
  | server (l : MailboxSystem.Lbl)
  | receive
  | timeout (id : String)

/-- The frame of a step of the server, when it is for the client. -/
def delivered (L : Link) (s : St) (l : MailboxSystem.Lbl) : List Delivery :=
  match emitted s.server l with
  | some sent =>
    if sent.dst = L.i then
      [⟨sent.frame, sent.via, if l.subject = L.i then s.answering else none⟩]
    else []
  | none => []

def serverStep (L : Link) (s : St) (l : MailboxSystem.Lbl) : Option St :=
  (MailboxSystem.step s.server l).map fun server =>
    { s with server := server, down := s.down ++ delivered L s l }

/-- Steps of the server that are not its own to take: what the client sends is
`read`, the socket does not close, and it does not open before `connect`. -/
def barred (L : Link) (c : Client) : MailboxSystem.Lbl → Bool
  | .recv j _ _ => j = L.i
  | .drop j => j = L.i
  | .connect j => j = L.i ∧ c.state = .disconnected
  | _ => false

def step (L : Link) (s : St) : Lbl → Option St
  | .connect =>
    if s.client.state = .disconnected then some { s with client := s.client.connect } else none
  | .opened =>
    if s.client.state = .connecting then
      some { s with client := s.client.onOpen.1, up := s.up ++ [s.client.onOpen.2] }
    else none
  | .call api =>
    match s.client.call api with
    | .ok (c, sent) => some { s with client := c, up := s.up ++ sent.toList }
    | .error _ => some s
  | .read token =>
    match s.up with
    | data :: rest =>
      serverStep L { s with up := rest, answering := idOf data } (.recv L.i (.json data) token)
    | [] => none
  | .server l => if barred L s.client l then none else serverStep L s l
  | .receive =>
    if s.client.state = .connected ∨ s.client.state = .opened then
      match s.down with
      | d :: rest => some { s with
          client := s.client.handleMessage (d.frame.toJson L.P)
          down := rest
          received := s.received ++ [(d, s.client.replyTo (d.frame.toJson L.P))] }
      | [] => none
    else none
  | .timeout id => (s.client.timeout id).map fun c => { s with client := c }

def lts (L : Link) : LTS St Lbl := .ofStep (· = init L) (step L)

/-! ## Replies -/

/-- A frame that a handler answers the client's own message with, not one of a
replay or a fan-out. -/
def Delivery.isReply (d : Delivery) : Prop := d.via = .own

/-- The request of a call was settled by the server's reply to it, and
`allocate` returned what the server allocated. -/
def Kept (s : St) (call : Call) : Prop :=
  ∃ d, (d, some call.id) ∈ s.received ∧ d.isReply ∧ d.answering = some call.id ∧
    (call.api = .allocate → ∃ n, d.frame = .allocated n ∧ call.result = some (.ok (.str n)))

/-- Every call will be kept in some continuation. -/
def Answered (L : Link) (s : St) : Prop :=
  ∀ call ∈ s.client.calls, ∃ ls t, (lts L).Run s ls t ∧
    ∃ later ∈ t.client.calls, later.id = call.id ∧ Kept t later

/-- A message of a mailbox. -/
def Stored (f : Frame) : Prop := ∃ msg, f = .message msg

/-- Only a stored message has an `id` on the wire. -/
theorem replyTo_frame {P : PyStr} {c : Client} {f : Frame} {id : String}
    (h : c.replyTo (f.toJson P) = some id) : Stored f := by
  cases f with
  | message msg => exact ⟨msg, rfl⟩
  | _ => simp [Client.replyTo, field, Frame.toJson, Fields.get] at h

theorem handled_reply {srv : Server} {st : ClientState} {i : ConnId} {token : String}
    {data : Json} {out : Out} (h : Handled srv st i token data out) {f : Frame}
    (hf : out.next = .reply f) : ¬ Stored f := by
  rintro ⟨msg, rfl⟩
  cases h with
  | quiet data next hq hd => cases hf; cases hq
  | _ => cases hf

/-- What the coroutines are about to reply, what is on its way and what has
arrived: a reply is never a stored message. -/
structure Inv (s : St) : Prop where
  tasks : ∀ j f, (s.server.conn j).task = .reply f → ¬ Stored f
  down : ∀ d ∈ s.down, d.isReply → ¬ Stored d.frame
  received : ∀ p ∈ s.received, p.1.isReply → p.2 = none

theorem tasks_move {s t : MailboxSystem.St} {l : MailboxSystem.Lbl}
    (hI : ∀ j f, (s.conn j).task = .reply f → ¬ Stored f) (hm : MailboxSystem.Move s l t) :
    ∀ j f, (t.conn j).task = .reply f → ¬ Stored f := by
  intro j f hf
  by_cases hj : j = l.subject
  · subst hj
    cases hm with
    | handled i data token out ht ho h =>
      refine handled_reply h (MailboxSystem.nextTask_reply ?_)
      simpa [MailboxSystem.Lbl.subject] using hf
    | drop i => exact hI i f (by simpa [MailboxSystem.Lbl.subject] using hf)
    | replayed i m msg rest ht hup =>
      simp only [MailboxSystem.upd_conn, MailboxSystem.Lbl.subject, if_true,
        MailboxSystem.goto_task, MailboxSystem.replaying] at hf
      split at hf <;> cases hf
    | notified i dst m msg rest ht hdst hup =>
      simp only [MailboxSystem.upd_conn, MailboxSystem.Lbl.subject, if_true,
        MailboxSystem.goto_task, MailboxSystem.notifying] at hf
      split at hf <;> cases hf
    | discarded i dst m msg rest ht hdst hup =>
      simp only [MailboxSystem.upd_conn, MailboxSystem.Lbl.subject, if_true,
        MailboxSystem.goto_task, MailboxSystem.notifying] at hf
      split at hf <;> cases hf
    | _ => simp [MailboxSystem.Lbl.subject, MailboxSystem.finish] at hf
  · rw [MailboxSystem.conn_frame hm hj] at hf
    exact hI j f hf

theorem emitted_reply {s : MailboxSystem.St} {l : MailboxSystem.Lbl} {sent : Sent}
    (hI : ∀ j f, (s.conn j).task = .reply f → ¬ Stored f) (he : emitted s l = some sent)
    (hv : sent.via = .own) : ¬ Stored sent.frame := by
  unfold emitted at he
  split at he
  · split at he
    · cases he; rintro ⟨_, h⟩; cases h
    · rename_i f ht hup; cases he; exact hI _ f ht
    · cases he; cases hv
    · cases he; rintro ⟨_, h⟩; cases h
    · cases he
  · split at he
    · split at he
      · cases he; cases hv
      · cases he
    · cases he
  · cases he

theorem inv_serverStep {L : Link} {s t : St} {l : MailboxSystem.Lbl} (hI : Inv s)
    (h : serverStep L s l = some t) : Inv t := by
  unfold serverStep at h
  obtain ⟨server, hs, rfl⟩ := Option.map_eq_some_iff.mp h
  refine ⟨tasks_move hI.tasks (MailboxSystem.step_move hs), ?_, hI.received⟩
  intro d hd hr
  rcases List.mem_append.mp hd with hd | hd
  · exact hI.down d hd hr
  · unfold delivered at hd
    split at hd
    · rename_i sent he
      split at hd
      · rw [List.mem_singleton] at hd
        subst hd
        exact emitted_reply hI.tasks he hr
      · cases hd
    · cases hd

theorem inv_step {L : Link} {s t : St} {l : Lbl} (hI : Inv s) (h : step L s l = some t) :
    Inv t := by
  cases l with
  | connect =>
    simp only [step] at h
    split at h
    · cases h; exact ⟨hI.tasks, hI.down, hI.received⟩
    · cases h
  | opened =>
    simp only [step] at h
    split at h
    · cases h; exact ⟨hI.tasks, hI.down, hI.received⟩
    · cases h
  | call api =>
    simp only [step] at h
    split at h
    · cases h; exact ⟨hI.tasks, hI.down, hI.received⟩
    · cases h; exact hI
  | read token =>
    simp only [step] at h
    split at h
    · rename_i data rest hup
      exact inv_serverStep (s := { s with up := rest, answering := idOf data })
        ⟨hI.tasks, hI.down, hI.received⟩ h
    · cases h
  | server l =>
    simp only [step] at h
    split at h
    · cases h
    · exact inv_serverStep hI h
  | receive =>
    simp only [step] at h
    split at h
    · split at h
      · rename_i d rest hd
        cases h
        refine ⟨hI.tasks, fun e he => hI.down e (by rw [hd]; exact List.mem_cons_of_mem d he), ?_⟩
        intro p hp hr
        rcases List.mem_append.mp hp with hp | hp
        · exact hI.received p hp hr
        · rw [List.mem_singleton] at hp
          subst hp
          cases hid : s.client.replyTo (d.frame.toJson L.P) with
          | none => rfl
          | some id =>
            have hd : d ∈ s.down := by rw [hd]; exact List.mem_cons_self
            exact absurd (replyTo_frame hid) (hI.down d hd hr)
      · cases h
    · cases h
  | timeout id =>
    simp only [step] at h
    obtain ⟨c, _, rfl⟩ := Option.map_eq_some_iff.mp h
    exact ⟨hI.tasks, hI.down, hI.received⟩

variable {L : Link} {s : St}

theorem inv_reachable (h : (lts L).Reachable s) : Inv s := by
  refine LTS.Inductive.reachable (M := lts L) ⟨?_, ?_⟩ s h
  · rintro s rfl
    refine ⟨?_, ?_, ?_⟩
    · intro j f hf; cases hf
    · intro d hd; cases hd
    · intro p hp; cases hp
  · intro s l t hI hs
    exact inv_step hI hs

/-- The client takes no reply of the server for an answer. -/
theorem isReply_unmatched (h : (lts L).Reachable s) {d : Delivery} {id : Option String}
    (hd : (d, id) ∈ s.received) (hr : d.isReply) : id = none :=
  (inv_reachable h).received _ hd hr

theorem not_answered (h : (lts L).Reachable s) {call : Call} (hc : call ∈ s.client.calls) :
    ¬ Answered L s := by
  intro ha
  obtain ⟨ls, t, hrun, later, _, _, d, hd, hr, _⟩ := ha call hc
  cases isReply_unmatched (h.run hrun) hd hr

/-- **No request is ever settled by its reply.** The client and the server speak
one protocol only as long as the client asks for nothing. -/
theorem answered_iff (h : (lts L).Reachable s) : Answered L s ↔ s.client.calls = [] := by
  constructor
  · intro ha
    rw [List.eq_nil_iff_forall_not_mem]
    intro call hc
    exact not_answered h hc ha
  · intro hc call hcall
    rw [hc] at hcall
    cases hcall

/-! ## Runs on fixed inputs -/

/-- `str` on the values these runs convert. -/
def pyStr : PyStr := ⟨fun _ => "", fun _ => ""⟩

def link : Link := ⟨pyStr, 0, "wh.tools/v1", "wh.tools/v1", "side-0badc0ffee"⟩

/-- The client connects, binds and asks for a nameplate. -/
def askRun : List Lbl :=
  [.connect, .server (.connect 0), .opened, .server (.send 0), .receive,
   .read "", .server (.send 0), .receive, .call .allocate]

/-- The server answers, and half a minute later the request times out. -/
def ignoredRun : List Lbl :=
  askRun ++ [Lbl.read "5ad0b5a5f8c811edb1b30242ac120002", .server (.send 0), .receive, .timeout "1"]

def askState : St := LTS.after (step link) (init link) askRun

def ignoredState : St := LTS.after (step link) (init link) ignoredRun

/-- A request on its way is one that no reply will settle. -/
theorem asked_unanswered : ¬ Answered link askState := by
  have hr : (lts link).Reachable askState :=
    LTS.reachable_of_exec rfl (LTS.exec_after (by decide +kernel))
  rw [answered_iff hr]
  intro hc
  have hl : askState.client.calls.length = 1 := by decide +kernel
  rw [hc] at hl
  cases hl

/-- The call whose request has timed out, when its reply was received. -/
def ignored (s : St) (n : String) : Option Call :=
  s.client.calls.find? fun call =>
    (match call.promise with | .timedOut => true | _ => false) &&
    s.received.any fun p =>
      p.2.isNone && p.1.answering == some call.id &&
      match p.1.frame with | .allocated m => m == n | _ => false

theorem of_ignored {n : String} (h : (ignored s n).isSome = true) :
    ∃ call ∈ s.client.calls, call.promise = .timedOut ∧
      ∃ d, (d, none) ∈ s.received ∧ d.answering = some call.id ∧ d.frame = .allocated n := by
  obtain ⟨call, hcall⟩ := Option.isSome_iff_exists.mp h
  have hmem := List.mem_of_find?_eq_some hcall
  have hp := List.find?_some hcall
  rw [Bool.and_eq_true] at hp
  obtain ⟨h1, h2⟩ := hp
  obtain ⟨⟨d, id⟩, hd, hp⟩ := List.any_eq_true.mp h2
  simp only [Bool.and_eq_true] at hp
  obtain ⟨⟨hid, ha⟩, hf⟩ := hp
  refine ⟨call, hmem, ?_, d, ?_, beq_iff_eq.mp ha, ?_⟩
  · split at h1
    · assumption
    · cases h1
  · rwa [Option.isNone_iff_eq_none.mp hid] at hd
  · split at hf
    · rename_i m hm; rw [hm, beq_iff_eq.mp hf]
    · cases hf

/-- The server allocates nameplate 1 and says so, the client receives it, and
`allocate` still fails with the timeout of its request. -/
theorem reply_ignored :
    ∃ s, (lts link).Reachable s ∧
      (∃ call ∈ s.client.calls, call.promise = .timedOut ∧
        ∃ d, (d, none) ∈ s.received ∧ d.answering = some call.id ∧ d.frame = .allocated "1") ∧
      ¬ Answered link s := by
  have hr : (lts link).Reachable ignoredState :=
    LTS.reachable_of_exec rfl (LTS.exec_after (by decide +kernel))
  have hi : (ignored ignoredState "1").isSome = true := by decide +kernel
  obtain ⟨call, hc, hp⟩ := of_ignored hi
  exact ⟨_, hr, ⟨call, hc, hp⟩, not_answered hr hc⟩

end Wormhole.L5.RequestReplies
