import Wormhole.L4App.PhaseReceiver
import Wormhole.L5Concurrency.DilationNegotiation
import Wormhole.L5Concurrency.HandlerDispatch
import Wormhole.L5Concurrency.RequestPromises
import Wormhole.L5Concurrency.RequestReplies

/-!
# One mailbox client (`packages/mailbox/src/index.js`)

`MailboxClient` is modelled with what is asked about it each time: `MailboxRequests` has its calls
and what they come to, `RequestPromises` its timers and what stops them, `PhaseReceiver` and
`DilationNegotiation` one caller's handlers, `HandlerDispatch` the arrays of handlers. Here they
are the same client.

* `promises_reachable`: a client and its server go on as the promises of `RequestPromises` do, and
  nothing is cleaned up; `pending_waits` is what that says of a call.
* `receiver_pending`, `side_pending`, `side_requests`, `answers_eq`: the others have the same
  requests pending, and take the same messages for replies.
-/
namespace Wormhole.L5.ClientViews
open Wormhole.L1 Wormhole.L4.MailboxRequests Wormhole.L4.MailboxClient
open Wormhole.L5.RequestPromises (ReadyState Settlement system)

/-! ## Promises -/

def settlementOf (r : RequestPromises.Client) (n : Nat) : Option Settlement :=
  (r.settlements.find? fun p => p.1 = n).map Prod.snd

def promiseOf : Option Settlement → Promise
  | none => .pending
  | some (.resolved msg) => .resolved msg
  | some (.rejected error) => .rejected error
  | some .timedOut => .timedOut
  | some .notConnected => .rejected (.str "WebSocket not connected")

/-- The socket of a client that nothing closes. -/
def socketOf : State → Option ReadyState
  | .disconnected => none
  | .connecting => some .connecting
  | .connected => some .opened
  | .opened => some .opened

structure Agree (c : Client) (r : RequestPromises.Client) : Prop where
  wf : c.Wf
  inv : RequestPromises.Inv r
  ws : r.ws = socketOf c.state
  named : jsTruthy c.nameplate = true → socketOf c.state = some .opened
  messageId : r.messageId = c.messageId
  pendingRequests : r.pendingRequests.keys = c.pendingRequests
  promise : ∀ n call, c.find (toString n) = some call →
    call.promise = promiseOf (settlementOf r n)
  waiting : ∀ n ∈ r.timers, ¬r.Settled n

section

variable {c c' : Client} {r : RequestPromises.Client} {n : Nat} {s : Settlement} {id : String}
  {msg : Json}

theorem settlementOf_none : settlementOf r n = none ↔ ¬r.Settled n := by
  unfold settlementOf RequestPromises.Client.Settled
  rw [Option.map_eq_none_iff, List.find?_eq_none]
  simp only [decide_eq_true_eq, List.mem_map, not_exists, not_and]

theorem settlementOf_settle (h : ¬r.Settled n) (s : Settlement) (k : Nat) :
    settlementOf (r.settle n s) k = if k = n then some s else settlementOf r k := by
  have hnone := Option.map_eq_none_iff.mp (settlementOf_none.mpr h)
  unfold RequestPromises.Client.settle
  rw [if_neg h]
  unfold settlementOf
  rw [List.find?_append]
  split
  · rename_i hk
    rw [hk, hnone, Option.none_or, List.find?_singleton, if_pos (decide_eq_true rfl)]
    rfl
  · rename_i hk
    rw [List.find?_singleton, if_neg (by simpa using Ne.symm hk), Option.or_none]

theorem settle_ws : (r.settle n s).ws = r.ws := by
  unfold RequestPromises.Client.settle
  split
  · rfl
  · rfl

theorem socketOf_opened {state : State} :
    socketOf state = some .opened ↔ state = .connected ∨ state = .opened := by
  cases state <;> simp [socketOf]

theorem get?_next (h : RequestPromises.Inv r) :
    r.pendingRequests.get? (toString (r.messageId + 1)) = none := by
  cases hget : r.pendingRequests.get? (toString (r.messageId + 1)) with
  | none => rfl
  | some n =>
    obtain ⟨hid, hn⟩ := h.entry _ n hget
    have hle := (h.timer n hn).2
    have hsame := toString_inj hid
    omega

/-- What a promise does when it settles: its call goes on, or it does not. -/
theorem settle_cases (c : Client) (id : String) (promise : Promise) :
    c.settle id promise = c.settled id promise ∨
      ∃ api msg, c.settle id promise = (c.settled id promise).resume api msg := by
  unfold Client.settle Client.settled
  dsimp only
  split
  · exact .inr ⟨_, _, rfl⟩
  · exact .inl rfl

theorem settle_pending (c : Client) (id : String) (promise : Promise) :
    (c.settle id promise).pendingRequests = c.pendingRequests.erase id := by
  rcases settle_cases c id promise with he | ⟨api, msg, he⟩
  · rw [he]
    rfl
  · rw [he, resume_pendingRequests]
    rfl

/-! ## Steps -/

theorem agree_new (appId side : String) : Agree (.new appId side) .new where
  wf := wf_new appId side
  inv := RequestPromises.inv_new
  ws := rfl
  named := fun h => nomatch h
  messageId := rfl
  pendingRequests := rfl
  promise := fun _ _ h => nomatch h
  waiting := fun _ h => nomatch h

theorem Agree.request (h : Agree c r) (hopen : r.ws = some .opened) (api : Api) (fields : Fields) :
    Agree (c.request api fields).1 (r.request fields) := by
  have hsent : r.request fields = { r with
      messageId := r.messageId + 1
      timers := (r.messageId + 1) :: r.timers
      pendingRequests := r.pendingRequests.set (toString (r.messageId + 1)) (r.messageId + 1)
      sent := r.sent ++ [RequestPromises.Client.withId fields (r.messageId + 1)] } := if_pos hopen
  have hinv := h.inv.request fields
  rw [hsent] at hinv ⊢
  refine ⟨wf_request h.wf api fields, hinv, h.ws, h.named, ?_, ?_, ?_, ?_⟩
  · exact congrArg Nat.succ h.messageId
  · show (r.pendingRequests.set _ _).keys = c.pendingRequests ++ [toString (c.messageId + 1)]
    rw [Dict.keys_set (get?_next h.inv), h.pendingRequests, h.messageId]
  · intro n call hcall
    show call.promise = promiseOf (settlementOf r n)
    rw [find_request, Option.or_eq_some_iff] at hcall
    rcases hcall with hold | ⟨-, hnew⟩
    · exact h.promise n call hold
    · split at hnew
      · rename_i hid
        cases hnew
        have hn : c.messageId + 1 = n := toString_inj hid
        rw [← hn, ← h.messageId, settlementOf_none.mpr h.inv.fresh]
        rfl
      · cases hnew
  · intro n hn
    rcases List.mem_cons.mp hn with rfl | hn
    · exact h.inv.fresh
    · exact h.waiting n hn

/-- The promise of request `n` settles. -/
theorem Agree.ended (h : Agree c r) (hn : n ∈ r.timers) (s : Settlement) :
    Agree (c.settled (toString n) (promiseOf (some s)))
      (((r.clearTimeout n).delete (toString n)).settle n s) := by
  have hfresh : ¬((r.clearTimeout n).delete (toString n)).Settled n := h.waiting n hn
  refine ⟨wf_settled h.wf _ _, (h.inv.drop n).settle (h.inv.timer n hn).2, ?_, h.named, ?_, ?_, ?_,
    ?_⟩
  · rw [settle_ws]
    exact h.ws
  · rw [RequestPromises.settle_messageId]
    exact h.messageId
  · rw [RequestPromises.settle_pendingRequests]
    show (r.pendingRequests.del (toString n)).keys = c.pendingRequests.erase (toString n)
    rw [Dict.keys_del, h.pendingRequests]
  · intro k call hcall
    rw [settlementOf_settle hfresh]
    rw [find_settled, Option.map_eq_some_iff] at hcall
    obtain ⟨old, hold, rfl⟩ := hcall
    have hid : old.id = toString k := by simpa using List.find?_some hold
    by_cases hk : k = n
    · rw [if_pos hk, if_pos (hid.trans (by rw [hk]))]
    · rw [if_neg hk, if_neg fun he => hk (toString_inj (hid.symm.trans he))]
      exact h.promise k old hold
  · intro k hk
    rw [RequestPromises.settle_timers] at hk
    obtain ⟨hk, hne⟩ := List.mem_filter.mp hk
    rw [RequestPromises.settled_settle]
    exact not_or.mpr ⟨of_decide_eq_true hne, h.waiting k hk⟩

theorem Agree.resume (h : Agree c r) (hopen : r.ws = some .opened) (api : Api) (msg : Json) :
    Agree (c.resume api msg) r := by
  have hstate : socketOf c.state = some .opened := h.ws.symm.trans hopen
  have hresumed : socketOf (c.resume api msg).state = some .opened := by
    cases api with
    | openMailbox => rfl
    | _ => exact hstate
  refine ⟨?_, h.inv, hopen.trans hresumed.symm, fun _ => hresumed, ?_, ?_, ?_, h.waiting⟩
  · refine h.wf.of_eq (resume_messageHandlers _ _ _) (resume_messageId _ _ _) fun id hid => ?_
    rwa [resume_find]
  · rw [resume_messageId]
    exact h.messageId
  · rw [resume_pendingRequests]
    exact h.pendingRequests
  · intro n call hcall
    rw [resume_find] at hcall
    exact h.promise n call hcall

theorem Agree.settle (h : Agree c r) (hopen : r.ws = some .opened) (hn : n ∈ r.timers)
    (s : Settlement) :
    Agree (c.settle (toString n) (promiseOf (some s)))
      (((r.clearTimeout n).delete (toString n)).settle n s) := by
  have hended := h.ended hn s
  rcases settle_cases c (toString n) (promiseOf (some s)) with he | ⟨api, msg, he⟩
  · rwa [he]
  · rw [he]
    exact hended.resume (settle_ws.trans hopen) api msg

theorem Agree.dispatched (h : Agree c r) (hwf : c'.Wf) (hd : Dispatched msg c c') :
    Agree c' r := by
  refine ⟨hwf, h.inv, ?_, ?_, h.messageId.trans hd.messageId.symm,
    h.pendingRequests.trans hd.pendingRequests.symm, ?_, h.waiting⟩
  · rw [hd.state]
    exact h.ws
  · rw [hd.state, hd.nameplate]
    exact h.named
  · intro n call hcall
    cases hold : c.find (toString n) with
    | none => cases (hd.none _ hold).symm.trans hcall
    | some old =>
      obtain ⟨call', hcall', hheard⟩ := hd.some _ old hold
      cases hcall'.symm.trans hcall
      rw [hheard.promise]
      exact h.promise n old hold

theorem Agree.replyTo (h : Agree c r) (msg : Json) :
    c.replyTo msg = (r.replyTo msg).map Prod.fst := by
  unfold Client.replyTo RequestPromises.Client.replyTo
  cases field msg "id" with
  | str id =>
    dsimp only
    have hmem : id ∈ c.pendingRequests ↔ (r.pendingRequests.get? id).isSome := by
      rw [← h.pendingRequests]
      exact Dict.mem_keys
    by_cases hid : id = ""
    · rw [if_pos hid, if_neg fun hp => hp.1 hid]
      rfl
    · rw [if_neg hid]
      cases hget : r.pendingRequests.get? id with
      | none =>
        rw [hget] at hmem
        exact if_neg fun hp => Bool.false_ne_true (hmem.mp hp.2)
      | some n =>
        rw [hget] at hmem
        exact if_pos ⟨hid, hmem.mpr rfl⟩
  | _ => rfl

theorem outcome_error (h : field msg "type" = .str "error") :
    RequestPromises.Client.outcome msg = .rejected (errorOf msg "Request failed") := by
  simp only [RequestPromises.Client.outcome, h]

theorem outcome_other (h : field msg "type" ≠ .str "error") :
    RequestPromises.Client.outcome msg = .resolved msg := by
  unfold RequestPromises.Client.outcome
  split
  · rename_i herror
    exact absurd herror h
  · rfl

/-- The promise of a request settles as the reply says. -/
theorem handleMessage_settles (hr : c.replyTo msg = some id) : c.handleMessage msg =
    c.settle id (promiseOf (some (RequestPromises.Client.outcome msg))) := by
  unfold Client.handleMessage
  rw [hr]
  dsimp only
  by_cases herror : field msg "type" = .str "error"
  · rw [outcome_error herror, herror]
    rfl
  · rw [outcome_other herror]
    split
    · rename_i he
      exact absurd he herror
    · rfl

theorem Agree.handleMessage (h : Agree c r) (hopen : r.ws = some .opened) (msg : Json) :
    Agree (c.handleMessage msg) (r.handleMessage msg) := by
  have hreply := h.replyTo msg
  cases hr : r.replyTo msg with
  | none =>
    rw [hr] at hreply
    have hsame : r.handleMessage msg = r := by
      unfold RequestPromises.Client.handleMessage
      rw [hr]
    rw [hsame]
    exact h.dispatched (wf_handleMessage h.wf msg) (handleMessage_other h.wf.tidy hreply)
  | some entry =>
    obtain ⟨id, n⟩ := entry
    rw [hr] at hreply
    obtain ⟨rfl, hn⟩ := h.inv.entry id n (RequestPromises.replyTo_entry hr)
    have hm : r.handleMessage msg = ((r.clearTimeout n).delete (toString n)).settle n
        (RequestPromises.Client.outcome msg) := by
      unfold RequestPromises.Client.handleMessage
      rw [hr]
      rfl
    rw [handleMessage_settles hreply, hm]
    exact h.settle hopen hn _

end

/-! ## Runs -/

section

variable {L : RequestReplies.Link} {s t : RequestReplies.St} {l : RequestReplies.Lbl}
  {c c' : Client} {r : RequestPromises.Client} {e : RequestPromises.Event}

/-- What happens to the promises in a step of the client or its server. -/
def GoesOn (r : RequestPromises.Client) (c' : Client) : Prop :=
  ∃ events r', (system.restrict RequestPromises.Meets).Run r events r' ∧ Agree c' r'

theorem GoesOn.same (h : Agree c r) : GoesOn r c := ⟨[], r, .nil r, h⟩

theorem GoesOn.step {r' : RequestPromises.Client} (he : ¬RequestPromises.CleansUp r e)
    (hs : r.step e = some r') (h : Agree c' r') : GoesOn r c' :=
  ⟨[e], r', .single ⟨fun hc => absurd hc he, hs⟩, h⟩

theorem Agree.socket (h : Agree c r) (hclosed : socketOf c.state ≠ some .opened) (hwf : c'.Wf)
    (hname : c'.nameplate = c.nameplate) (hid : c'.messageId = c.messageId)
    (hpending : c'.pendingRequests = c.pendingRequests) (hcalls : c'.calls = c.calls) :
    Agree c' { r with ws := socketOf c'.state } := by
  refine ⟨hwf, ⟨h.inv.entry, h.inv.timer, h.inv.once, h.inv.made⟩, rfl, ?_,
    h.messageId.trans hid.symm, h.pendingRequests.trans hpending.symm, ?_, h.waiting⟩
  · rw [hname]
    exact fun hn => absurd (h.named hn) hclosed
  · intro n call hcall
    unfold Client.find at hcall
    rw [hcalls] at hcall
    exact h.promise n call hcall

theorem Agree.prepared {api : Api} {fields : Fields} (h : Agree c r)
    (hp : Prepared c api c' fields) : r.ws = some .opened ∧ Agree c' r := by
  have hopen : socketOf c.state = some .opened := by
    cases hp with
    | allocate hs => rw [hs]; rfl
    | claim nameplate hs => rw [hs]; rfl
    | openMailbox mailbox hn => exact h.named hn
    | addMessage phase body hs => rw [hs]; rfl
    | release hn => exact h.named hn
  obtain ⟨hwf, hstate, hpending, hnext, hfind⟩ := hp.frame h.wf
  refine ⟨h.ws.trans hopen, hwf, h.inv, ?_, ?_, ?_, h.pendingRequests.trans hpending.symm, ?_,
    h.waiting⟩
  · rw [hstate]
    exact h.ws
  · rw [hstate]
    exact fun _ => hopen
  · have hsame := toString_inj hnext
    rw [h.messageId]
    omega
  · intro n call hcall
    rw [hfind] at hcall
    exact h.promise n call hcall

theorem Agree.call {api : Api} {fields : Fields} (h : Agree c r)
    (hp : Prepared c api c' fields) : GoesOn r (c'.request api fields).1 := by
  obtain ⟨hopen, hc⟩ := h.prepared hp
  cases hp with
  | openMailbox mailbox hn =>
    have hmailbox : Agree { c with mailbox := orElse mailbox c.nameplate }
        { r with mailbox := orElse mailbox c.nameplate } :=
      ⟨hc.wf, ⟨hc.inv.entry, hc.inv.timer, hc.inv.once, hc.inv.made⟩, hc.ws, hc.named,
        hc.messageId, hc.pendingRequests, hc.promise, hc.waiting⟩
    exact .step (e := .openMailbox (orElse mailbox c.nameplate)) id rfl
      (hmailbox.request hopen _ _)
  | _ => exact .step (e := .request _) id rfl (hc.request hopen _ _)

theorem Agree.timeout {id : String} (h : Agree c r) (ht : c.timeout id = some c') :
    GoesOn r c' := by
  unfold Client.timeout at ht
  split at ht
  · rename_i hid
    cases ht
    rw [← h.pendingRequests, Dict.mem_keys, Option.isSome_iff_exists] at hid
    obtain ⟨n, hget⟩ := hid
    obtain ⟨rfl, hn⟩ := h.inv.entry _ n hget
    rw [settle_failed fun _ he => by cases he]
    exact .step (e := .timeout n) id (if_pos hn) (h.ended hn .timedOut)
  · cases ht

theorem serverStep_client {l : MailboxSystem.Lbl} (h : RequestReplies.serverStep L s l = some t) :
    t.client = s.client := by
  obtain ⟨server, -, rfl⟩ := Option.map_eq_some_iff.mp h
  rfl

theorem agree_step (h : Agree s.client r) (hs : RequestReplies.step L s l = some t) :
    GoesOn r t.client := by
  cases l with
  | connect =>
    simp only [RequestReplies.step] at hs
    split at hs
    · rename_i hstate
      cases hs
      refine .step (e := .connect) id rfl (h.socket ?_ (wf_connect h.wf) rfl rfl rfl rfl)
      intro he
      rw [hstate] at he
      cases he
    · cases hs
  | opened =>
    simp only [RequestReplies.step] at hs
    split at hs
    · rename_i hstate
      cases hs
      have hws : r.ws = some .connecting := by rw [h.ws, hstate]; rfl
      refine .step (e := .readyState .opened) id ?_
        (h.socket ?_ (h.wf.of_eq rfl rfl fun _ hn => hn) rfl rfl rfl rfl)
      · rw [RequestPromises.Client.step, hws]
        rfl
      · intro he
        rw [hstate] at he
        cases he
    · cases hs
  | call api =>
    simp only [RequestReplies.step] at hs
    split at hs
    · rename_i c sent hcall
      cases hs
      rcases call_prepared hcall with ⟨-, hsame, -⟩ | ⟨c₁, fields, hp, hc, -⟩
      · rw [hsame]
        exact .same h
      · rw [hc]
        exact h.call hp
    · cases hs
      exact .same h
  | read token =>
    simp only [RequestReplies.step] at hs
    split at hs
    · rw [serverStep_client hs]
      exact .same h
    · cases hs
  | server l =>
    simp only [RequestReplies.step] at hs
    split at hs
    · cases hs
    · rw [serverStep_client hs]
      exact .same h
  | receive =>
    simp only [RequestReplies.step] at hs
    split at hs
    · rename_i hstate
      split at hs
      · cases hs
        exact .step (e := .message _) id rfl
          (h.handleMessage (h.ws.trans (socketOf_opened.mpr hstate)) _)
      · cases hs
    · cases hs
  | timeout id =>
    simp only [RequestReplies.step] at hs
    obtain ⟨c, hc, rfl⟩ := Option.map_eq_some_iff.mp hs
    exact h.timeout hc

/-- **One client**: whatever it and its server do, its promises are those of a run of
`RequestPromises` in which nothing is cleaned up. -/
theorem promises_reachable (h : (RequestReplies.lts L).Reachable s) : GoesOn .new s.client := by
  obtain ⟨s₀, ls, rfl, hr⟩ := h
  exact hr.simulate (R := fun s r => Agree s.client r) (fun _ _ _ _ => agree_step)
    (agree_new L.appId L.side)

/-- A call whose promise is pending still has its request, and so its timer. -/
theorem pending_waits (h : (RequestReplies.lts L).Reachable s) {n : Nat} (hn : 0 < n)
    {call : Call} (hcall : s.client.find (toString n) = some call) (hp : call.promise = .pending) :
    toString n ∈ s.client.pendingRequests := by
  obtain ⟨events, r, hr, hagree⟩ := promises_reachable h
  obtain ⟨hinv, hkept⟩ := hr.restrict_invariant
    (I := fun r => RequestPromises.Inv r ∧ RequestPromises.Kept r)
    (fun r e r' hc hm hs => ⟨RequestPromises.inv_step hc.1 hs,
      (RequestPromises.kept_step hc.1 hc.2 hs).mpr hm⟩)
    ⟨RequestPromises.inv_new, RequestPromises.kept_new⟩
  have hle : n ≤ r.messageId := by
    rw [hagree.messageId]
    by_contra hlt
    cases (hagree.wf.fresh n (Nat.lt_of_not_le hlt)).symm.trans hcall
  have hopen : ¬r.Settled n := by
    rw [← settlementOf_none]
    have hpromise := (hagree.promise n call hcall).symm.trans hp
    cases hsettlement : settlementOf r n with
    | none => rfl
    | some s =>
      rw [hsettlement] at hpromise
      cases s <;> cases hpromise
  have htimer := ((RequestPromises.kept_iff hinv).mp hkept n hn hle).resolve_left hopen
  rw [← hagree.pendingRequests, Dict.mem_keys, (hinv.timer n htimer).1]
  rfl

end

/-! ## Requests that wait -/

section

variable {c : Client} {msg : Json} {id : String}

theorem handleMessage_pending (hc : Tidy c) (hid : field msg "id" = .str id) :
    (c.handleMessage msg).pendingRequests =
      if id ≠ "" ∧ id ∈ c.pendingRequests then c.pendingRequests.erase id
      else c.pendingRequests := by
  have hreply : c.replyTo msg = if id ≠ "" ∧ id ∈ c.pendingRequests then some id else none := by
    unfold Client.replyTo
    rw [hid]
  split
  · rename_i hp
    rw [if_pos hp] at hreply
    rcases handleMessage_reply hreply with he | ⟨error, he⟩
    · rw [he, settle_pending]
    · rw [he, settle_pending]
  · rename_i hp
    rw [if_neg hp] at hreply
    exact (handleMessage_other hc hreply).pendingRequests

theorem receiver_pending {p : L4.PhaseReceiver.Receiver} (hc : Tidy c)
    (h : p.pendingRequests = c.pendingRequests) :
    (∀ side frame msg, field msg "id" = .str frame.id →
      (p.handleMessage side frame).pendingRequests = (c.handleMessage msg).pendingRequests) ∧
    (∀ api fields, (p.request c.nextId).pendingRequests =
      (c.request api fields).1.pendingRequests) ∧
    ∀ id promise, (p.settle id).pendingRequests = (c.settle id promise).pendingRequests := by
  refine ⟨?_, ?_, ?_⟩
  · intro side frame msg hid
    rw [handleMessage_pending hc hid, ← h]
    unfold L4.PhaseReceiver.Receiver.handleMessage
    split
    · rfl
    · rfl
  · intro api fields
    exact congrArg (· ++ [c.nextId]) h
  · intro id promise
    rw [settle_pending, ← h]
    rfl

theorem side_pending {x : DilationNegotiation.Side} (hc : Tidy c)
    (h : x.pendingRequests = c.pendingRequests) {frame : MessageFrame}
    (hid : field msg "id" = .str frame.id) :
    (x.handleMessage frame.id frame.phase frame.body).pendingRequests =
      (c.handleMessage msg).pendingRequests := by
  rw [handleMessage_pending hc hid, ← h]
  unfold DilationNegotiation.Side.handleMessage
  split
  · rfl
  · split
    · rfl
    · rfl

/-- The requests of side `x` and their ends are those of its client. -/
theorem side_requests {P : L3.Crypto} {C : DilationNegotiation.Codec} {sharedKey : L1.Bytes}
    {dilationSide : Bool → String} {s t : DilationNegotiation.St} {x : Bool}
    (h : (s.side x).pendingRequests = c.pendingRequests) :
    (∀ api fields, DilationNegotiation.step P C sharedKey dilationSide s (.request x c.nextId) =
        some t → (t.side x).pendingRequests = (c.request api fields).1.pendingRequests) ∧
      ∀ id promise, DilationNegotiation.step P C sharedKey dilationSide s (.settle x id) = some t →
        (t.side x).pendingRequests = (c.settle id promise).pendingRequests := by
  constructor
  · intro api fields hs
    cases hs
    simp only [DilationNegotiation.St.setSide, if_true, h]
    rfl
  · intro id promise hs
    cases hs
    simp only [DilationNegotiation.St.setSide, if_true, h, settle_pending]

theorem answers_eq {H σ : Type*} {d : HandlerDispatch.Client H σ}
    (h : d.pendingRequests = c.pendingRequests) (msg : Json) :
    HandlerDispatch.answers d msg = c.replyTo msg := by
  unfold HandlerDispatch.answers Client.replyTo idOf
  rw [h]
  split
  · rename_i hid
    split at hid
    · cases hid
      rfl
    · cases hid
  · rename_i hid
    split at hid
    · cases hid
    · rfl

end

end Wormhole.L5.ClientViews
