import Wormhole.Core.Dict
import Wormhole.Core.LTS
import Wormhole.L4App.MailboxRequests

/-!
# The promises of `request`

`MailboxClient` of `packages/mailbox/src/index.js`, as far as its requests go: the socket it has,
the requests it waits for, their timers, and the calls of `close` under way. What the handlers of
other messages do, they do by calls of their own; `state` is read by none of what is here.

Every event may come at any time. `onclose` may be that of a socket that was `this.ws` once:
`close` puts `null` there before the socket has closed.

A promise that is settled stays as it is: a later `resolve` or `reject` does nothing. `settlements`
has those that did something, and so tells how often each promise was settled.

`cleanup` stops the timers and empties the map, and tells nobody.

* `settled_once_iff`: every promise is settled once, or will be by its timer, all along a run,
  exactly when nothing is cleaned up before every promise is settled (`Meets`).
* `timeout_settles`, `abandoned_forever`: a timer that runs settles its promise; a promise left
  without its timer is never settled.
-/
namespace Wormhole.L5.RequestPromises
open Wormhole.L1 Wormhole.L4.MailboxRequests

/-! ## The client -/

/-- `readyState` of the socket. -/
inductive ReadyState
  | connecting
  | opened
  | closing
  | closed
deriving DecidableEq

inductive Settlement
  | resolved (msg : Json)
  /-- By an error reply. -/
  | rejected (error : Json)
  | timedOut
  /-- `send` threw. -/
  | notConnected

/-- Requests are numbered as they are made; `String(n)` is the id of request `n`. An entry of
`pendingRequests` has the `resolve`, `reject` and `timeout` of the request it gives. `closing` has
the requests of the calls of `close` that wait for them, `sent` the requests that were sent. -/
structure Client where
  ws : Option ReadyState
  mailbox : Json
  messageId : Nat
  pendingRequests : Dict String Nat
  timers : List Nat
  settlements : List (Nat × Settlement)
  closing : List Nat
  sent : List Json

def Client.new : Client where
  ws := none
  mailbox := .null
  messageId := 0
  pendingRequests := Dict.empty
  timers := []
  settlements := []
  closing := []
  sent := []

inductive Event
  | connect
  | readyState (s : ReadyState)
  | onclose
  | onerror
  | message (msg : Json)
  | timeout (n : Nat)
  /-- A call of `request`, by any method but the next two. -/
  | request (msg : Fields)
  | openMailbox (mailbox : Json)
  | close
  /-- The request of a call of `close` is settled. -/
  | closeGoesOn (n : Nat)

namespace Client

def Settled (c : Client) (n : Nat) : Prop := n ∈ c.settlements.map Prod.fst

instance (c : Client) (n : Nat) : Decidable (c.Settled n) :=
  inferInstanceAs (Decidable (n ∈ c.settlements.map Prod.fst))

/-- `resolve` or `reject` of request `n`. -/
def settle (c : Client) (n : Nat) (s : Settlement) : Client :=
  if c.Settled n then c else { c with settlements := c.settlements ++ [(n, s)] }

def clearTimeout (c : Client) (n : Nat) : Client :=
  { c with timers := c.timers.filter fun t => t ≠ n }

def delete (c : Client) (id : String) : Client :=
  { c with pendingRequests := c.pendingRequests.del id }

/-- The message as it is sent, with the id of request `n`. -/
def withId (msg : Fields) (n : Nat) : Json :=
  .obj (msg.filter (fun f => f.1 ≠ "id") ++ [("id", .str (toString n))])

/-- mirrors packages/mailbox/src/index.js:358-371 and :343-351 (`send`) -/
def request (c : Client) (msg : Fields) : Client :=
  let n := c.messageId + 1
  let waiting := { c with
    messageId := n
    timers := n :: c.timers
    pendingRequests := c.pendingRequests.set (toString n) n }
  if c.ws = some .opened then { waiting with sent := c.sent ++ [withId msg n] }
  else waiting.settle n .notConnected

/-- mirrors packages/mailbox/src/index.js:363-366 (`request`) -/
def timeout (c : Client) (n : Nat) : Option Client :=
  if n ∈ c.timers then some (((c.clearTimeout n).delete (toString n)).settle n .timedOut)
  else none

/-- The entry that a message is the reply to: its id, and its request.
mirrors packages/mailbox/src/index.js:379-380 (`handleMessage`) -/
def replyTo (c : Client) (msg : Json) : Option (String × Nat) :=
  match field msg "id" with
  | .str id => if id = "" then none else (c.pendingRequests.get? id).map fun n => (id, n)
  | _ => none

/-- mirrors packages/mailbox/src/index.js:384-388 (`handleMessage`) -/
def outcome (msg : Json) : Settlement :=
  match field msg "type" with
  | .str "error" => .rejected (errorOf msg "Request failed")
  | _ => .resolved msg

/-- mirrors packages/mailbox/src/index.js:377-390 -/
def handleMessage (c : Client) (msg : Json) : Client :=
  match c.replyTo msg with
  | some (id, n) => ((c.delete id).clearTimeout n).settle n (outcome msg)
  | none => c

/-- mirrors packages/mailbox/src/index.js:447-455 -/
def cleanup (c : Client) : Client :=
  { c.pendingRequests.values.foldl clearTimeout c with
    pendingRequests := Dict.empty
    ws := none }

/-- Up to its request, or to the end where there is no mailbox.
mirrors packages/mailbox/src/index.js:323-337 -/
def close (c : Client) : Client :=
  if jsTruthy c.mailbox then
    { c.request [("type", .str "close"), ("mailbox", c.mailbox), ("mood", .str "happy")] with
      closing := (c.messageId + 1) :: c.closing }
  else c.cleanup

/-- `openMailbox` is `open` once it has its mailbox, `connect` once it has its socket.
mirrors packages/mailbox/src/index.js:95, :117-127 (`connect`), :196-197 (`open`) and :332-336
(`close`) -/
def step (c : Client) : Event → Option Client
  | .connect => some { c with ws := some .connecting }
  | .readyState s => c.ws.map fun _ => { c with ws := some s }
  | .onclose => some c.cleanup
  | .onerror => some c
  | .message msg => some (c.handleMessage msg)
  | .timeout n => c.timeout n
  | .request msg => some (c.request msg)
  | .openMailbox mailbox => some
    ({ c with mailbox := mailbox }.request [("type", .str "open"), ("mailbox", mailbox)])
  | .close => some c.close
  | .closeGoesOn n =>
    if n ∈ c.closing ∧ c.Settled n then some { c with closing := c.closing.erase n }.cleanup
    else none

end Client

def system : LTS Client Event := .ofStep (· = .new) Client.step

/-! ## Settled once -/

def Client.timesSettled (c : Client) (n : Nat) : Nat := (c.settlements.map Prod.fst).count n

/-- Every promise has been settled once, or has not been and its timer runs. -/
def Kept (c : Client) : Prop :=
  ∀ n, 0 < n → n ≤ c.messageId → c.timesSettled n = 1 ∨ c.timesSettled n = 0 ∧ n ∈ c.timers

/-- The event is one that cleans up. -/
def CleansUp (c : Client) : Event → Prop
  | .onclose => True
  | .close => jsTruthy c.mailbox = false
  | .closeGoesOn _ => True
  | _ => False

/-- Nothing is cleaned up before every promise has been settled. -/
def Meets (c : Client) (e : Event) : Prop :=
  CleansUp c e → ∀ n, 0 < n → n ≤ c.messageId → c.Settled n

/-- The map has the requests whose timers run, each under its id, and no promise is settled twice
or before it is there. -/
structure Inv (c : Client) : Prop where
  entry : ∀ id n, c.pendingRequests.get? id = some n → id = toString n ∧ n ∈ c.timers
  timer : ∀ n ∈ c.timers, c.pendingRequests.get? (toString n) = some n ∧ n ≤ c.messageId
  once : (c.settlements.map Prod.fst).Nodup
  made : ∀ n, c.Settled n → n ≤ c.messageId

section Settle

variable {c : Client} {n m : Nat} {s : Settlement}

@[simp] theorem settle_timers : (c.settle n s).timers = c.timers := by
  unfold Client.settle
  split <;> rfl
@[simp] theorem settle_pendingRequests :
    (c.settle n s).pendingRequests = c.pendingRequests := by
  unfold Client.settle
  split <;> rfl
@[simp] theorem settle_messageId : (c.settle n s).messageId = c.messageId := by
  unfold Client.settle
  split <;> rfl

@[simp] theorem settled_settle : (c.settle n s).Settled m ↔ m = n ∨ c.Settled m := by
  unfold Client.settle
  split
  · rename_i h
    exact ⟨.inr, fun hm => hm.elim (fun e => e ▸ h) id⟩
  · simp [Client.Settled, or_comm]

theorem once_settle (h : (c.settlements.map Prod.fst).Nodup) :
    ((c.settle n s).settlements.map Prod.fst).Nodup := by
  unfold Client.settle
  split
  · exact h
  · rename_i hn
    rw [List.map_append]
    exact h.append (List.nodup_singleton n) (by simpa [Client.Settled] using hn)

theorem Inv.settle (h : Inv c) (hn : n ≤ c.messageId) : Inv (c.settle n s) := by
  refine ⟨?_, ?_, once_settle h.once, ?_⟩
  · simpa using h.entry
  · simpa using h.timer
  · intro m hm
    rw [settle_messageId]
    rcases settled_settle.mp hm with rfl | hm
    · exact hn
    · exact h.made m hm

theorem timesSettled_of (h : Inv c) (n : Nat) :
    c.timesSettled n = if c.Settled n then 1 else 0 := h.once.count

theorem kept_iff (h : Inv c) :
    Kept c ↔ ∀ n, 0 < n → n ≤ c.messageId → c.Settled n ∨ n ∈ c.timers := by
  refine forall_congr' fun n => forall_congr' fun _ => forall_congr' fun _ => ?_
  rw [timesSettled_of h]
  split
  · rename_i hs
    exact iff_of_true (.inl rfl) (.inl hs)
  · rename_i hs
    simp [hs]

end Settle

/-! ## Steps -/

section Steps

variable {c c' : Client} {e : Event} {n : Nat}

theorem foldl_clearTimeout (ns : List Nat) (c : Client) :
    ns.foldl Client.clearTimeout c = { c with timers := c.timers.filter fun t => t ∉ ns } := by
  induction ns generalizing c with
  | nil => simp
  | cons n ns ih =>
    rw [List.foldl_cons, ih]
    simp only [Client.clearTimeout, List.filter_filter, List.mem_cons, not_or, Bool.decide_and,
      Bool.and_comm]

/-- Every timer that runs is one of the map's. -/
theorem cleanup_eq (h : Inv c) :
    c.cleanup = { c with timers := [], pendingRequests := Dict.empty, ws := none } := by
  unfold Client.cleanup
  rw [foldl_clearTimeout]
  have hnil : (c.timers.filter fun t => t ∉ c.pendingRequests.values) = [] := by
    rw [List.filter_eq_nil_iff]
    intro t ht
    have hmem : t ∈ c.pendingRequests.values :=
      List.mem_map_of_mem (f := Prod.snd) (Dict.mem_entries.mpr (h.timer t ht).1)
    simpa using hmem
  rw [hnil]

theorem Inv.cleanup (h : Inv c) : Inv c.cleanup := by
  rw [cleanup_eq h]
  refine ⟨?_, ?_, h.once, h.made⟩
  · intro id n hn
    cases hn
  · intro n hn
    cases hn

/-- A timer is stopped and the entry that has it is taken out. -/
theorem Inv.drop (h : Inv c) (n : Nat) : Inv ((c.clearTimeout n).delete (toString n)) := by
  refine ⟨?_, ?_, h.once, h.made⟩
  · intro id k hk
    simp only [Client.delete, Client.clearTimeout, Dict.get?_del] at hk
    split at hk
    · cases hk
    · rename_i hid
      obtain ⟨rfl, hmem⟩ := h.entry id k hk
      refine ⟨rfl, ?_⟩
      simp only [Client.delete, Client.clearTimeout, List.mem_filter, decide_eq_true_eq]
      exact ⟨hmem, fun e => hid (by rw [e])⟩
  · intro k hk
    simp only [Client.delete, Client.clearTimeout, List.mem_filter, decide_eq_true_eq] at hk
    obtain ⟨hget, hle⟩ := h.timer k hk.1
    refine ⟨?_, hle⟩
    simp only [Client.delete, Client.clearTimeout]
    rw [Dict.get?_del_ne _ fun e => hk.2 (toString_inj e).symm]
    exact hget

theorem Inv.fresh (h : Inv c) : ¬c.Settled (c.messageId + 1) :=
  fun hs => absurd (h.made _ hs) (Nat.not_succ_le_self _)

theorem Inv.request (h : Inv c) (msg : Fields) : Inv (c.request msg) := by
  let n := c.messageId + 1
  have hwait : Inv { c with
      messageId := n
      timers := n :: c.timers
      pendingRequests := c.pendingRequests.set (toString n) n } := by
    refine ⟨?_, ?_, h.once, fun n hn => Nat.le_succ_of_le (h.made n hn)⟩
    · intro id n hget
      rw [Dict.get?_set] at hget
      split at hget
      · rename_i hid
        cases hget
        exact ⟨hid.symm, List.mem_cons_self⟩
      · obtain ⟨hid, hmem⟩ := h.entry id n hget
        exact ⟨hid, List.mem_cons_of_mem _ hmem⟩
    · intro n hn
      rcases List.mem_cons.mp hn with rfl | hn
      · exact ⟨Dict.get?_set_self _ _ _, le_refl _⟩
      · obtain ⟨hget, hle⟩ := h.timer n hn
        refine ⟨?_, Nat.le_succ_of_le hle⟩
        rw [Dict.get?_set_ne]
        · exact hget
        · intro he
          have hsame := toString_inj he
          omega
  unfold Client.request
  dsimp only
  split
  · exact ⟨hwait.entry, hwait.timer, hwait.once, hwait.made⟩
  · exact hwait.settle (le_refl _)

theorem replyTo_entry {msg : Json} {id : String} (h : c.replyTo msg = some (id, n)) :
    c.pendingRequests.get? id = some n := by
  unfold Client.replyTo at h
  split at h
  · split at h
    · cases h
    · rw [Option.map_eq_some_iff] at h
      obtain ⟨k, hget, he⟩ := h
      cases he
      exact hget
  · cases h

/-- What a message does: nothing, or what the reply to a request does. -/
theorem handleMessage_cases (h : Inv c) (msg : Json) :
    c.handleMessage msg = c ∨
      ∃ n ∈ c.timers, c.handleMessage msg =
        ((c.clearTimeout n).delete (toString n)).settle n (Client.outcome msg) := by
  unfold Client.handleMessage
  split
  · rename_i id n hr
    obtain ⟨rfl, hmem⟩ := h.entry id n (replyTo_entry hr)
    exact .inr ⟨n, hmem, rfl⟩
  · exact .inl rfl

/-- The clients agree on all that is said about promises. -/
structure Same (c c' : Client) : Prop where
  pendingRequests : c'.pendingRequests = c.pendingRequests
  timers : c'.timers = c.timers
  settlements : c'.settlements = c.settlements
  messageId : c'.messageId = c.messageId

theorem Same.settled (h : Same c c') (n : Nat) : c'.Settled n ↔ c.Settled n := by
  unfold Client.Settled
  rw [h.settlements]

theorem Same.inv (h : Same c c') (hi : Inv c) : Inv c' := by
  refine ⟨?_, ?_, ?_, ?_⟩
  · rw [h.pendingRequests, h.timers]
    exact hi.entry
  · rw [h.pendingRequests, h.timers, h.messageId]
    exact hi.timer
  · rw [h.settlements]
    exact hi.once
  · intro n hn
    rw [h.messageId]
    exact hi.made n ((h.settled n).mp hn)

/-- Everything that happens to the promises in a step. -/
inductive Move (c : Client) (e : Event) : Client → Prop
  | still (c' : Client) (h : Same c c') (hc : ¬CleansUp c e) : Move c e c'
  | requested (msg : Fields) (c₀ c' : Client) (h₀ : Same c c₀) (h : Same (c₀.request msg) c')
      (hc : ¬CleansUp c e) : Move c e c'
  | ended (n : Nat) (s : Settlement) (hn : n ∈ c.timers) (hc : ¬CleansUp c e) :
      Move c e (((c.clearTimeout n).delete (toString n)).settle n s)
  | cleaned (c₀ : Client) (h₀ : Same c c₀) (hc : CleansUp c e) : Move c e c₀.cleanup

theorem step_move (h : Inv c) (hs : c.step e = some c') : Move c e c' := by
  cases e with
  | connect =>
    cases hs
    exact .still _ ⟨rfl, rfl, rfl, rfl⟩ id
  | readyState s =>
    rw [Client.step, Option.map_eq_some_iff] at hs
    obtain ⟨ws, -, rfl⟩ := hs
    exact .still _ ⟨rfl, rfl, rfl, rfl⟩ id
  | onclose =>
    cases hs
    exact .cleaned c ⟨rfl, rfl, rfl, rfl⟩ trivial
  | onerror =>
    cases hs
    exact .still _ ⟨rfl, rfl, rfl, rfl⟩ id
  | message msg =>
    cases hs
    rcases handleMessage_cases h msg with he | ⟨n, hn, he⟩
    · rw [he]
      exact .still _ ⟨rfl, rfl, rfl, rfl⟩ id
    · rw [he]
      exact .ended n _ hn id
  | timeout n =>
    simp only [Client.step, Client.timeout] at hs
    split at hs
    · rename_i hn
      cases hs
      exact .ended n _ hn id
    · cases hs
  | request msg =>
    cases hs
    exact .requested msg c _ ⟨rfl, rfl, rfl, rfl⟩ ⟨rfl, rfl, rfl, rfl⟩ id
  | openMailbox mailbox =>
    cases hs
    exact .requested _ { c with mailbox := mailbox } _ ⟨rfl, rfl, rfl, rfl⟩
      ⟨rfl, rfl, rfl, rfl⟩ id
  | close =>
    cases hs
    unfold Client.close
    split
    · rename_i hm
      refine .requested _ c _ ⟨rfl, rfl, rfl, rfl⟩ ⟨rfl, rfl, rfl, rfl⟩ ?_
      simp [CleansUp, hm]
    · rename_i hm
      exact .cleaned c ⟨rfl, rfl, rfl, rfl⟩ (by simpa [CleansUp] using hm)
  | closeGoesOn n =>
    simp only [Client.step] at hs
    split at hs
    · cases hs
      exact .cleaned { c with closing := c.closing.erase n } ⟨rfl, rfl, rfl, rfl⟩ trivial
    · cases hs

theorem inv_step (h : Inv c) (hs : c.step e = some c') : Inv c' := by
  cases step_move h hs with
  | still _ hsame _ => exact hsame.inv h
  | requested msg c₀ _ h₀ hsame _ => exact hsame.inv ((h₀.inv h).request msg)
  | ended n s hn _ => exact (h.drop n).settle (h.timer n hn).2
  | cleaned c₀ h₀ _ => exact (h₀.inv h).cleanup

/-- Settled, or with its timer. -/
def Client.Cared (c : Client) (n : Nat) : Prop := c.Settled n ∨ n ∈ c.timers

theorem Same.cared (h : Same c c') (n : Nat) : c'.Cared n ↔ c.Cared n := by
  unfold Client.Cared
  rw [h.settled, h.timers]

/-- A request has a timer, whether it is sent or not. -/
theorem cared_request (msg : Fields) :
    (c.request msg).Cared n ↔ n = c.messageId + 1 ∨ c.Cared n := by
  unfold Client.request Client.Cared
  dsimp only
  split
  · simp only [Client.Settled, List.mem_cons]
    exact or_left_comm
  · simp only [settled_settle, settle_timers, List.mem_cons]
    simp only [Client.Settled]
    tauto

theorem request_messageId (msg : Fields) : (c.request msg).messageId = c.messageId + 1 := by
  unfold Client.request
  dsimp only
  split
  · rfl
  · rw [settle_messageId]

theorem cared_ended (s : Settlement) {k : Nat} :
    (((c.clearTimeout n).delete (toString n)).settle n s).Cared k ↔ k = n ∨ c.Cared k := by
  unfold Client.Cared
  rw [settled_settle, settle_timers]
  simp only [Client.delete, Client.clearTimeout, List.mem_filter, decide_eq_true_eq]
  simp only [Client.Settled]
  tauto

theorem kept_step (h : Inv c) (hk : Kept c) (hs : c.step e = some c') : Kept c' ↔ Meets c e := by
  rw [kept_iff (inv_step h hs)]
  rw [kept_iff h] at hk
  cases step_move h hs with
  | still _ hsame hc =>
    refine iff_of_true ?_ fun hcl => absurd hcl hc
    intro n h0 hn
    rw [hsame.messageId] at hn
    exact (hsame.cared n).mpr (hk n h0 hn)
  | requested msg c₀ _ h₀ hsame hc =>
    refine iff_of_true ?_ fun hcl => absurd hcl hc
    intro n h0 hn
    rw [hsame.messageId, request_messageId] at hn
    refine (hsame.cared n).mpr ((cared_request msg).mpr ?_)
    rcases Nat.of_le_succ hn with hle | heq
    · rw [h₀.messageId] at hle
      exact .inr ((h₀.cared n).mpr (hk n h0 hle))
    · exact .inl heq
  | ended n s hn hc =>
    refine iff_of_true ?_ fun hcl => absurd hcl hc
    intro k h0 hle
    rw [settle_messageId] at hle
    exact (cared_ended s).mpr (.inr (hk k h0 hle))
  | cleaned c₀ h₀ hc =>
    rw [cleanup_eq (h₀.inv h)]
    simp only [List.not_mem_nil, or_false, h₀.messageId]
    refine ⟨fun hall _ n h0 hn => (h₀.settled n).mp (hall n h0 hn), fun hm n h0 hn => ?_⟩
    exact (h₀.settled n).mpr (hm hc n h0 hn)

/-- What a timer is for. -/
theorem timeout_settles (h : Inv c) (hn : n ∈ c.timers) :
    ∃ c', c.step (.timeout n) = some c' ∧ c'.timesSettled n = 1 := by
  have hs : c.step (.timeout n) =
      some (((c.clearTimeout n).delete (toString n)).settle n .timedOut) := if_pos hn
  refine ⟨_, hs, ?_⟩
  rw [timesSettled_of (inv_step h hs), if_pos (settled_settle.mpr (.inl rfl))]

/-! ## Left without a timer -/

/-- The promise of request `n` waits for a timer that does not run. -/
structure Abandoned (c : Client) (n : Nat) : Prop where
  made : n ≤ c.messageId
  pending : ¬c.Settled n
  timer : n ∉ c.timers

theorem abandoned_iff : Abandoned c n ↔ n ≤ c.messageId ∧ ¬c.Cared n :=
  ⟨fun h => ⟨h.made, not_or.mpr ⟨h.pending, h.timer⟩⟩,
    fun h => ⟨h.1, (not_or.mp h.2).1, (not_or.mp h.2).2⟩⟩

theorem abandoned_step (hi : Inv c) (h : Abandoned c n) (hs : c.step e = some c') :
    Abandoned c' n := by
  rw [abandoned_iff] at h ⊢
  obtain ⟨hle, hc⟩ := h
  cases step_move hi hs with
  | still _ hsame _ => exact ⟨by rw [hsame.messageId]; exact hle, (hsame.cared n).not.mpr hc⟩
  | requested msg c₀ _ h₀ hsame _ =>
    rw [hsame.messageId, hsame.cared, request_messageId, cared_request, h₀.cared, h₀.messageId]
    refine ⟨Nat.le_succ_of_le hle, not_or.mpr ⟨?_, hc⟩⟩
    omega
  | ended k s hk _ =>
    rw [settle_messageId, cared_ended]
    exact ⟨hle, not_or.mpr ⟨fun he => hc (.inr (he ▸ hk)), hc⟩⟩
  | cleaned c₀ h₀ _ =>
    rw [cleanup_eq (h₀.inv hi)]
    refine ⟨by rw [← h₀.messageId] at hle; exact hle, not_or.mpr ⟨?_, List.not_mem_nil⟩⟩
    exact fun hset => hc (.inl ((h₀.settled n).mp hset))

end Steps

theorem inv_new : Inv .new := by
  refine ⟨?_, ?_, List.nodup_nil, ?_⟩
  · intro id n h
    cases h
  · intro n h
    cases h
  · intro n h
    cases h

theorem kept_new : Kept .new := fun _ h0 hn => absurd (h0.trans_le hn) (lt_irrefl 0)

/-- Nothing settles it, whatever comes. -/
theorem abandoned_forever {c c' : Client} {n : Nat} {events : List Event} (hi : Inv c)
    (h : Abandoned c n) (hr : system.Run c events c') : c'.timesSettled n = 0 := by
  have hboth := hr.invariant (I := fun c => Inv c ∧ Abandoned c n)
    (fun c e c' hc hs => ⟨inv_step hc.1 hs, abandoned_step hc.1 hc.2 hs⟩) ⟨hi, h⟩
  rw [timesSettled_of hboth.1, if_neg hboth.2.pending]

/-- **No promise is abandoned**: along a whole run every promise is settled once, or its timer
runs, exactly when nothing is cleaned up while a promise waits. -/
theorem settled_once_iff {events : List Event} {c : Client} (hr : system.Run .new events c) :
    (∀ done c', done <+: events → system.Run .new done c' → Kept c') ↔
      (system.restrict Meets).Run .new events c := by
  refine LTS.Run.prefixes_iff (I := Inv) (fun _ _ _ h hs => inv_step h hs) ?_ hr inv_new kept_new
  intro c e c' h hk hs
  exact kept_step h hk hs

/-- A request that is answered, and one that times out, before the socket closes. -/
def answeredRun : List Event :=
  [.connect, .readyState .opened, .request [("type", .str "allocate")],
    .request [("type", .str "ping")],
    .message (.obj [("type", .str "allocated"), ("id", .str "1")]), .timeout 2, .onclose]

def meets (c : Client) (e : Event) : Bool :=
  let cleansUp := match e with
    | .onclose => true
    | .close => !jsTruthy c.mailbox
    | .closeGoesOn _ => true
    | _ => false
  !cleansUp || (List.range (c.messageId + 1)).all fun n => n = 0 || c.Settled n

theorem meets_of_check (c : Client) (e : Event) (h : meets c e = true) : Meets c e := by
  intro hc n h0 hn
  have hall : ((List.range (c.messageId + 1)).all
      fun n => n = 0 || decide (c.Settled n)) = true := by
    cases e <;> first | exact hc.elim | simpa [meets] using h | skip
    simpa [meets, show jsTruthy c.mailbox = false from hc] using h
  have hone := List.all_eq_true.mp hall n (List.mem_range.mpr (Nat.lt_succ_of_le hn))
  simpa [Nat.pos_iff_ne_zero.mp h0] using hone

def answeredClient : Client := LTS.after (LTS.checked meets Client.step) .new answeredRun

theorem settled_once_answered :
    Kept answeredClient ∧
      answeredClient.timesSettled 1 = 1 ∧ answeredClient.timesSettled 2 = 1 := by
  have hmeets : (system.restrict Meets).Run .new answeredRun answeredClient :=
    LTS.restrict_run_of_exec meets_of_check (LTS.exec_after (by decide +kernel))
  have hrun : system.Run .new answeredRun answeredClient := hmeets.of_restrict
  exact ⟨(settled_once_iff hrun).mpr hmeets _ _ (List.prefix_refl _) hrun, by decide +kernel,
    by decide +kernel⟩

/-- A request, and the socket closes. -/
def closedRun : List Event :=
  [.connect, .readyState .opened, .request [("type", .str "allocate")], .onclose]

def closedClient : Client := LTS.after Client.step .new closedRun

/-- Its promise is never settled, whatever comes. -/
theorem closed_socket_abandons :
    system.Run .new closedRun closedClient ∧ ¬Kept closedClient ∧
      ∀ events c, system.Run closedClient events c → c.timesSettled 1 = 0 := by
  have hrun : system.Run .new closedRun closedClient :=
    LTS.run_of_exec (LTS.exec_after (by decide +kernel))
  have hinv : Inv closedClient :=
    hrun.invariant (I := Inv) (fun _ _ _ h hs => inv_step h hs) inv_new
  have habandoned : Abandoned closedClient 1 :=
    ⟨by decide +kernel, by decide +kernel, by decide +kernel⟩
  refine ⟨hrun, ?_, fun events c hr => abandoned_forever hinv habandoned hr⟩
  intro hk
  rcases (kept_iff hinv).mp hk 1 Nat.one_pos habandoned.made with hs | ht
  · exact habandoned.pending hs
  · exact habandoned.timer ht

end Wormhole.L5.RequestPromises
