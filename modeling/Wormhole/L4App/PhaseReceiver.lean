import Wormhole.L4App.WormholeMessages

/-!
# The receiving half of an undilated wormhole

`Wormhole.receive` takes the next number as the phase it waits for and
registers one handler for it; nothing is kept of a message for which there is
no handler. A call is `waiting` from there until its handler is called,
`opening` while the body is decrypted, and then `resolved`; one that waits too
long has `timedOut` (`packages/protocol/src/index.js`,
`packages/mailbox/src/index.js`).

* `handleMessage_one`: a message for phase `i` reaches the call that waits for
  it and no other.
* `handleMessage_none`, `handleMessage_reply`: a message that nobody waits for,
  or that is taken for the reply to a request, is dropped.
-/
namespace Wormhole.L4.PhaseReceiver
open Wormhole.L1 Wormhole.L3 Wormhole.L4.MailboxClient Wormhole.L4.WormholeMessages

/-- A call of `receive`; `waiting` also before the call. -/
inductive Rx
  | waiting
  | opening (dataBody : Body)
  | resolved (data : Option Bytes)
  | timedOut
  deriving DecidableEq

/-- `handlers` are the calls whose handler is registered, in that order;
`pendingRequests` are the ids of the client's unanswered requests. -/
structure Receiver where
  nextRxPhase : Nat
  handlers : List Nat
  rx : Nat → Rx
  pendingRequests : List String

def Receiver.init : Receiver := ⟨0, [], fun _ => .waiting, []⟩

/-- mirrors packages/protocol/src/index.js:373-380 (`receive`) and
packages/mailbox/src/index.js:291-306 (`waitForPhaseWithSide`) -/
def Receiver.receive (r : Receiver) : Receiver :=
  { r with nextRxPhase := r.nextRxPhase + 1, handlers := r.handlers ++ [r.nextRxPhase] }

/-- Whether the handler of call `i` resolves with the message, and so takes
itself out.

mirrors packages/mailbox/src/index.js:298-304 -/
def wants (side : String) (msg : MessageFrame) (i : Nat) : Bool :=
  match onMessage side msg with
  | some (phase, _, _) => phase == toString i
  | none => false

/-- mirrors packages/mailbox/src/index.js:377-402 (`handleMessage`) -/
def Receiver.handleMessage (side : String) (r : Receiver) (msg : MessageFrame) : Receiver :=
  if msg.id ≠ "" ∧ msg.id ∈ r.pendingRequests then
    { r with pendingRequests := r.pendingRequests.erase msg.id }
  else
    let walked := dispatch (wants side msg) r.handlers
    { r with
      handlers := walked.1
      rx := fun i =>
        if i ∈ walked.2 ∧ wants side msg i then .opening (decodeBody msg.body) else r.rx i }

/-- Call `i` goes on with the body it was given.

mirrors packages/protocol/src/index.js:383-394 (`receive`) -/
def Receiver.finish (P : Crypto) (w : Session) (r : Receiver) (i : Nat) : Option Receiver :=
  match r.rx i with
  | .opening dataBody => some { r with
      rx := fun j => if j = i then .resolved (receiveBody P w (toString i) dataBody) else r.rx j }
  | _ => none

/-- The timer of call `i`, which its handler would have cleared.

mirrors packages/mailbox/src/index.js:293-296 (`waitForPhaseWithSide`) -/
def Receiver.timeout (r : Receiver) (i : Nat) : Option Receiver :=
  if i ∈ r.handlers then
    some { r with
      handlers := r.handlers.erase i
      rx := fun j => if j = i then .timedOut else r.rx j }
  else none

def Receiver.request (r : Receiver) (id : String) : Receiver :=
  { r with pendingRequests := r.pendingRequests ++ [id] }

/-- A request is answered, or times out. -/
def Receiver.settle (r : Receiver) (id : String) : Receiver :=
  { r with pendingRequests := r.pendingRequests.erase id }

section
variable {side : String} {r : Receiver} {msg : MessageFrame}

theorem wants_own {i : Nat} (h : msg.side = side) : wants side msg i = false := by
  unfold wants onMessage
  rw [if_pos h]

theorem wants_iff {i j : Nat} (h : msg.side ≠ side) (hp : msg.phase = toString j) :
    wants side msg i = true ↔ i = j := by
  unfold wants onMessage
  rw [if_neg h]
  show (msg.phase == toString i) = true ↔ i = j
  rw [beq_iff_eq, hp]
  constructor
  · intro heq
    exact (toString_inj heq).symm
  · intro heq
    rw [heq]

theorem handleMessage_reply (h1 : msg.id ≠ "") (h2 : msg.id ∈ r.pendingRequests) :
    r.handleMessage side msg = r.settle msg.id := if_pos ⟨h1, h2⟩

theorem handleMessage_none (h : ∀ i ∈ r.handlers, wants side msg i = false) :
    (r.handleMessage side msg).handlers = r.handlers ∧
      (r.handleMessage side msg).rx = r.rx ∧
      (r.handleMessage side msg).nextRxPhase = r.nextRxPhase := by
  unfold Receiver.handleMessage
  split
  · exact ⟨rfl, rfl, rfl⟩
  · rw [dispatch_none h]
    refine ⟨rfl, funext fun i => ?_, rfl⟩
    exact if_neg fun hi => by simp [h i hi.1] at hi

/-- A message for call `i`, which has been made and still waits. -/
theorem handleMessage_one {i : Nat} (hid : ¬ (msg.id ≠ "" ∧ msg.id ∈ r.pendingRequests))
    (hs : msg.side ≠ side) (hp : msg.phase = toString i) (hi : i ∈ r.handlers)
    (hn : r.handlers.Nodup) :
    r.handleMessage side msg = { r with
      handlers := r.handlers.erase i
      rx := fun j => if j = i then .opening (decodeBody msg.body) else r.rx j } := by
  obtain ⟨before, after, hba⟩ := List.append_of_mem hi
  rw [hba] at hn
  obtain ⟨hn1, hn2, hdis⟩ := List.nodup_append.mp hn
  have hb : i ∉ before := fun h => hdis i h i List.mem_cons_self rfl
  have ha : i ∉ after := (List.nodup_cons.mp hn2).1
  have hother : ∀ l : List Nat, i ∉ l → ∀ x ∈ l, wants side msg x = false := by
    intro l hl x hx
    rw [Bool.eq_false_iff]
    intro hw
    rw [(wants_iff hs hp).mp hw] at hx
    exact hl hx
  have hw := dispatch_unique ((wants_iff hs hp).mpr rfl) (hother before hb) (hother after ha)
  unfold Receiver.handleMessage
  rw [if_neg hid, hba, hw]
  have herase : (before ++ i :: after).erase i = before ++ after := by
    rw [List.erase_append_right _ hb, List.erase_cons_head]
  have hrx : (fun j => if j ∈ before ++ i :: after.drop 1 ∧ wants side msg j then
      Rx.opening (decodeBody msg.body) else r.rx j) =
      fun j => if j = i then .opening (decodeBody msg.body) else r.rx j := by
    funext j
    by_cases hj : j = i
    · rw [if_pos hj, if_pos]
      rw [hj]
      exact ⟨by simp, (wants_iff hs hp).mpr rfl⟩
    · rw [if_neg hj, if_neg]
      intro hw
      exact hj ((wants_iff hs hp).mp hw.2)
  rw [herase, ← hrx]

end

end Wormhole.L4.PhaseReceiver
