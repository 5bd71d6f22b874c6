import Wormhole.Core.LTS
import Wormhole.L4App.PhaseReceiver

/-!
# `send` and `receive` as a queue

One side sends, one message after the other, into a mailbox that delivers
everything once and in order; the other side calls `receive` whenever it likes.
`send` numbers the messages, `receive` numbers its calls, and a message is
dispatched once, to the handlers that are registered when it arrives.

* `wf_reachable`: message `i` of the mailbox is the `i`-th send, and the calls
  still to be served wait with their handler registered.
* `outcome_run`: what is decided when message `i` arrives stays decided.
* `receive_resolves_iff`: call `i` resolves with the plaintext of send `i`
  exactly when it is waiting as the message arrives, the ciphertext is not text,
  and the message is not taken for a reply.
* `received_run`: what a message becomes that finds its call waiting.
* `fifo_of_expected`: so in a run of which that holds throughout nothing is lost.
* `early_message_lost`: a message that is there before its `receive` is lost.
-/
namespace Wormhole.L5.PhaseFifo
open Wormhole.L1 Wormhole.L3 Wormhole.L4.MailboxClient Wormhole.L4.WormholeMessages
  Wormhole.L4.PhaseReceiver

/-- The sender with its counter and the `send` that is under way, the mailbox
with its messages (phase and body) and the number of those delivered, the
receiver. `sent` has the data of every `send` so far. -/
structure St where
  nextTxPhase : Nat
  sending : Option (Nat × Body)
  sent : List Body
  messages : List (String × String)
  delivered : Nat
  receiver : Receiver

inductive Lbl
  | send (data : Body)
  | added (nonce : Nonce)
  | receive
  | arrive (id : String)
  | own (msg : MessageFrame)
  | request (id : String)
  | settle (id : String)
  | finish (i : Nat)
  | timeout (i : Nat)

section
variable (P : Crypto) (a b : Session)

/-- `own` is one of the receiver's own messages, which the mailbox delivers to
it too.

mirrors packages/protocol/src/index.js:347-395 (`send`, `receive`) -/
def step (s : St) : Lbl → Option St
  | .send data =>
    match s.sending with
    | none => some { s with
        nextTxPhase := s.nextTxPhase + 1
        sending := some (s.nextTxPhase, data)
        sent := s.sent ++ [data] }
    | some _ => none
  | .added nonce =>
    match s.sending with
    | some (n, data) => some { s with
        sending := none
        messages := s.messages ++
          [(toString n, addBody (.binary (sendBody P a (toString n) nonce data)))] }
    | none => none
  | .receive => some { s with receiver := s.receiver.receive }
  | .arrive id =>
    match s.messages[s.delivered]? with
    | some (phase, body) => some { s with
        delivered := s.delivered + 1
        receiver := s.receiver.handleMessage b.side ⟨id, a.side, phase, body⟩ }
    | none => none
  | .own msg =>
    if msg.side = b.side then
      some { s with receiver := s.receiver.handleMessage b.side msg }
    else none
  | .request id => some { s with receiver := s.receiver.request id }
  | .settle id => some { s with receiver := s.receiver.settle id }
  | .finish i => (s.receiver.finish P b i).map fun r => { s with receiver := r }
  | .timeout i => (s.receiver.timeout i).map fun r => { s with receiver := r }

def init : St := ⟨0, none, [], [], 0, .init⟩

def lts : LTS St Lbl := .ofStep (· = init) (step P a b)

end

/-- Everything a step can do. -/
inductive Move (P : Crypto) (a b : Session) (s : St) : Lbl → St → Prop
  | send (data : Body) (h : s.sending = none) :
      Move P a b s (.send data) { s with
        nextTxPhase := s.nextTxPhase + 1
        sending := some (s.nextTxPhase, data)
        sent := s.sent ++ [data] }
  | added (n : Nat) (data : Body) (nonce : Nonce) (h : s.sending = some (n, data)) :
      Move P a b s (.added nonce) { s with
        sending := none
        messages := s.messages ++
          [(toString n, addBody (.binary (sendBody P a (toString n) nonce data)))] }
  | receive : Move P a b s .receive { s with receiver := s.receiver.receive }
  | arrive (id phase body : String) (h : s.messages[s.delivered]? = some (phase, body)) :
      Move P a b s (.arrive id) { s with
        delivered := s.delivered + 1
        receiver := s.receiver.handleMessage b.side ⟨id, a.side, phase, body⟩ }
  | own (msg : MessageFrame) (h : msg.side = b.side) :
      Move P a b s (.own msg) { s with receiver := s.receiver.handleMessage b.side msg }
  | request (id : String) : Move P a b s (.request id) { s with receiver := s.receiver.request id }
  | settle (id : String) : Move P a b s (.settle id) { s with receiver := s.receiver.settle id }
  | finish (i : Nat) (r : Receiver) (h : s.receiver.finish P b i = some r) :
      Move P a b s (.finish i) { s with receiver := r }
  | timeout (i : Nat) (r : Receiver) (h : s.receiver.timeout i = some r) :
      Move P a b s (.timeout i) { s with receiver := r }

theorem step_move {P : Crypto} {a b : Session} {s t : St} {l : Lbl}
    (h : step P a b s l = some t) : Move P a b s l t := by
  unfold step at h
  split at h
  · split at h
    · rename_i hs; cases h; exact .send _ hs
    · cases h
  · split at h
    · rename_i n data hs; cases h; exact .added n data _ hs
    · cases h
  · cases h; exact .receive
  · split at h
    · rename_i phase body hm; cases h; exact .arrive _ phase body hm
    · cases h
  · split at h
    · rename_i hs; cases h; exact .own _ hs
    · cases h
  · cases h; exact .request _
  · cases h; exact .settle _
  · obtain ⟨r, hr, rfl⟩ := Option.map_eq_some_iff.mp h
    exact .finish _ r hr
  · obtain ⟨r, hr, rfl⟩ := Option.map_eq_some_iff.mp h
    exact .timeout _ r hr

/-! ## What the mailbox and the receiver hold -/

/-- The calls with a handler are waiting, and so are those not made yet; of
those that a message may still come for the rest have timed out. -/
structure Calls (r : Receiver) (delivered : Nat) : Prop where
  nodup : r.handlers.Nodup
  made : ∀ i ∈ r.handlers, i < r.nextRxPhase ∧ r.rx i = .waiting
  unmade : ∀ i, r.nextRxPhase ≤ i → r.rx i = .waiting
  rest : ∀ i, delivered ≤ i → i < r.nextRxPhase → i ∈ r.handlers ∨ r.rx i = .timedOut

section
variable {r : Receiver} {d : Nat}

/-- A receiver whose calls are where they were. -/
theorem Calls.of_same {r' : Receiver} (h : Calls r d) (hh : r'.handlers = r.handlers)
    (hx : r'.rx = r.rx) (hn : r'.nextRxPhase = r.nextRxPhase) : Calls r' d := by
  constructor
  · rw [hh]
    exact h.nodup
  · rw [hh, hn, hx]
    exact h.made
  · rw [hn, hx]
    exact h.unmade
  · rw [hh, hn, hx]
    exact h.rest

/-- A call that no message has come for is waiting or has timed out. -/
theorem Calls.idle (h : Calls r d) {i : Nat} (hi : d ≤ i) :
    r.rx i = .waiting ∨ r.rx i = .timedOut := by
  by_cases hn : i < r.nextRxPhase
  · rcases h.rest i hi hn with hmem | ht
    · exact .inl (h.made i hmem).2
    · exact .inr ht
  · exact .inl (h.unmade i (by omega))

theorem Calls.receive (h : Calls r d) : Calls r.receive d := by
  unfold Receiver.receive
  refine ⟨?_, fun i hi => ?_, fun i hi => ?_, fun i h1 h2 => ?_⟩
  · refine List.nodup_append.mpr ⟨h.nodup, List.nodup_singleton _, fun x hx y hy => ?_⟩
    have hlt := (h.made x hx).1
    have hy' := List.mem_singleton.mp hy
    omega
  · show i < r.nextRxPhase + 1 ∧ r.rx i = .waiting
    rcases List.mem_append.mp hi with h' | h'
    · have := h.made i h'
      exact ⟨by omega, this.2⟩
    · have := List.mem_singleton.mp h'
      exact ⟨by omega, h.unmade i (by omega)⟩
  · have hi' : r.nextRxPhase + 1 ≤ i := hi
    exact h.unmade i (by omega)
  · show i ∈ r.handlers ++ [r.nextRxPhase] ∨ r.rx i = .timedOut
    have h2' : i < r.nextRxPhase + 1 := h2
    by_cases hi : i < r.nextRxPhase
    · rcases h.rest i h1 hi with hmem | ht
      · exact .inl (List.mem_append_left _ hmem)
      · exact .inr ht
    · exact .inl (List.mem_append_right _ (List.mem_singleton.mpr (by omega)))

theorem Calls.finish {P : Crypto} {w : Session} {i : Nat} {r' : Receiver} (h : Calls r d)
    (hf : r.finish P w i = some r') : Calls r' d := by
  unfold Receiver.finish at hf
  split at hf
  · rename_i body hx
    cases hf
    have hne : ∀ j, r.rx j = .waiting ∨ r.rx j = .timedOut → j ≠ i := by
      intro j hj hji
      rw [hji, hx] at hj
      rcases hj with hj | hj <;> cases hj
    refine ⟨h.nodup, fun j hj => ?_, fun j hj => ?_, fun j h1 h2 => ?_⟩
    · have hm := h.made j hj
      exact ⟨hm.1, (if_neg (hne j (.inl hm.2))).trans hm.2⟩
    · have hw := h.unmade j hj
      exact (if_neg (hne j (.inl hw))).trans hw
    · rcases h.rest j h1 h2 with hmem | ht
      · exact .inl hmem
      · exact .inr ((if_neg (hne j (.inr ht))).trans ht)
  · cases hf

/-- Call `i` is taken out of the handlers, by its timer or by its message. -/
theorem Calls.erase {i d' : Nat} {x : Rx} (h : Calls r d) (hi : i ∈ r.handlers)
    (hd : d ≤ d') (hx : x = .timedOut ∨ i < d') :
    Calls { r with
      handlers := r.handlers.erase i
      rx := fun j => if j = i then x else r.rx j } d' := by
  have hmade := h.made i hi
  refine ⟨h.nodup.erase i, fun j hj => ?_, fun j hj => ?_, fun j h1 h2 => ?_⟩
  · obtain ⟨hji, hj⟩ := h.nodup.mem_erase_iff.mp hj
    exact ⟨(h.made j hj).1, (if_neg hji).trans (h.made j hj).2⟩
  · have hj' : r.nextRxPhase ≤ j := hj
    exact (if_neg (by omega)).trans (h.unmade j hj)
  · by_cases hji : j = i
    · rcases hx with hx | hx
      · exact .inr ((if_pos hji).trans hx)
      · omega
    · rcases h.rest j (by omega) h2 with hmem | ht
      · exact .inl ((List.mem_erase_of_ne hji).mpr hmem)
      · exact .inr ((if_neg hji).trans ht)

theorem Calls.timeout {i : Nat} {r' : Receiver} (h : Calls r d) (ht : r.timeout i = some r') :
    Calls r' d := by
  unfold Receiver.timeout at ht
  split at ht
  · rename_i hi
    cases ht
    exact h.erase hi (Nat.le_refl d) (.inl rfl)
  · cases ht

/-- One of the receiver's own messages changes nothing but its requests. -/
theorem own_same {side : String} {msg : MessageFrame} (hs : msg.side = side) :
    (r.handleMessage side msg).handlers = r.handlers ∧
      (r.handleMessage side msg).rx = r.rx ∧
      (r.handleMessage side msg).nextRxPhase = r.nextRxPhase :=
  handleMessage_none fun _ _ => wants_own hs

/-- What the next message does to the calls: it is taken by call `d` or dropped. -/
inductive Arrival (side : String) (r : Receiver) (d : Nat) (msg : MessageFrame) : Prop
  | taken (hid : ¬ (msg.id ≠ "" ∧ msg.id ∈ r.pendingRequests)) (hd : d ∈ r.handlers)
      (hr : r.handleMessage side msg = { r with
        handlers := r.handlers.erase d
        rx := fun j => if j = d then .opening (decodeBody msg.body) else r.rx j })
  | dropped (hd : (msg.id ≠ "" ∧ msg.id ∈ r.pendingRequests) ∨ d ∉ r.handlers)
      (hh : (r.handleMessage side msg).handlers = r.handlers)
      (hx : (r.handleMessage side msg).rx = r.rx)
      (hn : (r.handleMessage side msg).nextRxPhase = r.nextRxPhase)

theorem arrival {side : String} (msg : MessageFrame) (h : Calls r d) (hs : msg.side ≠ side)
    (hp : msg.phase = toString d) : Arrival side r d msg := by
  by_cases hid : msg.id ≠ "" ∧ msg.id ∈ r.pendingRequests
  · have hr : r.handleMessage side msg = r.settle msg.id := handleMessage_reply hid.1 hid.2
    refine .dropped (.inl hid) ?_ ?_ ?_
    · rw [hr]; rfl
    · rw [hr]; rfl
    · rw [hr]; rfl
  · by_cases hd : d ∈ r.handlers
    · exact .taken hid hd (handleMessage_one hid hs hp hd h.nodup)
    · have hno : ∀ i ∈ r.handlers, wants side msg i = false := by
        intro i hi
        rw [Bool.eq_false_iff]
        intro hw
        rw [(wants_iff hs hp).mp hw] at hi
        exact hd hi
      obtain ⟨hh, hx, hn⟩ := handleMessage_none hno
      exact .dropped (.inr hd) hh hx hn

theorem Calls.arrive {side : String} {msg : MessageFrame} (h : Calls r d) (hs : msg.side ≠ side)
    (hp : msg.phase = toString d) : Calls (r.handleMessage side msg) (d + 1) := by
  cases arrival _ h hs hp with
  | taken hid hd hr =>
    rw [hr]
    exact h.erase hd (Nat.le_succ d) (.inr (Nat.lt_succ_self d))
  | dropped hd hh hx hn =>
    have hsame := h.of_same hh hx hn
    exact ⟨hsame.nodup, hsame.made, hsame.unmade, fun i h1 h2 => hsame.rest i (by omega) h2⟩

end

/-- Message `i` of the mailbox carries send `i`; a `send` under way is the last. -/
structure Wf (P : Crypto) (a : Session) (s : St) : Prop where
  numbered : s.nextTxPhase = s.sent.length
  count : s.messages.length + s.sending.toList.length = s.sent.length
  sending : ∀ n data, s.sending = some (n, data) →
    n = s.messages.length ∧ s.sent[n]? = some data
  message : ∀ (i : Nat) phase body, s.messages[i]? = some (phase, body) →
    phase = toString i ∧
    ∃ data nonce, s.sent[i]? = some data ∧
      body = addBody (.binary (sendBody P a (toString i) nonce data))
  arrived : s.delivered ≤ s.messages.length
  calls : Calls s.receiver s.delivered

section
variable {P : Crypto} {a b : Session}

theorem Wf.with_receiver {s : St} (h : Wf P a s) {r : Receiver} (hr : Calls r s.delivered) :
    Wf P a { s with receiver := r } :=
  ⟨h.numbered, h.count, h.sending, h.message, h.arrived, hr⟩

theorem wf_send {s : St} (h : Wf P a s) (hs : s.sending = none) (data : Body) :
    Wf P a { s with
      nextTxPhase := s.nextTxPhase + 1
      sending := some (s.nextTxPhase, data)
      sent := s.sent ++ [data] } := by
  have hcount := h.count
  rw [hs] at hcount
  have hlen : s.messages.length = s.sent.length := hcount
  refine ⟨?_, ?_, fun n d hn => ?_, fun i phase body hi => ?_, h.arrived, h.calls⟩
  · show s.nextTxPhase + 1 = (s.sent ++ [data]).length
    rw [List.length_append, h.numbered]
    rfl
  · show s.messages.length + 1 = (s.sent ++ [data]).length
    rw [List.length_append, hlen]
    rfl
  · cases hn
    rw [h.numbered]
    refine ⟨hlen.symm, ?_⟩
    show (s.sent ++ [data])[s.sent.length]? = some data
    rw [List.getElem?_append_right (Nat.le_refl _), Nat.sub_self]
    rfl
  · obtain ⟨hp, d, nonce, hd, hb⟩ := h.message i phase body hi
    refine ⟨hp, d, nonce, ?_, hb⟩
    show (s.sent ++ [data])[i]? = some d
    rw [List.getElem?_append_left (List.getElem?_eq_some_iff.mp hd).1]
    exact hd

theorem wf_added {s : St} (h : Wf P a s) {n : Nat} {data : Body}
    (hs : s.sending = some (n, data)) (nonce : Nonce) :
    Wf P a { s with
      sending := none
      messages := s.messages ++
        [(toString n, addBody (.binary (sendBody P a (toString n) nonce data)))] } := by
  obtain ⟨hn, hdata⟩ := h.sending n data hs
  have hcount := h.count
  rw [hs] at hcount
  refine ⟨h.numbered, ?_, nofun, fun i phase body hi => ?_, ?_, h.calls⟩
  · show (s.messages ++ _).length + 0 = s.sent.length
    rw [List.length_append]
    exact hcount
  · have hi : (s.messages ++
        [(toString n, addBody (.binary (sendBody P a (toString n) nonce data)))])[i]? =
        some (phase, body) := hi
    rw [List.getElem?_append] at hi
    split at hi
    · exact h.message i phase body hi
    · have hlt := (List.getElem?_eq_some_iff.mp hi).1
      have hin : i = n := by
        simp only [List.length_singleton] at hlt
        omega
      rw [hin, hn, Nat.sub_self] at hi
      cases hi
      rw [hin, hn]
      rw [hn] at hdata
      exact ⟨rfl, data, nonce, hdata, rfl⟩
  · have := h.arrived
    show s.delivered ≤ (s.messages ++ _).length
    rw [List.length_append]
    omega

theorem wf_step (hab : a.side ≠ b.side) {s t : St} {l : Lbl} (h : Wf P a s)
    (hm : Move P a b s l t) : Wf P a t := by
  cases hm with
  | send data hs => exact wf_send h hs data
  | added n data nonce hs => exact wf_added h hs nonce
  | receive => exact h.with_receiver h.calls.receive
  | arrive id phase body hm =>
    have hlt := (List.getElem?_eq_some_iff.mp hm).1
    exact ⟨h.numbered, h.count, h.sending, h.message, hlt,
      h.calls.arrive hab (h.message _ _ _ hm).1⟩
  | own msg hs =>
    obtain ⟨hh, hx, hn⟩ := own_same (r := s.receiver) hs
    exact h.with_receiver (h.calls.of_same hh hx hn)
  | request id => exact h.with_receiver (h.calls.of_same rfl rfl rfl)
  | settle id => exact h.with_receiver (h.calls.of_same rfl rfl rfl)
  | finish i r hr => exact h.with_receiver (h.calls.finish hr)
  | timeout i r hr => exact h.with_receiver (h.calls.timeout hr)

theorem wf_reachable (hab : a.side ≠ b.side) :
    ∀ s, (lts P a b).Reachable s → Wf P a s := by
  refine LTS.Inductive.reachable ⟨fun s hs => ?_, fun s l t h hs => wf_step hab h (step_move hs)⟩
  cases hs
  exact ⟨rfl, rfl, nofun, nofun, Nat.le_refl 0, ⟨.nil, nofun, fun _ _ => rfl, nofun⟩⟩

/-! ## After the arrival of message `i` -/

/-- What call `i` has, or will have when it is done decrypting. -/
def outcome (P : Crypto) (b : Session) (r : Receiver) (i : Nat) : Option (Option Bytes) :=
  match r.rx i with
  | .opening dataBody => some (receiveBody P b (toString i) dataBody)
  | .resolved data => some data
  | _ => none

theorem outcome_of_rx {r r' : Receiver} {i : Nat} (h : r'.rx i = r.rx i) :
    outcome P b r' i = outcome P b r i := by
  unfold outcome
  rw [h]

theorem outcome_finish {r r' : Receiver} {i j : Nat} (h : r.finish P b j = some r') :
    outcome P b r' i = outcome P b r i := by
  unfold Receiver.finish at h
  split at h
  · rename_i body hx
    cases h
    by_cases hij : i = j
    · subst hij
      unfold outcome
      rw [hx]
      dsimp only
      rw [if_pos rfl]
    · exact outcome_of_rx (if_neg hij)
  · cases h

theorem outcome_timeout {r r' : Receiver} {d i j : Nat} (hc : Calls r d)
    (h : r.timeout j = some r') : outcome P b r' i = outcome P b r i := by
  unfold Receiver.timeout at h
  split at h
  · rename_i hj
    cases h
    by_cases hij : i = j
    · subst hij
      unfold outcome
      rw [(hc.made i hj).2]
      dsimp only
      rw [if_pos rfl]
    · exact outcome_of_rx (if_neg hij)
  · cases h

/-- Only the arrival of message `i` changes what call `i` gets. -/
theorem outcome_step (hab : a.side ≠ b.side) {s t : St} {l : Lbl} {i : Nat} (h : Wf P a s)
    (hi : i = s.delivered → ∀ id, l ≠ .arrive id) (hm : Move P a b s l t) :
    outcome P b t.receiver i = outcome P b s.receiver i := by
  cases hm with
  | arrive id phase body hm =>
    refine outcome_of_rx ?_
    cases arrival ⟨id, a.side, phase, body⟩ h.calls hab (h.message _ _ _ hm).1 with
    | taken hid hd hr =>
      have hne : i ≠ s.delivered := fun heq => hi heq id rfl
      show (s.receiver.handleMessage b.side ⟨id, a.side, phase, body⟩).rx i = _
      rw [hr]
      exact if_neg hne
    | dropped hd hh hx hn => exact congrFun hx i
  | own msg hs => exact outcome_of_rx (congrFun (own_same hs).2.1 i)
  | finish j r hr => exact outcome_finish hr
  | timeout j r hr => exact outcome_timeout h.calls hr
  | _ => rfl

theorem delivered_step {s t : St} {l : Lbl} (hm : Move P a b s l t) :
    s.delivered ≤ t.delivered := by
  cases hm with
  | arrive id phase body hm => exact Nat.le_succ _
  | _ => exact Nat.le_refl _

/-- **Decided for good.** Once message `i` has arrived, nothing that happens
later changes what call `i` gets. -/
theorem outcome_run (hab : a.side ≠ b.side) {s t : St} {ls : List Lbl} {i : Nat}
    (hr : (lts P a b).Run s ls t) (h : Wf P a s) (hi : i < s.delivered) :
    outcome P b t.receiver i = outcome P b s.receiver i := by
  induction hr with
  | nil => rfl
  | cons hst _ ih =>
    have hm := step_move hst
    have hi' := Nat.lt_of_lt_of_le hi (delivered_step hm)
    exact (ih (wf_step hab h hm) hi').trans
      (outcome_step hab h (fun heq => absurd heq (Nat.ne_of_lt hi)) hm)

/-! ## What is received -/

/-- The next message arrives with the id `id`: its call has been made and has
not timed out, the message is not taken for the reply to a request, and what it
carries is not text. -/
structure Expected (s : St) (id : String) : Prop where
  called : s.delivered ∈ s.receiver.handlers
  noReply : id = "" ∨ id ∉ s.receiver.pendingRequests
  binary : ∀ phase body, s.messages[s.delivered]? = some (phase, body) → hexToString body = none

theorem hexToString_addBody (bytes : Bytes) :
    hexToString (addBody (.binary bytes)) = none ↔ decode bytes = none := by
  unfold hexToString addBody
  rw [hexToBytes_bytesToHex]
  exact textDecode_eq_none

theorem outcome_arrive (hab : Paired a b) {s t : St} {id : String} {data : Body} (h : Wf P a s)
    (hdata : s.sent[s.delivered]? = some data) (hm : Move P a b s (.arrive id) t) :
    outcome P b t.receiver s.delivered = some (some (toBytes data)) ↔ Expected s id := by
  cases hm with
  | arrive id phase body hm =>
    obtain ⟨hp, d, nonce, hd, hb⟩ := h.message _ _ _ hm
    rw [hdata] at hd
    cases hd
    have hbin : (∀ phase body, s.messages[s.delivered]? = some (phase, body) →
        hexToString body = none) ↔
      decode (sendBody P a (toString s.delivered) nonce data) = none := by
      rw [← hexToString_addBody, ← hb]
      constructor
      · intro hall
        exact hall phase body hm
      · intro hone phase' body' hm'
        rw [hm] at hm'
        cases hm'
        exact hone
    cases arrival ⟨id, a.side, phase, body⟩ h.calls hab.sides hp with
    | taken hid hd hr =>
      have hout : outcome P b (s.receiver.handleMessage b.side ⟨id, a.side, phase, body⟩)
          s.delivered = some (receiveBody P b (toString s.delivered) (decodeBody body)) := by
        unfold outcome
        rw [hr]
        dsimp only
        rw [if_pos rfl]
      have hnr : id = "" ∨ id ∉ s.receiver.pendingRequests := by
        by_cases he : id = ""
        · exact .inl he
        · exact .inr fun hin => hid ⟨he, hin⟩
      dsimp only
      rw [hout, Option.some_inj, hb, receiveBody_sendBody P hab]
      constructor
      · intro hdec
        exact ⟨hd, hnr, hbin.mpr hdec⟩
      · intro he
        exact hbin.mp he.binary
    | dropped hdrop hh hx hn =>
      have hout : outcome P b (s.receiver.handleMessage b.side ⟨id, a.side, phase, body⟩)
          s.delivered = none := by
        unfold outcome
        rw [hx]
        rcases h.calls.idle (Nat.le_refl _) with hw | ht
        · rw [hw]
        · rw [ht]
      dsimp only
      rw [hout]
      constructor
      · intro he
        cases he
      · intro he
        exfalso
        rcases hdrop with ⟨hne, hin⟩ | hnot
        · rcases he.noReply with h' | h'
          · exact hne h'
          · exact h' hin
        · exact hnot he.called

theorem rx_of_outcome {r : Receiver} {i : Nat} {data : Option Bytes}
    (h : ∀ body, r.rx i ≠ .opening body) :
    r.rx i = .resolved data ↔ outcome P b r i = some data := by
  unfold outcome
  cases hx : r.rx i with
  | waiting => exact ⟨nofun, nofun⟩
  | timedOut => exact ⟨nofun, nofun⟩
  | opening body => exact absurd hx (h body)
  | resolved data' => simp

/-- **Which messages are received.** In every run, whatever follows the arrival
of message `i`: once call `i` is done decrypting, it has resolved with the
plaintext of send `i` exactly when the message was expected as it arrived. -/
theorem receive_resolves_iff (hab : Paired a b) {s t u : St} {id : String} {data : Body}
    {ls : List Lbl} (hr : (lts P a b).Reachable s) (hst : (lts P a b).step s (.arrive id) t)
    (hdata : s.sent[s.delivered]? = some data) (hrun : (lts P a b).Run t ls u)
    (hrest : ∀ body, u.receiver.rx s.delivered ≠ .opening body) :
    u.receiver.rx s.delivered = .resolved (some (toBytes data)) ↔ Expected s id := by
  have hw := wf_reachable hab.sides s hr
  have hm := step_move hst
  have hwt := wf_step hab.sides hw hm
  have hd : s.delivered < t.delivered := by
    cases hm with
    | arrive id phase body hm => exact Nat.lt_succ_self _
  rw [rx_of_outcome (P := P) (b := b) hrest, outcome_run hab.sides hrun hwt hd,
    outcome_arrive hab hw hdata hm]

/-- The message on its way has come to call `n`, which has resolved with it. -/
def received (P : Crypto) (a : Session) (s : St) (n : Nat) (data : Body) (nonce : Nonce) : St :=
  { s with
    sending := none
    messages := s.messages ++
      [(toString n, addBody (.binary (sendBody P a (toString n) nonce data)))]
    delivered := n + 1
    receiver := { s.receiver with
      handlers := s.receiver.handlers.erase n
      rx := fun i => if i = n then .resolved (some (toBytes data)) else s.receiver.rx i } }

/-- From `send` to `receive`: nothing else is in the mailbox, and the call waits. -/
theorem received_run (hab : Paired a b) {s : St} {n : Nat} {data : Body} {nonce : Nonce}
    {id : String} (hs : s.sending = some (n, data)) (hd : s.delivered = n)
    (hm : s.messages.length = n) (hc : n ∈ s.receiver.handlers)
    (hn : s.receiver.handlers.Nodup) (hr : s.receiver.pendingRequests = [])
    (hb : decode (sendBody P a (toString n) nonce data) = none) :
    LTS.exec (step P a b) s [.added nonce, .arrive id, .finish n] =
      some (received P a s n data nonce) := by
  have hid : ¬ (id ≠ "" ∧ id ∈ s.receiver.pendingRequests) := by
    rw [hr]
    exact fun h => List.not_mem_nil h.2
  have hnext : (s.messages ++ [(toString n, addBody (.binary
      (sendBody P a (toString n) nonce data)))])[n]? =
      some (toString n, addBody (.binary (sendBody P a (toString n) nonce data))) := by
    rw [← hm, List.getElem?_concat_length]
  have hone : s.receiver.handleMessage b.side
      ⟨id, a.side, toString n, addBody (.binary (sendBody P a (toString n) nonce data))⟩ =
      { s.receiver with
        handlers := s.receiver.handlers.erase n
        rx := fun j => if j = n then
          .opening (decodeBody (addBody (.binary (sendBody P a (toString n) nonce data))))
          else s.receiver.rx j } := handleMessage_one hid hab.sides rfl hc hn
  have hopen := (receiveBody_sendBody P hab (toString n) nonce data).mpr hb
  simp only [LTS.exec, step, hs, hd, hnext, hone, Option.bind_some, Receiver.finish, if_true,
    Option.map_some, hopen]
  unfold received
  congr 3
  funext i
  split <;> rfl

/-- **A lossless queue**, in the runs in which every message is expected. -/
theorem fifo_of_expected (hab : Paired a b) : ∀ s,
    ((lts P a b).restrict fun s l => ∀ id, l = .arrive id → Expected s id).Reachable s →
    ∀ i data, i < s.delivered → s.sent[i]? = some data →
      outcome P b s.receiver i = some (some (toBytes data)) := by
  refine LTS.Inductive.of_known (fun s hs => wf_reachable hab.sides s hs.of_restrict) ?_ ?_
  · intro s hs
    cases hs
    exact nofun
  · intro s l t hr hw hI hst i data hi hdata
    have hm := step_move hst.2
    have hwt := wf_step hab.sides hw hm
    have hsent : i < s.delivered → s.sent[i]? = some data := by
      intro hlt
      have hlen := hw.arrived
      have hcount := hw.count
      cases hm with
      | send d hs =>
        have hlt' : i < s.sent.length := by omega
        rwa [List.getElem?_append_left hlt'] at hdata
      | _ => exact hdata
    by_cases hlt : i < s.delivered
    · rw [outcome_step hab.sides hw (fun heq => absurd heq (Nat.ne_of_lt hlt)) hm]
      exact hI i data hlt (hsent hlt)
    · cases hm with
      | arrive id phase body hmsg =>
        have hi' : i < s.delivered + 1 := hi
        have heq : i = s.delivered := by omega
        rw [heq] at hdata ⊢
        exact (outcome_arrive hab hw hdata (.arrive id phase body hmsg)).mpr (hst.1 id rfl)
      | _ => exact absurd hi hlt

end

/-! ## One message -/

def alice : Session := ⟨[7], "side-01", "side-02"⟩
def bob : Session := ⟨[7], "side-02", "side-01"⟩

theorem length_zeros : (List.replicate 24 (0 : UInt8)).length = 24 := List.length_replicate

def zeroNonce : Nonce := ⟨List.replicate 24 0, length_zeros⟩

theorem paired_alice_bob : Paired alice bob := ⟨rfl, rfl, by decide⟩

/-- Bob is waiting when the message comes. -/
def waitingBob : St :=
  LTS.after (step .plain alice bob) init [.send (.text "hi"), .added zeroNonce, .receive]

def givenBob : St := LTS.after (step .plain alice bob) waitingBob [.arrive "m1"]

def servedBob : St := LTS.after (step .plain alice bob) givenBob [.finish 0]

theorem waiting_bob_receives : servedBob.receiver.rx 0 = .resolved (some (encode "hi")) := by
  have hopen : ∀ body, servedBob.receiver.rx 0 ≠ .opening body := by
    have hx : servedBob.receiver.rx 0 = .resolved (some [0x68, 0x69]) := by decide +kernel
    intro body h
    rw [hx] at h
    cases h
  have hr : (lts .plain alice bob).Reachable waitingBob :=
    LTS.reachable_of_exec rfl (LTS.exec_after (by decide +kernel))
  have hst : (lts .plain alice bob).step waitingBob (.arrive "m1") givenBob :=
    LTS.step_after (by decide +kernel)
  have hdata : waitingBob.sent[waitingBob.delivered]? = some (.text "hi") := by decide +kernel
  have hrun : (lts .plain alice bob).Run givenBob [.finish 0] servedBob :=
    LTS.run_of_exec (LTS.exec_after (by decide +kernel))
  refine (receive_resolves_iff paired_alice_bob hr hst hdata hrun hopen).mpr ?_
  refine ⟨by decide +kernel, .inr (by decide +kernel), fun phase body hm => ?_⟩
  have hbody : waitingBob.messages[waitingBob.delivered]? = some ("0",
      addBody (.binary (List.replicate 24 0 ++ List.replicate 16 0xFF ++ [0x68, 0x69]))) := by
    decide +kernel
  rw [hbody] at hm
  cases hm
  decide +kernel

/-- **A message is lost.** It arrives, and then Bob calls `receive`: whatever
happens next, that call does not resolve. -/
theorem early_message_lost : ∃ s, (lts .plain alice bob).Reachable s ∧
    s.sent = [.text "hi"] ∧ s.delivered = 1 ∧ s.receiver.handlers = [0] ∧
    ∀ ls t, (lts .plain alice bob).Run s ls t → ∀ data, t.receiver.rx 0 ≠ .resolved data := by
  have hreach : (lts .plain alice bob).Reachable (LTS.after (step .plain alice bob) init
      [.send (.text "hi"), .added zeroNonce, .arrive "m1", .receive]) :=
    LTS.reachable_of_exec rfl (LTS.exec_after (by decide +kernel))
  refine ⟨_, hreach, by decide +kernel, by decide +kernel, by decide +kernel, ?_⟩
  intro ls t hrun data hx
  have hw := wf_reachable paired_alice_bob.sides _ hreach
  have hout := outcome_run (i := 0) paired_alice_bob.sides hrun hw (by decide +kernel)
  have hnone : outcome .plain bob t.receiver 0 = none := hout.trans (by decide +kernel)
  unfold outcome at hnone
  rw [hx] at hnone
  cases hnone

end Wormhole.L5.PhaseFifo
