import Mathlib.Algebra.BigOperators.Group.Finset.Basic
import Wormhole.L5Concurrency.MailboxSystem

/-!
# Exactly-once delivery

A client `c` that opens a mailbox `m` gets the messages already in it by the
replay loop of its own handler, and the later ones by the fan-out loop of the
handler that adds them. Both loops await between sends, so several of them can
be under way at once.

`replayRest` is what the replay of `c` has still to send; `notifyOwed` collects
what the fan-outs under way owe `c`. Opening subscribes `c` and takes the
backlog in one segment, so nothing is owed twice or left out, and from then on
each step moves one message from owed to sent, or adds one to the mailbox and
to what is owed (`replay_step`, `notify_step`). Over a run (`LTS.Run.flow`):
what was replayed and is still to be replayed is the backlog, what was notified
and is still owed is everything added since (`delivered_once`). The loop that owes
something can always send it (`deliverable`).
-/
namespace Wormhole.L5.MailboxSystem
open Wormhole.L1 Wormhole.L4.MailboxServer

variable {appId : String} {c : ConnId} {m : Key} {s s' : St} {l : Lbl}

/-! ## The statement -/

/-- The messages of mailbox `m`, in order; none when it does not exist. -/
def messagesOf (m : Key) (s : St) : List Message :=
  ((s.server.mailboxes.get? m).map Mailbox.messages).getD []

/-- The frames of `m` that a step hands to `c` from the loop `via`. -/
def sentTo (c : ConnId) (via : Via) (s : St) (l : Lbl) : List Message :=
  match emitted s l with
  | some ⟨dst, .message msg, v⟩ => if dst = c ∧ v = via then [msg] else []
  | _ => []

/-- The messages that a handler has added to `m`. -/
def addedBy (m : Key) : Next → List Message
  | .notify m' msg _ => if m' = m then [msg] else []
  | _ => []

/-- The messages a step adds to `m`. -/
def added (m : Key) (s : St) : Lbl → List Message
  | .recv i (.json data) token =>
      addedBy m (handleMessage s.server (s.conn i).state i data token).next
  | _ => []

/-- What a replay loop has still to send of `m`. -/
def Task.rest (m : Key) : Task → List Message
  | .replay m' msgs => if m' = m then msgs else []
  | _ => []

/-- What a fan-out owes `c` of `m`. -/
def Task.due (c : ConnId) (m : Key) : Task → Multiset Message
  | .notify m' msg rest => if m' = m ∧ c ∈ rest then {msg} else 0
  | _ => 0

def replayRest (c : ConnId) (m : Key) (s : St) : List Message := (s.conn c).task.rest m

/-- What all fan-outs under way owe `c` of `m`. -/
def notifyOwed (c : ConnId) (m : Key) (s : St) : Multiset Message :=
  ∑ i ∈ s.clients, (s.conn i).task.due c m

/-- `c` is served as a subscriber of `m`: sends to it succeed, it does not open
`m` again, it stays subscribed and `m` stays. -/
structure Served (c : ConnId) (m : Key) (s : St) (l : Lbl) : Prop where
  once : ¬ Opens c m s l
  sends : l = .send c ∨ (∃ i, l = .notify i c) → (s.conn c).up = true
  subscribed : ∀ s', step s l = some s' → c ∈ s'.server.subscribers m
  kept : ∀ s', step s l = some s' → s'.server.mailboxes.get? m ≠ none
  fresh : FreshToken s l

/-! ## The replay loop -/

@[simp] theorem rest_replay (m m' : Key) (msgs : List Message) :
    (Task.replay m' msgs).rest m = if m' = m then msgs else [] := rfl

@[simp] theorem rest_of_ne {t : Task} (m : Key) (h : ∀ m' msgs, t ≠ .replay m' msgs) :
    t.rest m = [] := by
  cases t with
  | replay m' msgs => exact absurd rfl (h m' msgs)
  | _ => rfl

@[simp] theorem due_notify (c : ConnId) (m m' : Key) (msg : Message) (subs : Finset ConnId) :
    (Task.notify m' msg subs).due c m = if m' = m ∧ c ∈ subs then {msg} else 0 := rfl

@[simp] theorem due_of_ne {t : Task} (c : ConnId) (m : Key)
    (h : ∀ m' msg subs, t ≠ .notify m' msg subs) : t.due c m = 0 := by
  cases t with
  | notify m' msg subs => exact absurd rfl (h m' msg subs)
  | _ => rfl

@[simp] theorem rest_replaying (m m' : Key) (msgs : List Message) :
    (replaying m' msgs).rest m = if m' = m then msgs else [] := by
  unfold replaying
  split
  · rename_i h; simp [List.isEmpty_iff.mp h]
  · rfl

@[simp] theorem rest_notifying (m m' : Key) (msg : Message) (subs : Finset ConnId) :
    (notifying m' msg subs).rest m = [] := by
  unfold notifying
  split <;> rfl

@[simp] theorem due_notifying (c : ConnId) (m m' : Key) (msg : Message) (subs : Finset ConnId) :
    (notifying m' msg subs).due c m = if m' = m ∧ c ∈ subs then {msg} else 0 := by
  unfold notifying
  split
  · rename_i h; simp [h]
  · rfl

@[simp] theorem due_replaying (c : ConnId) (m m' : Key) (msgs : List Message) :
    (replaying m' msgs).due c m = 0 := by
  unfold replaying
  split <;> rfl

/-- What one step hands over by a replay loop, and by a fan-out. -/
theorem sentTo_own {i : ConnId} {f : Frame} {via : Via} (hvia : via ≠ .own)
    (ht : (s.conn i).task.owes = some f) (hup : (s.conn i).up = true) :
    sentTo c via s (.send i) = [] := by
  rw [sentTo, emitted_own ht hup]
  split
  · rename_i h
    simp only [Option.some.injEq, Sent.mk.injEq] at h
    rw [← h.2.2, if_neg (fun h => hvia h.2.symm)]
  · rfl

theorem sentTo_replayed {i : ConnId} {m' : Key} {msg : Message} {rest : List Message} {via : Via}
    (ht : (s.conn i).task = .replay m' (msg :: rest)) (hup : (s.conn i).up = true) :
    sentTo c via s (.send i) = if i = c ∧ Via.replay m' = via then [msg] else [] := by
  simp [sentTo, emitted, ht, hup]

theorem sentTo_notified {i dst : ConnId} {m' : Key} {msg : Message} {rest : Finset ConnId}
    {via : Via} (ht : (s.conn i).task = .notify m' msg rest) (hdst : dst ∈ rest)
    (hup : (s.conn dst).up = true) :
    sentTo c via s (.notify i dst) = if dst = c ∧ Via.notify m' = via then [msg] else [] := by
  simp [sentTo, emitted, ht, hdst, hup]

/-- A failed send hands nothing over. -/
theorem sentTo_failed {i : ConnId} {via : Via} (hup : (s.conn i).up = false) :
    sentTo c via s (.send i) = [] := by
  simp [sentTo, emitted, hup]

theorem sentTo_discarded {i dst : ConnId} {via : Via} (hup : (s.conn dst).up = false) :
    sentTo c via s (.notify i dst) = [] := by
  simp only [sentTo, emitted, hup]
  cases (s.conn i).task <;> simp

/-- Only an `open` starts a replay. -/
theorem rest_handled {srv : Server} {st : ClientState} {i : ConnId} {token : String} {data : Json}
    {out : Out} (h : Handled srv st i token data out)
    (hne : (nextTask out.next).rest m ≠ []) : OpensMailbox st m data := by
  cases h with
  | opened d m' side mb ht htr hm hmb hs =>
    simp only [nextTask, rest_replaying] at hne
    split at hne
    · rename_i h; subst h; exact ⟨d, rfl, ht, htr, hm, by simp [hs]⟩
    · exact absurd rfl hne
  | add d m' msg mb ht hst hm hmsg => simp [nextTask] at hne
  | quiet data next h hd => cases next <;> simp_all [nextTask, Next.quiet]
  | _ => exact absurd rfl hne

/-- A replay sends its next message and goes on with the rest. -/
theorem replay_step (hv : Served c m s l) (hm : Move s l s') :
    replayRest c m s = sentTo c (.replay m) s l ++ replayRest c m s' := by
  have hframe : c ≠ l.subject → replayRest c m s' = replayRest c m s := by
    intro hc
    rw [replayRest, conn_frame hm hc, replayRest]
  cases hm with
  | connect i ht =>
    by_cases hi : c = i
    · subst hi; simp [replayRest, ht, sentTo, emitted]
    · rw [hframe hi]; rfl
  | badText i inc token e ht hinc =>
    by_cases hi : c = i
    · subst hi; simp [replayRest, ht, sentTo, emitted]
    · rw [hframe hi]; rfl
  | handled i data token out ht ho h =>
    by_cases hi : c = i
    · subst hi
      have hnone : (nextTask out.next).rest m = [] := by
        by_contra hne
        exact hv.once ⟨data, token, rfl, rest_handled h hne⟩
      simp [replayRest, ht, hnone, sentTo, emitted]
    · rw [hframe hi]; rfl
  | sent i f ht hup =>
    rw [sentTo_own (by simp) ht hup]
    by_cases hi : c = i
    · subst hi
      have hrest : (s.conn c).task.rest m = [] := by
        cases htask : (s.conn c).task <;> rw [htask] at ht <;> first | rfl | cases ht
      simp [replayRest, hrest]
    · rw [hframe hi]; rfl
  | replayed i m' msg rest ht hup =>
    rw [sentTo_replayed ht hup]
    by_cases hi : c = i
    · subst hi
      by_cases hm : m' = m
      · simp [replayRest, ht, hm]
      · simp [replayRest, ht, hm]
    · rw [hframe hi, if_neg (fun h => hi h.1.symm)]; rfl
  | failed i ht hup =>
    by_cases hi : c = i
    · subst hi
      rw [hv.sends (.inl rfl)] at hup
      cases hup
    · rw [hframe hi, sentTo_failed hup]; rfl
  | quit i ht hup =>
    by_cases hi : c = i
    · subst hi
      rw [hv.sends (.inl rfl)] at hup
      cases hup
    · rw [hframe hi, sentTo_failed hup]; rfl
  | notified i dst m' msg rest ht hdst hup =>
    rw [sentTo_notified ht hdst hup, if_neg (by simp)]
    by_cases hi : c = i
    · subst hi; simp [replayRest, ht]
    · rw [hframe hi]; rfl
  | discarded i dst m' msg rest ht hdst hup =>
    rw [sentTo_discarded hup]
    by_cases hi : c = i
    · subst hi; simp [replayRest, ht]
    · rw [hframe hi]; rfl
  | drop i =>
    by_cases hi : c = i
    · subst hi; simp [replayRest, sentTo, emitted]
    · rw [hframe hi]; rfl
  | leave i ht hup =>
    by_cases hi : c = i
    · subst hi; simp [replayRest, ht, finish, sentTo, emitted]
    · rw [hframe hi]; rfl

/-! ## The fan-outs -/

/-- A handler that adds a message owes it to the subscribers. -/
theorem due_handled {srv : Server} {st : ClientState} {i : ConnId} {token : String} {data : Json}
    {out : Out} (h : Handled srv st i token data out) (c : ConnId) (m : Key) :
    (nextTask out.next).due c m =
      if c ∈ srv.subscribers m then (addedBy m out.next : Multiset Message) else 0 := by
  cases h with
  | add d m' msg mb ht hst hm hmsg =>
    simp only [nextTask, due_notifying, addedBy]
    by_cases hm' : m' = m
    · subst hm'
      simp
    · simp [hm']
  | opened d m' side mb ht htr hm hmb hs => simp [nextTask, addedBy]
  | quiet data next h hd => cases next <;> simp_all [nextTask, Next.quiet, addedBy]
  | _ => exact (ite_self _).symm

/-- What is owed changes by what the task of one coroutine owes. -/
theorem owed_move (c : ConnId) (m : Key) (s' : St) {i : ConnId} (hi : i ∈ s.clients)
    (hcl : s'.clients = s.clients)
    (hfr : ∀ j, j ≠ i → s'.conn j = s.conn j) :
    notifyOwed c m s + (s'.conn i).task.due c m = notifyOwed c m s' + (s.conn i).task.due c m := by
  have hrest : ∑ j ∈ s.clients.erase i, (s'.conn j).task.due c m =
      ∑ j ∈ s.clients.erase i, (s.conn j).task.due c m :=
    Finset.sum_congr rfl fun j hj => by rw [hfr j (Finset.ne_of_mem_erase hj)]
  rw [notifyOwed, notifyOwed, hcl, ← Finset.add_sum_erase _ _ hi, ← Finset.add_sum_erase _ _ hi,
    hrest, add_right_comm, add_comm ((s.conn i).task.due c m), add_right_comm]

/-- The same when the coroutine owes nothing before or after. -/
theorem owed_goto {i : ConnId} {t : Task} (hi : i ∈ s.clients) (h : (s.conn i).task.due c m = 0)
    (h' : t.due c m = 0) : notifyOwed c m (s.upd i (.goto t)) = notifyOwed c m s := by
  have hmove := owed_move c m (s.upd i (.goto t)) hi rfl fun j hj => if_neg hj
  simp only [upd_conn, if_true, goto_task, h, h', add_zero] at hmove
  exact hmove.symm

/-- A fan-out passes over a subscriber other than `c`. -/
theorem owed_other {i dst : ConnId} {m' : Key} {msg : Message} {rest : Finset ConnId}
    (hi : i ∈ s.clients) (ht : (s.conn i).task = .notify m' msg rest) (hne : dst ≠ c) :
    notifyOwed c m (s.upd i (.goto (notifying m' msg (rest.erase dst)))) = notifyOwed c m s := by
  have hmove := owed_move c m (s.upd i (.goto (notifying m' msg (rest.erase dst)))) hi rfl
    fun j hj => if_neg hj
  have hmem : c ∈ rest.erase dst ↔ c ∈ rest := by
    rw [Finset.mem_erase]
    exact ⟨fun h => h.2, fun h => ⟨hne.symm, h⟩⟩
  simp only [upd_conn, if_true, goto_task, due_notifying, ht, due_notify, hmem] at hmove
  exact (add_right_cancel hmove).symm

/-- Coroutines that come or go owe nothing. -/
theorem owed_congr {S : Finset ConnId}
    (h : ∀ j, (s'.conn j).task.due c m = (s.conn j).task.due c m) :
    ∑ j ∈ S, (s'.conn j).task.due c m = ∑ j ∈ S, (s.conn j).task.due c m :=
  Finset.sum_congr rfl fun j _ => h j

theorem owed_finish {i : ConnId} (h : (s.conn i).task.due c m = 0) :
    notifyOwed c m (finish s i) = notifyOwed c m s := by
  have hdue : ∀ j, ((finish s i).conn j).task.due c m = (s.conn j).task.due c m := by
    intro j
    simp only [finish, upd_conn]
    split
    · rename_i hj; subst hj; simp [h]
    · rfl
  rw [notifyOwed, owed_congr hdue, notifyOwed]
  exact Finset.sum_erase _ h

/-- A fan-out sends its message to `c`, or a message is added and then owed. -/
theorem notify_step (hr : Registered s) (hsub : c ∈ s.server.subscribers m) (hv : Served c m s l)
    (hm : Move s l s') :
    notifyOwed c m s + (added m s l : Multiset Message) =
      (sentTo c (.notify m) s l : Multiset Message) + notifyOwed c m s' := by
  have hfr : ∀ j, j ≠ l.subject → s'.conn j = s.conn j := fun j hj => conn_frame hm hj
  have hreg : ∀ i t, (s.conn i).task = t → t ≠ .absent → t ≠ .gone → i ∈ s.clients := by
    rintro i t rfl h1 h2; exact hr i h1 h2
  cases hm with
  | connect i ht =>
    have hdue : ∀ j, (((s.upd i fun _ => ⟨.init, .greet, true⟩).conn j).task.due c m) =
        (s.conn j).task.due c m := by
      intro j
      rw [upd_conn]
      split
      · rename_i hj; subst hj; simp [ht]
      · rfl
    have hsum : notifyOwed c m { s.upd i fun _ => ⟨.init, .greet, true⟩ with
        clients := insert i s.clients } = notifyOwed c m s := by
      rw [notifyOwed, owed_congr hdue, notifyOwed]
      exact Finset.sum_insert_zero (by simp [ht])
    rw [hsum]
    simp [added, sentTo, emitted]
  | badText i inc token e ht hinc =>
    rw [owed_goto (hreg i _ ht (by simp) (by simp)) (by simp [ht]) (by simp)]
    cases inc with
    | json data => exact absurd rfl (hinc data)
    | _ => simp [added, sentTo, emitted]
  | handled i data token out ht ho h =>
    have hmove := owed_move c m (receive s i out) (hreg i _ ht (by simp) (by simp))
      (receive_clients s i out) hfr
    simp only [receive_conn, if_true, due_handled h, if_pos hsub, ht] at hmove
    simp only [added, ho, sentTo, emitted, Multiset.coe_nil, zero_add]
    rw [hmove]
    simp
  | sent i f ht hup =>
    have hdue : (s.conn i).task.due c m = 0 := by
      cases htask : (s.conn i).task <;> rw [htask] at ht <;> first | rfl | cases ht
    have hin : i ∈ s.clients :=
      hr i (fun e => by rw [e] at ht; cases ht) (fun e => by rw [e] at ht; cases ht)
    rw [sentTo_own (by simp) ht hup, owed_goto hin hdue (by simp)]
    simp [added]
  | replayed i m' msg rest ht hup =>
    rw [sentTo_replayed ht hup, if_neg (by simp),
      owed_goto (hreg i _ ht (by simp) (by simp)) (by simp [ht]) (by simp)]
    simp [added]
  | failed i ht hup =>
    have hdue : (s.conn i).task.due c m = 0 := by
      rcases ht with ⟨_, ht⟩ | ⟨_, _, ht⟩ <;> simp [ht]
    have hin : i ∈ s.clients := by
      rcases ht with ⟨_, ht⟩ | ⟨_, _, ht⟩ <;> exact hreg i _ ht (by simp) (by simp)
    rw [sentTo_failed hup, owed_goto hin hdue (by simp)]
    simp [added]
  | quit i ht hup =>
    have hdue : (s.conn i).task.due c m = 0 := by
      rcases ht with ht | ⟨_, ht⟩ <;> simp [ht]
    rw [sentTo_failed hup, owed_finish hdue]
    simp [added]
  | notified i dst m' msg rest ht hdst hup =>
    have hi := hreg i _ ht (by simp) (by simp)
    rw [sentTo_notified ht hdst hup]
    by_cases hc : dst = c
    · subst hc
      have hmove := owed_move dst m (s.upd i (.goto (notifying m' msg (rest.erase dst)))) hi rfl
        fun j hj => if_neg hj
      simp only [upd_conn, if_true, goto_task, due_notifying, ht, due_notify, hdst,
        Finset.mem_erase, ne_eq, not_true_eq_false, and_false, if_false, and_true,
        add_zero] at hmove
      rw [hmove]
      by_cases hm' : m' = m
      · simp [hm', added, add_comm]
      · simp [hm', added]
    · rw [owed_other hi ht hc, if_neg (fun h => hc h.1)]
      simp [added]
  | discarded i dst m' msg rest ht hdst hup =>
    have hi := hreg i _ ht (by simp) (by simp)
    have hc : dst ≠ c := by
      rintro rfl
      rw [hv.sends (.inr ⟨i, rfl⟩)] at hup
      cases hup
    have hsum : notifyOwed c m { s.upd i (.goto (notifying m' msg (rest.erase dst))) with
        server := s.server.unsubscribe m' dst } = notifyOwed c m s := owed_other hi ht hc
    rw [hsum, sentTo_discarded hup]
    simp [added]
  | drop i =>
    have hsum : notifyOwed c m (s.upd i .down) = notifyOwed c m s := by
      refine owed_congr fun j => ?_
      rw [upd_conn]
      split <;> rfl
    rw [hsum]
    simp [added, sentTo, emitted]
  | leave i ht hup =>
    rw [owed_finish (by simp [ht])]
    simp [added, sentTo, emitted]

/-! ## The mailbox -/

/-- A mailbox that stays is only appended to. -/
theorem messages_handled {srv : Server} {st : ClientState} {i : ConnId} {token : String}
    {data : Json} {out : Out} {mb : Mailbox} (h : Handled srv st i token data out)
    (hdraw : drawsMailbox srv data = true → Key.str token ≠ m)
    (hm : srv.mailboxes.get? m = some mb) (hm' : out.server.mailboxes.get? m ≠ none) :
    ∃ mb', out.server.mailboxes.get? m = some mb' ∧
      mb'.messages = mb.messages ++ addedBy m out.next := by
  cases h with
  | quiet data next h hd =>
    refine ⟨mb, hm, ?_⟩
    cases next <;> simp_all [Next.quiet, addedBy]
  | bind d a sd ht => exact ⟨mb, hm, by simp [addedBy]⟩
  | allocate d ht =>
    refine ⟨mb, ?_, by simp [addedBy, handleAllocate]⟩
    simpa [handleAllocate, Dict.get?_set_ne _ _ (hdraw (draws_allocate ht))] using hm
  | claimNew d k side ht htr hk hn hs =>
    refine ⟨mb, ?_, by simp [addedBy]⟩
    have hne := hdraw (draws_claim ht htr hk hn)
    simpa [Dict.get?_set_ne _ _ hne] using hm
  | claimNewRaise d k ht htr hk hn hs =>
    refine ⟨mb, ?_, by simp [addedBy]⟩
    have hne := hdraw (draws_claim ht htr hk hn)
    simpa [Dict.get?_set_ne _ _ hne] using hm
  | claimOld d k np side ht htr hk hn hs => exact ⟨mb, hm, by simp [addedBy]⟩
  | releaseMiss d ht hk hn => exact ⟨mb, hm, by simp [addedBy]⟩
  | release d k np sides ht hk hn hs => exact ⟨mb, hm, by simp [addedBy]⟩
  | openRaise d m' ht htr hk hn hs =>
    have hne : m' ≠ m := by rintro rfl; rw [hn] at hm; cases hm
    exact ⟨mb, by simpa [Dict.get?_set_ne _ _ hne] using hm, by simp [addedBy]⟩
  | opened d m' side mb' ht htr hk hmb hs =>
    by_cases hne : m' = m
    · subst hne
      rw [hm] at hmb
      subst hmb
      exact ⟨_, by simp; rfl, by simp [addedBy]⟩
    · exact ⟨mb, by simpa [Dict.get?_set_ne _ _ hne] using hm, by simp [addedBy]⟩
  | add d m' msg mb' ht hst hmb hmsg =>
    by_cases hne : m' = m
    · subst hne
      rw [hm] at hmb
      cases hmb
      exact ⟨_, by simp; rfl, by simp [addedBy]⟩
    · exact ⟨mb, by simpa [Dict.get?_set_ne _ _ hne] using hm, by simp [addedBy, hne]⟩
  | closeNone d ht hst => exact ⟨mb, hm, by simp [addedBy]⟩
  | closeMiss d m' ht hst hn => exact ⟨mb, by simpa using hm, by simp [addedBy]⟩
  | close d m' sides mb' ht hst hmb hs =>
    by_cases hne : m' = m
    · subst hne
      rw [hm] at hmb
      cases hmb
      simp only at hm' ⊢
      split at hm'
      · simp at hm'
      · rename_i hsides; simp [hsides, addedBy]
    · refine ⟨mb, ?_, by simp [addedBy]⟩
      simp only
      split
      · simpa [Dict.get?_del_ne _ hne] using hm
      · simpa [Dict.get?_set_ne _ _ hne] using hm
  | closeRaise d m' mb' ht hst hmb hs => exact ⟨mb, by simpa using hm, by simp [addedBy]⟩

theorem messages_step (hv : Served c m s l) (hm : step s l = some s')
    (hin : s.server.mailboxes.get? m ≠ none) :
    messagesOf m s' = messagesOf m s ++ added m s l := by
  have hkept := hv.kept s' hm
  have hfresh := hv.fresh
  obtain ⟨mb, hmb⟩ := Option.ne_none_iff_exists'.mp hin
  by_cases hne : ∀ i data token, l ≠ .recv i (.json data) token
  · obtain ⟨-, hmail, -⟩ := server_frame (step_move hm) hne
    have hadd : added m s l = [] := by
      unfold added
      split
      · rename_i i data token; exact absurd rfl (hne i data token)
      · rfl
    rw [messagesOf, hmail, hadd, List.append_nil, messagesOf]
  · push Not at hne
    obtain ⟨i, data, token, rfl⟩ := hne
    cases step_move hm with
    | badText i inc token e ht hinc => exact absurd rfl (hinc data)
    | handled i data token out ht ho h =>
      have hdraw : drawsMailbox s.server data = true → Key.str token ≠ m := by
        rintro hd rfl
        exact hin (hfresh hd)
      obtain ⟨mb', h1, h2⟩ := messages_handled h hdraw hmb hkept
      simp [messagesOf, h1, h2, hmb, added, ho]

/-! ## Before the mailbox is opened -/

/-- A client that has not opened `m` is not subscribed to it and owed nothing. -/
structure Unopened (c : ConnId) (m : Key) (s : St) : Prop where
  notSubscribed : c ∉ s.server.subscribers m
  noDue : ∀ i, (s.conn i).task.due c m = 0
  noRest : replayRest c m s = []

theorem unopened_step (h : Unopened c m s) (ho : ¬ Opens c m s l) (hm : Move s l s') :
    Unopened c m s' where
  notSubscribed := fun hc => (subscribers_step hm hc).elim h.notSubscribed ho
  noDue := by
    intro i
    by_cases hi : i = l.subject
    · subst hi
      have hless : ∀ {i dst m' msg rest}, (s.conn i).task = .notify m' msg rest →
          (notifying m' msg (rest.erase dst)).due c m = 0 := by
        intro i dst m' msg rest ht
        have hdue := h.noDue i
        rw [ht, due_notify] at hdue
        rw [due_notifying, if_neg]
        rintro ⟨rfl, hc⟩
        simp [Finset.mem_of_mem_erase hc] at hdue
      cases hm with
      | handled j data token out ht hout hd =>
        simp only [receive_conn, Lbl.subject, if_true]
        rw [due_handled hd, if_neg h.notSubscribed]
      | notified j dst m' msg rest ht hdst hup =>
        simp only [upd_conn, Lbl.subject, if_true, goto_task]
        exact hless ht
      | discarded j dst m' msg rest ht hdst hup =>
        simp only [upd_conn, Lbl.subject, if_true, goto_task]
        exact hless ht
      | drop j => simpa [Lbl.subject] using h.noDue j
      | _ => simp [finish, Lbl.subject]
    · rw [conn_frame hm hi]; exact h.noDue i
  noRest := by
    by_cases hc : c = l.subject
    · subst hc
      have hrest := h.noRest
      cases hm with
      | handled j data token out ht hout hd =>
        by_contra hne
        simp only [replayRest, receive_conn, Lbl.subject, if_true] at hne
        exact ho ⟨data, token, rfl, rest_handled hd hne⟩
      | replayed j m' msg rest ht hup =>
        simp only [replayRest, Lbl.subject, ht, rest_replay] at hrest
        simp only [replayRest, Lbl.subject, upd_conn, if_true, goto_task, rest_replaying]
        split
        · rename_i hm'; rw [if_pos hm'] at hrest; cases hrest
        · rfl
      | drop j => simpa [replayRest, Lbl.subject] using hrest
      | _ => simp [replayRest, finish, Lbl.subject]
    · rw [replayRest, conn_frame hm hc]; exact h.noRest

/-- Nothing of `m` is sent to it. -/
theorem unopened_silent (h : Unopened c m s) (hm : Move s l s') :
    sentTo c (.replay m) s l = [] ∧ sentTo c (.notify m) s l = [] := by
  cases hm with
  | sent i f ht hup => exact ⟨sentTo_own (by simp) ht hup, sentTo_own (by simp) ht hup⟩
  | replayed i m' msg rest ht hup =>
    refine ⟨?_, by rw [sentTo_replayed ht hup, if_neg (by simp)]⟩
    rw [sentTo_replayed ht hup, if_neg]
    rintro ⟨rfl, hv⟩
    cases hv
    have hrest := h.noRest
    simp [replayRest, ht] at hrest
  | failed i ht hup => exact ⟨sentTo_failed hup, sentTo_failed hup⟩
  | quit i ht hup => exact ⟨sentTo_failed hup, sentTo_failed hup⟩
  | notified i dst m' msg rest ht hdst hup =>
    refine ⟨by rw [sentTo_notified ht hdst hup, if_neg (by simp)], ?_⟩
    rw [sentTo_notified ht hdst hup, if_neg]
    rintro ⟨rfl, hv⟩
    cases hv
    have hdue := h.noDue i
    simp [ht, hdst] at hdue
  | discarded i dst m' msg rest ht hdst hup => exact ⟨sentTo_discarded hup, sentTo_discarded hup⟩
  | _ => exact ⟨rfl, rfl⟩

theorem unopened_init (c : ConnId) (m : Key) (appId : String) : Unopened c m (init appId) where
  notSubscribed := by simp [init, Server.init, Server.subscribers]
  noDue := fun i => by simp [init]
  noRest := by simp [replayRest, init]

/-! ## The opening -/

/-- Opening subscribes and takes the backlog. -/
theorem opens_step (h : Unopened c m s) (ho : Opens c m s l) (hm : Move s l s') :
    c ∈ s'.server.subscribers m ∧ s'.server.mailboxes.get? m ≠ none ∧
      messagesOf m s' = messagesOf m s ∧ replayRest c m s' = messagesOf m s ∧
      notifyOwed c m s' = 0 := by
  obtain ⟨data, token, rfl, hopen⟩ := ho
  cases hm with
  | badText i inc token e ht hinc => exact absurd rfl (hinc data)
  | handled i data token out ht hout hd =>
    obtain ⟨side, mb, hmb, heq⟩ :=
      handleMessage_opens s.server c token hopen
    rw [heq] at hout
    subst hout
    have hmsgs : mb.messages = messagesOf m s := by
      rw [hmb, messagesOf]
      cases s.server.mailboxes.get? m <;> rfl
    refine ⟨?_, by simp, by simp [messagesOf, hmsgs], by simp [replayRest, nextTask, hmsgs], ?_⟩
    · rw [receive_server, subscribers_subscribe, if_pos rfl]
      exact Finset.mem_insert_self c _
    · refine Finset.sum_eq_zero fun j _ => ?_
      rw [receive_conn]
      split
      · exact due_replaying c m m _
      · exact h.noDue j

/-! ## Whole runs -/

/-- What a served subscriber may rely on in every state. -/
structure Subscribed (c : ConnId) (m : Key) (s : St) : Prop where
  registered : Registered s
  subscribed : c ∈ s.server.subscribers m
  present : s.server.mailboxes.get? m ≠ none

theorem subscribed_step (h : Subscribed c m s) (hv : Served c m s l) (hs : step s l = some s') :
    Subscribed c m s' :=
  ⟨registered_step h.registered (step_move hs), hv.subscribed s' hs, hv.kept s' hs⟩

/-- From the opening on: the replay works off the backlog, the fan-outs what is
added. -/
theorem served_run {s1 s2 : St} {ls : List Lbl} (h : Subscribed c m s1)
    (hr : ((lts appId).restrict (Served c m)).Run s1 ls s2) :
    replayRest c m s1 = LTS.gather step (sentTo c (.replay m)) s1 ls ++ replayRest c m s2 ∧
    notifyOwed c m s1 + (LTS.gather step (added m) s1 ls : Multiset Message) =
      (LTS.gather step (sentTo c (.notify m)) s1 ls : Multiset Message) + notifyOwed c m s2 ∧
    messagesOf m s2 = messagesOf m s1 ++ LTS.gather step (added m) s1 ls := by
  refine ⟨?_, ?_, ?_⟩
  · refine hr.gather (I := fun t got => replayRest c m s1 = got ++ replayRest c m t) []
      (fun s l t got hv hs ih => ?_) rfl
    rw [ih, replay_step hv (step_move hs), List.append_assoc]
  · exact hr.flow (P := Subscribed c m) (fun s l t hv hs ih => subscribed_step ih hv hs)
      (fun s l t hv hs ih => notify_step ih.registered ih.subscribed hv (step_move hs)) h
  · refine (hr.gather (I := fun t got => Subscribed c m t ∧ messagesOf m t = messagesOf m s1 ++ got)
      [] (fun s l t got hv hs ih => ⟨subscribed_step ih.1 hv hs, ?_⟩)
      ⟨h, (List.append_nil _).symm⟩).2
    rw [messages_step hv hs ih.1.present, ih.2, List.append_assoc]

/-- Before the opening nothing is gathered of what is only sent afterwards. -/
theorem unopened_run {s1 s2 : St} {ls : List Lbl} {q : St → Lbl → List Message}
    (hq : ∀ s l t, Unopened c m s → Move s l t → q s l = []) (h : Unopened c m s1)
    (hr : ((lts appId).restrict fun s l => ¬ Opens c m s l).Run s1 ls s2) :
    Unopened c m s2 ∧ LTS.gather step q s1 ls = [] := by
  refine hr.gather (I := fun t got => Unopened c m t ∧ got = []) []
    (fun s l t got ho hs ih => ⟨unopened_step ih.1 ho (step_move hs), ?_⟩) ⟨h, rfl⟩
  rw [ih.2, hq s l t ih.1 (step_move hs), List.nil_append]

/-- **Exactly once.** A client opens `m` once and is served from then on. Over
the whole run, in every interleaving: what its replay sent and has still to
send is the backlog at the opening, in order; what fan-outs sent it and still
owe it are the messages added since, each as often as it was added; and when
nothing is owed, it was sent each message of the mailbox once. -/
theorem delivered_once (appId : String) (c : ConnId) (m : Key) (ls0 ls : List Lbl) (l : Lbl)
    (s0 s1 s2 : St)
    (h0 : ((lts appId).restrict fun s l => ¬ Opens c m s l).Run (init appId) ls0 s0)
    (ho : Opens c m s0 l) (hs : step s0 l = some s1)
    (hr : ((lts appId).restrict (Served c m)).Run s1 ls s2) :
    ∃ replayed notified later : List Message,
      replayed = LTS.gather step (sentTo c (.replay m)) (init appId) (ls0 ++ l :: ls) ∧
      notified = LTS.gather step (sentTo c (.notify m)) (init appId) (ls0 ++ l :: ls) ∧
      messagesOf m s2 = messagesOf m s0 ++ later ∧
      replayed ++ replayRest c m s2 = messagesOf m s0 ∧
      (notified : Multiset Message) + notifyOwed c m s2 = later ∧
      (replayRest c m s2 = [] → notifyOwed c m s2 = 0 →
        ((replayed ++ notified : List Message) : Multiset Message) = messagesOf m s2) := by
  obtain ⟨hun, hpre1⟩ := unopened_run (q := sentTo c (.replay m))
    (fun s l t hu hm => (unopened_silent hu hm).1) (unopened_init c m appId) h0
  obtain ⟨-, hpre2⟩ := unopened_run (q := sentTo c (.notify m))
    (fun s l t hu hm => (unopened_silent hu hm).2) (unopened_init c m appId) h0
  have hm := step_move hs
  obtain ⟨hsub, hin, hmsgs, hrest, howed⟩ := opens_step hun ho hm
  have hreg : Registered s0 := registered_reachable appId s0 ⟨init appId, ls0, rfl, h0.of_restrict⟩
  obtain ⟨h1, h2, h3⟩ := served_run ⟨registered_step hreg hm, hsub, hin⟩ hr
  obtain ⟨hsil1, hsil2⟩ := unopened_silent hun hm
  have hwhole : ∀ via, LTS.gather step (sentTo c via) (init appId) ls0 = [] →
      sentTo c via s0 l = [] → LTS.gather step (sentTo c via) (init appId) (ls0 ++ l :: ls) =
        LTS.gather step (sentTo c via) s1 ls := by
    intro via hv1 hv2
    have happ := LTS.Run.gather_append (sentTo c via) (l :: ls) h0.of_restrict
    rw [happ, hv1]
    simp [LTS.gather, hs, hv2]
  refine ⟨_, _, LTS.gather step (added m) s1 ls, rfl, rfl, by rw [h3, hmsgs], ?_, ?_, ?_⟩
  · rw [hwhole _ hpre1 hsil1, ← h1, hrest]
  · rw [hwhole _ hpre2 hsil2, ← h2, howed, zero_add]
  · intro hr0 hn0
    have hreplayed : LTS.gather step (sentTo c (.replay m)) s1 ls = messagesOf m s0 := by
      rw [← hrest, h1, hr0, List.append_nil]
    have hnotified : (LTS.gather step (sentTo c (.notify m)) s1 ls : Multiset Message) =
        LTS.gather step (added m) s1 ls := by
      rw [howed, hn0, zero_add, add_zero] at h2
      exact h2.symm
    rw [hwhole _ hpre1 hsil1, hwhole _ hpre2 hsil2, hreplayed, ← Multiset.coe_add, hnotified,
      Multiset.coe_add, h3, hmsgs]

/-! ## No loop hangs -/

/-- A loop's send to a subscriber that is connected is one of those `Served` allows. -/
theorem served_send (h : Subscribed c m s) (hup : (s.conn c).up = true)
    (hl : l = .send c ∨ ∃ i, l = .notify i c)
    (hserver : ∀ s', step s l = some s' → s'.server = s.server) : Served c m s l where
  once := by
    intro ho
    obtain ⟨data, token, hrecv, -⟩ := ho
    rcases hl with hl | ⟨i, hl⟩
    · rw [hl] at hrecv
      cases hrecv
    · rw [hl] at hrecv
      cases hrecv
  sends _ := hup
  subscribed s' hs := by
    rw [hserver s' hs]
    exact h.subscribed
  kept s' hs := by
    rw [hserver s' hs]
    exact h.present
  fresh := by
    rcases hl with rfl | ⟨i, rfl⟩
    · trivial
    · trivial

/-- The replay can send its next message, and goes on with the rest. -/
theorem replay_progress (h : Subscribed c m s) (hup : (s.conn c).up = true) {msg : Message}
    {rest : List Message} (hrest : replayRest c m s = msg :: rest) :
    ∃ s', step s (.send c) = some s' ∧ Served c m s (.send c) ∧ (s'.conn c).up = true ∧
      replayRest c m s' = rest ∧ notifyOwed c m s' = notifyOwed c m s := by
  unfold replayRest at hrest
  cases ht : (s.conn c).task with
  | replay m' msgs =>
    rw [ht, rest_replay] at hrest
    split at hrest
    · rename_i hm
      rw [hm, hrest] at ht
      have hstep : step s (.send c) = some (s.upd c (.goto (replaying m rest))) := by
        simp only [step, ht, hup]
      have hserved : Served c m s (.send c) := by
        refine served_send h hup (.inl rfl) fun s' hs => ?_
        rw [hstep] at hs
        cases hs
        rfl
      refine ⟨_, hstep, hserved, ?_, ?_, ?_⟩
      · simp [hup]
      · simp [replayRest]
      · exact owed_goto (h.registered c (by simp [ht]) (by simp [ht])) (by simp [ht]) (by simp)
    · cases hrest
  | absent | greet | idle | reply | notify | fail | gone =>
    rw [ht] at hrest
    cases hrest

/-- A fan-out that owes `c` a message can send it, and then owes it no more. -/
theorem notify_progress (h : Subscribed c m s) (hup : (s.conn c).up = true)
    (howed : notifyOwed c m s ≠ 0) :
    ∃ i s', step s (.notify i c) = some s' ∧ Served c m s (.notify i c) ∧
      (s'.conn c).up = true ∧ replayRest c m s' = replayRest c m s ∧
      (notifyOwed c m s').card + 1 = (notifyOwed c m s).card := by
  obtain ⟨i, -, hdue⟩ := Finset.exists_ne_zero_of_sum_ne_zero howed
  cases ht : (s.conn i).task with
  | notify m' msg subs =>
    rw [ht, due_notify] at hdue
    have hmem : m' = m ∧ c ∈ subs := by
      by_contra hno
      exact hdue (if_neg hno)
    have hstep : step s (.notify i c) =
        some (s.upd i (.goto (notifying m' msg (subs.erase c)))) := by
      simp only [step, ht, hmem.2, hup, if_true]
      rfl
    have hserved : Served c m s (.notify i c) := by
      refine served_send h hup (.inr ⟨i, rfl⟩) fun s' hs => ?_
      rw [hstep] at hs
      cases hs
      rfl
    have hmove := step_move hstep
    have hreplay := replay_step hserved hmove
    have hnotify := notify_step h.registered h.subscribed hserved hmove
    rw [sentTo_notified ht hmem.2 hup, if_neg (by simp)] at hreplay
    rw [sentTo_notified ht hmem.2 hup, if_pos ⟨rfl, by rw [hmem.1]⟩] at hnotify
    refine ⟨i, _, hstep, hserved, ?_, hreplay.symm, ?_⟩
    · rw [upd_conn]
      split
      · exact hup
      · exact hup
    · have hcard := congrArg Multiset.card hnotify
      simp only [added, Multiset.coe_nil, add_zero, Multiset.coe_singleton, Multiset.card_add,
        Multiset.card_singleton] at hcard
      omega
  | absent | greet | idle | reply | replay | fail | gone =>
    rw [ht] at hdue
    exact absurd rfl hdue

/-- **No loop hangs.** The loops can send a connected subscriber all that they owe it. -/
theorem deliverable (appId : String) (h : Subscribed c m s) (hup : (s.conn c).up = true) :
    ∃ ls s', ((lts appId).restrict (Served c m)).Run s ls s' ∧ replayRest c m s' = [] ∧
      notifyOwed c m s' = 0 := by
  obtain ⟨n, hn⟩ : ∃ n, (replayRest c m s).length + (notifyOwed c m s).card = n := ⟨_, rfl⟩
  induction n generalizing s with
  | zero =>
    refine ⟨[], s, .nil s, List.length_eq_zero_iff.mp ?_, Multiset.card_eq_zero.mp ?_⟩
    · omega
    · omega
  | succ n ih =>
    cases hrest : replayRest c m s with
    | cons msg rest =>
      obtain ⟨s', hstep, hserved, hup', hrest', howed⟩ := replay_progress h hup hrest
      rw [hrest, List.length_cons] at hn
      obtain ⟨ls, t, hrun, hdone⟩ := ih (subscribed_step h hserved hstep) hup'
        (by rw [hrest', howed]; omega)
      exact ⟨.send c :: ls, t, .cons ⟨hserved, hstep⟩ hrun, hdone⟩
    | nil =>
      rw [hrest, List.length_nil, Nat.zero_add] at hn
      have howed : notifyOwed c m s ≠ 0 := by
        intro hzero
        rw [hzero] at hn
        cases hn
      obtain ⟨i, s', hstep, hserved, hup', hrest', hcard⟩ := notify_progress h hup howed
      obtain ⟨ls, t, hrun, hdone⟩ := ih (subscribed_step h hserved hstep) hup'
        (by rw [hrest', hrest, List.length_nil]; omega)
      exact ⟨.notify i c :: ls, t, .cons ⟨hserved, hstep⟩ hrun, hdone⟩

/-! ## A run -/

/-- Client 1 opens `m` and adds a message, which is sent back to it. -/
def before : List Lbl :=
  arrive 0 ++ arrive 1 ++ [Lbl.recv 1 (request "open" "mailbox" (.str "m")) "",
    .recv 1 (request "add" "body" (.str "first")) "a", .notify 1 1]

/-- The replay to client 0, and a second message to both. -/
def after : List Lbl :=
  [.send 0, .recv 1 (request "add" "body" (.str "second")) "b", .notify 1 0, .notify 1 1]

/-- A check that implies that client 0 opens nothing. -/
def otherReads (_ : St) : Lbl → Bool
  | .recv i _ _ => i ≠ 0
  | _ => true

/-- A check that implies `Served`, for runs in which only `add` is read. -/
def servedCheck (s : St) (l : Lbl) : Bool :=
  (s.conn 0).up &&
  (match l with
    | .recv i (.json (.obj d)) _ => i ≠ 0 && (match Fields.get d "type" with
      | .str "add" => true
      | _ => false)
    | .recv _ _ _ => false
    | _ => true) &&
  (match step s l with
    | some s' => 0 ∈ s'.server.subscribers (.str "m") && s'.server.mailboxes.contains (.str "m")
    | none => true)

theorem not_opens_of_otherReads (s : St) (l : Lbl) (h : otherReads s l = true) :
    ¬ Opens 0 (.str "m") s l := by
  rintro ⟨data, token, rfl, -⟩
  simp [otherReads] at h

theorem served_of_check (s : St) (l : Lbl) (h : servedCheck s l = true) :
    Served 0 (.str "m") s l := by
  simp only [servedCheck, Bool.and_eq_true] at h
  obtain ⟨⟨hup, hread⟩, hnext⟩ := h
  refine ⟨?_, fun _ => hup, ?_, ?_, ?_⟩
  · rintro ⟨data, token, rfl, d, rfl, -⟩
    simp at hread
  · intro s' hs
    simp only [hs, Bool.and_eq_true, decide_eq_true_eq] at hnext
    exact hnext.1
  · intro s' hs
    simp only [hs, Bool.and_eq_true, Dict.contains_eq] at hnext
    exact Option.isSome_iff_ne_none.mp hnext.2
  · cases l with
    | recv i inc token =>
      cases inc with
      | json data =>
        intro hdraw
        cases data with
        | obj d =>
          simp only [Bool.and_eq_true] at hread
          have hadd := hread.2
          split at hadd
          · rename_i ht; simp [drawsMailbox, ht] at hdraw
          · cases hadd
        | _ => cases hdraw
      | _ => exact trivial
    | _ => exact trivial

/-- The state before client 0 opens `m`. -/
def unopened : St :=
  (LTS.exec (LTS.checked otherReads step) (init "wh") before).get (by decide)

def opening : Lbl := .recv 0 (request "open" "mailbox" (.str "m")) ""

def opened : St := (step unopened opening).get (by decide)

def delivered : St := (LTS.exec (LTS.checked servedCheck step) opened after).get (by decide)

theorem delivered_once_two :
    ∃ replayed notified later : List Message,
      replayed = LTS.gather step (sentTo 0 (.replay (.str "m"))) (init "wh")
        (before ++ opening :: after) ∧
      notified = LTS.gather step (sentTo 0 (.notify (.str "m"))) (init "wh")
        (before ++ opening :: after) ∧
      messagesOf (.str "m") delivered = messagesOf (.str "m") unopened ++ later ∧
      replayed ++ replayRest 0 (.str "m") delivered = messagesOf (.str "m") unopened ∧
      (notified : Multiset Message) + notifyOwed 0 (.str "m") delivered = later ∧
      (replayRest 0 (.str "m") delivered = [] → notifyOwed 0 (.str "m") delivered = 0 →
        ((replayed ++ notified : List Message) : Multiset Message) =
          messagesOf (.str "m") delivered) :=
  delivered_once "wh" 0 (.str "m") before after opening unopened opened delivered
    (LTS.restrict_run_of_exec not_opens_of_otherReads (Option.some_get _).symm)
    ⟨_, _, rfl, _, rfl, rfl, by decide, rfl, by decide⟩ (Option.some_get _).symm
    (LTS.restrict_run_of_exec served_of_check (Option.some_get _).symm)

end Wormhole.L5.MailboxSystem
