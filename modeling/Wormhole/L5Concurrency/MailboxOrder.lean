import Wormhole.L5Concurrency.MailboxDelivery

/-!
# In which order messages arrive

Every message arrives once, but not in the order of the mailbox: a replay and
a fan-out, or two fan-outs, can be under way to the same client, and which of
them sends next is up to the scheduler. A client that is being replayed two
messages can be sent a third before the first (`replay_overtaken`).

A client receives the mailbox in order when messages are `Spaced`: one is
added only when nothing is owed to that client (`received_in_order`). Two such
clients agree, since both have received a prefix of the mailbox.
-/
namespace Wormhole.L5.MailboxSystem
open Wormhole.L1 Wormhole.L4.MailboxServer

variable {appId : String} {c : ConnId} {m : Key} {s s' : St} {l : Lbl}

/-- The messages of `m` that a step hands to `c`. -/
def received (c : ConnId) (m : Key) (s : St) (l : Lbl) : List Message :=
  sentTo c (.replay m) s l ++ sentTo c (.notify m) s l

/-- A message is added to `m` only when none is owed to `c`. -/
def Spaced (c : ConnId) (m : Key) (s : St) (l : Lbl) : Prop :=
  added m s l ≠ [] → replayRest c m s = [] ∧ notifyOwed c m s = 0

/-! ## One step -/

theorem sentTo_cases (c : ConnId) (via : Via) (s : St) (l : Lbl) :
    sentTo c via s l = [] ∨
      ∃ msg, emitted s l = some ⟨c, .message msg, via⟩ ∧ sentTo c via s l = [msg] := by
  unfold sentTo
  split
  · rename_i dst msg v h
    split
    · rename_i hc
      obtain ⟨rfl, rfl⟩ := hc
      exact .inr ⟨msg, h, rfl⟩
    · exact .inl rfl
  · exact .inl rfl

theorem added_cases (m : Key) (s : St) (l : Lbl) :
    added m s l = [] ∨ ∃ msg, added m s l = [msg] ∧ ∀ c via, sentTo c via s l = [] := by
  cases l with
  | recv i inc token =>
    cases inc with
    | json data =>
      simp only [added, addedBy]
      split
      · rename_i m' msg subs _
        split
        · exact .inr ⟨msg, rfl, fun _ _ => rfl⟩
        · exact .inl rfl
      · exact .inl rfl
    | _ => exact .inl rfl
  | _ => exact .inl rfl

/-- What `c` got and is still owed, in an order that makes up the mailbox: the
rest of the replay, or at most one message of a fan-out. -/
def Ordered (c : ConnId) (m : Key) (s : St) (got : List Message) : Prop :=
  ∃ owed : List Message, got ++ owed = messagesOf m s ∧
    (owed : Multiset Message) = replayRest c m s + notifyOwed c m s ∧
    (replayRest c m s ≠ [] → owed = replayRest c m s) ∧
    (replayRest c m s = [] → owed.length ≤ 1)

theorem ordered_step {got : List Message} (h : Ordered c m s got) (hsub : Subscribed c m s)
    (hv : Served c m s l) (hsp : Spaced c m s l) (hs : step s l = some s') :
    Ordered c m s' (got ++ received c m s l) := by
  obtain ⟨owed, hmsgs, howed, hrep, hone⟩ := h
  have hreplay := replay_step hv (step_move hs)
  have hnotify := notify_step hsub.registered hsub.subscribed hv (step_move hs)
  have hmail := messages_step hv hs hsub.present
  rcases added_cases m s l with hadd | ⟨msg, hadd, hsilent⟩
  · rw [hadd, List.append_nil] at hmail
    rw [hadd, Multiset.coe_nil, add_zero] at hnotify
    rcases sentTo_cases c (.replay m) s l with hr | ⟨msg, hem, hr⟩
    · rw [hr, List.nil_append] at hreplay
      rcases sentTo_cases c (.notify m) s l with hn | ⟨msg, hem, hn⟩
      · -- nothing is sent to `c`
        rw [hn, Multiset.coe_nil, zero_add] at hnotify
        rw [received, hr, hn, List.append_nil, List.append_nil]
        refine ⟨owed, hmsgs.trans hmail.symm, ?_, ?_, ?_⟩
        · rw [← hreplay, ← hnotify]; exact howed
        · rw [← hreplay]; exact hrep
        · rw [← hreplay]; exact hone
      · -- a fan-out sends the one message that is owed
        rw [hn] at hnotify
        have hrest : replayRest c m s = [] := by
          by_contra hne
          rw [hrep hne, left_eq_add] at howed
          rw [howed] at hnotify
          simp at hnotify
        rw [hrest, Multiset.coe_nil, zero_add, hnotify] at howed
        have hzero : notifyOwed c m s' = 0 := by
          have hcard := congrArg Multiset.card howed
          have := hone hrest
          rw [Multiset.coe_card, Multiset.card_add, Multiset.coe_card,
            List.length_singleton] at hcard
          exact Multiset.card_eq_zero.mp (by omega)
        obtain rfl : owed = [msg] := by
          rw [hzero, add_zero, Multiset.coe_eq_coe] at howed
          exact List.perm_singleton.mp howed
        refine ⟨[], ?_, ?_, fun _ => ?_, fun _ => Nat.zero_le 1⟩
        · rw [received, hr, hn, List.nil_append, List.append_nil, hmail, hmsgs]
        · rw [← hreplay, hrest, hzero]; rfl
        · rw [← hreplay, hrest]
    · -- the replay sends its next message
      have hn : sentTo c (.notify m) s l = [] := by
        rcases sentTo_cases c (.notify m) s l with hn | ⟨msg', hem', -⟩
        · exact hn
        · rw [hem] at hem'; cases hem'
      rw [hr] at hreplay
      have hne : replayRest c m s ≠ [] := by rw [hreplay]; simp
      obtain rfl := hrep hne
      rw [left_eq_add] at howed
      rw [hn, howed, Multiset.coe_nil, zero_add] at hnotify
      refine ⟨replayRest c m s', ?_, by rw [← hnotify, add_zero], fun _ => rfl,
        fun hnil => by rw [hnil]; exact Nat.zero_le 1⟩
      rw [received, hr, hn, List.append_nil, List.append_assoc, ← hreplay, hmail, hmsgs]
  · -- a message is added and becomes the only one owed
    obtain ⟨hrest, hzero⟩ := hsp (by rw [hadd]; simp)
    have hnil : owed = [] := by
      rw [hrest, hzero, add_zero, Multiset.coe_nil, Multiset.coe_eq_zero] at howed
      exact howed
    rw [hsilent, hrest, List.nil_append] at hreplay
    rw [hsilent, hadd, hzero, zero_add, Multiset.coe_nil, zero_add] at hnotify
    refine ⟨[msg], ?_, ?_, fun hne => absurd hreplay.symm hne, fun _ => le_rfl⟩
    · rw [received, hsilent, hsilent, List.append_nil, List.append_nil, hmail, hadd, ← hmsgs, hnil,
        List.append_nil]
    · rw [← hreplay, ← hnotify, Multiset.coe_nil, zero_add]

/-! ## Whole runs -/

/-- **In order, when messages are spaced.** A client opens `m` once and is
served from then on, and each message is added to `m` only when none is owed to
the client. Then it has received a prefix of the mailbox, in every
interleaving. -/
theorem received_in_order (appId : String) (c : ConnId) (m : Key) (ls0 ls : List Lbl) (l : Lbl)
    (s0 s1 s2 : St)
    (h0 : ((lts appId).restrict fun s l => ¬ Opens c m s l).Run (init appId) ls0 s0)
    (ho : Opens c m s0 l) (hs : step s0 l = some s1)
    (hr : ((lts appId).restrict fun s l => Served c m s l ∧ Spaced c m s l).Run s1 ls s2) :
    LTS.gather step (received c m) (init appId) (ls0 ++ l :: ls) <+: messagesOf m s2 := by
  have hsilent : ∀ s l t, Unopened c m s → Move s l t → received c m s l = [] := by
    intro s l t hu hm
    obtain ⟨h1, h2⟩ := unopened_silent hu hm
    rw [received, h1, h2, List.append_nil]
  obtain ⟨hun, hpre⟩ := unopened_run hsilent (unopened_init c m appId) h0
  have hm := step_move hs
  obtain ⟨hsub, hin, hmsgs, hrest, howed⟩ := opens_step hun ho hm
  have hreg : Registered s0 := registered_reachable appId s0 ⟨init appId, ls0, rfl, h0.of_restrict⟩
  have hstart : Ordered c m s1 [] :=
    ⟨messagesOf m s0, by rw [hmsgs, List.nil_append], by rw [hrest, howed, add_zero],
      fun _ => hrest.symm, fun hnil => by rw [← hrest, hnil]; exact Nat.zero_le 1⟩
  obtain ⟨-, owed, hall, -⟩ := hr.gather
    (I := fun t got => Subscribed c m t ∧ Ordered c m t got) []
    (fun s l t got hv hs ih =>
      ⟨subscribed_step ih.1 hv.1 hs, ordered_step ih.2 ih.1 hv.1 hv.2 hs⟩)
    ⟨⟨registered_step hreg hm, hsub, hin⟩, hstart⟩
  have happ := LTS.Run.gather_append (received c m) (l :: ls) h0.of_restrict
  rw [happ, hpre, List.nil_append]
  simp only [LTS.gather, hs, hsilent s0 l s1 hun hm, List.nil_append] at hall ⊢
  exact ⟨owed, hall⟩

/-! ## Runs -/

/-- A check that implies `Spaced` for client 0. -/
def spacedCheck (s : St) (l : Lbl) : Bool :=
  servedCheck s l && (match l with
    | .recv _ _ _ =>
      (replayRest 0 (.str "m") s).isEmpty && (notifyOwed 0 (.str "m") s).card = 0
    | _ => true)

theorem spaced_of_check (s : St) (l : Lbl) (h : spacedCheck s l = true) :
    Served 0 (.str "m") s l ∧ Spaced 0 (.str "m") s l := by
  simp only [spacedCheck, Bool.and_eq_true] at h
  refine ⟨served_of_check s l h.1, fun hadd => ?_⟩
  cases l with
  | recv i inc token =>
    simp only [Bool.and_eq_true, List.isEmpty_iff, decide_eq_true_eq, Multiset.card_eq_zero] at h
    exact h.2
  | _ => exact absurd rfl hadd

def spaced : St := (LTS.exec (LTS.checked spacedCheck step) opened after).get (by decide)

theorem received_in_order_two :
    LTS.gather step (received 0 (.str "m")) (init "wh") (before ++ opening :: after) <+:
      messagesOf (.str "m") spaced :=
  received_in_order "wh" 0 (.str "m") before after opening unopened opened spaced
    (LTS.restrict_run_of_exec not_opens_of_otherReads (Option.some_get _).symm)
    ⟨_, _, rfl, _, rfl, rfl, by decide, rfl, by decide⟩ (Option.some_get _).symm
    (LTS.restrict_run_of_exec spaced_of_check (Option.some_get _).symm)

/-- Client 1 adds a second message to its mailbox before client 0 opens it. -/
def beforeTwo : List Lbl :=
  before ++ [.recv 1 (request "add" "body" (.str "second")) "b", .notify 1 1]

/-- A third message is added and sent to client 0 before its replay begins. -/
def overtaking : List Lbl :=
  [.recv 1 (request "add" "body" (.str "third")) "c", .notify 1 0, .notify 1 1, .send 0, .send 0]

def twoMessages : St :=
  (LTS.exec (LTS.checked otherReads step) (init "wh") beforeTwo).get (by decide)

def replayBegins : St := (step twoMessages opening).get (by decide)

def overtaken : St := (LTS.exec (LTS.checked servedCheck step) replayBegins overtaking).get (by decide)

/-- **A replay is overtaken.** Client 0 receives the third message before the
first. -/
theorem replay_overtaken :
    ¬ ∀ (appId : String) (c : ConnId) (m : Key) (ls0 ls : List Lbl) (l : Lbl) (s0 s1 s2 : St),
      ((lts appId).restrict fun s l => ¬ Opens c m s l).Run (init appId) ls0 s0 →
      Opens c m s0 l → step s0 l = some s1 → ((lts appId).restrict (Served c m)).Run s1 ls s2 →
      List.Sublist (LTS.gather step (received c m) (init appId) (ls0 ++ l :: ls))
        (messagesOf m s2) := by
  intro h
  have hsub := h "wh" 0 (.str "m") beforeTwo overtaking opening twoMessages replayBegins overtaken
    (LTS.restrict_run_of_exec not_opens_of_otherReads (Option.some_get _).symm)
    ⟨_, _, rfl, _, rfl, rfl, by decide, rfl, by decide⟩ (Option.some_get _).symm
    (LTS.restrict_run_of_exec served_of_check (Option.some_get _).symm)
  have hids := hsub.map Message.id
  revert hids
  decide

end Wormhole.L5.MailboxSystem
