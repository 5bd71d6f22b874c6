import Wormhole.L5Concurrency.MailboxDelivery

/-!
# Subscriptions and the open mailbox

A client has at most one mailbox open, but `open` of a second one leaves its
subscription to the first (`still_subscribed`). A fan-out works on a copy of
the subscribers, so a client can also be sent a message of a mailbox that it
closed while the fan-out was under way.

A run is `Parted` when a client leaves a mailbox, by `close` or by another
`open`, only when no fan-out owes it a message of it, and by another `open` only
when it is not subscribed to it any more. Then a subscriber is served and has
the mailbox open, and every message sent is of a mailbox its receiver has open
(`subscriptions_mirror`).
-/
namespace Wormhole.L5.MailboxSystem
open Wormhole.L1 Wormhole.L4.MailboxServer

/-! ## The statement -/

/-- The message is a `close` of `m` that does not raise. -/
def ClosesMailbox (srv : Server) (st : ClientState) (m : Key) (data : Json) : Prop :=
  ∃ d, data = .obj d ∧ Fields.get d "type" = .str "close" ∧ st.mailbox = some m ∧
    ∀ mb, srv.mailboxes.get? m = some mb → dropSide st.side mb.sides ≠ none

/-- A client leaves its mailbox only when no message of it is under way to the
client, and opens another only when it is not subscribed to it. -/
def Parted (s : St) (l : Lbl) : Prop :=
  ∀ c data token m, l = .recv c (.json data) token → (s.conn c).state.mailbox = some m →
    ((∃ m', m' ≠ m ∧ OpensMailbox (s.conn c).state m' data) →
      c ∉ s.server.subscribers m ∧ ((s.conn c).up = true → notifyOwed c m s = 0)) ∧
    (ClosesMailbox s.server (s.conn c).state m data → (s.conn c).up = true →
      notifyOwed c m s = 0)

/-- A subscriber is being served and has the mailbox open, and so is and has the
receiver of a message. -/
def Mirrored (s : St) : Prop :=
  (∀ c m, c ∈ s.server.subscribers m → c ∈ s.clients ∧ (s.conn c).state.mailbox = some m) ∧
  ∀ l c msg via, emitted s l = some ⟨c, .message msg, via⟩ →
    ∃ m, (via = .replay m ∨ via = .notify m) ∧ c ∈ s.clients ∧ (s.conn c).state.mailbox = some m

/-! ## The invariant -/

/-- The coroutine of `c` is at work and its mailbox is `m`. -/
structure Joined (c : ConnId) (m : Key) (s : St) : Prop where
  came : (s.conn c).task ≠ .absent
  stays : (s.conn c).task ≠ .gone
  mailbox : (s.conn c).state.mailbox = some m

/-- The connection of `c` has closed. -/
def Lost (c : ConnId) (s : St) : Prop := (s.conn c).up = false ∧ (s.conn c).task ≠ .absent

structure Mirror (s : St) : Prop where
  subscribed : ∀ c m, c ∈ s.server.subscribers m → Joined c m s
  owed : ∀ i c m msg rest, (s.conn i).task = .notify m msg rest → c ∈ rest →
    Joined c m s ∨ Lost c s
  replayed : ∀ c m msgs, (s.conn c).task = .replay m msgs → (s.conn c).state.mailbox = some m
  replies : ∀ c f msg, (s.conn c).task = .reply f → f ≠ .message msg

variable {s s' : St} {l : Lbl} {i c : ConnId} {m : Key} {data : Json} {token : String} {out : Out}

theorem due_of_owed {msg : Message} {rest : Finset ConnId} (hr : Registered s)
    (ht : (s.conn i).task = .notify m msg rest) (hc : c ∈ rest) : notifyOwed c m s ≠ 0 := by
  intro h
  have hi : i ∈ s.clients := hr i (by rw [ht]; simp) (by rw [ht]; simp)
  rw [notifyOwed, ← Finset.add_sum_erase _ _ hi, ht, due_notify, if_pos ⟨rfl, hc⟩] at h
  have hcard := congrArg Multiset.card h
  rw [Multiset.card_add, Multiset.card_singleton, Multiset.card_zero] at hcard
  omega

/-! ## Every step but a message -/

/-- A closed connection stays closed. -/
theorem lost_step (h : Lost c s) (hm : Move s l s') : Lost c s' := by
  obtain ⟨hup, hta⟩ := h
  by_cases hc : c = l.subject
  · subst hc
    cases hm with
    | connect i ht => exact absurd ht hta
    | drop i => exact ⟨by simp [Lbl.subject], by simpa [Lbl.subject] using hta⟩
    | handled i data token out ht ho hd =>
      exact ⟨by simpa [Lbl.subject] using hup,
        by simpa [Lbl.subject] using (nextTask_atWork out.next).1⟩
    | sent i f ht hu => rw [show (s.conn i).up = false from hup] at hu; cases hu
    | replayed i m msg rest ht hu => rw [show (s.conn i).up = false from hup] at hu; cases hu
    | notified i dst m msg rest ht hdst hu =>
      exact ⟨by simpa [Lbl.subject] using hup,
        by simpa [Lbl.subject] using (notifying_atWork m msg (rest.erase dst)).1⟩
    | discarded i dst m msg rest ht hdst hu =>
      exact ⟨by simpa [Lbl.subject] using hup,
        by simpa [Lbl.subject] using (notifying_atWork m msg (rest.erase dst)).1⟩
    | _ => exact ⟨by simpa [finish, Lbl.subject] using hup, by simp [finish, Lbl.subject]⟩
  · rw [Lost, conn_frame hm hc]; exact ⟨hup, hta⟩

/-- A client at work stays so, unless its coroutine ends. -/
theorem joined_step (h : Joined c m s) (hm : Move s l s')
    (hne : ∀ i data token, l ≠ .recv i (.json data) token) :
    Joined c m s' ∨ (Lost c s' ∧ s' = finish s c) := by
  by_cases hc : c = l.subject
  · subst hc
    have hgo : ∀ t : Task, t ≠ .absent → t ≠ .gone → ∀ i, (s.conn i).state.mailbox = some m →
        Joined i m (s.upd i (.goto t)) := by
      intro t h1 h2 i hi
      exact ⟨by simpa using h1, by simpa using h2, by simpa using hi⟩
    cases hm with
    | connect i ht => exact absurd ht h.came
    | handled i data token out ht ho hd => exact absurd rfl (hne i data token)
    | drop i =>
      exact .inl ⟨by simpa [Lbl.subject] using h.came, by simpa [Lbl.subject] using h.stays,
        by simpa [Lbl.subject] using h.mailbox⟩
    | quit i ht hup =>
      refine .inr ⟨⟨?_, by simp [finish, Lbl.subject]⟩, rfl⟩
      simpa [finish, Lbl.subject] using hup
    | leave i ht hup =>
      refine .inr ⟨⟨?_, by simp [finish, Lbl.subject]⟩, rfl⟩
      simpa [finish, Lbl.subject] using hup
    | replayed i m' msg rest ht hup =>
      exact .inl (hgo _ (replaying_atWork m' rest).1 (replaying_atWork m' rest).2 i h.mailbox)
    | notified i dst m' msg rest ht hdst hup =>
      have hw := notifying_atWork m' msg (rest.erase dst)
      exact .inl (hgo _ hw.1 hw.2 i h.mailbox)
    | discarded i dst m' msg rest ht hdst hup =>
      have hw := notifying_atWork m' msg (rest.erase dst)
      obtain ⟨h1, h2, h3⟩ := hgo _ hw.1 hw.2 i h.mailbox
      exact .inl ⟨h1, h2, h3⟩
    | badText i inc token e ht hinc => exact .inl (hgo _ (by simp) (by simp) i h.mailbox)
    | sent i f ht hup => exact .inl (hgo _ (by simp) (by simp) i h.mailbox)
    | failed i ht hup => exact .inl (hgo _ (by simp) (by simp) i h.mailbox)
  · refine .inl ⟨?_, ?_, ?_⟩ <;> rw [conn_frame hm hc]
    · exact h.came
    · exact h.stays
    · exact h.mailbox

/-- The loops and replies under way were under way before. -/
theorem task_back (hm : Move s l s') (hne : ∀ i data token, l ≠ .recv i (.json data) token) :
    (∀ m msg rest, (s'.conn c).task = .notify m msg rest →
      ∃ rest0, (s.conn c).task = .notify m msg rest0 ∧ rest ⊆ rest0) ∧
    (∀ m msgs, (s'.conn c).task = .replay m msgs →
      (∃ msgs0, (s.conn c).task = .replay m msgs0) ∧ (s'.conn c).state = (s.conn c).state) ∧
    ∀ f, (s'.conn c).task = .reply f → (s.conn c).task = .reply f := by
  by_cases hc : c = l.subject
  · subst hc
    -- the tasks a step may leave are those of the loop it was in, or none of these
    have hless : ∀ dst {m' msg' rest' t}, (s.conn l.subject).task = .notify m' msg' rest' →
        t = notifying m' msg' (rest'.erase dst) →
        (∀ m msg rest, t = .notify m msg rest →
          ∃ rest0, (s.conn l.subject).task = .notify m msg rest0 ∧ rest ⊆ rest0) ∧
        (∀ m msgs, t ≠ .replay m msgs) ∧ ∀ f, t ≠ .reply f := by
      rintro dst m' msg' rest' t ht rfl
      unfold notifying
      split
      · simp
      · refine ⟨?_, by simp, by simp⟩
        rintro m msg rest h
        cases h
        exact ⟨rest', ht, Finset.erase_subset _ _⟩
    cases hm with
    | handled i data token out ht ho hd => exact absurd rfl (hne i data token)
    | drop i => exact ⟨fun m msg rest h => ⟨rest, by simpa [Lbl.subject] using h, subset_rfl⟩,
        fun m msgs h => ⟨⟨msgs, by simpa [Lbl.subject] using h⟩, by simp [Lbl.subject]⟩,
        fun f h => by simpa [Lbl.subject] using h⟩
    | replayed i m' msg' rest' ht hup =>
      have htask : ((s.upd i (.goto (replaying m' rest'))).conn i).task = replaying m' rest' := by
        simp
      simp only [Lbl.subject, htask]
      unfold replaying
      split
      · simp
      · refine ⟨by simp, ?_, by simp⟩
        rintro m msgs h
        cases h
        exact ⟨⟨_, ht⟩, by simp⟩
    | notified i dst m' msg' rest' ht hdst hup =>
      obtain ⟨h1, h2, h3⟩ := hless dst ht rfl
      have htask : ((s.upd i (.goto (notifying m' msg' (rest'.erase dst)))).conn i).task =
          notifying m' msg' (rest'.erase dst) := by simp
      simp only [Lbl.subject, htask]
      exact ⟨h1, fun m msgs h => absurd h (h2 m msgs), fun f h => absurd h (h3 f)⟩
    | discarded i dst m' msg' rest' ht hdst hup =>
      obtain ⟨h1, h2, h3⟩ := hless dst ht rfl
      have htask : ((s.upd i (.goto (notifying m' msg' (rest'.erase dst)))).conn i).task =
          notifying m' msg' (rest'.erase dst) := by simp
      simp only [Lbl.subject, htask]
      exact ⟨h1, fun m msgs h => absurd h (h2 m msgs), fun f h => absurd h (h3 f)⟩
    | _ => simp [finish, Lbl.subject]
  · rw [conn_frame hm hc]
    exact ⟨fun m msg rest h => ⟨rest, h, subset_rfl⟩, fun m msgs h => ⟨⟨msgs, h⟩, rfl⟩,
      fun f h => h⟩

theorem finish_unsubscribed (h : (s.conn c).state.mailbox = some m) :
    c ∉ (finish s c).server.subscribers m := by
  simp only [finish, h]
  rw [subscribers_unsubscribe, if_pos rfl]
  exact Finset.notMem_erase c _

theorem mirror_frame (h : Mirror s) (hm : Move s l s')
    (hne : ∀ i data token, l ≠ .recv i (.json data) token) : Mirror s' where
  subscribed := by
    intro c m hc
    have hsub := (subscribers_step hm hc).resolve_right
      fun ⟨data, token, hl, _⟩ => hne c data token hl
    have hj := h.subscribed c m hsub
    rcases joined_step hj hm hne with hj' | ⟨-, rfl⟩
    · exact hj'
    · exact absurd hc (finish_unsubscribed hj.mailbox)
  owed := by
    intro i c m msg rest ht hc
    obtain ⟨rest0, ht0, hsub⟩ := (task_back hm hne).1 m msg rest ht
    rcases h.owed i c m msg rest0 ht0 (hsub hc) with hj | hl
    · exact (joined_step hj hm hne).imp_right And.left
    · exact .inr (lost_step hl hm)
  replayed := by
    intro c m msgs ht
    obtain ⟨⟨msgs0, ht0⟩, hst⟩ := (task_back hm hne).2.1 m msgs ht
    rw [hst]
    exact h.replayed c m msgs0 ht0
  replies := fun c f msg ht => h.replies c f msg ((task_back hm hne).2.2 f ht)

/-! ## One message -/

/-- The ways in which a message takes its client out of a mailbox. -/
theorem mailbox_handled {srv : Server} {st : ClientState} (h : Handled srv st i token data out)
    (hm : st.mailbox = some m) :
    out.state.mailbox = some m ∨ (∃ m', m' ≠ m ∧ OpensMailbox st m' data) ∨
      (ClosesMailbox srv st m data ∧ i ∉ out.server.subscribers m) := by
  cases h with
  | opened d m' side mb ht htr hk hmb hs =>
    by_cases hmm : m' = m
    · exact .inl (by rw [hmm])
    · exact .inr (.inl ⟨m', hmm, d, rfl, ht, htr, hk, by simp [hs]⟩)
  | closeMiss d m' ht hst hn =>
    cases hst.symm.trans hm
    refine .inr (.inr ⟨⟨d, rfl, ht, hm, by simp [hn]⟩, ?_⟩)
    rw [subscribers_unsubscribe, if_pos rfl]
    exact Finset.notMem_erase i _
  | close d m' sides mb ht hst hmb hs =>
    cases hst.symm.trans hm
    refine .inr (.inr ⟨⟨d, rfl, ht, hm, ?_⟩, ?_⟩)
    · intro mb' hmb'
      cases hmb.symm.trans hmb'
      simp [hs]
    · have hsub : i ∉ (srv.unsubscribe m i).subscribers m := by
        rw [subscribers_unsubscribe, if_pos rfl]
        exact Finset.notMem_erase i _
      exact hsub
  | _ => exact .inl hm

/-- What a message that starts a loop has done. -/
theorem loops_handled {srv : Server} {st : ClientState} (h : Handled srv st i token data out) :
    (∀ m msg subs, out.next = .notify m msg subs → subs = srv.subscribers m ∧ out.state = st) ∧
    (∀ m msgs, out.next = .replay m msgs → out.state.mailbox = some m) ∧
    ∀ msg, out.next ≠ .reply (.message msg) := by
  cases h with
  | quiet data next hq hdr =>
    cases next with
    | reply f => exact ⟨by simp, by simp, by rintro msg h; cases h; cases hq⟩
    | raise e => simp
    | replay m msgs => cases hq
    | notify m msg subs => cases hq
  | opened d m' side mb ht htr hk hmb hs =>
    refine ⟨by simp, ?_, by simp⟩
    rintro m msgs h
    cases h
    rfl
  | add d m' msg' mb ht hst hm hmsg =>
    refine ⟨?_, by simp, by simp⟩
    rintro m msg subs h
    cases h
    exact ⟨rfl, rfl⟩
  | allocate d ht => simp [handleAllocate]
  | _ => simp

theorem mirror_handled (h : Mirror s) (hr : Registered s)
    (hp : Parted s (.recv i (.json data) token)) (ht : (s.conn i).task = .idle)
    (ho : handleMessage s.server (s.conn i).state i data token = out)
    (hd : Handled s.server (s.conn i).state i token data out) : Mirror (receive s i out) := by
  obtain ⟨hnotify, hreplay, hreply⟩ := loops_handled hd
  have hwork := nextTask_atWork out.next
  have hother : ∀ {c m}, c ≠ i → Joined c m s → Joined c m (receive s i out) := by
    intro c m hc hj
    refine ⟨?_, ?_, ?_⟩ <;> rw [receive_conn, if_neg hc]
    · exact hj.came
    · exact hj.stays
    · exact hj.mailbox
  have hself : ∀ {m}, out.state.mailbox = some m → Joined i m (receive s i out) := by
    intro m hm
    refine ⟨?_, ?_, ?_⟩ <;> rw [receive_conn, if_pos rfl]
    · exact hwork.1
    · exact hwork.2
    · exact hm
  refine ⟨?_, ?_, ?_, ?_⟩
  · intro c m hc
    rcases subscribers_handled hd hc with hsub | ⟨rfl, hopen⟩
    · have hj := h.subscribed c m hsub
      by_cases hci : c = i
      · subst hci
        rcases mailbox_handled hd hj.mailbox with hst | hopen | ⟨-, hgone⟩
        · exact hself hst
        · exact absurd hsub ((hp c data token m rfl hj.mailbox).1 hopen).1
        · exact absurd hc hgone
      · exact hother hci hj
    · obtain ⟨side, mb, -, heq⟩ :=
        handleMessage_opens s.server c token hopen
      exact hself (by rw [← ho, heq])
  · intro j c m msg rest hj hc
    rw [receive_conn] at hj
    split at hj
    · rename_i hji
      obtain ⟨rfl, hst⟩ := hnotify m msg rest (nextTask_notify hj)
      have hjo := h.subscribed c m hc
      by_cases hci : c = i
      · subst hci
        exact .inl (hself (by rw [hst]; exact hjo.mailbox))
      · exact .inl (hother hci hjo)
    · rename_i hji
      have hkeep : Lost c s → Lost c (receive s i out) := fun hl =>
        lost_step hl (.handled i data token out ht ho hd)
      rcases h.owed j c m msg rest hj hc with hjo | hl
      · by_cases hci : c = i
        · subst hci
          cases hup : (s.conn c).up with
          | false => exact .inr (hkeep ⟨hup, hjo.came⟩)
          | true =>
            have hdue := due_of_owed hr hj hc
            rcases mailbox_handled hd hjo.mailbox with hst | hopen | ⟨hclose, -⟩
            · exact .inl (hself hst)
            · exact absurd (((hp c data token m rfl hjo.mailbox).1 hopen).2 hup) hdue
            · exact absurd ((hp c data token m rfl hjo.mailbox).2 hclose hup) hdue
        · exact .inl (hother hci hjo)
      · exact .inr (hkeep hl)
  · intro c m msgs hc
    rw [receive_conn] at hc ⊢
    split at hc
    · rename_i hci
      rw [if_pos hci]
      exact hreplay m msgs (nextTask_replay hc)
    · rename_i hci
      rw [if_neg hci]
      exact h.replayed c m msgs hc
  · intro c f msg hc
    rw [receive_conn] at hc
    split at hc
    · rintro rfl
      exact hreply msg (nextTask_reply hc)
    · exact h.replies c f msg hc

/-! ## Every reachable state -/

theorem mirror_init (appId : String) : Mirror (init appId) where
  subscribed := fun _ _ hc => absurd hc (Finset.notMem_empty _)
  owed := fun _ _ _ _ _ ht => by cases ht
  replayed := fun _ _ _ ht => by cases ht
  replies := fun _ _ _ ht => by cases ht

theorem mirror_reachable (appId : String) :
    ∀ s, ((lts appId).restrict Parted).Reachable s → Mirror s := by
  refine LTS.Inductive.of_known
    (fun s h => registered_reachable appId s h.of_restrict) ?_ ?_
  · rintro s rfl; exact mirror_init appId
  · rintro s l s' - hr h ⟨hp, hs⟩
    have hm := step_move hs
    by_cases hne : ∀ i data token, l ≠ .recv i (.json data) token
    · exact mirror_frame h hm hne
    · push Not at hne
      obtain ⟨i, data, token, rfl⟩ := hne
      cases hm with
      | badText i inc token e ht hinc => exact absurd rfl (hinc data)
      | handled i data token out ht ho hd => exact mirror_handled h hr hp ht ho hd

/-- **Subscriptions mirror the clients**, in every run in which clients part
from their mailboxes. -/
theorem subscriptions_mirror (appId : String) (s : St)
    (h : ((lts appId).restrict Parted).Reachable s) : Mirrored s := by
  have hr := registered_reachable appId s h.of_restrict
  have hmir := mirror_reachable appId s h
  have hin : ∀ {c m}, Joined c m s → c ∈ s.clients ∧ (s.conn c).state.mailbox = some m :=
    fun {c m} hj => ⟨hr c hj.came hj.stays, hj.mailbox⟩
  refine ⟨fun c m hc => hin (hmir.subscribed c m hc), ?_⟩
  intro l c msg via hem
  cases l with
  | send i =>
    simp only [emitted] at hem
    split at hem
    · cases hem
    · rename_i f ht hup; cases hem; exact absurd rfl (hmir.replies _ _ msg ht)
    · rename_i m msg' rest ht hup
      cases hem
      exact ⟨m, .inl rfl, hr _ (by rw [ht]; simp) (by rw [ht]; simp), hmir.replayed _ m _ ht⟩
    · cases hem
    · cases hem
  | notify i dst =>
    simp only [emitted] at hem
    split at hem
    · rename_i m msg' rest ht
      split at hem
      · rename_i hdst
        cases hem
        rcases hmir.owed i c m msg rest ht hdst.1 with hj | ⟨hdown, -⟩
        · exact ⟨m, .inr rfl, hin hj⟩
        · rw [hdst.2] at hdown; cases hdown
      · cases hem
    · cases hem
  | _ => cases hem

/-! ## Runs -/

/-- A check that implies `Parted`. -/
def partedCheck (s : St) : Lbl → Bool
  | .recv c (.json data) _ =>
    match (s.conn c).state.mailbox with
    | some m =>
      match data with
      | .obj d => match Fields.get d "type" with
        | .str "open" => (Fields.get d "mailbox").key = some m
        | .str "close" => (notifyOwed c m s).card = 0
        | _ => true
      | _ => true
    | none => true
  | _ => true

theorem parted_of_check (s : St) (l : Lbl) (h : partedCheck s l = true) : Parted s l := by
  rintro c data token m rfl hm
  simp only [partedCheck, hm] at h
  refine ⟨?_, ?_⟩
  · rintro ⟨m', hne, d, rfl, ht, -, hk, -⟩
    simp only [ht, hk, Option.some.injEq, decide_eq_true_eq] at h
    exact absurd h hne
  · rintro ⟨d, rfl, ht, -⟩ -
    simpa [ht] using h

/-- Client 0 opens a mailbox, adds a message, closes it and opens another. -/
def changing : List Lbl :=
  arrive 0 ++ [Lbl.recv 0 (request "open" "mailbox" (.str "a")) "",
    .recv 0 (request "add" "body" (.str "first")) "x", .notify 0 0,
    .recv 0 (request "close" "mood" (.str "happy")) "", .send 0,
    .recv 0 (request "open" "mailbox" (.str "b")) ""]

def changed : St := (LTS.exec (LTS.checked partedCheck step) (init "wh") changing).get (by decide)

theorem subscriptions_mirror_changed : Mirrored changed :=
  subscriptions_mirror "wh" changed
    (LTS.restrict_reachable_of_exec rfl parted_of_check (Option.some_get _).symm)

/-- Client 0 opens a mailbox and then another. -/
def openedTwo : St :=
  (LTS.exec step (init "wh") (arrive 0 ++ [Lbl.recv 0 (request "open" "mailbox" (.str "a")) "",
    .recv 0 (request "open" "mailbox" (.str "b")) ""])).get (by decide)

/-- **A client stays subscribed to the mailbox it has left.** -/
theorem still_subscribed :
    ¬ ∀ (appId : String) (s : St), (lts appId).Reachable s → Mirrored s := by
  intro h
  have hr : (lts "wh").Reachable openedTwo :=
    LTS.reachable_of_exec rfl (Option.some_get _).symm
  exact absurd ((h "wh" openedTwo hr).1 0 (.str "a") (by decide)).2 (by decide)

end Wormhole.L5.MailboxSystem
