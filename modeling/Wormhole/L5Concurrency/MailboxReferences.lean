import Wormhole.L5Concurrency.MailboxDelivery

/-!
# From a nameplate to its mailbox

`allocate` and a creating `claim` make a mailbox together with the nameplate.
The two are deleted independently: the mailbox by the last `close`, whoever
still holds the nameplate, and a later `claim` is told the id of a mailbox that
is no more (`mailbox_deleted`).

`Issued` records the mailboxes created with a nameplate, those that a `close`
has deleted since, what was added to each since its creation, and who was told
which. A mailbox no `close` has deleted is there with everything added to it,
and an `open` by a client that was told it replays it all (`told_opens`).
-/
namespace Wormhole.L5.MailboxSystem
open Wormhole.L1 Wormhole.L4.MailboxServer

/-! ## The record -/

structure Issued where
  created : Finset Key
  deleted : Finset Key
  log : Key → List Message
  told : Finset (ConnId × Key)

def Issued.init : Issued := ⟨∅, ∅, fun _ => [], ∅⟩

/-- The mailbox that a message creates with a nameplate. -/
def drawn (srv : Server) (data : Json) (token : String) : Finset Key :=
  if drawsMailbox srv data then {.str token} else ∅

/-- The mailbox that a `close` closes and that is not there afterwards. -/
def closedOff (st : ClientState) (data : Json) (srv' : Server) : Finset Key :=
  match data with
  | .obj d =>
    match Fields.get d "type", st.mailbox with
    | .str "close", some m => if srv'.mailboxes.contains m then ∅ else {m}
    | _, _ => ∅
  | _ => ∅

def Issued.after (r : Issued) (s : St) (l : Lbl) (s' : St) : Issued :=
  match l with
  | .recv i (.json data) token =>
    { created := r.created ∪ drawn s.server data token
      deleted := (r.deleted \ drawn s.server data token) ∪
        closedOff (s.conn i).state data s'.server
      log := fun m => if m ∈ drawn s.server data token then [] else r.log m ++ added m s l
      told := match (s'.conn i).task with
        | .reply (.claimed mailbox) => insert (i, .str mailbox) r.told
        | _ => r.told }
  | _ => r

/-! ## The invariant -/

/-- The mailbox is there with what `log` says. -/
def Present (srv : Server) (m : Key) (msgs : List Message) : Prop :=
  ∃ mb, srv.mailboxes.get? m = some mb ∧ mb.messages = msgs

structure Referenced (s : St) (r : Issued) : Prop where
  kept : ∀ m ∈ r.created, m ∈ r.deleted ∨ Present s.server m (r.log m)
  live : ∀ k np, s.server.nameplates.get? k = some np → Key.str np.mailboxId ∈ r.created
  told : ∀ i m, (i, m) ∈ r.told → m ∈ r.created

variable {s s' : St} {r : Issued} {l : Lbl} {i : ConnId} {data : Json} {token : String} {out : Out}
  {m : Key}

theorem drawn_present {srv : Server} {st : ClientState} (h : Handled srv st i token data out)
    (hm : m ∈ drawn srv data token) : Present out.server m [] := by
  unfold drawn at hm
  split at hm
  · rename_i hdraw
    cases Finset.mem_singleton.mp hm
    exact ⟨⟨∅, []⟩, by rw [mailboxes_drawn h hdraw, Dict.get?_set_self], rfl⟩
  · exact absurd hm (Finset.notMem_empty m)

/-- Only a `close` deletes a mailbox. -/
theorem absent_handled {srv : Server} {st : ClientState} (h : Handled srv st i token data out)
    (hm : srv.mailboxes.get? m ≠ none) (hm' : out.server.mailboxes.get? m = none) :
    m ∈ closedOff st data out.server := by
  have hset : ∀ k (mb : Mailbox), (srv.mailboxes.set k mb).get? m ≠ none := by
    intro k mb
    rw [Dict.get?_set]
    split
    · simp
    · exact hm
  cases h with
  | close d m' sides mb ht hst hmb hs =>
    simp only at hm'
    split at hm'
    · rename_i hsides
      have hmm : m' = m := by
        by_contra hne
        exact hm (by rwa [Dict.get?_del_ne _ hne] at hm')
      subst hmm
      simp [closedOff, ht, hst, hsides]
    · exact absurd hm' (hset _ _)
  | closeMiss d m' ht hst hn =>
    rw [unsubscribe_mailboxes] at hm'
    exact absurd hm' hm
  | closeRaise d m' mb ht hst hmb hs =>
    rw [unsubscribe_mailboxes] at hm'
    exact absurd hm' hm
  | allocate d ht => exact absurd hm' (hset _ _)
  | claimNew d k side ht htr hk hn hs => exact absurd hm' (hset _ _)
  | claimNewRaise d k ht htr hk hn hs => exact absurd hm' (hset _ _)
  | openRaise d m' ht htr hk hn hs => exact absurd hm' (hset _ _)
  | opened d m' side mb ht htr hk hmb hs => exact absurd hm' (hset _ _)
  | add d m' msg mb ht hst hmb hmsg => exact absurd hm' (hset _ _)
  | _ => exact absurd hm' hm

/-- A nameplate was there before with the same mailbox, or is made with the
mailbox that is drawn. -/
theorem nameplate_handled {srv : Server} {st : ClientState} {k : Key} {np : Nameplate}
    (h : Handled srv st i token data out) (hn : out.server.nameplates.get? k = some np) :
    (∃ np0, srv.nameplates.get? k = some np0 ∧ np0.mailboxId = np.mailboxId) ∨
      Key.str np.mailboxId ∈ drawn srv data token := by
  -- a nameplate other than `k'`, or the new one under `k'`
  have hset : ∀ k' np', (srv.nameplates.set k' np').get? k = some np →
      srv.nameplates.get? k = some np ∨ (k' = k ∧ np' = np) := by
    intro k' np' hset
    rw [Dict.get?_set] at hset
    split at hset
    · rename_i hk; cases hset; exact .inr ⟨hk, rfl⟩
    · exact .inl hset
  cases h with
  | allocate d ht =>
    rcases hset _ _ hn with hn | ⟨-, rfl⟩
    · exact .inl ⟨np, hn, rfl⟩
    · exact .inr (by simp [drawn, draws_allocate ht])
  | claimNew d k' side ht htr hk hnone hs =>
    rcases hset _ _ hn with hn | ⟨-, rfl⟩
    · exact .inl ⟨np, hn, rfl⟩
    · exact .inr (by simp [drawn, draws_claim ht htr hk hnone])
  | claimNewRaise d k' ht htr hk hnone hs =>
    rcases hset _ _ hn with hn | ⟨-, rfl⟩
    · exact .inl ⟨np, hn, rfl⟩
    · exact .inr (by simp [drawn, draws_claim ht htr hk hnone])
  | claimOld d k' np' side ht htr hk hold hs =>
    rcases hset _ _ hn with hn | ⟨rfl, rfl⟩
    · exact .inl ⟨np, hn, rfl⟩
    · exact .inl ⟨np', hold, rfl⟩
  | release d k' np' sides ht hk hold hs =>
    simp only at hn
    split at hn
    · rw [Dict.get?_del] at hn
      split at hn
      · cases hn
      · exact .inl ⟨np, hn, rfl⟩
    · rcases hset _ _ hn with hn | ⟨rfl, rfl⟩
      · exact .inl ⟨np, hn, rfl⟩
      · exact .inl ⟨np', hold, rfl⟩
  | closeMiss d m ht hst hm => exact .inl ⟨np, by rwa [unsubscribe_nameplates] at hn, rfl⟩
  | close d m sides mb ht hst hm hs =>
    exact .inl ⟨np, (unsubscribe_nameplates srv m i ▸ hn :), rfl⟩
  | closeRaise d m mb ht hst hm hs =>
    exact .inl ⟨np, by rwa [unsubscribe_nameplates] at hn, rfl⟩
  | _ => exact .inl ⟨np, hn, rfl⟩

/-- A `claimed` reply tells the mailbox of a nameplate. -/
theorem claimed_handled {srv : Server} {st : ClientState} {mailbox : String}
    (h : Handled srv st i token data out) (hout : out.next = .reply (.claimed mailbox)) :
    ∃ k np, out.server.nameplates.get? k = some np ∧ np.mailboxId = mailbox := by
  cases h with
  | quiet data next hq hdr => cases hout; cases hq
  | claimNew d k side ht htr hk hn hs => cases hout; exact ⟨k, _, Dict.get?_set_self _ _ _, rfl⟩
  | claimOld d k np side ht htr hk hn hs => cases hout; exact ⟨k, _, Dict.get?_set_self _ _ _, rfl⟩
  | _ => cases hout

theorem referenced_handled (h : Referenced s r)
    (ho : handleMessage s.server (s.conn i).state i data token = out)
    (hd : Handled s.server (s.conn i).state i token data out) :
    Referenced (receive s i out) (r.after s (.recv i (.json data) token) (receive s i out)) := by
  have hlive : ∀ k np, out.server.nameplates.get? k = some np →
      Key.str np.mailboxId ∈ r.created ∪ drawn s.server data token := by
    intro k np hn
    rcases nameplate_handled hd hn with ⟨np0, hn0, hid⟩ | hdrawn
    · rw [← hid]; exact Finset.mem_union_left _ (h.live k np0 hn0)
    · exact Finset.mem_union_right _ hdrawn
  refine ⟨?_, hlive, ?_⟩
  · intro m hm
    simp only [Issued.after, receive_server] at hm ⊢
    by_cases hnew : m ∈ drawn s.server data token
    · refine .inr ?_
      rw [if_pos hnew]
      exact drawn_present hd hnew
    · rw [if_neg hnew]
      have hm := (Finset.mem_union.mp hm).resolve_right hnew
      rcases h.kept m hm with hdel | ⟨mb, hmb, hlog⟩
      · exact .inl (Finset.mem_union_left _ (Finset.mem_sdiff.mpr ⟨hdel, hnew⟩))
      · by_cases hgone : out.server.mailboxes.get? m = none
        · exact .inl (Finset.mem_union_right _ (absent_handled hd (by rw [hmb]; simp) hgone))
        · have hdraw : drawsMailbox s.server data = true → Key.str token ≠ m := by
            rintro hdr rfl
            exact hnew (by simp [drawn, hdr])
          obtain ⟨mb', hmb', happ⟩ := messages_handled hd hdraw hmb hgone
          exact .inr ⟨mb', hmb', by rw [happ, hlog, added, ho]⟩
  · intro j m htold
    simp only [Issued.after, receive_conn, if_true] at htold
    split at htold
    · rename_i mailbox ht
      rcases Finset.mem_insert.mp htold with heq | htold
      · cases heq
        obtain ⟨k, np, hn, rfl⟩ := claimed_handled hd (nextTask_reply ht)
        exact hlive k np hn
      · exact Finset.mem_union_left _ (h.told j m htold)
    · exact Finset.mem_union_left _ (h.told j m htold)

theorem referenced_step (h : Referenced s r) (hm : Move s l s') :
    Referenced s' (r.after s l s') := by
  by_cases hne : ∀ i data token, l ≠ .recv i (.json data) token
  · obtain ⟨hnp, hmail, -⟩ := server_frame hm hne
    have hr : r.after s l s' = r := by
      unfold Issued.after
      split
      · rename_i i data token; exact absurd rfl (hne i data token)
      · rfl
    rw [hr]
    refine ⟨fun m hc => ?_, fun k np hn => h.live k np (by rwa [hnp] at hn), h.told⟩
    rw [Present, hmail]
    exact h.kept m hc
  · push Not at hne
    obtain ⟨i, data, token, rfl⟩ := hne
    cases hm with
    | badText i inc token e ht hinc => exact absurd rfl (hinc data)
    | handled i data token out ht ho hd => exact referenced_handled h ho hd

theorem referenced_init (appId : String) : Referenced (init appId) Issued.init where
  kept := fun m hm => absurd hm (Finset.notMem_empty m)
  live := fun _ _ hn => by cases hn
  told := fun i m hm => absurd hm (Finset.notMem_empty (i, m))

/-- **From a nameplate to its mailbox.** The mailbox of a live nameplate is
there with everything added to it since it was created, unless a `close` has
deleted it since. A client that was told a mailbox no `close` has deleted since,
and opens it, joins it and is replayed everything added to it. -/
theorem told_opens (appId : String) (s : St) (r : Issued)
    (h : ((lts appId).observe Issued.init Issued.after).Reachable (s, r)) :
    (∀ k np, s.server.nameplates.get? k = some np → Key.str np.mailboxId ∈ r.deleted ∨
      Present s.server (.str np.mailboxId) (r.log (.str np.mailboxId))) ∧
    ∀ c m l s', (c, m) ∈ r.told → m ∉ r.deleted → Opens c m s l → step s l = some s' →
      c ∈ s'.server.subscribers m ∧ Present s'.server m (r.log m) ∧
        (s'.conn c).task = replaying m (r.log m) := by
  have href : Referenced s r := by
    have hI : ((lts appId).observe Issued.init Issued.after).Inductive
        fun p => Referenced p.1 p.2 := by
      refine ⟨?_, ?_⟩
      · rintro ⟨s, r⟩ ⟨rfl, rfl⟩; exact referenced_init appId
      · rintro ⟨s, r⟩ l ⟨s', r'⟩ hn ⟨hst, hr⟩
        have hr : r' = r.after s l s' := hr
        subst hr
        exact referenced_step hn (step_move hst)
    exact hI.reachable _ h
  refine ⟨fun k np hn => href.kept _ (href.live k np hn), ?_⟩
  rintro c m l s' htold hdel ⟨data, token, rfl, hopen⟩ hs
  obtain ⟨mb, hmb, hlog⟩ := (href.kept m (href.told c m htold)).resolve_left hdel
  obtain ⟨side, mb', rfl, heq⟩ :=
    handleMessage_opens s.server c token hopen
  rw [hmb, Option.getD_some] at heq
  cases step_move hs with
  | badText i inc token e ht hinc => exact absurd rfl (hinc data)
  | handled i data token out ht ho hd =>
    rw [heq] at ho
    subst ho
    refine ⟨?_, ⟨_, Dict.get?_set_self _ _ _, hlog⟩, by simp [nextTask, hlog]⟩
    rw [receive_server, subscribers_subscribe, if_pos rfl]
    exact Finset.mem_insert_self c _

/-! ## Runs -/

/-- Client 0 claims a nameplate, opens its mailbox and adds a message; client 1
claims the nameplate. -/
def rendezvous : List Lbl :=
  arrive 0 ++ arrive 1 ++ [Lbl.recv 0 (request "claim" "nameplate" (.str "7")) "m", .send 0,
    .recv 0 (request "open" "mailbox" (.str "m")) "",
    .recv 0 (request "add" "body" (.str "pake")) "a", .notify 0 0,
    .recv 1 (request "claim" "nameplate" (.str "7")) "", .send 1]

def met : St × Issued :=
  (LTS.exec (LTS.recorded step Issued.after) (init "wh", Issued.init) rendezvous).get (by decide)

theorem told_opens_met :
    (∀ k np, met.1.server.nameplates.get? k = some np → Key.str np.mailboxId ∈ met.2.deleted ∨
      Present met.1.server (.str np.mailboxId) (met.2.log (.str np.mailboxId))) ∧
    ∀ c m l s', (c, m) ∈ met.2.told → m ∉ met.2.deleted → Opens c m met.1 l →
      step met.1 l = some s' → c ∈ s'.server.subscribers m ∧ Present s'.server m (met.2.log m) ∧
        (s'.conn c).task = replaying m (met.2.log m) := by
  have hr : ((lts "wh").observe Issued.init Issued.after).Reachable met := by
    rw [lts, LTS.observe_ofStep]
    exact LTS.reachable_of_exec ⟨rfl, rfl⟩ (Option.some_get _).symm
  exact told_opens "wh" met.1 met.2 hr

/-- Client 0 claims a nameplate, and opens and closes its mailbox. -/
def closing : List Lbl :=
  arrive 0 ++ [Lbl.recv 0 (request "bind" "side" (.str "s")) "", .send 0,
    .recv 0 (request "claim" "nameplate" (.str "7")) "m", .send 0,
    .recv 0 (request "open" "mailbox" (.str "m")) "",
    .recv 0 (request "close" "mood" (.str "happy")) ""]

def closedEarly : St := (LTS.exec step (init "wh") closing).get (by decide)

/-- **The mailbox of a live nameplate is deleted.** -/
theorem mailbox_deleted :
    ¬ ∀ (appId : String) (s : St), (lts appId).Reachable s → ∀ k np,
      s.server.nameplates.get? k = some np →
        s.server.mailboxes.get? (.str np.mailboxId) ≠ none := by
  intro h
  have hr : (lts "wh").Reachable closedEarly :=
    LTS.reachable_of_exec rfl (Option.some_get _).symm
  exact h "wh" closedEarly hr (.str "7") ⟨.str "7", "m", {.str "s"}⟩ (by rfl) (by decide)

end Wormhole.L5.MailboxSystem
