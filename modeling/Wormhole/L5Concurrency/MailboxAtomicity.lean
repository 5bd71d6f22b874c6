import Wormhole.L5Concurrency.MailboxSystem

/-!
# Rejected messages

An exception in a handler is answered with an `error` frame, whatever the
handler has done by then. A side that is no hashable value gets into a client's
state by `bind`, and a later `claim`, `open` or `close` fails at the use of the
side: after the new nameplate or mailbox is stored, or after the websocket is
unsubscribed (`half_done_claim`).

These are the only messages that are answered with an error and leave a trace
(`rejected_unchanged_iff`).
-/
namespace Wormhole.L5.MailboxSystem
open Wormhole.L1 Wormhole.L4.MailboxServer

/-! ## The statement -/

/-- The coroutine is about to send an `error` frame. -/
def Rejecting (t : Task) : Prop := ∃ e, t = .reply (.error e) ∨ t = .fail e

/-- What a rejected message must leave alone. -/
structure Unchanged (s s' : St) (i : ConnId) : Prop where
  nameplates : s'.server.nameplates = s.server.nameplates
  mailboxes : s'.server.mailboxes = s.server.mailboxes
  subscriptions : s'.server.clientSubscriptions = s.server.clientSubscriptions
  state : (s'.conn i).state = (s.conn i).state

/-- With an unhashable side: a `claim` of a nameplate or an `open` of a mailbox
that is not there, or a `close` by a subscriber. -/
inductive HalfDone (srv : Server) (st : ClientState) (i : ConnId) : Json → Prop
  | claim (d k) (ht : Fields.get d "type" = .str "claim")
      (htr : (Fields.get d "nameplate").truthy = true) (hk : (Fields.get d "nameplate").key = some k)
      (hn : srv.nameplates.get? k = none) (hs : st.side.key = none) : HalfDone srv st i (.obj d)
  | opening (d m) (ht : Fields.get d "type" = .str "open")
      (htr : (Fields.get d "mailbox").truthy = true) (hm : (Fields.get d "mailbox").key = some m)
      (hn : srv.mailboxes.get? m = none) (hs : st.side.key = none) : HalfDone srv st i (.obj d)
  | close (d m) (ht : Fields.get d "type" = .str "close") (hst : st.mailbox = some m)
      (hm : srv.mailboxes.get? m ≠ none) (htr : st.side.truthy = true) (hs : st.side.key = none)
      (hsub : i ∈ srv.subscribers m) : HalfDone srv st i (.obj d)

/-! ## The three messages -/

variable {srv : Server} {st : ClientState} {i : ConnId} {data : Json} {token : String} {out : Out}

/-- Unsubscribing a subscriber changes the dict, and any other websocket does not. -/
theorem unsubscribe_eq_iff {m : Key} :
    (srv.unsubscribe m i).clientSubscriptions = srv.clientSubscriptions ↔
      i ∉ srv.subscribers m := by
  constructor
  · intro h hi
    have hi' : i ∈ (srv.unsubscribe m i).subscribers m := by
      rw [Server.subscribers, h]
      exact hi
    exact (mem_unsubscribe.mp hi').2 ⟨rfl, rfl⟩
  · intro h
    unfold Server.unsubscribe
    split
    · rename_i subs hsubs
      have hnot : i ∉ subs := by simpa [Server.subscribers, hsubs] using h
      rw [Finset.erase_eq_of_notMem hnot]
      exact Dict.set_get? hsubs
    · rfl

theorem dropSide_eq_none {side : Json} {sides : Finset Key} :
    dropSide side sides = none ↔ side.truthy = true ∧ side.key = none := by
  unfold dropSide
  split
  · rename_i h; simp [h]
  · rename_i h; simp [h]

/-- Each of them changes a dict of the server. -/
theorem halfDone_changes (token : String) (h : HalfDone srv st i data) :
    ¬ ((handleMessage srv st i data token).server.nameplates = srv.nameplates ∧
      (handleMessage srv st i data token).server.mailboxes = srv.mailboxes ∧
      (handleMessage srv st i data token).server.clientSubscriptions = srv.clientSubscriptions) := by
  rintro ⟨hnp, hmail, hsubs⟩
  cases h with
  | claim d k ht htr hk hn hs =>
    simp only [handleMessage, ht, handleClaim, htr, hk, hn, hs, Bool.not_true, Bool.false_eq_true,
      if_false] at hnp
    exact Dict.set_ne_self hn hnp
  | opening d m ht htr hm hn hs =>
    simp only [handleMessage, ht, handleOpen, htr, hm, hn, hs, Bool.not_true, Bool.false_eq_true,
      if_false] at hmail
    exact Dict.set_ne_self hn hmail
  | close d m ht hst hm htr hs hsub =>
    obtain ⟨mb, hmb⟩ := Option.ne_none_iff_exists'.mp hm
    have hdrop : dropSide st.side mb.sides = none := dropSide_eq_none.mpr ⟨htr, hs⟩
    simp only [handleMessage, ht, handleClose, hst, unsubscribe_mailboxes, hmb, hdrop] at hsubs
    exact unsubscribe_eq_iff.mp hsubs hsub

/-- No other message that is answered with an error does. -/
theorem rejected_handled (h : Handled srv st i token data out)
    (hrej : Rejecting (nextTask out.next))
    (hhalf : ¬ HalfDone srv st i data) :
    out.server.nameplates = srv.nameplates ∧ out.server.mailboxes = srv.mailboxes ∧
      out.server.clientSubscriptions = srv.clientSubscriptions ∧ out.state = st := by
  have hreply : ∀ {f : Frame}, out.next = .reply f → f.isError = true := by
    intro f hf
    obtain ⟨e, he | he⟩ := hrej
    · rw [nextTask_reply he] at hf; cases hf; rfl
    · rw [hf] at he; cases he
  cases h with
  | quiet data next hq hd => exact ⟨rfl, rfl, rfl, rfl⟩
  | claimNewRaise d k ht htr hk hn hs => exact absurd (.claim d k ht htr hk hn hs) hhalf
  | openRaise d m ht htr hm hn hs => exact absurd (.opening d m ht htr hm hn hs) hhalf
  | closeRaise d m mb ht hst hm hs =>
    obtain ⟨htr, hkey⟩ := dropSide_eq_none.mp hs
    have hsub : i ∉ srv.subscribers m := fun hsub =>
      hhalf (.close d m ht hst (by rw [hm]; simp) htr hkey hsub)
    exact ⟨unsubscribe_nameplates srv m i, unsubscribe_mailboxes srv m i,
      unsubscribe_eq_iff.mpr hsub, rfl⟩
  | opened d m side mb ht htr hm hmb hs =>
    obtain ⟨e, he | he⟩ := hrej
    · cases nextTask_reply he
    · simp only [nextTask, replaying] at he; split at he <;> cases he
  | add d m msg mb ht hst hm hmsg =>
    obtain ⟨e, he | he⟩ := hrej
    · cases nextTask_reply he
    · simp only [nextTask, notifying] at he; split at he <;> cases he
  | _ => exact absurd (hreply rfl) (by simp [Frame.isError])

/-! ## Every message -/

/-- **Rejected messages.** A message that is answered with an error leaves the
dicts and its client's state alone if and only if it is not one that fails
half done. -/
theorem rejected_unchanged_iff (s s' : St) (i : ConnId) (data : Json) (token : String)
    (hs : step s (.recv i (.json data) token) = some s')
    (hrej : Rejecting (s'.conn i).task) :
    Unchanged s s' i ↔ ¬ HalfDone s.server (s.conn i).state i data := by
  cases step_move hs with
  | badText i inc token e ht hinc => exact absurd rfl (hinc data)
  | handled i data token out ht ho hd =>
    rw [receive_conn, if_pos rfl] at hrej
    constructor
    · intro h hhalf
      have hchanges := halfDone_changes token hhalf
      rw [ho] at hchanges
      exact hchanges ⟨h.nameplates, h.mailboxes, h.subscriptions⟩
    · intro hhalf
      obtain ⟨hnp, hmail, hsubs, hst⟩ := rejected_handled hd hrej hhalf
      exact ⟨hnp, hmail, hsubs, by simpa using hst⟩

/-! ## Runs -/

/-- Client 0 binds the side `[1]`. -/
def boundList : St :=
  (LTS.exec step (init "wh") (arrive 0 ++
    [Lbl.recv 0 (request "bind" "side" (.arr [.int 1])) "", .send 0])).get (by decide)

/-- A `claim` of `"5"`, by the data of the message. -/
def claimFive : Json := .obj [("type", .str "claim"), ("nameplate", .str "5")]

def rejectedClaim : St := (step boundList (.recv 0 (.json claimFive) "m")).get (by decide)

theorem rejected_claim_iff :
    Unchanged boundList rejectedClaim 0 ↔
      ¬ HalfDone boundList.server (boundList.conn 0).state 0 claimFive :=
  rejected_unchanged_iff boundList rejectedClaim 0 claimFive "m" (Option.some_get _).symm
    ⟨_, .inr rfl⟩

/-- **A rejected claim creates a nameplate.** -/
theorem half_done_claim :
    ¬ ∀ (appId : String) (s s' : St) (i : ConnId) (data : Json) (token : String),
      (lts appId).Reachable s → step s (.recv i (.json data) token) = some s' →
        Rejecting (s'.conn i).task → Unchanged s s' i := by
  intro h
  have hr : (lts "wh").Reachable boundList :=
    LTS.reachable_of_exec rfl (Option.some_get _).symm
  have hun := h "wh" boundList rejectedClaim 0 claimFive "m" hr (Option.some_get _).symm
    ⟨_, .inr rfl⟩
  have hcontains := congrArg (fun d => d.contains (.str "5")) hun.nameplates
  revert hcontains
  decide

end Wormhole.L5.MailboxSystem
