import Wormhole.L1Encoding.PyBytes
import Wormhole.L5Concurrency.MailboxSystem

/-!
# Fresh nameplates

Nameplates come from two sources that do not know of each other: the counter
of `allocate`, and whatever a client names in `claim`. A client that claims
`"1"` before the first `allocate` has its nameplate replaced by that
(`allocated_live`). A client also keeps the nameplate in its state when another
client's `release` deletes it, and may so hold a nameplate that a third client
creates again.

`Holds` records which nameplates a claim has created, which clients hold one
that was deleted since, and what each was told. Where `allocate` meets none of
the former and `claim` none of the latter (`Apart`), an allocated nameplate was
not live, and clients that hold the same nameplate were told the same mailbox
(`allocation_fresh`).
-/
namespace Wormhole.L5.MailboxSystem
open Wormhole.L1 Wormhole.L4.MailboxServer

/-! ## The record -/

/-- The nameplate of a `claim`, when it can be claimed at all. -/
def claimKey : Json → Option Key
  | .obj d =>
    match Fields.get d "type" with
    | .str "claim" =>
      if (Fields.get d "nameplate").truthy then (Fields.get d "nameplate").key else none
    | _ => none
  | _ => none

theorem claimKey_claim {d : Fields} {k : Key} (ht : Fields.get d "type" = .str "claim")
    (htr : (Fields.get d "nameplate").truthy = true)
    (hk : (Fields.get d "nameplate").key = some k) : claimKey (.obj d) = some k := by
  simp [claimKey, ht, htr, hk]

/-- `told`: the mailbox id of a client's last `claimed`. `stale`: the clients
whose nameplate was deleted after they claimed it. `byClaim`: the nameplates
that a claim created and no release has deleted since. -/
structure Holds where
  told : ConnId → Option String
  stale : Finset ConnId
  byClaim : Finset Key

def Holds.init : Holds := ⟨fun _ => none, ∅, ∅⟩

/-- The clients whose nameplate a step deletes. -/
def bereft (s s' : St) : Finset ConnId :=
  s.clients.filter fun j => (s.conn j).state.nameplate.any fun k =>
    s.server.nameplates.contains k && !s'.server.nameplates.contains k

/-- The nameplate that a message creates by claiming it. -/
def createdBy (srv : Server) (data : Json) : Finset Key :=
  match claimKey data with
  | some k => if srv.nameplates.contains k then ∅ else {k}
  | none => ∅

def Holds.after (r : Holds) (s : St) (l : Lbl) (s' : St) : Holds :=
  match l with
  | .recv i (.json data) _ =>
    { told := match (s'.conn i).task with
        | .reply (.claimed mailbox) => fun j => if j = i then some mailbox else r.told j
        | _ => r.told
      stale := match (s'.conn i).task with
        | .reply (.claimed _) => r.stale.erase i
        | _ => r.stale ∪ bereft s s'
      byClaim := (r.byClaim ∪ createdBy s.server data).filter fun k =>
        s'.server.nameplates.contains k }
  | _ => r

/-! ## The statement -/

/-- `allocate` is not about to give out a nameplate that a claim has created,
and `claim` gives a client no nameplate that another client holds from before
its deletion. -/
def Apart (p : St × Holds) (l : Lbl) : Prop :=
  ∀ i data token, l = .recv i (.json data) token →
    ((∃ d, data = .obj d ∧ Fields.get d "type" = .str "allocate") →
      Key.str (toString p.1.server.nextNameplate) ∉ p.2.byClaim) ∧
    ∀ k, claimKey data = some k → (p.1.conn i).state.side.key ≠ none →
      ∀ j ∈ p.1.clients, j ≠ i → (p.1.conn j).state.nameplate = some k → j ∉ p.2.stale

/-- An allocated nameplate was not live, and clients that hold the same live
nameplate were told the same mailbox. -/
def FreshAllocation (r : Holds) (s : St) (l : Lbl) (s' : St) : Prop :=
  (∀ i inc token n, l = .recv i inc token → (s'.conn i).task = .reply (.allocated n) →
    s.server.nameplates.get? (.str n) = none) ∧
  ∀ i j k, i ∈ s.clients → j ∈ s.clients → (s.conn i).state.nameplate = some k →
    (s.conn j).state.nameplate = some k → s.server.nameplates.get? k ≠ none →
    r.told i = r.told j

/-! ## The invariant -/

/-- Only a claim can be ahead of the counter; a client that holds a nameplate
not deleted since was told its mailbox; and clients that hold the same
nameplate, deleted or not, were told the same. -/
structure Named (s : St) (r : Holds) : Prop where
  ahead : ∀ n, s.server.nextNameplate ≤ n →
    s.server.nameplates.get? (.str (toString n)) ≠ none → Key.str (toString n) ∈ r.byClaim
  live : ∀ i k, i ∈ s.clients → (s.conn i).state.nameplate = some k → i ∉ r.stale →
    ∃ np, s.server.nameplates.get? k = some np ∧ r.told i = some np.mailboxId
  agree : ∀ i j k, i ∈ s.clients → j ∈ s.clients → (s.conn i).state.nameplate = some k →
    (s.conn j).state.nameplate = some k → r.told i = r.told j

variable {s s' : St} {r r' : Holds} {l : Lbl}

/-- Nothing happens to the nameplates, and nobody new holds one. -/
theorem Named.frame (h : Named s r) (hnp : s'.server.nameplates = s.server.nameplates)
    (hnext : s'.server.nextNameplate = s.server.nextNameplate)
    (hst : ∀ j k, j ∈ s'.clients → (s'.conn j).state.nameplate = some k →
      j ∈ s.clients ∧ (s.conn j).state.nameplate = some k)
    (htold : r'.told = r.told) (hstale : r.stale ⊆ r'.stale)
    (hby : ∀ k, s.server.nameplates.get? k ≠ none → k ∈ r.byClaim → k ∈ r'.byClaim) :
    Named s' r' where
  ahead := by
    intro n hn hlive
    rw [hnext] at hn
    rw [hnp] at hlive
    exact hby _ hlive (h.ahead n hn hlive)
  live := by
    intro i k hi hk hns
    obtain ⟨hi, hk⟩ := hst i k hi hk
    rw [hnp, htold]
    exact h.live i k hi hk fun hs => hns (hstale hs)
  agree := by
    intro i j k hi hj hik hjk
    obtain ⟨hi, hik⟩ := hst i k hi hik
    obtain ⟨hj, hjk⟩ := hst j k hj hjk
    rw [htold]
    exact h.agree i j k hi hj hik hjk

/-! ## One message -/

variable {i : ConnId} {data : Json} {token : String} {out : Out} {k : Key}

theorem mem_byClaim : k ∈ (r.after s (.recv i (.json data) token) s').byClaim ↔
    (k ∈ r.byClaim ∨ k ∈ createdBy s.server data) ∧ s'.server.nameplates.get? k ≠ none := by
  simp [Holds.after, Option.isSome_iff_ne_none]

theorem createdBy_claim (hk : claimKey data = some k) (hn : s.server.nameplates.get? k = none) :
    k ∈ createdBy s.server data := by
  simp [createdBy, hk, hn]

theorem mem_bereft {j : ConnId} {np : Nameplate} (hj : j ∈ s.clients)
    (hk : (s.conn j).state.nameplate = some k) (hlive : s.server.nameplates.get? k = some np)
    (hgone : s'.server.nameplates.get? k = none) : j ∈ bereft s s' := by
  simp [bereft, hj, hk, hlive, hgone]

/-- The record after any message but a successful claim. -/
theorem after_unclaimed (r : Holds) (s : St) (i : ConnId) (data : Json) (token : String)
    (h : ∀ mailbox, out.next ≠ .reply (.claimed mailbox)) :
    (r.after s (.recv i (.json data) token) (receive s i out)).told = r.told ∧
    (r.after s (.recv i (.json data) token) (receive s i out)).stale =
      r.stale ∪ bereft s (receive s i out) := by
  simp only [Holds.after, receive_conn, if_true]
  split
  · rename_i mailbox ht; exact absurd (nextTask_reply ht) (h mailbox)
  · exact ⟨rfl, rfl⟩

/-- The message is a claim of `k` that succeeds. -/
theorem named_claimed {np : Nameplate} (h : Named s r)
    (hap : Apart (s, r) (.recv i (.json data) token)) (hk : claimKey data = some k)
    (hside : (s.conn i).state.side.key ≠ none)
    (hold : ∀ np0, s.server.nameplates.get? k = some np0 → np0.mailboxId = np.mailboxId)
    (hnp : out.server.nameplates = s.server.nameplates.set k np)
    (hnext : out.server.nextNameplate = s.server.nextNameplate)
    (hst : out.state.nameplate = some k) (hout : out.next = .reply (.claimed np.mailboxId)) :
    Named (receive s i out) (r.after s (.recv i (.json data) token) (receive s i out)) := by
  have htold : (r.after s (.recv i (.json data) token) (receive s i out)).told =
      fun j => if j = i then some np.mailboxId else r.told j := by
    simp [Holds.after, hout, nextTask]
  have hstale : (r.after s (.recv i (.json data) token) (receive s i out)).stale =
      r.stale.erase i := by
    simp [Holds.after, hout, nextTask]
  -- another client that holds `k` holds this nameplate and not an earlier one
  have hother : ∀ j, j ∈ s.clients → j ≠ i → (s.conn j).state.nameplate = some k →
      r.told j = some np.mailboxId := by
    intro j hj hji hjk
    obtain ⟨np0, hnp0, ht⟩ := h.live j k hj hjk ((hap i data token rfl).2 k hk hside j hj hji hjk)
    rw [ht, hold np0 hnp0]
  refine ⟨?_, ?_, ?_⟩
  · intro n hn hlive
    refine mem_byClaim.mpr ⟨?_, hlive⟩
    rw [receive_server, hnext] at hn
    by_cases hl : s.server.nameplates.get? (.str (toString n)) = none
    · have hkn : k = .str (toString n) := by
        by_contra hne
        rw [receive_server, hnp, Dict.get?_set_ne _ _ hne] at hlive
        exact hlive hl
      exact .inr (by rw [← hkn] at hl ⊢; exact createdBy_claim hk hl)
    · exact .inl (h.ahead n hn hl)
  · intro j k' hj hjk hns
    rw [htold, receive_server, hnp, Dict.get?_set]
    rw [receive_conn] at hjk
    by_cases hji : j = i
    · rw [if_pos hji] at hjk
      cases hst.symm.trans hjk
      exact ⟨np, by simp, by simp [hji]⟩
    · rw [if_neg hji] at hjk
      have hns' : j ∉ r.stale := by
        intro hs
        apply hns
        rw [hstale]
        exact Finset.mem_erase.mpr ⟨hji, hs⟩
      by_cases hkk : k = k'
      · subst hkk
        exact ⟨np, by simp, by simp [hji, hother j hj hji hjk]⟩
      · simpa [hkk, hji] using h.live j k' hj hjk hns'
  · intro a b k' ha hb hak hbk
    rw [receive_conn] at hak hbk
    rw [htold]
    simp only
    by_cases hai : a = i
    · by_cases hbi : b = i
      · rw [hai, hbi]
      · rw [if_pos hai] at hak
        rw [if_neg hbi] at hbk
        cases hst.symm.trans hak
        rw [if_pos hai, if_neg hbi, hother b hb hbi hbk]
    · rw [if_neg hai] at hak
      by_cases hbi : b = i
      · rw [if_pos hbi] at hbk
        cases hst.symm.trans hbk
        rw [if_neg hai, if_pos hbi, hother a ha hai hak]
      · rw [if_neg hbi] at hbk
        rw [if_neg hai, if_neg hbi]
        exact h.agree a b k' ha hb hak hbk

/-- The message creates the nameplate `k` without claiming it. -/
theorem named_created {np : Nameplate} (h : Named s r) (hn : s.server.nameplates.get? k = none)
    (hnp : out.server.nameplates = s.server.nameplates.set k np)
    (hnext : s.server.nextNameplate ≤ out.server.nextNameplate)
    (hst : out.state.nameplate = (s.conn i).state.nameplate)
    (hout : ∀ mailbox, out.next ≠ .reply (.claimed mailbox))
    (hby : ∀ n, out.server.nextNameplate ≤ n → k = .str (toString n) →
      k ∈ createdBy s.server data) :
    Named (receive s i out) (r.after s (.recv i (.json data) token) (receive s i out)) := by
  obtain ⟨htold, hstale⟩ := after_unclaimed r s i data token hout
  have hstate : ∀ j, ((receive s i out).conn j).state.nameplate = (s.conn j).state.nameplate := by
    intro j
    rw [receive_conn]
    split
    · rename_i hj; rw [hj]; exact hst
    · rfl
  refine ⟨?_, ?_, ?_⟩
  · intro n hle hlive
    refine mem_byClaim.mpr ⟨?_, hlive⟩
    rw [receive_server] at hle
    by_cases hkn : k = .str (toString n)
    · exact .inr (hkn ▸ hby n hle hkn)
    · rw [receive_server, hnp, Dict.get?_set_ne _ _ hkn] at hlive
      exact .inl (h.ahead n (hnext.trans hle) hlive)
  · intro j k' hj hjk hns
    rw [hstate] at hjk
    rw [hstale, Finset.mem_union, not_or] at hns
    obtain ⟨np0, hnp0, ht⟩ := h.live j k' hj hjk hns.1
    have hne : k ≠ k' := by
      rintro rfl
      rw [hn] at hnp0
      cases hnp0
    exact ⟨np0, by rw [receive_server, hnp, Dict.get?_set_ne _ _ hne]; exact hnp0,
      by rw [htold]; exact ht⟩
  · intro a b k' ha hb hak hbk
    rw [hstate] at hak hbk
    rw [htold]
    exact h.agree a b k' ha hb hak hbk

/-- The message is a `release` of the live nameplate `k`. -/
theorem named_released {np : Nameplate} {sides : Finset Key} (h : Named s r)
    (hn : s.server.nameplates.get? k = some np)
    (hnp : out.server.nameplates = if sides = ∅ then s.server.nameplates.del k
      else s.server.nameplates.set k { np with sides := sides })
    (hnext : out.server.nextNameplate = s.server.nextNameplate)
    (hst : out.state.nameplate = none) (hout : ∀ mailbox, out.next ≠ .reply (.claimed mailbox)) :
    Named (receive s i out) (r.after s (.recv i (.json data) token) (receive s i out)) := by
  obtain ⟨htold, hstale⟩ := after_unclaimed r s i data token hout
  have hstate : ∀ j k', ((receive s i out).conn j).state.nameplate = some k' →
      (s.conn j).state.nameplate = some k' := by
    intro j k' hjk
    rw [receive_conn] at hjk
    split at hjk
    · cases hst.symm.trans hjk
    · exact hjk
  have hother : ∀ k', k ≠ k' → out.server.nameplates.get? k' = s.server.nameplates.get? k' := by
    intro k' hne
    rw [hnp]
    split
    · exact Dict.get?_del_ne _ hne
    · exact Dict.get?_set_ne _ _ hne
  refine ⟨?_, ?_, ?_⟩
  · intro n hle hlive
    refine mem_byClaim.mpr ⟨.inl ?_, hlive⟩
    rw [receive_server, hnext] at hle
    refine h.ahead n hle fun hnone => hlive ?_
    have hne : k ≠ .str (toString n) := by
      intro hk
      rw [← hk, hn] at hnone
      cases hnone
    rw [receive_server, hother _ hne, hnone]
  · intro j k' hj hjk hns
    have hheld := hstate j k' hjk
    rw [hstale, Finset.mem_union, not_or] at hns
    obtain ⟨np0, hnp0, ht⟩ := h.live j k' hj hheld hns.1
    rw [htold, receive_server]
    by_cases hkk : k = k'
    · subst hkk
      rw [hn] at hnp0
      cases hnp0
      by_cases hsides : sides = ∅
      · refine absurd (mem_bereft (s := s) hj hheld hn ?_) hns.2
        rw [receive_server, hnp, if_pos hsides, Dict.get?_del_self]
      · exact ⟨{ np with sides := sides }, by rw [hnp, if_neg hsides, Dict.get?_set_self], ht⟩
    · exact ⟨np0, by rw [hother k' hkk]; exact hnp0, ht⟩
  · intro a b k' ha hb hak hbk
    rw [htold]
    exact h.agree a b k' ha hb (hstate a k' hak) (hstate b k' hbk)

/-- The message leaves the nameplates alone. -/
theorem named_kept (h : Named s r) (hnp : out.server.nameplates = s.server.nameplates)
    (hnext : out.server.nextNameplate = s.server.nextNameplate)
    (hst : out.state.nameplate = none ∨ out.state.nameplate = (s.conn i).state.nameplate)
    (hout : ∀ mailbox, out.next ≠ .reply (.claimed mailbox)) :
    Named (receive s i out) (r.after s (.recv i (.json data) token) (receive s i out)) := by
  obtain ⟨htold, hstale⟩ := after_unclaimed r s i data token hout
  refine h.frame hnp hnext ?_ htold (hstale ▸ Finset.subset_union_left) ?_
  · intro j k hj hjk
    refine ⟨hj, ?_⟩
    rw [receive_conn] at hjk
    split at hjk
    · rename_i hji
      rcases hst with hst | hst
      · cases hst.symm.trans hjk
      · rw [hji]; exact hst.symm.trans hjk
    · exact hjk
  · intro k hlive hk
    exact mem_byClaim.mpr ⟨.inl hk, by rw [receive_server, hnp]; exact hlive⟩

theorem named_handled (h : Named s r) (hap : Apart (s, r) (.recv i (.json data) token))
    (hd : Handled s.server (s.conn i).state i token data out) :
    Named (receive s i out) (r.after s (.recv i (.json data) token) (receive s i out)) := by
  cases hd with
  | quiet data next hq hdr =>
    exact named_kept h rfl rfl (.inr rfl) (by rintro mailbox hn; cases hn; cases hq)
  | allocate d ht =>
    have hfree : s.server.nameplates.get? (.str (toString s.server.nextNameplate)) = none := by
      by_contra hlive
      exact (hap i _ token rfl).1 ⟨d, rfl, ht⟩ (h.ahead _ le_rfl hlive)
    refine named_created h hfree rfl (Nat.le_succ _) rfl (by simp [handleAllocate]) ?_
    intro n hle hkn
    have hn := toString_inj (Key.str.inj hkn)
    simp only [handleAllocate] at hle
    omega
  | claimNew d k side ht htr hk hn hs =>
    refine named_claimed h hap (claimKey_claim ht htr hk) (by rw [hs]; simp) ?_ rfl rfl rfl rfl
    intro np0 hnp0
    rw [hn] at hnp0
    cases hnp0
  | claimNewRaise d k ht htr hk hn hs =>
    exact named_created h hn rfl le_rfl rfl (by simp) fun _ _ _ =>
      createdBy_claim (claimKey_claim ht htr hk) hn
  | claimOld d k np side ht htr hk hn hs =>
    refine named_claimed h hap (claimKey_claim ht htr hk) (by rw [hs]; simp) ?_ rfl rfl rfl rfl
    intro np0 hnp0
    rw [hn] at hnp0
    cases hnp0
    rfl
  | release d k np sides ht hk hn hs => exact named_released h hn rfl rfl rfl (by simp)
  | releaseMiss d ht hk hn => exact named_kept h rfl rfl (.inl rfl) (by simp)
  | bind d a sd ht => exact named_kept h rfl rfl (.inr rfl) (by simp)
  | openRaise d m ht htr hm hn hs => exact named_kept h rfl rfl (.inr rfl) (by simp)
  | opened d m side mb ht htr hm hmb hs => exact named_kept h rfl rfl (.inr rfl) (by simp)
  | add d m msg mb ht hst hm hmsg => exact named_kept h rfl rfl (.inr rfl) (by simp)
  | closeNone d ht hst => exact named_kept h rfl rfl (.inr rfl) (by simp)
  | closeMiss d m ht hst hm =>
    exact named_kept h (unsubscribe_nameplates _ _ _) (unsubscribe_nextNameplate _ _ _) (.inr rfl)
      (by simp)
  | close d m sides mb ht hst hm hs =>
    exact named_kept h (unsubscribe_nameplates _ _ _) (unsubscribe_nextNameplate _ _ _) (.inr rfl)
      (by simp)
  | closeRaise d m mb ht hst hm hs =>
    exact named_kept h (unsubscribe_nameplates _ _ _) (unsubscribe_nextNameplate _ _ _) (.inr rfl)
      (by simp)

/-! ## Every step -/

theorem named_step (h : Named s r) (hap : Apart (s, r) l) (hm : Move s l s') :
    Named s' (r.after s l s') := by
  by_cases hne : ∀ i data token, l ≠ .recv i (.json data) token
  · obtain ⟨hnp, -, hnext⟩ := server_frame hm hne
    have hr : r.after s l s' = r := by
      unfold Holds.after
      split
      · rename_i i data token; exact absurd rfl (hne i data token)
      · rfl
    rw [hr]
    refine h.frame hnp hnext (fun j k hj hjk => ?_) rfl subset_rfl fun _ _ hk => hk
    rcases state_frame hm hne hj with hst | ⟨hj, hst⟩
    · rw [hst] at hjk; cases hjk
    · exact ⟨hj, by rw [← hst]; exact hjk⟩
  · push Not at hne
    obtain ⟨i, data, token, rfl⟩ := hne
    cases hm with
    | badText i inc token e ht hinc => exact absurd rfl (hinc data)
    | handled i data token out ht ho hd => exact named_handled h hap hd

theorem named_init (appId : String) : Named (init appId) Holds.init where
  ahead := fun _ _ hlive => absurd rfl hlive
  live := fun i _ hi => absurd hi (Finset.notMem_empty i)
  agree := fun i _ _ hi => absurd hi (Finset.notMem_empty i)

/-- An `allocated` reply is the answer to `allocate`. -/
theorem allocated_reply {n : String} (hd : Handled s.server (s.conn i).state i token data out)
    (hout : out.next = .reply (.allocated n)) :
    (∃ d, data = .obj d ∧ Fields.get d "type" = .str "allocate") ∧
      n = toString s.server.nextNameplate := by
  cases hd with
  | quiet data next hq hdr => cases hout; cases hq
  | allocate d ht => cases hout; exact ⟨⟨d, rfl, ht⟩, rfl⟩
  | _ => cases hout

/-- **Fresh nameplates.** -/
theorem allocation_fresh (appId : String) (s s' : St) (r : Holds) (l : Lbl)
    (h : (((lts appId).observe Holds.init Holds.after).restrict Apart).Reachable (s, r))
    (hap : Apart (s, r) l) (hs : step s l = some s') : FreshAllocation r s l s' := by
  have hnamed : Named s r := by
    have hI : (((lts appId).observe Holds.init Holds.after).restrict Apart).Inductive
        fun p => Named p.1 p.2 := by
      refine ⟨?_, ?_⟩
      · rintro ⟨s, r⟩ ⟨rfl, rfl⟩; exact named_init appId
      · rintro ⟨s, r⟩ l ⟨s', r'⟩ hn ⟨hc, hst, hr⟩
        have hr : r' = r.after s l s' := hr
        subst hr
        exact named_step hn hc (step_move hst)
    exact hI.reachable _ h
  refine ⟨?_, fun i j k hi hj hik hjk _ => hnamed.agree i j k hi hj hik hjk⟩
  rintro i inc token n rfl ht
  cases step_move hs with
  | badText i inc token e hidle hinc => simp at ht
  | handled i data token out hidle ho hd =>
    simp only [receive_conn, if_true] at ht
    obtain ⟨hall, rfl⟩ := allocated_reply hd (nextTask_reply ht)
    by_contra hlive
    exact (hap i data token rfl).1 hall (hnamed.ahead _ le_rfl hlive)

/-! ## Runs -/

/-- A check that implies `Apart`. -/
def apartCheck (p : St × Holds) : Lbl → Bool
  | .recv i (.json data) _ =>
    Key.str (toString p.1.server.nextNameplate) ∉ p.2.byClaim &&
      (match claimKey data with
        | some k => decide (∀ j ∈ p.1.clients, j ≠ i → (p.1.conn j).state.nameplate = some k →
            j ∉ p.2.stale)
        | none => true)
  | _ => true

theorem apart_of_check (p : St × Holds) (l : Lbl) (h : apartCheck p l = true) : Apart p l := by
  rintro i data token rfl
  simp only [apartCheck, Bool.and_eq_true, decide_eq_true_eq] at h
  refine ⟨fun _ => h.1, fun k hk _ => ?_⟩
  simpa [hk] using h.2

/-- Client 0 allocates a nameplate, and clients 0 and 1 claim it. -/
def sharing : List Lbl :=
  arrive 0 ++ arrive 1 ++ [Lbl.recv 0 (request "allocate" "" .null) "a", .send 0,
    .recv 0 (request "claim" "nameplate" (.str "1")) "", .send 0,
    .recv 1 (request "claim" "nameplate" (.str "1")) "", .send 1]

def shared : St × Holds :=
  (LTS.exec (LTS.checked apartCheck (LTS.recorded step Holds.after)) (init "wh", Holds.init)
    sharing).get (by decide)

def allocating : Lbl := .recv 1 (request "allocate" "" .null) "b"

def allocatedNext : St := (step shared.1 allocating).get (by decide)

theorem allocation_fresh_shared : FreshAllocation shared.2 shared.1 allocating allocatedNext := by
  have hr : (((lts "wh").observe Holds.init Holds.after).restrict Apart).Reachable shared := by
    rw [lts, LTS.observe_ofStep]
    exact LTS.restrict_reachable_of_exec ⟨rfl, rfl⟩ apart_of_check (Option.some_get _).symm
  exact allocation_fresh "wh" shared.1 allocatedNext shared.2 allocating hr
    (apart_of_check shared allocating (by decide)) (Option.some_get _).symm

/-- Client 0 claims the nameplate that client 1 is then allocated. -/
def claimedAhead : St × Holds :=
  (LTS.exec (LTS.recorded step Holds.after) (init "wh", Holds.init)
    (arrive 0 ++ arrive 1 ++ [.recv 0 (request "claim" "nameplate" (.str "1")) "a"])).get (by decide)

def allocatedOver : St := (step claimedAhead.1 allocating).get (by decide)

/-- **A live nameplate is allocated.** -/
theorem allocated_live :
    ¬ ∀ (appId : String) (s s' : St) (r : Holds) (l : Lbl),
      ((lts appId).observe Holds.init Holds.after).Reachable (s, r) → step s l = some s' →
        FreshAllocation r s l s' := by
  intro h
  have hr : ((lts "wh").observe Holds.init Holds.after).Reachable claimedAhead := by
    rw [lts, LTS.observe_ofStep]
    exact LTS.reachable_of_exec ⟨rfl, rfl⟩ (Option.some_get _).symm
  have hfresh := (h "wh" _ allocatedOver _ allocating hr (Option.some_get _).symm).1
    1 _ _ "1" rfl rfl
  exact absurd hfresh (by decide)

end Wormhole.L5.MailboxSystem
