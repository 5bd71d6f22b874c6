import Wormhole.Core.RefCount
import Wormhole.L5Concurrency.MailboxSystem

/-!
# Reclaiming nameplates and mailboxes

A nameplate is deleted by the `release` that leaves it without sides, a mailbox
by such a `close` (`Wormhole.RefCount`). `claim` and `open` add whatever side
the client has; `release` and `close` remove the side it has then, and only a
true one. A client that claims without a `bind` has the side `None`, and its
nameplate stays for good (`never_reclaimed`).

`Ledger` records who has claimed and opened what under which side. When each
`release` and `close` is made under the side its client claimed or opened with,
and that side is true (`Matched`), nothing claimed and nothing opened is left
once every claim was released and every open closed (`reclaimed`).
-/
namespace Wormhole.L5.MailboxSystem
open Wormhole.L1 Wormhole.L4.MailboxServer Wormhole.RefCount

/-! ## The record -/

/-- Who holds which nameplate and which mailbox under which side. -/
structure Ledger where
  nameplates : Refs ConnId Key Key
  mailboxes : Refs ConnId Key Key

def Ledger.init : Ledger := ⟨.init, .init⟩

/-- The nameplate that a `release` releases. -/
def releasedKey (st : ClientState) : Json → Option Key
  | .obj d => (releaseKey st d).getD none
  | _ => none

/-- A nameplate is held from its `claimed` to the `released`. -/
def holdNameplates (r : Refs ConnId Key Key) (srv : Server) (st : ClientState) (i : ConnId)
    (data : Json) (out : Out) : Refs ConnId Key Key :=
  match out.next with
  | .reply (.allocated n) => r.create fun k => k = .str n
  | .reply (.claimed _) =>
    match out.state.nameplate, st.side.key with
    | some k, some side => r.take i k side
    | _, _ => r
  | .reply .released =>
    match releasedKey st data with
    | some k => r.drop i k
    | none => r
  | _ => r.create fun k => !srv.nameplates.contains k && out.server.nameplates.contains k

/-- A mailbox is held from the replay to the `closed`. -/
def holdMailboxes (r : Refs ConnId Key Key) (srv : Server) (st : ClientState) (i : ConnId)
    (data : Json) (token : String) (out : Out) : Refs ConnId Key Key :=
  match out.next with
  | .replay m _ =>
    match st.side.key with
    | some side => r.take i m side
    | none => r
  | .reply .closed =>
    match st.mailbox with
    | some m => r.drop i m
    | none => r
  | _ => r.create fun m => (drawsMailbox srv data && m = .str token) ||
      (!srv.mailboxes.contains m && out.server.mailboxes.contains m)

def Ledger.after (r : Ledger) (s : St) (l : Lbl) (_ : St) : Ledger :=
  match l with
  | .recv i (.json data) token =>
    let st := (s.conn i).state
    let out := handleMessage s.server st i data token
    ⟨holdNameplates r.nameplates s.server st i data out,
      holdMailboxes r.mailboxes s.server st i data token out⟩
  | _ => r

/-! ## The statement -/

/-- The side is true and, unless it raises, it is `a`. -/
def SameSide (side : Json) (a : Key) : Prop :=
  side.truthy = true ∧ ∀ b, side.key = some b → b = a

/-- A client releases a nameplate and closes a mailbox under the side that it
claimed or opened it with, if that side is still counted. -/
def Matched (p : St × Ledger) (l : Lbl) : Prop :=
  ∀ i d token, l = .recv i (.json (.obj d)) token →
    (Fields.get d "type" = .str "release" → ∀ k np a,
      releaseKey (p.1.conn i).state d = some (some k) → p.1.server.nameplates.get? k = some np →
        a ∈ np.sides → (i, k, a) ∈ p.2.nameplates.held → SameSide (p.1.conn i).state.side a) ∧
    (Fields.get d "type" = .str "close" → ∀ m mb a,
      (p.1.conn i).state.mailbox = some m → p.1.server.mailboxes.get? m = some mb →
        a ∈ mb.sides → (i, m, a) ∈ p.2.mailboxes.held → SameSide (p.1.conn i).state.side a)

/-- When nobody holds a nameplate any more, no claimed nameplate is left; and so
for mailboxes. -/
def Reclaimed (s : St) (r : Ledger) : Prop :=
  (r.nameplates.held = ∅ → ∀ k ∈ r.nameplates.used, s.server.nameplates.get? k = none) ∧
  (r.mailboxes.held = ∅ → ∀ m ∈ r.mailboxes.used, s.server.mailboxes.get? m = none)

/-! ## Sides -/

variable {srv : Server} {st : ClientState} {i : ConnId} {data : Json} {token : String} {out : Out}
  {r : Refs ConnId Key Key}

theorem dropSide_subset {side : Json} {sides sides' : Finset Key}
    (h : dropSide side sides = some sides') : sides' ⊆ sides := by
  unfold dropSide at h
  split at h
  · obtain ⟨b, -, rfl⟩ := Option.map_eq_some_iff.mp h
    exact Finset.erase_subset b sides
  · cases h; exact subset_rfl

/-- What is left after dropping is none of the sides `P`. -/
theorem dropSide_own {side : Json} {sides sides' : Finset Key} {P : Key → Prop}
    (h : dropSide side sides = some sides') (hP : ∀ a ∈ sides, P a → SameSide side a) :
    ∀ a ∈ sides', ¬ P a := by
  intro a ha hPa
  obtain ⟨htrue, hkey⟩ := hP a (dropSide_subset h ha) hPa
  rw [dropSide, if_pos htrue] at h
  obtain ⟨b, hb, rfl⟩ := Option.map_eq_some_iff.mp h
  exact (Finset.mem_erase.mp ha).1 (hkey b hb).symm

/-- The sides of the entries of a dict. -/
def sidesIn {ν : Type} (sides : ν → Finset Key) (d : Dict Key ν) (k : Key) : Option (Finset Key) :=
  (d.get? k).map sides

theorem sidesIn_set {ν : Type} (sides : ν → Finset Key) (d : Dict Key ν) (k : Key) (v : ν) :
    sidesIn sides (d.set k v) = Function.update (sidesIn sides d) k (some (sides v)) := by
  funext j
  rw [sidesIn, Dict.get?_set]
  by_cases hj : j = k
  · simp [hj]
  · rw [Function.update_of_ne hj, if_neg (fun e => hj e.symm)]; rfl

theorem sidesIn_del {ν : Type} (sides : ν → Finset Key) (d : Dict Key ν) (k : Key) :
    sidesIn sides (d.del k) = Function.update (sidesIn sides d) k none := by
  funext j
  rw [sidesIn, Dict.get?_del]
  by_cases hj : j = k
  · simp [hj]
  · rw [Function.update_of_ne hj, if_neg (fun e => hj e.symm)]; rfl

/-- An entry loses a side, and is deleted with its last one. -/
theorem counted_dropped {ν : Type} {sides : ν → Finset Key} {d d' : Dict Key ν} {k : Key}
    {v : ν} {left : Finset Key} {side : Json} (v' : ν) (h : Counted (sidesIn sides d) r)
    (hk : d.get? k = some v) (hdrop : dropSide side (sides v) = some left)
    (hown : ∀ a ∈ sides v, (i, k, a) ∈ r.held → SameSide side a) (hv' : sides v' = left)
    (hd' : d' = if left = ∅ then d.del k else d.set k v') :
    Counted (sidesIn sides d') (r.drop i k) := by
  have hns : sidesIn sides d k = some (sides v) := by rw [sidesIn, hk]; rfl
  have hcount := h.drop hns (dropSide_subset hdrop) (dropSide_own hdrop hown)
  by_cases hleft : left = ∅
  · rw [if_pos hleft] at hd' hcount
    rw [hd', sidesIn_del]
    exact hcount
  · rw [if_neg hleft] at hd' hcount
    rw [hd', sidesIn_set, hv']
    exact hcount

/-- An entry without sides is set. -/
theorem counted_made {ν : Type} {sides : ν → Finset Key} {d d' : Dict Key ν} {k : Key} {v : ν}
    {made : Key → Bool} (h : Counted (sidesIn sides d) r) (hd' : d' = d.set k v)
    (hv : sides v = ∅) (hmade : ∀ j, made j = decide (j = k)) :
    Counted (sidesIn sides d') (r.create made) := by
  refine h.create fun j => ?_
  rw [hd', sidesIn_set, hv, hmade]
  by_cases hj : j = k
  · simp [hj]
  · simp [hj]

/-- The dict is as it was. -/
theorem counted_kept {ν : Type} {sides : ν → Finset Key} {d d' : Dict Key ν} {made : Key → Bool}
    (h : Counted (sidesIn sides d) r) (hd' : d' = d) (hmade : ∀ j, made j = false) :
    Counted (sidesIn sides d') (r.create made) := by
  refine h.create fun j => ?_
  rw [hd', hmade]
  simp

/-! ## One message -/

theorem nameplates_counted (h : Counted (sidesIn Nameplate.sides srv.nameplates) r)
    (hd : Handled srv st i token data out)
    (hown : ∀ d k np a, data = .obj d → Fields.get d "type" = .str "release" →
      releaseKey st d = some (some k) → srv.nameplates.get? k = some np → a ∈ np.sides →
        (i, k, a) ∈ r.held → SameSide st.side a) :
    Counted (sidesIn Nameplate.sides out.server.nameplates)
      (holdNameplates r srv st i data out) := by
  have hkeep : ∀ {d' : Dict Key Nameplate}, d' = srv.nameplates →
      Counted (sidesIn Nameplate.sides d')
        (r.create fun k => !srv.nameplates.contains k && d'.contains k) :=
    fun hd' => counted_kept h hd' fun k => by rw [hd']; simp
  cases hd with
  | quiet data next hq hdr =>
    cases next with
    | reply f => cases f <;> first | (cases hq; done) | exact hkeep rfl
    | raise e => exact hkeep rfl
    | replay m msgs => cases hq
    | notify m msg subs => cases hq
  | allocate d ht => exact counted_made h rfl rfl fun _ => rfl
  | claimNew d k side ht htr hk hn hs =>
    have htake := h.take i k side
    rw [sidesIn, hn] at htake
    simpa [holdNameplates, hs, sidesIn_set] using htake
  | claimNewRaise d k ht htr hk hn hs =>
    refine counted_made h rfl rfl fun j => ?_
    simp only [Dict.contains_eq, Dict.get?_set]
    by_cases hj : j = k
    · simp [hj, hn]
    · have hkj : k ≠ j := Ne.symm hj
      simp [hj, hkj]
  | claimOld d k np side ht htr hk hn hs =>
    have htake := h.take i k side
    rw [sidesIn, hn] at htake
    simpa [holdNameplates, hs, sidesIn_set] using htake
  | releaseMiss d ht hk hn =>
    simp only [holdNameplates, releasedKey]
    cases hrel : (releaseKey st d).getD none with
    | none => exact h
    | some k =>
      obtain ⟨o, ho⟩ := Option.ne_none_iff_exists'.mp hk
      rw [ho, Option.getD_some] at hrel
      exact h.drop_absent (by rw [sidesIn, hn k (by rw [ho, hrel])]; rfl)
  | release d k np sides ht hk hn hs =>
    have hrel : releasedKey st (.obj d) = some k := by rw [releasedKey, hk]; rfl
    simp only [holdNameplates, hrel]
    exact counted_dropped { np with sides := sides } h hn hs
      (fun a ha hheld => hown d k np a rfl ht hk hn ha hheld) rfl rfl
  | closeMiss d m ht hst hm => exact hkeep (unsubscribe_nameplates srv m i)
  | close d m sides mb ht hst hm hs => exact hkeep (unsubscribe_nameplates srv m i)
  | closeRaise d m mb ht hst hm hs => exact hkeep (unsubscribe_nameplates srv m i)
  | bind d a sd ht => exact hkeep rfl
  | openRaise d m ht htr hm hn hs => exact hkeep rfl
  | opened d m side mb ht htr hm hmb hs => exact hkeep rfl
  | add d m msg mb ht hst hm hmsg => exact hkeep rfl
  | closeNone d ht hst => exact hkeep rfl

theorem mailboxes_counted (h : Counted (sidesIn Mailbox.sides srv.mailboxes) r)
    (hd : Handled srv st i token data out)
    (hown : ∀ d m mb a, data = .obj d → Fields.get d "type" = .str "close" →
      st.mailbox = some m → srv.mailboxes.get? m = some mb → a ∈ mb.sides →
        (i, m, a) ∈ r.held → SameSide st.side a) :
    Counted (sidesIn Mailbox.sides out.server.mailboxes)
      (holdMailboxes r srv st i data token out) := by
  have hdrawn : drawsMailbox srv data = true →
      Counted (sidesIn Mailbox.sides out.server.mailboxes)
        (r.create fun m => (drawsMailbox srv data && m = .str token) ||
          (!srv.mailboxes.contains m && out.server.mailboxes.contains m)) := by
    intro hdr
    refine counted_made h (mailboxes_drawn hd hdr) rfl fun j => ?_
    simp only [mailboxes_drawn hd hdr, hdr, Dict.contains_eq, Dict.get?_set]
    by_cases hj : j = .str token
    · simp [hj]
    · have hkj : Key.str token ≠ j := Ne.symm hj
      simp [hj, hkj]
  have hkeep : ∀ {data : Json} {d' : Dict Key Mailbox}, d' = srv.mailboxes →
      drawsMailbox srv data = false → Counted (sidesIn Mailbox.sides d')
        (r.create fun m => (drawsMailbox srv data && m = .str token) ||
          (!srv.mailboxes.contains m && d'.contains m)) :=
    fun hd' hdr => counted_kept h hd' fun m => by rw [hd', hdr]; simp
  cases hd with
  | quiet data next hq hdr =>
    cases next with
    | reply f => cases f <;> first | (cases hq; done) | exact hkeep rfl hdr
    | raise e => exact hkeep rfl hdr
    | replay m msgs => cases hq
    | notify m msg subs => cases hq
  | allocate d ht => exact hdrawn (draws_allocate ht)
  | claimNew d k side ht htr hk hn hs => exact hdrawn (draws_claim ht htr hk hn)
  | claimNewRaise d k ht htr hk hn hs => exact hdrawn (draws_claim ht htr hk hn)
  | claimOld d k np side ht htr hk hn hs =>
    exact hkeep rfl (by simp [drawsMailbox, ht, hk, hn])
  | bind d a sd ht => exact hkeep rfl (draws_type ht (by decide) (by decide))
  | releaseMiss d ht hk hn => exact hkeep rfl (draws_type ht (by decide) (by decide))
  | release d k np sides ht hk hn hs => exact hkeep rfl (draws_type ht (by decide) (by decide))
  | openRaise d m ht htr hk hn hs =>
    have hdr : drawsMailbox srv (.obj d) = false := draws_type ht (by decide) (by decide)
    refine counted_made h rfl rfl fun j => ?_
    simp only [hdr, Dict.contains_eq, Dict.get?_set]
    by_cases hj : j = m
    · simp [hj, hn]
    · have hmj : m ≠ j := Ne.symm hj
      simp [hj, hmj]
  | opened d m side mb ht htr hk hmb hs =>
    have htake := h.take i m side
    have hsides : (sidesIn Mailbox.sides srv.mailboxes m).getD ∅ = mb.sides := by
      rw [sidesIn, hmb]
      cases srv.mailboxes.get? m <;> rfl
    rw [hsides] at htake
    simpa [holdMailboxes, hs, sidesIn_set] using htake
  | add d m msg mb ht hst hm hmsg =>
    have hdr : drawsMailbox srv (.obj d) = false := draws_type ht (by decide) (by decide)
    refine h.create fun j => ?_
    simp only [hdr, sidesIn_set, Dict.contains_eq, Dict.get?_set]
    by_cases hj : j = m
    · subst hj; simp [sidesIn, hm]
    · have hmj : m ≠ j := Ne.symm hj
      simp [hj, hmj]
  | closeNone d ht hst => simpa [holdMailboxes, hst] using h
  | closeMiss d m ht hst hm =>
    simp only [holdMailboxes, hst, unsubscribe_mailboxes]
    exact h.drop_absent (by rw [sidesIn, hm]; rfl)
  | close d m sides mb ht hst hm hs =>
    simp only [holdMailboxes, hst]
    exact counted_dropped { mb with sides := sides } h hm hs
      (fun a ha hheld => hown d m mb a rfl ht hst hm ha hheld) rfl rfl
  | closeRaise d m mb ht hst hm hs =>
    exact hkeep (unsubscribe_mailboxes srv m i) (draws_type ht (by decide) (by decide))

/-! ## Whole runs -/

/-- **Reclaimed**, in every run in which nameplates are released and mailboxes
closed under the sides that hold them. -/
theorem reclaimed (appId : String) (s : St) (r : Ledger)
    (h : (((lts appId).observe Ledger.init Ledger.after).restrict Matched).Reachable (s, r)) :
    Reclaimed s r := by
  have hcounted : Counted (sidesIn Nameplate.sides s.server.nameplates) r.nameplates ∧
      Counted (sidesIn Mailbox.sides s.server.mailboxes) r.mailboxes := by
    have hI : (((lts appId).observe Ledger.init Ledger.after).restrict Matched).Inductive
        fun p => Counted (sidesIn Nameplate.sides p.1.server.nameplates) p.2.nameplates ∧
          Counted (sidesIn Mailbox.sides p.1.server.mailboxes) p.2.mailboxes := by
      refine ⟨?_, ?_⟩
      · rintro ⟨s, r⟩ ⟨rfl, rfl⟩
        exact ⟨.init fun _ => rfl, .init fun _ => rfl⟩
      · rintro ⟨s, r⟩ l ⟨s', r'⟩ ⟨hn, hb⟩ ⟨hmatch, hst, hr⟩
        have hr : r' = r.after s l s' := hr
        subst hr
        have hm : Move s l s' := step_move hst
        by_cases hne : ∀ i data token, l ≠ .recv i (.json data) token
        · obtain ⟨hnp, hmail, -⟩ := server_frame hm hne
          have hr : r.after s l s' = r := by
            unfold Ledger.after
            split
            · rename_i i data token; exact absurd rfl (hne i data token)
            · rfl
          rw [hr]
          simp only [hnp, hmail]
          exact ⟨hn, hb⟩
        · push Not at hne
          obtain ⟨i, data, token, rfl⟩ := hne
          cases hm with
          | badText i inc token e ht hinc => exact absurd rfl (hinc data)
          | handled i data token out ht ho hd =>
            simp only [Ledger.after, ho]
            refine ⟨nameplates_counted hn hd ?_, mailboxes_counted hb hd ?_⟩
            · rintro d k np a rfl ht
              exact (hmatch i d token rfl).1 ht k np a
            · rintro d m mb a rfl ht
              exact (hmatch i d token rfl).2 ht m mb a
    exact hI.reachable _ h
  refine ⟨fun hr k hk => ?_, fun hr m hm => ?_⟩
  · simpa [sidesIn] using hcounted.1.none_of_released hr hk
  · simpa [sidesIn] using hcounted.2.none_of_released hr hm

/-! ## Runs -/

/-- A check that implies `SameSide` for the sides held by `i`. -/
def ownSides (side : Json) (sides : Finset Key) (held : Finset (ConnId × Key × Key)) (i : ConnId)
    (k : Key) : Bool :=
  decide (∀ a ∈ sides, (i, k, a) ∈ held → side.truthy = true ∧ side.key = some a)

theorem sameSide_of_own {side : Json} {sides : Finset Key} {held : Finset (ConnId × Key × Key)}
    {i : ConnId} {k a : Key} (h : ownSides side sides held i k = true) (ha : a ∈ sides)
    (hheld : (i, k, a) ∈ held) : SameSide side a := by
  obtain ⟨htrue, hkey⟩ := of_decide_eq_true h a ha hheld
  exact ⟨htrue, fun b hb => Option.some.inj (hb.symm.trans hkey)⟩

/-- A check that implies `Matched`. -/
def matchedCheck (p : St × Ledger) : Lbl → Bool
  | .recv i (.json (.obj d)) _ =>
    match Fields.get d "type" with
    | .str "release" =>
      match releaseKey (p.1.conn i).state d with
      | some (some k) =>
        match p.1.server.nameplates.get? k with
        | some np => ownSides (p.1.conn i).state.side np.sides p.2.nameplates.held i k
        | none => true
      | _ => true
    | .str "close" =>
      match (p.1.conn i).state.mailbox with
      | some m =>
        match p.1.server.mailboxes.get? m with
        | some mb => ownSides (p.1.conn i).state.side mb.sides p.2.mailboxes.held i m
        | none => true
      | none => true
    | _ => true
  | _ => true

theorem matched_of_check (p : St × Ledger) (l : Lbl) (h : matchedCheck p l = true) :
    Matched p l := by
  rintro i d token rfl
  refine ⟨fun ht k np a hk hnp ha hheld => ?_, fun ht m mb a hm hmb ha hheld => ?_⟩
  · simp only [matchedCheck, ht, hk, hnp] at h
    exact sameSide_of_own h ha hheld
  · simp only [matchedCheck, ht, hm, hmb] at h
    exact sameSide_of_own h ha hheld

/-- Client 0 binds, claims a nameplate, opens its mailbox, and gives both up. -/
def visiting : List Lbl :=
  arrive 0 ++ [Lbl.recv 0 (request "bind" "side" (.str "s")) "", .send 0,
    .recv 0 (request "claim" "nameplate" (.str "7")) "m", .send 0,
    .recv 0 (request "open" "mailbox" (.str "m")) "",
    .recv 0 (request "release" "nameplate" (.str "7")) "", .send 0,
    .recv 0 (request "close" "mood" (.str "happy")) "", .send 0]

def visited : St × Ledger :=
  (LTS.exec (LTS.checked matchedCheck (LTS.recorded step Ledger.after)) (init "wh", Ledger.init)
    visiting).get (by decide)

theorem reclaimed_visited : Reclaimed visited.1 visited.2 := by
  have hr : (((lts "wh").observe Ledger.init Ledger.after).restrict Matched).Reachable visited := by
    rw [lts, LTS.observe_ofStep]
    exact LTS.restrict_reachable_of_exec ⟨rfl, rfl⟩ matched_of_check (Option.some_get _).symm
  exact reclaimed "wh" visited.1 visited.2 hr

/-- Client 0 claims a nameplate and releases it, without a `bind`. -/
def unbound : St × Ledger :=
  (LTS.exec (LTS.recorded step Ledger.after) (init "wh", Ledger.init)
    (arrive 0 ++ [Lbl.recv 0 (request "claim" "nameplate" (.str "7")) "m", .send 0,
      .recv 0 (request "release" "nameplate" (.str "7")) "", .send 0])).get (by decide)

/-- **A released nameplate stays.** -/
theorem never_reclaimed :
    ¬ ∀ (appId : String) (s : St) (r : Ledger),
      ((lts appId).observe Ledger.init Ledger.after).Reachable (s, r) → Reclaimed s r := by
  intro h
  have hr : ((lts "wh").observe Ledger.init Ledger.after).Reachable unbound := by
    rw [lts, LTS.observe_ofStep]
    exact LTS.reachable_of_exec ⟨rfl, rfl⟩ (Option.some_get _).symm
  exact absurd ((h "wh" unbound.1 unbound.2 hr).1 (by decide) (.str "7") (by decide)) (by decide)

end Wormhole.L5.MailboxSystem
