import Wormhole.L4App.Dilation

/-!
# Tables of subchannels

Two sides that number their subchannels independently and share one id space.
A `Table` is what must hold of one side against the other so that a record is
routed by its id alone: every open subchannel is the one the map has for its
id, the OPEN record of an id is ahead of every other record with it, and an id
that the other side has not heard of yet is on no record of the other side.

* `pair_open`, `pair_append`, `pair_shut`, `pair_drop`: what a side does.
* `pair_accept`, `pair_pop`: what it does with the oldest record under way.
* `Table.linked`: the record at the head belongs to exactly one subchannel of
  the other side.
-/
namespace Wormhole.L5.SubchannelTable
open Wormhole.L1 Wormhole.L4.Dilation

/-- What the routing of records depends on at one side: which subchannels there
are, their ids, which of them are open, and the map. -/
structure View where
  next : Ref
  id : Ref → Nat
  isOpen : Ref → Bool
  map : Nat → Option Ref

/-- The view of a manager. -/
def view (m : Manager) : View :=
  ⟨m.nextRef, fun r => (m.object r).id, fun r => (m.object r).isOpen, m.subchannels.get?⟩

/-- A new subchannel under the id `k`. -/
def View.install (v : View) (k : Nat) : View where
  next := v.next + 1
  id r := if r = v.next then k else v.id r
  isOpen r := if r = v.next then true else v.isOpen r
  map j := if k = j then some v.next else v.map j

def View.shut (v : View) (r : Ref) : View :=
  { v with isOpen := fun q => if q = r then false else v.isOpen q }

def View.drop (v : View) (k : Nat) : View :=
  { v with map := fun j => if k = j then none else v.map j }

/-- The record belongs to the call: its type, and the id of the caller's
subchannel. No call refuses an OPEN here. -/
def Fits (v : View) (q : Suspended) : Prop :=
  match q.caller with
  | .openSubchannel r => q.type = .opening ∧ r < v.next ∧ v.id r = q.id
  | .send r => q.type = .data ∧ r < v.next ∧ v.id r = q.id
  | .close r => q.type = .close ∧ r < v.next ∧ v.id r = q.id
  | .refuse => False

/-- One side `v` with its records under way `p`, oldest first, against the other
side. `o r` is the other side's subchannel whose OPEN created `r`. -/
structure Table (v v' : View) (p p' : List Suspended) (o o' : Ref → Option Ref) : Prop where
  entries : ∀ k r, v.map k = some r → r < v.next ∧ v.id r = k
  opened : ∀ r, r < v.next → v.isOpen r = true → v.map (v.id r) = some r
  small : ∀ r, r < v.next → v.id r < 2 ^ 32
  fits : ∀ q ∈ p, Fits v q
  origins : ∀ r' r, o r' = some r → r' < v.next ∧ r < v'.next ∧ v.id r' = v'.id r ∧ o' r = none
  inj : ∀ r1 r2 r, o r1 = some r → o r2 = some r → r1 = r2
  pending : ∀ q ∈ p, ∀ r, q.caller = .openSubchannel r →
    o r = none ∧ (∀ r', o' r' ≠ some r) ∧ v'.map q.id = none ∧ ∀ q' ∈ p', q'.id ≠ q.id
  order : p.Pairwise fun q q' => q'.type = .opening → q.id ≠ q'.id
  known : ∀ r, r < v.next →
    (∃ r', o r = some r') ∨ (∃ q ∈ p, q.caller = .openSubchannel r) ∨ ∃ r', o' r' = some r
  closing : ∀ q ∈ p, q.type = .close → ∀ r, r < v.next → v.id r = q.id → v.isOpen r = false

/-- Both sides. -/
structure Pair (v v' : View) (p p' : List Suspended) (o o' : Ref → Option Ref) : Prop where
  here : Table v v' p p' o o'
  there : Table v' v p' p o' o

theorem Pair.swap {v v' : View} {p p' : List Suspended} {o o' : Ref → Option Ref}
    (h : Pair v v' p p' o o') : Pair v' v p' p o' o := ⟨h.there, h.here⟩

section
variable {v v' : View} {p p' : List Suspended} {o o' : Ref → Option Ref}

/-- The record of a call of subchannel `r` that is not an OPEN. -/
def Own (v : View) (q : Suspended) (r : Ref) : Prop :=
  q.type ≠ .opening ∧ (q.caller = .send r ∨ q.caller = .close r) ∧ Fits v q

theorem not_openSubchannel {q : Suspended} {r r' : Ref} (h : Own v q r) :
    q.caller ≠ .openSubchannel r' := by
  obtain ⟨-, hc, -⟩ := h
  intro he
  rw [he] at hc
  rcases hc with hc | hc <;> cases hc

theorem own_of_caller {q : Suspended} {r : Ref} (h : Fits v q)
    (hc : q.caller = .send r ∨ q.caller = .close r) :
    Own v q r ∧ r < v.next ∧ v.id r = q.id := by
  refine ⟨⟨?_, hc, h⟩, ?_⟩
  · unfold Fits at h
    rcases hc with hc | hc <;> rw [hc] at h <;> rw [h.1] <;> exact RecordType.noConfusion
  · unfold Fits at h
    rcases hc with hc | hc <;> rw [hc] at h <;> exact h.2

/-! ## What one side does -/

theorem lt_of_lt_install {k : Nat} {r : Ref} (hr : r < (v.install k).next) (hne : r ≠ v.next) :
    r < v.next := Nat.lt_of_le_of_ne (Nat.le_of_lt_succ hr) hne

theorem fits_install {q : Suspended} (k : Nat) (h : Fits v q) : Fits (v.install k) q := by
  have hid : ∀ r, r < v.next → (v.install k).id r = v.id r := fun r hr => if_neg (Nat.ne_of_lt hr)
  unfold Fits at h ⊢
  split at h
  · obtain ⟨ht, hr, hq⟩ := h
    exact ⟨ht, Nat.lt_succ_of_lt hr, (hid _ hr).trans hq⟩
  · obtain ⟨ht, hr, hq⟩ := h
    exact ⟨ht, Nat.lt_succ_of_lt hr, (hid _ hr).trans hq⟩
  · obtain ⟨ht, hr, hq⟩ := h
    exact ⟨ht, Nat.lt_succ_of_lt hr, (hid _ hr).trans hq⟩
  · exact h.elim

theorem entries_install {k : Nat} (h : ∀ k r, v.map k = some r → r < v.next ∧ v.id r = k) :
    ∀ j r, (v.install k).map j = some r → r < (v.install k).next ∧ (v.install k).id r = j := by
  intro j r hj
  simp only [View.install] at hj ⊢
  split at hj
  · rename_i hkj
    cases hj
    exact ⟨Nat.lt_succ_self _, by rw [if_pos rfl, hkj]⟩
  · obtain ⟨hr, hid⟩ := h j r hj
    exact ⟨Nat.lt_succ_of_lt hr, by rw [if_neg (Nat.ne_of_lt hr), hid]⟩

theorem opened_install {k : Nat} (hk : v.map k = none)
    (h : ∀ r, r < v.next → v.isOpen r = true → v.map (v.id r) = some r) :
    ∀ r, r < (v.install k).next → (v.install k).isOpen r = true →
      (v.install k).map ((v.install k).id r) = some r := by
  intro r hr ho
  simp only [View.install] at ho ⊢
  split at ho
  · rename_i heq
    rw [if_pos heq, if_pos rfl, heq]
  · rename_i hne
    have hmap := h r (lt_of_lt_install hr hne) ho
    rw [if_neg hne, if_neg (fun e => by rw [← e, hk] at hmap; cases hmap), hmap]

theorem small_install {k : Nat} (hk : k < 2 ^ 32) (h : ∀ r, r < v.next → v.id r < 2 ^ 32) :
    ∀ r, r < (v.install k).next → (v.install k).id r < 2 ^ 32 := by
  intro r hr
  simp only [View.install]
  split
  · exact hk
  · rename_i hne
    exact h r (lt_of_lt_install hr hne)

theorem closing_install {k : Nat} (hp : ∀ q ∈ p, q.id ≠ k)
    (h : ∀ q ∈ p, q.type = .close → ∀ r, r < v.next → v.id r = q.id → v.isOpen r = false) :
    ∀ q ∈ p, q.type = .close → ∀ r, r < (v.install k).next → (v.install k).id r = q.id →
      (v.install k).isOpen r = false := by
  intro q hq ht r hr hid
  simp only [View.install] at hid ⊢
  split at hid
  · exact absurd hid.symm (hp q hq)
  · rename_i hne
    rw [if_neg hne]
    exact h q hq ht r (lt_of_lt_install hr hne) hid

/-- A side opens a subchannel under an id that is not in use. -/
theorem pair_open {k : Nat} (data : Bytes) (h : Pair v v' p p' o o') (hk : v.map k = none)
    (hk' : v'.map k = none) (hp : ∀ q ∈ p, q.id ≠ k) (hp' : ∀ q ∈ p', q.id ≠ k)
    (hsmall : k < 2 ^ 32) :
    Pair (v.install k) v' (p ++ [⟨.opening, k, data, .openSubchannel v.next⟩]) p' o o' := by
  obtain ⟨h, h'⟩ := h
  have hid : ∀ r, r < v.next → (v.install k).id r = v.id r := fun r hr => if_neg (Nat.ne_of_lt hr)
  constructor
  · refine ⟨entries_install h.entries, opened_install hk h.opened, small_install hsmall h.small,
      ?_, ?_, h.inj, ?_, ?_, ?_, ?_⟩
    · intro q hq
      rcases List.mem_append.mp hq with hq | hq
      · exact fits_install k (h.fits q hq)
      · cases List.mem_singleton.mp hq
        exact ⟨rfl, Nat.lt_succ_self _, if_pos rfl⟩
    · intro r' r hr
      obtain ⟨h1, h2, h3, h4⟩ := h.origins r' r hr
      exact ⟨Nat.lt_succ_of_lt h1, h2, (hid r' h1).trans h3, h4⟩
    · intro q hq r hc
      rcases List.mem_append.mp hq with hq | hq
      · exact h.pending q hq r hc
      · cases List.mem_singleton.mp hq
        cases hc
        refine ⟨?_, ?_, hk', hp'⟩
        · cases ho : o v.next with
          | none => rfl
          | some r => exact absurd (h.origins _ _ ho).1 (Nat.lt_irrefl _)
        · intro r' ho
          exact absurd (h'.origins _ _ ho).2.1 (Nat.lt_irrefl _)
    · refine List.pairwise_append.mpr ⟨h.order, List.pairwise_singleton _ _, ?_⟩
      intro q hq q' hq' _
      cases List.mem_singleton.mp hq'
      exact hp q hq
    · intro r hr
      by_cases heq : r = v.next
      · rw [heq]
        exact .inr (.inl ⟨_, List.mem_append_right p (List.mem_singleton_self _), rfl⟩)
      · rcases h.known r (lt_of_lt_install hr heq) with ho | ⟨q, hq, hc⟩ | ho
        · exact .inl ho
        · exact .inr (.inl ⟨q, List.mem_append_left _ hq, hc⟩)
        · exact .inr (.inr ho)
    · intro q hq ht
      rcases List.mem_append.mp hq with hq | hq
      · exact closing_install hp h.closing q hq ht
      · cases List.mem_singleton.mp hq
        cases ht
  · refine { h' with origins := ?_, pending := ?_ }
    · intro r' r hr
      obtain ⟨h1, h2, h3, h4⟩ := h'.origins r' r hr
      exact ⟨h1, Nat.lt_succ_of_lt h2, h3.trans (hid r h2).symm, h4⟩
    · intro q hq r hc
      obtain ⟨h1, h2, h3, h4⟩ := h'.pending q hq r hc
      refine ⟨h1, h2, ?_, ?_⟩
      · simp only [View.install]
        rw [if_neg (fun e => hp' q hq e.symm), h3]
      · intro q' hq'
        rcases List.mem_append.mp hq' with hq' | hq'
        · exact h4 q' hq'
        · cases List.mem_singleton.mp hq'
          exact fun e => hp' q hq e.symm

/-- An open subchannel sends a record. -/
theorem pair_append {q : Suspended} {r : Ref} (h : Pair v v' p p' o o') (hq : Own v q r)
    (hmap : v.map q.id = some r)
    (hclose : q.type = .close → ∀ r, r < v.next → v.id r = q.id → v.isOpen r = false) :
    Pair v v' (p ++ [q]) p' o o' := by
  obtain ⟨h, h'⟩ := h
  constructor
  · refine { h with fits := ?_, pending := ?_, order := ?_, known := ?_, closing := ?_ }
    · intro q1 hq1
      rcases List.mem_append.mp hq1 with hq1 | hq1
      · exact h.fits q1 hq1
      · cases List.mem_singleton.mp hq1
        exact hq.2.2
    · intro q1 hq1 r1 hc
      rcases List.mem_append.mp hq1 with hq1 | hq1
      · exact h.pending q1 hq1 r1 hc
      · cases List.mem_singleton.mp hq1
        exact absurd hc (not_openSubchannel hq)
    · refine List.pairwise_append.mpr ⟨h.order, List.pairwise_singleton _ _, ?_⟩
      intro q1 _ q2 hq2 ht
      cases List.mem_singleton.mp hq2
      exact absurd ht hq.1
    · intro r1 hr1
      rcases h.known r1 hr1 with ho | ⟨q1, hq1, hc⟩ | ho
      · exact .inl ho
      · exact .inr (.inl ⟨q1, List.mem_append_left _ hq1, hc⟩)
      · exact .inr (.inr ho)
    · intro q1 hq1 ht
      rcases List.mem_append.mp hq1 with hq1 | hq1
      · exact h.closing q1 hq1 ht
      · cases List.mem_singleton.mp hq1
        exact hclose ht
  · refine { h' with pending := ?_ }
    intro q1 hq1 r1 hc
    obtain ⟨h1, h2, h3, h4⟩ := h'.pending q1 hq1 r1 hc
    refine ⟨h1, h2, h3, ?_⟩
    intro q2 hq2
    rcases List.mem_append.mp hq2 with hq2 | hq2
    · exact h4 q2 hq2
    · cases List.mem_singleton.mp hq2
      intro e
      rw [← e, hmap] at h3
      cases h3

theorem pair_shut (r : Ref) (h : Pair v v' p p' o o') : Pair (v.shut r) v' p p' o o' := by
  obtain ⟨h, h'⟩ := h
  refine ⟨{ h with opened := ?_, closing := ?_ }, { h' with }⟩
  · intro r1 hr1 ho
    simp only [View.shut] at ho
    split at ho
    · cases ho
    · exact h.opened r1 hr1 ho
  · intro q hq ht r1 hr1 hid
    have := h.closing q hq ht r1 hr1 hid
    simp only [View.shut]
    rw [this, ite_self]

/-- Shutting the one subchannel the map has for an id leaves none open with it. -/
theorem shut_closed {k : Nat} {r : Ref} (h : Table v v' p p' o o') (hk : v.map k = some r) :
    ∀ r1, r1 < v.next → v.id r1 = k → (v.shut r).isOpen r1 = false := by
  intro r1 hr1 hid
  simp only [View.shut]
  split
  · rfl
  · rename_i hne
    cases ho : v.isOpen r1 with
    | false => rfl
    | true =>
      have := h.opened r1 hr1 ho
      rw [hid, hk] at this
      cases this
      exact absurd rfl hne

theorem pair_drop {k : Nat} (h : Pair v v' p p' o o')
    (hk : ∀ r, r < v.next → v.id r = k → v.isOpen r = false) :
    Pair (v.drop k) v' p p' o o' := by
  obtain ⟨h, h'⟩ := h
  refine ⟨{ h with entries := ?_, opened := ?_ }, { h' with pending := ?_ }⟩
  · intro j r hj
    simp only [View.drop] at hj
    split at hj
    · cases hj
    · exact h.entries j r hj
  · intro r hr ho
    simp only [View.drop]
    have hne : k ≠ v.id r := by
      intro e
      exact Bool.false_ne_true ((hk r hr e.symm).symm.trans ho)
    rw [if_neg hne]
    exact h.opened r hr ho
  · intro q hq r hc
    obtain ⟨h1, h2, h3, h4⟩ := h'.pending q hq r hc
    refine ⟨h1, h2, ?_, h4⟩
    simp only [View.drop]
    split
    · rfl
    · exact h3

/-! ## What it does with the oldest record under way -/

theorem pair_pop {q : Suspended} (h : Pair v v' (q :: p) p' o o')
    (hq : ∀ r, q.caller ≠ .openSubchannel r) : Pair v v' p p' o o' := by
  obtain ⟨h, h'⟩ := h
  have hmem : ∀ q1 ∈ p, q1 ∈ q :: p := fun q1 h1 => List.mem_cons_of_mem q h1
  constructor
  · refine { h with fits := ?_, pending := ?_, order := ?_, known := ?_, closing := ?_ }
    · exact fun q1 h1 => h.fits q1 (hmem q1 h1)
    · exact fun q1 h1 => h.pending q1 (hmem q1 h1)
    · exact (List.pairwise_cons.mp h.order).2
    · intro r hr
      rcases h.known r hr with ho | ⟨q1, hq1, hc⟩ | ho
      · exact .inl ho
      · rcases List.mem_cons.mp hq1 with heq | hq1
        · rw [heq] at hc
          exact absurd hc (hq r)
        · exact .inr (.inl ⟨q1, hq1, hc⟩)
      · exact .inr (.inr ho)
    · exact fun q1 h1 => h.closing q1 (hmem q1 h1)
  · refine { h' with pending := ?_ }
    intro q1 hq1 r hc
    obtain ⟨h1, h2, h3, h4⟩ := h'.pending q1 hq1 r hc
    exact ⟨h1, h2, h3, fun q2 hq2 => h4 q2 (hmem q2 hq2)⟩

/-- The origins once `a` was created by the OPEN of `r`. -/
def created (o : Ref → Option Ref) (a r : Ref) : Ref → Option Ref :=
  fun b => if b = a then some r else o b

/-- The other side creates the subchannel of an OPEN record. -/
theorem pair_accept {q : Suspended} {r : Ref} (h : Pair v v' (q :: p) p' o o')
    (hc : q.caller = .openSubchannel r) :
    Pair v (v'.install q.id) p p' o (created o' v'.next r) := by
  obtain ⟨h, h'⟩ := h
  have hmem : ∀ q1 ∈ p, q1 ∈ q :: p := fun q1 h1 => List.mem_cons_of_mem q h1
  have hq := List.mem_cons_self (a := q) (l := p)
  obtain ⟨hor, hno, hmap, hids⟩ := h.pending q hq r hc
  have hfit := h.fits q hq
  unfold Fits at hfit
  rw [hc] at hfit
  obtain ⟨hopen, hr, hidr⟩ := hfit
  have hid : ∀ a, a < v'.next → (v'.install q.id).id a = v'.id a :=
    fun a ha => if_neg (Nat.ne_of_lt ha)
  have hold : ∀ a, a < v'.next → created o' v'.next r a = o' a :=
    fun a ha => if_neg (Nat.ne_of_lt ha)
  have hhead := (List.pairwise_cons.mp h.order).1
  constructor
  · refine ⟨h.entries, h.opened, h.small, fun q1 h1 => h.fits q1 (hmem q1 h1), ?_, h.inj, ?_,
      (List.pairwise_cons.mp h.order).2, ?_, fun q1 h1 => h.closing q1 (hmem q1 h1)⟩
    · intro a b hab
      obtain ⟨h1, h2, h3, h4⟩ := h.origins a b hab
      exact ⟨h1, Nat.lt_succ_of_lt h2, h3.trans (hid b h2).symm, (hold b h2).trans h4⟩
    · intro q1 hq1 r1 hc1
      obtain ⟨h1, h2, h3, h4⟩ := h.pending q1 (hmem q1 hq1) r1 hc1
      have hfit1 := h.fits q1 (hmem q1 hq1)
      unfold Fits at hfit1
      rw [hc1] at hfit1
      obtain ⟨hopen1, -, hidr1⟩ := hfit1
      have hne := hhead q1 hq1 hopen1
      refine ⟨h1, ?_, ?_, h4⟩
      · intro a ha
        unfold created at ha
        split at ha
        · cases ha
          exact hne (hidr.symm.trans hidr1)
        · exact h2 a ha
      · simp only [View.install]
        rw [if_neg hne, h3]
    · intro a ha
      rcases h.known a ha with ho | ⟨q1, hq1, hc1⟩ | ⟨b, hb⟩
      · exact .inl ho
      · rcases List.mem_cons.mp hq1 with heq | hq1
        · rw [heq, hc] at hc1
          cases hc1
          exact .inr (.inr ⟨v'.next, if_pos rfl⟩)
        · exact .inr (.inl ⟨q1, hq1, hc1⟩)
      · exact .inr (.inr ⟨b, (hold b (h'.origins b a hb).1).trans hb⟩)
  · refine ⟨entries_install h'.entries, opened_install hmap h'.opened,
      small_install (hidr ▸ h.small r hr) h'.small,
      fun q1 h1 => fits_install q.id (h'.fits q1 h1), ?_, ?_, ?_, h'.order, ?_,
      closing_install hids h'.closing⟩
    · intro a b hab
      unfold created at hab
      split at hab
      · rename_i heq
        cases hab
        exact ⟨heq ▸ Nat.lt_succ_self _, hr, by rw [heq, hidr]; exact if_pos rfl, hor⟩
      · obtain ⟨h1, h2, h3, h4⟩ := h'.origins a b hab
        exact ⟨Nat.lt_succ_of_lt h1, h2, (hid a h1).trans h3, h4⟩
    · intro a1 a2 b h1 h2
      unfold created at h1 h2
      split at h1
      · rename_i e1
        cases h1
        split at h2
        · rename_i e2
          rw [e1, e2]
        · exact absurd h2 (hno a2)
      · split at h2
        · cases h2
          exact absurd h1 (hno a1)
        · exact h'.inj a1 a2 b h1 h2
    · intro q1 hq1 r1 hc1
      obtain ⟨h1, h2, h3, h4⟩ := h'.pending q1 hq1 r1 hc1
      have hfit1 := h'.fits q1 hq1
      unfold Fits at hfit1
      rw [hc1] at hfit1
      exact ⟨(hold r1 hfit1.2.1).trans h1, h2, h3, fun q2 hq2 => h4 q2 (hmem q2 hq2)⟩
    · intro a ha
      by_cases heq : a = v'.next
      · exact .inl ⟨r, by rw [heq]; exact if_pos rfl⟩
      · have ha' : a < v'.next := lt_of_lt_install ha heq
        rcases h'.known a ha' with ⟨b, hb⟩ | hp | ho
        · exact .inl ⟨b, (hold a ha').trans hb⟩
        · exact .inr (.inl hp)
        · exact .inr (.inr ho)

/-! ## Routing -/

/-- `r` here and `r'` there are the two ends of one subchannel. -/
def Linked (o o' : Ref → Option Ref) (r r' : Ref) : Prop := o r = some r' ∨ o' r' = some r

/-- The record at the head, when it is not an OPEN, belongs to exactly one
subchannel of the other side, with the same id. -/
theorem Table.linked {q : Suspended} {r : Ref} (h : Table v v' (q :: p) p' o o')
    (h' : Table v' v p' (q :: p) o' o) (hq : Own v q r) :
    ∃ r', Linked o o' r r' ∧ r' < v'.next ∧ v'.id r' = q.id ∧ ∀ a, Linked o o' r a → a = r' := by
  obtain ⟨-, hr, hid⟩ := own_of_caller hq.2.2 hq.2.1
  rcases h.known r hr with ⟨r', hor⟩ | ⟨q1, hq1, hc1⟩ | ⟨r', hor⟩
  · obtain ⟨-, h2, h3, h4⟩ := h.origins r r' hor
    refine ⟨r', .inl hor, h2, h3.symm.trans hid, ?_⟩
    intro a ha
    rcases ha with ha | ha
    · exact Option.some.inj (ha.symm.trans hor)
    · rw [(h'.origins a r ha).2.2.2] at hor
      cases hor
  · exfalso
    rcases List.mem_cons.mp hq1 with heq | hq1'
    · rw [heq] at hc1
      exact not_openSubchannel hq hc1
    · have hfit1 := h.fits q1 hq1
      unfold Fits at hfit1
      rw [hc1] at hfit1
      exact (List.pairwise_cons.mp h.order).1 q1 hq1' hfit1.1 (hid.symm.trans hfit1.2.2)
  · obtain ⟨h1, -, h3, h4⟩ := h'.origins r' r hor
    refine ⟨r', .inr hor, h1, h3.trans hid, ?_⟩
    intro a ha
    rcases ha with ha | ha
    · rw [h4] at ha
      cases ha
    · exact h'.inj a r' r ha hor

end

end Wormhole.L5.SubchannelTable
