import Mathlib.Data.List.Basic

/-!
# Handing items over

Items are offered and takers come, in any order, and the `i`-th taker is to have the `i`-th item.
A `Handoff` is what has been offered and how many have come; who waits is read off it.

* `pending_or_waiting`: items wait or takers wait, never both.
* `answers_pending`: an item was taken or waits.
* `answers_offer_of_waiting`, `offer_of_not`: an item goes to the taker who has waited longest, and
  waits where there is none.
* `answers_take`: a taker has the item that has waited longest, if there is one.
-/
namespace Wormhole

universe u

structure Handoff (α : Type u) where
  items : List α
  takers : Nat

namespace Handoff

variable {α : Type u}

def empty : Handoff α := ⟨[], 0⟩

def offer (h : Handoff α) (x : α) : Handoff α := ⟨h.items ++ [x], h.takers⟩

def take (h : Handoff α) : Handoff α := ⟨h.items, h.takers + 1⟩

/-- The items that nobody has taken. -/
def pending (h : Handoff α) : List α := h.items.drop h.takers

/-- The takers that have no item, the first to come first. -/
def waiting (h : Handoff α) : List Nat := (List.range h.takers).drop h.items.length

/-- What each taker has. -/
def answers (h : Handoff α) : List (Option α) := (List.range h.takers).map fun i => h.items[i]?

variable (h : Handoff α)

@[simp] theorem length_answers : h.answers.length = h.takers := by
  simp [answers]

theorem getElem?_answers {i : Nat} (hi : i < h.takers) : h.answers[i]? = some h.items[i]? := by
  unfold answers
  rw [List.getElem?_map, List.getElem?_range hi]
  rfl

theorem answers_pending : h.answers.filterMap id ++ h.pending = h.items := by
  have htake : ∀ n, ((List.range n).map fun i => h.items[i]?).filterMap id = h.items.take n := by
    intro n
    induction n with
    | zero => rfl
    | succ n ih =>
      have hone : ([n].map fun i => h.items[i]?).filterMap id = h.items[n]?.toList := by
        rw [List.map_singleton]
        cases h.items[n]? <;> rfl
      rw [List.range_succ, List.map_append, List.filterMap_append, ih, hone, List.take_add_one]
  unfold answers pending
  rw [htake, List.take_append_drop]

theorem pending_eq_nil : h.pending = [] ↔ h.items.length ≤ h.takers := List.drop_eq_nil_iff

theorem waiting_eq_nil : h.waiting = [] ↔ h.takers ≤ h.items.length := by
  unfold waiting
  rw [List.drop_eq_nil_iff, List.length_range]

theorem pending_or_waiting : h.pending = [] ∨ h.waiting = [] := by
  rw [pending_eq_nil, waiting_eq_nil]
  exact Nat.le_total _ _

theorem waiting_cons {i : Nat} {rest : List Nat} (hw : h.waiting = i :: rest) :
    i = h.items.length ∧ h.items.length < h.takers ∧
      rest = (List.range h.takers).drop (h.items.length + 1) := by
  have hlt : h.items.length < h.takers := by
    rw [← Nat.not_le, ← waiting_eq_nil, hw]
    exact List.cons_ne_nil i rest
  have hrange : h.items.length < (List.range h.takers).length := by rwa [List.length_range]
  unfold waiting at hw
  rw [List.drop_eq_getElem_cons hrange, List.getElem_range] at hw
  obtain ⟨hi, hrest⟩ := List.cons.inj hw
  exact ⟨hi.symm, hlt, hrest.symm⟩

/-! ## An offer -/

theorem waiting_offer_of_waiting {i : Nat} {rest : List Nat} (hw : h.waiting = i :: rest) (x : α) :
    (h.offer x).waiting = rest := by
  obtain ⟨-, -, hrest⟩ := h.waiting_cons hw
  rw [hrest]
  unfold waiting offer
  rw [List.length_append, List.length_singleton]

theorem pending_offer_of_waiting {i : Nat} {rest : List Nat} (hw : h.waiting = i :: rest) (x : α) :
    (h.offer x).pending = h.pending := by
  obtain ⟨-, hlt, -⟩ := h.waiting_cons hw
  have hnil : (h.offer x).pending = [] := by
    rw [pending_eq_nil]
    simpa [offer] using Nat.succ_le_of_lt hlt
  rw [hnil, (h.pending_eq_nil).mpr (Nat.le_of_lt hlt)]

theorem answers_offer_of_waiting {i : Nat} {rest : List Nat} (hw : h.waiting = i :: rest) (x : α) :
    h.answers[i]? = some none ∧ (h.offer x).answers = h.answers.set i (some x) := by
  obtain ⟨rfl, hlt, -⟩ := h.waiting_cons hw
  constructor
  · rw [h.getElem?_answers hlt, List.getElem?_eq_none (Nat.le_refl _)]
  · apply List.ext_getElem?
    intro j
    rcases Nat.lt_or_ge j h.takers with hj | hj
    · rw [(h.offer x).getElem?_answers hj, List.getElem?_set, length_answers, if_pos hlt]
      unfold offer
      split
      · rename_i heq
        rw [← heq, List.getElem?_concat_length]
      · rename_i hne
        rw [h.getElem?_answers hj]
        rcases Nat.lt_or_ge j h.items.length with hlen | hlen
        · rw [List.getElem?_append_left hlen]
        · have hgt : h.items.length + 1 ≤ j := Nat.lt_of_le_of_ne hlen hne
          rw [List.getElem?_eq_none hlen, List.getElem?_eq_none (by simpa using hgt)]
    · rw [List.getElem?_eq_none (by simpa [offer] using hj),
        List.getElem?_eq_none (by simpa using hj)]

theorem offer_of_not (hw : h.waiting = []) (x : α) :
    (h.offer x).waiting = [] ∧ (h.offer x).pending = h.pending ++ [x] ∧
      (h.offer x).answers = h.answers := by
  have hle := h.waiting_eq_nil.mp hw
  refine ⟨?_, List.drop_append_of_le_length hle, ?_⟩
  · rw [waiting_eq_nil]
    simpa [offer] using Nat.le_succ_of_le hle
  · unfold answers offer
    refine List.map_congr_left fun i hi => ?_
    have hlt : i < h.items.length := Nat.lt_of_lt_of_le (List.mem_range.mp hi) hle
    rw [List.getElem?_append_left hlt]

/-! ## A take -/

theorem answers_take : h.take.answers = h.answers ++ [h.pending.head?] := by
  unfold answers take pending
  rw [List.range_succ, List.map_append, List.map_singleton, List.head?_drop]

theorem pending_take : h.take.pending = h.pending.tail := by
  unfold pending take
  rw [List.tail_drop]

theorem waiting_take_of_pending (hp : h.pending ≠ []) : h.take.waiting = h.waiting := by
  have hlt : h.takers < h.items.length := by
    rwa [Ne, pending_eq_nil, Nat.not_le] at hp
  rw [(h.waiting_eq_nil).mpr (Nat.le_of_lt hlt), waiting_eq_nil]
  exact hlt

theorem waiting_take_of_not (hp : h.pending = []) : h.take.waiting = h.waiting ++ [h.takers] := by
  have hle := h.pending_eq_nil.mp hp
  unfold waiting take
  rw [List.range_succ, List.drop_append_of_le_length (by rwa [List.length_range])]

end Handoff
end Wormhole
