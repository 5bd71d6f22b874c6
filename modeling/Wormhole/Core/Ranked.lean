import Mathlib.Data.List.MinMax
import Mathlib.Data.List.Sort

/-!
# The first match in rank order

A list is sorted by falling rank, those of one rank staying in the order they came,
and searched from the front. What the search finds is said without the sort: of the
elements that match, the one of highest rank, the earliest among equals
(`find?_byRank`).
-/
namespace Wormhole.Ranked

universe u v w

variable {α : Type u} {γ : Type w} {β : Type v} [LinearOrder β] {f : α → β} {p : α → Bool}

/-- By falling rank, stable. -/
def byRank (f : α → β) (l : List α) : List α := l.insertionSort fun a b => f b ≤ f a

/-- The earliest match of highest rank. -/
def best (f : α → β) (p : α → Bool) (l : List α) : Option α := (l.filter p).argmax f

theorem byRank_sorted (l : List α) : (byRank f l).Pairwise fun a b => f b ≤ f a := by
  have htotal : Std.Total fun a b : α => f b ≤ f a := ⟨fun a b => le_total (f b) (f a)⟩
  have htrans : IsTrans α fun a b => f b ≤ f a := ⟨fun _ _ _ hab hbc => hbc.trans hab⟩
  exact List.pairwise_insertionSort _ l

/-- Nothing that is found in a sorted list ranks above its head. -/
theorem le_of_find? {a b : α} {l : List α} (hs : (a :: l).Pairwise fun a b => f b ≤ f a)
    (hb : (a :: l).find? p = some b) : f b ≤ f a := by
  rcases List.mem_cons.mp (List.mem_of_find?_eq_some hb) with rfl | hmem
  · exact le_refl _
  · exact List.rel_of_pairwise_cons hs hmem

theorem find?_orderedInsert (a : α) :
    ∀ {l : List α}, l.Pairwise (fun a b => f b ≤ f a) →
      (l.orderedInsert (fun a b => f b ≤ f a) a).find? p =
        if p a then
          match l.find? p with
          | none => some a
          | some b => if f a < f b then some b else some a
        else l.find? p
  | [], _ => by by_cases hp : p a <;> simp [hp]
  | b :: l, hs => by
    rw [List.orderedInsert_cons]
    by_cases hab : f b ≤ f a
    · rw [if_pos hab, List.find?_cons]
      by_cases hp : p a
      · simp only [hp, if_true]
        cases hfound : (b :: l).find? p with
        | none => rfl
        | some c =>
          have hca : f c ≤ f a := (le_of_find? hs hfound).trans hab
          simp only [not_lt.mpr hca, if_false]
      · simp [hp]
    · rw [if_neg hab, List.find?_cons, List.find?_cons]
      by_cases hb : p b
      · simp [hb, not_le.mp hab]
      · simp only [hb]
        exact find?_orderedInsert a hs.of_cons

theorem find?_byRank (l : List α) : (byRank f l).find? p = best f p l := by
  induction l with
  | nil => rfl
  | cons a l ih =>
    have hinsert := find?_orderedInsert (p := p) a (byRank_sorted (f := f) l)
    rw [ih] at hinsert
    refine hinsert.trans ?_
    by_cases hp : p a
    · simp only [hp, if_true, best, List.filter_cons, List.argmax_cons]
      cases (l.filter p).argmax f <;> rfl
    · simp [hp, best]

/-- The search through a renaming of the elements. -/
theorem best_map (g : γ → α) (l : List γ) :
    best f p (l.map g) = (best (f ∘ g) (p ∘ g) l).map g := by
  unfold best
  rw [List.filter_map]
  induction l.filter (p ∘ g) with
  | nil => rfl
  | cons a l ih =>
    rw [List.map_cons, List.argmax_cons, List.argmax_cons, ih]
    cases l.argmax (f ∘ g) with
    | none => rfl
    | some b =>
      by_cases hab : f (g a) < f (g b) <;> simp [hab]

end Wormhole.Ranked
