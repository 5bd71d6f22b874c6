import Mathlib.Data.List.Sort

/-!
# The nearest elements of a list

`Nearest d k xs ys`: `ys` are `k` elements of `xs`, all of them when there are
fewer, in order of their distance `d`, and none of those left out is nearer.
Sorting and cutting off gives such a list (`nearest_take_sort`), and there is
one only when no two elements are at the same distance (`Nearest.unique`).
-/
namespace Wormhole

universe u
variable {α : Type u} {d : α → Nat} {k : Nat} {xs ys zs : List α}

structure Nearest (d : α → Nat) (k : Nat) (xs ys : List α) : Prop where
  length : ys.length = min k xs.length
  sorted : ys.Pairwise fun x y => d x ≤ d y
  others : ∃ rest, (ys ++ rest).Perm xs ∧ ∀ y ∈ ys, ∀ x ∈ rest, d y ≤ d x

/-- The elements in order of their distance, those of one distance as they were. -/
def sortBy (d : α → Nat) (xs : List α) : List α := xs.insertionSort fun x y => d x ≤ d y

instance nearer_total : Std.Total fun x y => d x ≤ d y := ⟨fun x y => Nat.le_total (d x) (d y)⟩

instance nearer_trans : IsTrans α fun x y => d x ≤ d y := ⟨fun _ _ _ => Nat.le_trans⟩

theorem sortBy_perm (d : α → Nat) (xs : List α) : (sortBy d xs).Perm xs :=
  List.perm_insertionSort _ xs

theorem sortBy_sorted (d : α → Nat) (xs : List α) :
    (sortBy d xs).Pairwise fun x y => d x ≤ d y :=
  List.pairwise_insertionSort _ xs

theorem nearest_take_sort (d : α → Nat) (k : Nat) (xs : List α) :
    Nearest d k xs ((sortBy d xs).take k) := by
  have hs := sortBy_sorted d xs
  rw [← List.take_append_drop k (sortBy d xs), List.pairwise_append] at hs
  refine ⟨?_, hs.1, (sortBy d xs).drop k, ?_, hs.2.2⟩
  · rw [List.length_take, (sortBy_perm d xs).length_eq]
  · rw [List.take_append_drop]
    exact sortBy_perm d xs

theorem Nearest.mem (h : Nearest d k xs ys) {y : α} (hy : y ∈ ys) : y ∈ xs := by
  obtain ⟨rest, hp, -⟩ := h.others
  exact hp.mem_iff.mp (List.mem_append_left rest hy)

/-- What is left out is not nearer than what is there. -/
theorem Nearest.le_of_notMem (h : Nearest d k xs ys) {x y : α} (hx : x ∈ xs) (hnot : x ∉ ys)
    (hy : y ∈ ys) : d y ≤ d x := by
  obtain ⟨rest, hp, hle⟩ := h.others
  rcases List.mem_append.mp (hp.mem_iff.mpr hx) with hmem | hmem
  · exact absurd hmem hnot
  · exact hle y hy x hmem

/-- Where distances tell elements apart, the nearest ones are the front of the sorted list. -/
theorem Nearest.eq_take_sort (h : Nearest d k xs ys)
    (hinj : ∀ x ∈ xs, ∀ y ∈ xs, d x = d y → x = y) : ys = (sortBy d xs).take k := by
  obtain ⟨rest, hp, hle⟩ := h.others
  have hperm : (ys ++ sortBy d rest).Perm (sortBy d xs) :=
    ((List.Perm.refl ys).append (sortBy_perm d rest)).trans (hp.trans (sortBy_perm d xs).symm)
  have hsorted : (ys ++ sortBy d rest).Pairwise fun x y => d x ≤ d y :=
    List.pairwise_append.mpr ⟨h.sorted, sortBy_sorted d rest,
      fun y hy x hx => hle y hy x ((sortBy_perm d rest).mem_iff.mp hx)⟩
  have heq : ys ++ sortBy d rest = sortBy d xs := by
    refine hperm.eq_of_pairwise (fun x y hx hy hxy hyx => ?_) hsorted (sortBy_sorted d xs)
    have hx' := (hperm.trans (sortBy_perm d xs)).mem_iff.mp hx
    exact hinj x hx' y ((sortBy_perm d xs).mem_iff.mp hy) (Nat.le_antisymm hxy hyx)
  rw [← heq]
  by_cases hk : k ≤ xs.length
  · rw [List.take_left' (by rw [h.length, Nat.min_eq_left hk])]
  · have hlen := hperm.length_eq
    rw [List.length_append, (sortBy_perm d xs).length_eq, h.length] at hlen
    have hnil : sortBy d rest = [] := List.length_eq_zero_iff.mp (by omega)
    rw [hnil, List.append_nil, List.take_of_length_le (by rw [h.length]; omega)]

theorem Nearest.unique (hy : Nearest d k xs ys) (hz : Nearest d k xs zs)
    (hinj : ∀ x ∈ xs, ∀ y ∈ xs, d x = d y → x = y) : ys = zs :=
  (hy.eq_take_sort hinj).trans (hz.eq_take_sort hinj).symm

end Wormhole
