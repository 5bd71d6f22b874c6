import Mathlib.Computability.RegularExpressions

/-!
# Regular expressions of programs

Character classes and repetition over `RegularExpression`, with the texts that they match:
a class matches one of its characters (`mem_oneOf`), a class with `+` the texts that are
not empty and made of its characters (`mem_many1_oneOf`), and a repeated group the texts
that can be cut into pieces which it matches (`flatten_mem_star`).
-/
namespace Wormhole.Regex
open RegularExpression

variable {α : Type*}

/-- `[abc]`. -/
def oneOf (cs : List α) : RegularExpression α := cs.foldr (fun c r => char c + r) 0

/-- `r+`. -/
def many1 (r : RegularExpression α) : RegularExpression α := r * star r

@[simp] theorem mem_oneOf {cs w : List α} : w ∈ (oneOf cs).matches' ↔ ∃ c ∈ cs, w = [c] := by
  induction cs with
  | nil =>
    rw [oneOf, List.foldr_nil, matches'_zero]
    simp only [Language.notMem_zero, List.not_mem_nil, false_and, exists_false]
  | cons c cs ih =>
    rw [oneOf, List.foldr_cons, ← oneOf, matches'_add, Language.mem_add, matches'_char, ih]
    simp only [List.mem_cons, exists_eq_or_imp]
    exact Iff.rfl

theorem flatten_mem_star {r : RegularExpression α} {pieces : List (List α)}
    (h : ∀ w ∈ pieces, w ∈ r.matches') : pieces.flatten ∈ (star r).matches' := by
  rw [matches'_star]
  exact Language.join_mem_kstar h

@[simp] theorem mem_star_oneOf {cs w : List α} :
    w ∈ (star (oneOf cs)).matches' ↔ ∀ c ∈ w, c ∈ cs := by
  rw [matches'_star, Language.mem_kstar]
  constructor
  · rintro ⟨pieces, rfl, h⟩ c hc
    obtain ⟨piece, hpiece, hc⟩ := List.mem_flatten.mp hc
    obtain ⟨d, hd, rfl⟩ := mem_oneOf.mp (h piece hpiece)
    rw [List.mem_singleton] at hc
    exact hc ▸ hd
  · intro h
    refine ⟨w.map fun c => [c], (List.flatMap_singleton' w).symm, ?_⟩
    intro piece hpiece
    obtain ⟨c, hc, rfl⟩ := List.mem_map.mp hpiece
    exact mem_oneOf.mpr ⟨c, h c hc, rfl⟩

theorem mem_many1_oneOf {cs w : List α} :
    w ∈ (many1 (oneOf cs)).matches' ↔ w ≠ [] ∧ ∀ c ∈ w, c ∈ cs := by
  rw [many1, matches'_mul, Language.mem_mul]
  constructor
  · rintro ⟨u, hu, v, hv, rfl⟩
    obtain ⟨c, hc, rfl⟩ := mem_oneOf.mp hu
    exact ⟨by simp, List.forall_mem_cons.mpr ⟨hc, mem_star_oneOf.mp hv⟩⟩
  · rintro ⟨hne, h⟩
    obtain ⟨c, w, rfl⟩ := List.exists_cons_of_ne_nil hne
    rw [List.forall_mem_cons] at h
    exact ⟨[c], mem_oneOf.mpr ⟨c, h.1, rfl⟩, w, mem_star_oneOf.mpr h.2, rfl⟩

theorem mem_char_mul {c : α} {r : RegularExpression α} {w : List α} :
    w ∈ (char c * r).matches' ↔ ∃ v ∈ r.matches', w = c :: v := by
  rw [matches'_mul, matches'_char, Language.mem_mul]
  constructor
  · rintro ⟨u, hu, v, hv, rfl⟩
    rw [show u = [c] from hu]
    exact ⟨v, hv, rfl⟩
  · rintro ⟨v, hv, rfl⟩
    exact ⟨[c], rfl, v, hv, rfl⟩

end Wormhole.Regex
