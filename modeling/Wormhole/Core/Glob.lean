import Mathlib.Computability.Language

/-!
# Patterns with stars

A pattern is a list of pieces, each a character that stands for itself or a star that
stands for any text; what it matches is the product of the languages of its pieces.

`allStars` reads every star of a text as a star, `edgeStars` only the one at its front or,
when there is none, the one at its end. The second reading is a test of a suffix, of a
prefix or of equality (`mem_edgeStars`), and the two are one where no other star stands
(`edgeStars_eq_allStars`).
-/
namespace Wormhole.Glob

variable {α : Type*}

inductive Piece (α : Type*) where
  | any
  | lit (a : α)
deriving DecidableEq

def Piece.language : Piece α → Language α
  | .any => (⊤ : Set (List α))
  | .lit a => ({[a]} : Set (List α))

/-- The texts that a pattern matches. -/
def language (g : List (Piece α)) : Language α := (g.map Piece.language).prod

theorem mem_nil {v : List α} : v ∈ language ([] : List (Piece α)) ↔ v = [] :=
  Language.mem_one v

theorem mem_lit {a : α} {g : List (Piece α)} {v : List α} :
    v ∈ language (.lit a :: g) ↔ ∃ w ∈ language g, a :: w = v := by
  have hcons : language (.lit a :: g) = (Piece.lit a).language * language g := rfl
  rw [hcons, Language.mem_mul]
  constructor
  · rintro ⟨u, rfl, w, hw, rfl⟩
    exact ⟨w, hw, rfl⟩
  · rintro ⟨w, hw, rfl⟩
    exact ⟨[a], rfl, w, hw, rfl⟩

theorem mem_any {g : List (Piece α)} {v : List α} :
    v ∈ language (.any :: g) ↔ ∃ w ∈ language g, w <:+ v := by
  have hcons : language (.any :: g) = (Piece.any (α := α)).language * language g := rfl
  rw [hcons, Language.mem_mul]
  constructor
  · rintro ⟨u, _, w, hw, rfl⟩
    exact ⟨w, hw, u, rfl⟩
  · rintro ⟨w, hw, u, rfl⟩
    exact ⟨u, trivial, w, hw, rfl⟩

/-- Characters that stand for themselves, then the rest of the pattern. -/
theorem mem_lits_append (w : List α) {g : List (Piece α)} {v : List α} :
    v ∈ language (w.map .lit ++ g) ↔ ∃ u ∈ language g, w ++ u = v := by
  induction w generalizing v with
  | nil => simp
  | cons a w ih =>
    simp only [List.map_cons, List.cons_append, mem_lit, ih]
    constructor
    · rintro ⟨_, ⟨u, hu, rfl⟩, rfl⟩
      exact ⟨u, hu, rfl⟩
    · rintro ⟨u, hu, rfl⟩
      exact ⟨w ++ u, ⟨u, hu, rfl⟩, rfl⟩

theorem mem_lits (w : List α) {v : List α} : v ∈ language (w.map .lit) ↔ v = w := by
  have happ := mem_lits_append (g := []) w (v := v)
  rw [List.append_nil] at happ
  rw [happ]
  simp [mem_nil, eq_comm]

/-! ## Where the stars are -/

variable [DecidableEq α] (star : α)

/-- Every star is one. -/
def allStars (p : List α) : List (Piece α) := p.map fun a => if a = star then .any else .lit a

/-- The star in front is one, else the one at the end; any other stands for itself. -/
def edgeStars (p : List α) : List (Piece α) :=
  if p.head? = some star then .any :: p.tail.map .lit
  else if p.getLast? = some star then p.dropLast.map .lit ++ [.any]
  else p.map .lit

theorem mem_edgeStars {p v : List α} :
    v ∈ language (edgeStars star p) ↔
      if p.head? = some star then p.tail <:+ v
      else if p.getLast? = some star then p.dropLast <+: v
      else v = p := by
  unfold edgeStars
  by_cases hfront : p.head? = some star
  · simp only [hfront, if_true, mem_any, mem_lits]
    exact ⟨fun ⟨w, hw, hv⟩ => hw ▸ hv, fun hv => ⟨p.tail, rfl, hv⟩⟩
  · by_cases hback : p.getLast? = some star
    · simp only [hfront, hback, if_false, if_true, mem_lits_append]
      constructor
      · rintro ⟨u, _, rfl⟩
        exact List.prefix_append _ u
      · rintro ⟨u, rfl⟩
        exact ⟨u, mem_any.mpr ⟨[], mem_nil.mpr rfl, List.nil_suffix⟩, rfl⟩
    · simp [hfront, hback, mem_lits]

/-- At most one star, and that at an end. -/
def OneStar (p : List α) : Prop :=
  ∃ w, star ∉ w ∧ (p = w ∨ p = star :: w ∨ p = w ++ [star])

theorem allStars_eq_lits {p : List α} (h : star ∉ p) : allStars star p = p.map .lit := by
  refine List.map_congr_left fun a ha => if_neg ?_
  rintro rfl
  exact h ha

theorem edgeStars_eq_allStars {p : List α} (h : OneStar star p) :
    edgeStars star p = allStars star p := by
  obtain ⟨w, hw, rfl | rfl | rfl⟩ := h
  · have hfront : p.head? ≠ some star := fun h => hw (List.mem_of_head? h)
    have hback : p.getLast? ≠ some star := fun h => hw (List.mem_of_getLast? h)
    rw [allStars_eq_lits star hw, edgeStars, if_neg hfront, if_neg hback]
  · have hrest : allStars star (star :: w) = .any :: allStars star w := by simp [allStars]
    rw [hrest, allStars_eq_lits star hw]
    simp [edgeStars]
  · have hrest : allStars star (w ++ [star]) = allStars star w ++ [.any] := by simp [allStars]
    rw [hrest, allStars_eq_lits star hw]
    cases w with
    | nil => simp [edgeStars]
    | cons a w =>
      have ha : a ≠ star := fun h => hw (h ▸ List.mem_cons_self)
      have hback : ((a :: w) ++ [star]).getLast? = some star := by
        rw [List.getLast?_append]
        rfl
      rw [edgeStars, if_neg (by simpa using ha), if_pos hback, List.dropLast_concat]

end Wormhole.Glob
