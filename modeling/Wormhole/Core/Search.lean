import Mathlib.Data.List.Basic
import Mathlib.Data.Nat.Find

/-!
# Searching for a marker

`List.dropInfix?` cuts a list at the first place a marker stands (`data.find`), into what
is before it and what is behind. `collect` keeps chunks until the marker is in what was
kept, hands that on and starts again with nothing.

* `collected_whole`: where the marker is at the very end and nowhere before, everything is
  handed on, once, for every way of cutting it into chunks.
* `dropInfix?_of_append`: what is handed on first is in any case cut where the whole is.
-/
namespace Wormhole.Search

universe u
variable {α : Type u} [BEq α] [LawfulBEq α]

/-- A property of every element is decided by a run over the list. -/
theorem forall_mem_of_all {β : Type*} {p : β → Prop} [DecidablePred p] {l : List β}
    (h : l.all (fun x => decide (p x)) = true) : ∀ x ∈ l, p x := by
  rw [List.all_eq_true] at h
  intro x hx
  exact of_decide_eq_true (h x hx)

/-! ## The first occurrence -/

theorem dropInfix?_eq_some {l i p s : List α} : l.dropInfix? i = some (p, s) ↔
    l = p ++ i ++ s ∧ ∀ p' s', l = p' ++ i ++ s' → p.length ≤ p'.length := by
  rw [List.dropInfix?_eq_some_iff]
  constructor
  · rintro ⟨⟨i', hl, hi⟩, hmin⟩
    cases eq_of_beq hi
    exact ⟨hl, fun p' s' h => hmin p' _ s' h (beq_self_eq_true _)⟩
  · rintro ⟨hl, hmin⟩
    refine ⟨⟨i, hl, beq_self_eq_true i⟩, fun p' i' s' h hi => ?_⟩
    cases eq_of_beq hi
    exact hmin p' s' h

/-- There is a first one where there is one. -/
theorem exists_dropInfix? {l i : List α} (h : i <:+: l) : ∃ p s, l.dropInfix? i = some (p, s) := by
  have hex : ∃ n p s, l = p ++ i ++ s ∧ p.length = n := by
    obtain ⟨p, s, hl⟩ := h
    exact ⟨p.length, p, s, hl.symm, rfl⟩
  classical
  obtain ⟨p, s, hl, hp⟩ := Nat.find_spec hex
  refine ⟨p, s, dropInfix?_eq_some.mpr ⟨hl, fun p' s' hl' => ?_⟩⟩
  rw [hp]
  exact Nat.find_min' hex ⟨p', s', hl', rfl⟩

theorem isInfix_of_dropInfix? {l i p s : List α} (h : l.dropInfix? i = some (p, s)) :
    i <:+: l := by
  obtain ⟨hl, -⟩ := dropInfix?_eq_some.mp h
  exact ⟨p, s, hl.symm⟩

theorem dropInfix?_eq_none {l i : List α} : l.dropInfix? i = none ↔ ¬ i <:+: l := by
  constructor
  · intro h hi
    obtain ⟨p, s, hs⟩ := exists_dropInfix? hi
    rw [h] at hs
    cases hs
  · intro h
    cases hd : l.dropInfix? i with
    | none => rfl
    | some q => exact absurd (isInfix_of_dropInfix? hd) h

/-- What follows does not change where the first one is. -/
theorem dropInfix?_append {l i p s : List α} (h : l.dropInfix? i = some (p, s)) (m : List α) :
    (l ++ m).dropInfix? i = some (p, s ++ m) := by
  obtain ⟨rfl, hmin⟩ := dropInfix?_eq_some.mp h
  refine dropInfix?_eq_some.mpr ⟨by rw [List.append_assoc _ s m], fun p' s' hl => ?_⟩
  -- one that begins before `p` ends is in the part without `m`
  by_contra hlt
  have hlen : p'.length + i.length ≤ (p ++ i ++ s).length := by
    simp only [List.length_append]
    omega
  have htake := congrArg (List.take (p ++ i ++ s).length) hl
  rw [List.take_left, List.take_append, List.take_of_length_le (by
    rw [List.length_append]
    exact hlen)] at htake
  exact hlt (hmin p' _ htake)

/-- The first one is cut off where it is in what is known to hold one. -/
theorem dropInfix?_of_append {l i m p s : List α} (hi : i <:+: l)
    (h : (l ++ m).dropInfix? i = some (p, s)) : ∃ s', l.dropInfix? i = some (p, s') := by
  obtain ⟨q, s', hq⟩ := exists_dropInfix? hi
  have hm := dropInfix?_append hq m
  rw [h] at hm
  cases hm
  exact ⟨s', hq⟩

/-- A single letter is cut off where it first stands. -/
theorem dropInfix?_singleton {a : α} {p : List α} (h : a ∉ p) (s : List α) :
    (p ++ a :: s).dropInfix? [a] = some (p, s) := by
  refine dropInfix?_eq_some.mpr ⟨by rw [List.append_assoc]; rfl, fun p' s' hl => ?_⟩
  by_contra hlt
  have hget := congrArg (fun l => l[p'.length]?) hl
  simp only [List.append_assoc, List.getElem?_append_left (Nat.lt_of_not_le hlt),
    List.getElem?_append_right (Nat.le_refl _), Nat.sub_self, List.singleton_append,
    List.getElem?_cons_zero] at hget
  exact h (List.mem_of_getElem? hget)

theorem notMem_of_dropInfix?_singleton {a : α} {l p s : List α}
    (h : l.dropInfix? [a] = some (p, s)) : a ∉ p := by
  obtain ⟨hl, hmin⟩ := dropInfix?_eq_some.mp h
  intro ha
  obtain ⟨u, v, rfl⟩ := List.append_of_mem ha
  have hle := hmin u (v ++ [a] ++ s) (by rw [hl]; simp)
  simp only [List.length_append, List.length_cons] at hle
  omega

/-- What has no `c` in it stands before a `c` or behind it. -/
theorem dropInfix?_skip {c : α} {i x : List α} (hc : c ∉ i) (hx : ¬ i <:+: x) (y : List α) :
    (x ++ c :: y).dropInfix? i = (y.dropInfix? i).map fun q => (x ++ c :: q.1, q.2) := by
  -- an occurrence in the whole is one in `y`
  have hplace : ∀ p s, x ++ c :: y = p ++ i ++ s → ∃ r, p = x ++ c :: r ∧ y = r ++ i ++ s := by
    intro p s h
    rw [List.append_assoc] at h
    rcases List.append_eq_append_iff.mp h with ⟨r, hp, hy⟩ | ⟨r, hpx, hr⟩
    · cases r with
      | nil =>
        cases i with
        | nil => exact absurd (List.nil_infix) hx
        | cons a i =>
          cases hy
          exact absurd (List.mem_cons_self ..) hc
      | cons a r =>
        cases hy
        exact ⟨r, hp, (List.append_assoc ..).symm⟩
    · refine absurd ?_ hx
      rcases List.append_eq_append_iff.mp hr with ⟨t, hrt, _⟩ | ⟨t, hit, hy⟩
      · exact ⟨p, t, by rw [hpx, hrt, List.append_assoc]⟩
      · cases t with
        | nil => exact ⟨p, [], by rw [hpx, hit, List.append_nil, List.append_nil]⟩
        | cons a t =>
          cases hy
          exact absurd (by rw [hit]; simp) hc
  cases hy : y.dropInfix? i with
  | none =>
    rw [Option.map_none, dropInfix?_eq_none]
    rintro ⟨p, s, h⟩
    obtain ⟨r, _, hr⟩ := hplace p s h.symm
    exact dropInfix?_eq_none.mp hy ⟨r, s, hr.symm⟩
  | some q =>
    obtain ⟨hq, hmin⟩ := dropInfix?_eq_some.mp hy
    refine dropInfix?_eq_some.mpr ⟨?_, ?_⟩
    · conv_lhs => rw [hq]
      simp
    · intro p s h
      obtain ⟨r, hp, hr⟩ := hplace p s h
      have hle := hmin r s hr
      simp only [hp, List.length_append, List.length_cons]
      omega

theorem infix_append_cons_iff {c : α} {i x y : List α} (hc : c ∉ i) :
    i <:+: x ++ c :: y ↔ i <:+: x ∨ i <:+: y := by
  constructor
  · intro h
    by_cases hx : i <:+: x
    · exact .inl hx
    · obtain ⟨p, s, hd⟩ := exists_dropInfix? h
      rw [dropInfix?_skip hc hx, Option.map_eq_some_iff] at hd
      obtain ⟨q, hq, _⟩ := hd
      exact .inr (isInfix_of_dropInfix? hq)
  · rintro (h | h)
    · exact h.trans (List.prefix_append ..).isInfix
    · exact h.trans ⟨x ++ [c], [], by simp⟩

/-! ## Collecting up to the marker -/

/-- A chunk comes in: the buffer afterwards, and what is handed on. -/
def collect (i buf chunk : List α) : List α × Option (List α) :=
  if ((buf ++ chunk).dropInfix? i).isSome then ([], some (buf ++ chunk)) else (buf ++ chunk, none)

/-- What is handed on for the chunks, one after another. -/
def collected (i : List α) (buf : List α) : List (List α) → List (List α)
  | [] => []
  | chunk :: chunks =>
    match collect i buf chunk with
    | (buf, none) => collected i buf chunks
    | (buf, some l) => l :: collected i buf chunks

theorem collected_cons_found {i buf chunk : List α} (h : i <:+: buf ++ chunk)
    (chunks : List (List α)) :
    collected i buf (chunk :: chunks) = (buf ++ chunk) :: collected i [] chunks := by
  obtain ⟨p, s, hd⟩ := exists_dropInfix? h
  rw [collected, collect, hd]
  rfl

theorem collected_cons {i buf chunk : List α} (h : ¬ i <:+: buf ++ chunk)
    (chunks : List (List α)) :
    collected i buf (chunk :: chunks) = collected i (buf ++ chunk) chunks := by
  rw [collected, collect, dropInfix?_eq_none.mpr h]
  rfl

/-- Nothing is handed on where the marker is nowhere. -/
theorem collected_none {i buf : List α} {chunks : List (List α)}
    (h : ¬ i <:+: buf ++ chunks.flatten) : collected i buf chunks = [] := by
  induction chunks generalizing buf with
  | nil => rfl
  | cons chunk chunks ih =>
    rw [List.flatten_cons, ← List.append_assoc] at h
    have hn : ¬ i <:+: buf ++ chunk :=
      fun hi => h (hi.trans (List.prefix_append _ _).isInfix)
    rw [collected_cons hn]
    exact ih h

/-- What is handed on first holds the marker and begins the whole. -/
theorem collected_first {i buf : List α} {chunks : List (List α)} (hb : ¬ i <:+: buf)
    (h : i <:+: buf ++ chunks.flatten) : ∃ l rest, collected i buf chunks =
      l :: collected i [] rest ∧ i <:+: l ∧ l ++ rest.flatten = buf ++ chunks.flatten := by
  induction chunks generalizing buf with
  | nil =>
    rw [List.flatten_nil, List.append_nil] at h
    exact absurd h hb
  | cons chunk chunks ih =>
    rw [List.flatten_cons, ← List.append_assoc] at h ⊢
    by_cases hi : i <:+: buf ++ chunk
    · exact ⟨buf ++ chunk, chunks, collected_cons_found hi chunks, hi, rfl⟩
    · rw [collected_cons hi]
      exact ih hi h

/-- **Once and whole.** Where the marker is in no beginning but the whole, the whole is
handed on, once, for every way of cutting it into chunks. -/
theorem collected_whole {i l : List α} (hne : i ≠ []) (hi : i <:+: l)
    (hend : ∀ q, q <+: l → i <:+: q → q = l) {chunks : List (List α)}
    (hc : chunks.flatten = l) : collected i [] chunks = [l] := by
  have hnil : ¬ i <:+: [] := fun h => hne (List.infix_nil.mp h)
  have hin : i <:+: [] ++ chunks.flatten := by
    rw [List.nil_append, hc]
    exact hi
  obtain ⟨q, rest, hq, hiq, happ⟩ := collected_first hnil hin
  rw [List.nil_append, hc] at happ
  have heq := hend q ⟨rest.flatten, happ⟩ hiq
  rw [heq] at happ hq
  have hrest : rest.flatten = [] := List.append_cancel_left (happ.trans (List.append_nil l).symm)
  rw [hq, collected_none (by rw [hrest]; exact hnil)]

end Wormhole.Search
