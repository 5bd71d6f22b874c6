import Mathlib.Data.List.Nodup
import Mathlib.Data.List.Perm.Subperm

/-!
# Walking a list that changes

A loop over the positions of a list, whose body may take elements out of the list and append new
ones: `for (const x of xs)` on a JavaScript array. The list is a part `arr` of the state the body
changes.

* `Edits`: what a body may do to the list. No element that was there at the start is put in again.
* `behind_go`: an element that the loop has passed, or that is out, is not visited any more.
* `aligned`: while nothing that was there at the start is taken out, the loop visits it in order.
* `visited_once_iff`: everything that was there at the start is visited exactly once just when
  nothing of it is taken out before the last of it has its turn.
-/
namespace Wormhole.LiveWalk

universe u v

variable {σ : Type u} {α : Type v}

/-! ## Edits -/

/-- What becomes of a list that elements are taken out of, while others than those of `start` are
appended. -/
inductive Edits (start : List α) : List α → List α → Prop
  | refl (l : List α) : Edits start l l
  | erase {l m : List α} (i : Nat) (h : Edits start l m) : Edits start l (m.eraseIdx i)
  | append {l m : List α} (x : α) (hx : x ∉ start) (h : Edits start l m) : Edits start l (m ++ [x])

variable {start l m : List α}

theorem Edits.trans {k : List α} (h : Edits start l m) (h' : Edits start m k) :
    Edits start l k := by
  induction h' with
  | refl => exact h
  | erase i _ ih => exact .erase i ih
  | append x hx _ ih => exact .append x hx ih

/-- An element that is not behind position `i` does not get there. -/
theorem Edits.not_mem_drop (h : Edits start l m) {i : Nat} {x : α} (hx : x ∈ start)
    (hl : x ∉ l.drop i) : x ∉ m.drop i := by
  induction h with
  | refl => exact hl
  | @erase m j _ ih =>
    intro hmem
    exact ih (((List.eraseIdx_sublist m j).drop i).subset hmem)
  | @append m y hy _ ih =>
    intro hmem
    rw [List.drop_append] at hmem
    rcases List.mem_append.mp hmem with hmem | hmem
    · exact ih hmem
    · have hxy : x = y := List.mem_singleton.mp (List.mem_of_mem_drop hmem)
      exact hy (hxy ▸ hx)

/-- What is left of the start, and new elements behind it. -/
structure Remains (start l left more : List α) : Prop where
  split : l = left ++ more
  left : left.Sublist start
  more : ∀ x ∈ more, x ∉ start

theorem remains_start (start : List α) : Remains start start start [] :=
  ⟨(List.append_nil _).symm, List.Sublist.refl _, fun _ h => nomatch h⟩

theorem Edits.remains (h : Edits start l m) {left more : List α}
    (hl : Remains start l left more) : ∃ left' more', Remains start m left' more' := by
  induction h with
  | refl => exact ⟨left, more, hl⟩
  | @erase m i _ ih =>
    obtain ⟨left', more', hsplit, hleft, hmore⟩ := ih
    rcases Nat.lt_or_ge i left'.length with hi | hi
    · refine ⟨left'.eraseIdx i, more', ?_, (List.eraseIdx_sublist _ _).trans hleft, hmore⟩
      rw [hsplit, List.eraseIdx_append_of_lt_length hi]
    · refine ⟨left', more'.eraseIdx (i - left'.length), ?_, hleft, ?_⟩
      · rw [hsplit, List.eraseIdx_append_of_length_le hi]
      · intro x hx
        exact hmore x (List.mem_of_mem_eraseIdx hx)
  | @append m x hx _ ih =>
    obtain ⟨left', more', hsplit, hleft, hmore⟩ := ih
    refine ⟨left', more' ++ [x], ?_, hleft, ?_⟩
    · rw [hsplit, List.append_assoc]
    · intro y hy
      rcases List.mem_append.mp hy with hy | hy
      · exact hmore y hy
      · rw [List.mem_singleton.mp hy]
        exact hx

/-- Nothing of the start is missing: then it stands in front, as it was. -/
theorem Remains.whole {left more : List α} (h : Remains start l left more) (hn : start.Nodup)
    (hall : ∀ x ∈ start, x ∈ l) : left = start := by
  have hsub : start ⊆ left := by
    intro x hx
    have hmem := hall x hx
    rw [h.split] at hmem
    rcases List.mem_append.mp hmem with hmem | hmem
    · exact hmem
    · exact absurd hx (h.more x hmem)
  exact h.left.eq_of_length_le (List.subperm_of_subset hn hsub).length_le

/-! ## The loop -/

/-- What has been visited, in order. -/
structure Walk (σ : Type u) (α : Type v) where
  state : σ
  index : Nat
  visited : List α

section
variable (arr : σ → List α) (body : α → σ → σ)

/-- One turn; `none` is the end of the list. -/
def next (w : Walk σ α) : Option (Walk σ α) :=
  (arr w.state)[w.index]?.map fun x => ⟨body x w.state, w.index + 1, w.visited ++ [x]⟩

/-- The walk after `n` turns, or at its end. -/
def go : Nat → Walk σ α → Walk σ α
  | 0, w => w
  | n + 1, w =>
    match next arr body w with
    | some w' => go n w'
    | none => w

/-- The state when the elements of a list have had their turn, one after the other. -/
def turns (xs : List α) (s : σ) : σ := xs.foldl (fun s x => body x s) s

end

variable {arr : σ → List α} {body : α → σ → σ}

theorem turns_append (xs ys : List α) (s : σ) :
    turns body (xs ++ ys) s = turns body ys (turns body xs s) := List.foldl_append

theorem go_of_end {w : Walk σ α} (h : next arr body w = none) (n : Nat) :
    go arr body n w = w := by
  cases n with
  | zero => rfl
  | succ n => rw [go, h]

theorem go_add (n k : Nat) (w : Walk σ α) :
    go arr body (n + k) w = go arr body k (go arr body n w) := by
  induction n generalizing w with
  | zero => rw [Nat.zero_add, go]
  | succ n ih =>
    rw [Nat.succ_add, go, go]
    cases h : next arr body w with
    | none => exact (go_of_end h k).symm
    | some w' => exact ih w'

/-- The body edits the list, in the states of the loop. -/
structure Lawful (arr : σ → List α) (body : α → σ → σ) (start : List α) (I : σ → Prop) : Prop where
  keeps : ∀ x s, I s → I (body x s)
  edits : ∀ x s, I s → Edits start (arr s) (arr (body x s))

variable {I : σ → Prop}

/-- What is not before the loop is not visited any more. -/
theorem behind_go [DecidableEq α] (hb : Lawful arr body start I) {x : α} (hx : x ∈ start)
    {w : Walk σ α} (hI : I w.state) (hw : x ∉ (arr w.state).drop w.index) (n : Nat) :
    (go arr body n w).visited.count x = w.visited.count x := by
  induction n generalizing w with
  | zero => rfl
  | succ n ih =>
    rw [go]
    cases hn : next arr body w with
    | none => rfl
    | some w' =>
      obtain ⟨y, hy, rfl⟩ := Option.map_eq_some_iff.mp hn
      obtain ⟨hlt, hget⟩ := List.getElem?_eq_some_iff.mp hy
      rw [List.drop_eq_getElem_cons hlt, hget, List.mem_cons, not_or] at hw
      have hbehind := (hb.edits y w.state hI).not_mem_drop hx hw.2
      have hrest := ih (w := ⟨body y w.state, w.index + 1, w.visited ++ [y]⟩)
        (hb.keeps y _ hI) hbehind
      have hne : ¬(y == x) = true := by
        rw [beq_iff_eq]
        exact Ne.symm hw.1
      rw [hrest, List.count_append, List.count_singleton, if_neg hne, Nat.add_zero]

/-- Nothing of the start is missing when the first `n` have had their turn. -/
def Undisturbed (arr : σ → List α) (body : α → σ → σ) (start : List α) (s : σ) (n : Nat) : Prop :=
  ∀ x ∈ start, x ∈ arr (turns body (start.take n) s)

theorem turns_remains (hb : Lawful arr body start I) {s : σ} (hI : I s) (hs : arr s = start)
    (xs : List α) : I (turns body xs s) ∧
      ∃ left more, Remains start (arr (turns body xs s)) left more := by
  have hgo : ∀ (xs : List α) (s : σ), I s → Edits start (arr s) (arr (turns body xs s)) ∧
      I (turns body xs s) := by
    intro xs
    induction xs with
    | nil => exact fun s hI => ⟨.refl _, hI⟩
    | cons x xs ih =>
      intro s hI
      obtain ⟨hedits, hI'⟩ := ih (body x s) (hb.keeps x s hI)
      exact ⟨(hb.edits x s hI).trans hedits, hI'⟩
  obtain ⟨hedits, hI'⟩ := hgo xs s hI
  rw [hs] at hedits
  exact ⟨hI', hedits.remains (remains_start start)⟩

/-- While the start is not disturbed the loop visits it in order. -/
theorem aligned (hb : Lawful arr body start I) (hn : start.Nodup) {s : σ} (hI : I s)
    (hs : arr s = start) {n : Nat} (hle : n ≤ start.length)
    (hu : ∀ i < n, Undisturbed arr body start s i) :
    go arr body n ⟨s, 0, []⟩ = ⟨turns body (start.take n) s, n, start.take n⟩ := by
  induction n with
  | zero => rfl
  | succ n ih =>
    have hlt : n < start.length := hle
    have hbefore := ih (Nat.le_of_lt hlt) fun i hi => hu i (Nat.lt_succ_of_lt hi)
    obtain ⟨left, more, hrem⟩ := (turns_remains hb hI hs (start.take n)).2
    have hwhole := hrem.whole hn (hu n (Nat.lt_succ_self n))
    have hget : (arr (turns body (start.take n) s))[n]? = some start[n] := by
      rw [hrem.split, hwhole, List.getElem?_append_left hlt, List.getElem?_eq_getElem hlt]
    have htake : start.take (n + 1) = start.take n ++ [start[n]] :=
      List.take_succ_eq_append_getElem hlt
    rw [go_add, hbefore, go, next, hget, htake, turns_append]
    rfl

/-- An element is visited exactly once, however long the loop goes on. -/
def VisitedOnce [DecidableEq α] (arr : σ → List α) (body : α → σ → σ) (s : σ) (x : α) : Prop :=
  ∃ n, ∀ k, n ≤ k → (go arr body k ⟨s, 0, []⟩).visited.count x = 1

variable [DecidableEq α]

/-- What the loop has not visited when it has passed the start, it does not visit. -/
theorem visited_of_undisturbed (hb : Lawful arr body start I) (hn : start.Nodup) {s : σ}
    (hI : I s) (hs : arr s = start) (hu : ∀ i < start.length, Undisturbed arr body start s i)
    {x : α} (hx : x ∈ start) : VisitedOnce arr body s x := by
  refine ⟨start.length, fun k hk => ?_⟩
  obtain ⟨k, rfl⟩ := Nat.exists_eq_add_of_le hk
  obtain ⟨hI', left, more, hrem⟩ := turns_remains hb hI hs start
  have hall := aligned hb hn hI hs (Nat.le_refl _) hu
  rw [List.take_length] at hall
  have hbehind : x ∉ (arr (turns body start s)).drop start.length := by
    intro hmem
    rw [hrem.split, List.drop_append, List.drop_eq_nil_of_le hrem.left.length_le,
      List.nil_append] at hmem
    exact hrem.more x (List.mem_of_mem_drop hmem) hx
  rw [go_add, hall, behind_go hb hx (w := ⟨turns body start s, start.length, start⟩) hI' hbehind]
  exact List.count_eq_one_of_mem hn hx

/-- Where something is missing, one of those that have not had their turn has none. -/
theorem undisturbed_of_visited (hb : Lawful arr body start I) (hn : start.Nodup) {s : σ}
    (hI : I s) (hs : arr s = start) (hv : ∀ x ∈ start, VisitedOnce arr body s x) {n : Nat}
    (hlt : n < start.length) (hu : ∀ i < n, Undisturbed arr body start s i) :
    Undisturbed arr body start s n := by
  have hall := aligned hb hn hI hs (Nat.le_of_lt hlt) hu
  obtain ⟨hI', left, more, hrem⟩ := turns_remains hb hI hs (start.take n)
  -- Those that have not had their turn are all before the loop, in what is left of the start.
  have hrest : start.drop n ⊆ left.drop n := by
    intro x hx
    have hmem : x ∈ (arr (turns body (start.take n) s)).drop n := by
      by_contra hbehind
      obtain ⟨k, hk⟩ := hv x (List.mem_of_mem_drop hx)
      have hone := hk (n + k) (Nat.le_add_left k n)
      rw [go_add, hall, behind_go hb (List.mem_of_mem_drop hx)
        (w := ⟨turns body (start.take n) s, n, start.take n⟩) hI' hbehind] at hone
      have htaken : x ∈ start.take n := List.count_pos_iff.mp (hone ▸ Nat.one_pos)
      exact List.disjoint_take_drop hn (Nat.le_refl n) htaken hx
    rw [hrem.split, List.drop_append] at hmem
    rcases List.mem_append.mp hmem with hmem | hmem
    · exact hmem
    · exact absurd (List.mem_of_mem_drop hx) (hrem.more x (List.mem_of_mem_drop hmem))
  have hlen := (List.subperm_of_subset (hn.sublist (List.drop_sublist n start)) hrest).length_le
  rw [List.length_drop, List.length_drop] at hlen
  have hwhole : left = start := hrem.left.eq_of_length_le (by omega)
  intro x hx
  rw [hrem.split, hwhole]
  exact List.mem_append_left more hx

/-- **The loop visits everything exactly once** just when, as its elements have their turn one
after the other, nothing of the start is taken out before the last turn. -/
theorem visited_once_iff (hb : Lawful arr body start I) (hn : start.Nodup) {s : σ} (hI : I s)
    (hs : arr s = start) : (∀ x ∈ start, VisitedOnce arr body s x) ↔
      ∀ n < start.length, Undisturbed arr body start s n := by
  constructor
  · intro hv n
    induction n using Nat.strongRecOn with
    | ind n ih =>
      intro hlt
      exact undisturbed_of_visited hb hn hI hs hv hlt fun i hi => ih i hi (Nat.lt_trans hi hlt)
  · intro hu x hx
    exact visited_of_undisturbed hb hn hI hs hu hx

end Wormhole.LiveWalk
