import Mathlib.Algebra.BigOperators.Group.Finset.Basic
import Mathlib.Algebra.Order.BigOperators.Group.Finset
import Mathlib.Data.Set.Finite.Basic

/-!
# Searching outwards

A search over a graph that is found out as it goes. What comes to the front of the queue is asked,
unless it was asked before, and the neighbours it names go to the end. Where the search is stopped
early, this is the state it is stopped in.

* `sound`: nothing is asked twice, and nothing that cannot be reached.
* `Sound.reached_mem`: a search that came to its end has asked all that can be reached.
* `nearer_first`: nothing is asked before something that is fewer hops away.
* `ends`: the search comes to its end where finitely many can be reached.
-/
namespace Wormhole

universe u
variable {α : Type u} {next : α → List α} {seeds : List α}

structure Frontier (α : Type u) where
  asked : List α
  todo : List α

namespace Frontier

def start (seeds : List α) : Frontier α := ⟨[], seeds⟩

/-- At most `n` hops from where the search began. -/
inductive Within (next : α → List α) (seeds : List α) : Nat → α → Prop
  | seed {n : Nat} {a : α} (h : a ∈ seeds) : Within next seeds n a
  | hop {n : Nat} {a b : α} (h : Within next seeds n a) (hb : b ∈ next a) :
      Within next seeds (n + 1) b

def Reached (next : α → List α) (seeds : List α) (a : α) : Prop := ∃ n, Within next seeds n a

theorem Within.mono {n m : Nat} {a : α} (h : Within next seeds n a) (hnm : n ≤ m) :
    Within next seeds m a := by
  induction h generalizing m with
  | seed h => exact .seed h
  | hop _ hb ih =>
    cases m with
    | zero => omega
    | succ m => exact .hop (ih (by omega)) hb

theorem Reached.hop {a b : α} (h : Reached next seeds a) (hb : b ∈ next a) :
    Reached next seeds b := by
  obtain ⟨n, h⟩ := h
  exact ⟨n + 1, .hop h hb⟩

/-! ## What is known on the way -/

structure Sound (next : α → List α) (seeds : List α) (f : Frontier α) : Prop where
  nodup : f.asked.Nodup
  reached : ∀ a ∈ f.asked ++ f.todo, Reached next seeds a
  begun : ∀ a ∈ seeds, a ∈ f.asked ++ f.todo
  expanded : ∀ a ∈ f.asked, ∀ b ∈ next a, b ∈ f.asked ++ f.todo

theorem sound_start (next : α → List α) (seeds : List α) : Sound next seeds (start seeds) where
  nodup := List.nodup_nil
  reached a ha := ⟨0, .seed ha⟩
  begun a ha := ha
  expanded a ha := by cases ha

theorem Sound.reached_mem {f : Frontier α} (h : Sound next seeds f) (hend : f.todo = []) {a : α}
    (ha : Reached next seeds a) : a ∈ f.asked := by
  have hall : ∀ b, b ∈ f.asked ++ f.todo → b ∈ f.asked := by
    intro b hb
    rwa [hend, List.append_nil] at hb
  obtain ⟨n, ha⟩ := ha
  induction ha with
  | seed hs => exact hall _ (h.begun _ hs)
  | hop _ hb ih => exact hall _ (h.expanded _ ih _ hb)

/-! ## One turn -/

variable [DecidableEq α]

/-- One turn of the loop. -/
def turn (next : α → List α) (f : Frontier α) : Frontier α :=
  match f.todo with
  | [] => f
  | a :: rest =>
    if a ∈ f.asked then ⟨f.asked, rest⟩
    else ⟨f.asked ++ [a], rest ++ (next a).filter (· ∉ f.asked ++ [a])⟩

def turns (next : α → List α) : Nat → Frontier α → Frontier α
  | 0, f => f
  | n + 1, f => turn next (turns next n f)

/-- What a turn does: nothing, a repetition is dropped, or one is asked. -/
theorem turn_cases (next : α → List α) (f : Frontier α) :
    (f.todo = [] ∧ turn next f = f) ∨
    (∃ a rest, f.todo = a :: rest ∧ a ∈ f.asked ∧ turn next f = ⟨f.asked, rest⟩) ∨
    (∃ a rest, f.todo = a :: rest ∧ a ∉ f.asked ∧
      turn next f = ⟨f.asked ++ [a], rest ++ (next a).filter (· ∉ f.asked ++ [a])⟩) := by
  obtain ⟨asked, todo⟩ := f
  cases todo with
  | nil => exact .inl ⟨rfl, rfl⟩
  | cons a rest =>
    by_cases ha : a ∈ asked
    · exact .inr (.inl ⟨a, rest, rfl, ha, if_pos ha⟩)
    · exact .inr (.inr ⟨a, rest, rfl, ha, if_neg ha⟩)

/-- What every turn keeps holds after any number of them. -/
theorem turns_induction {I : Frontier α → Prop} (h : ∀ f, I f → I (turn next f))
    {f : Frontier α} (h0 : I f) (n : Nat) : I (turns next n f) := by
  induction n with
  | zero => exact h0
  | succ n ih => exact h _ ih

/-! ## What is asked -/

theorem sound_turn {f : Frontier α} (h : Sound next seeds f) : Sound next seeds (turn next f) := by
  obtain ⟨-, he⟩ | ⟨a, rest, ht, ha, he⟩ | ⟨a, rest, ht, ha, he⟩ := turn_cases next f
  · rw [he]
    exact h
  · -- the front is among those asked
    have hsame : ∀ b, b ∈ f.asked ++ f.todo ↔ b ∈ f.asked ++ rest := by
      intro b
      rw [ht]
      simp only [List.mem_append, List.mem_cons]
      constructor
      · intro hb
        obtain hb | rfl | hb := hb
        · exact .inl hb
        · exact .inl ha
        · exact .inr hb
      · intro hb
        exact hb.imp_right .inr
    rw [he]
    exact ⟨h.nodup, fun b hb => h.reached b ((hsame b).mpr hb),
      fun b hb => (hsame b).mp (h.begun b hb),
      fun b hb c hc => (hsame c).mp (h.expanded b hb c hc)⟩
  · -- no one that was known is lost, and the neighbours come in
    have hkept : ∀ b, b ∈ f.asked ++ f.todo →
        b ∈ (f.asked ++ [a]) ++ (rest ++ (next a).filter (· ∉ f.asked ++ [a])) := by
      intro b hb
      rw [ht] at hb
      simp only [List.mem_append, List.mem_cons] at hb ⊢
      tauto
    have hnew : ∀ b ∈ next a,
        b ∈ (f.asked ++ [a]) ++ (rest ++ (next a).filter (· ∉ f.asked ++ [a])) := by
      intro b hb
      by_cases hk : b ∈ f.asked ++ [a]
      · exact List.mem_append_left _ hk
      · refine List.mem_append_right _ (List.mem_append_right _ ?_)
        exact List.mem_filter.mpr ⟨hb, decide_eq_true hk⟩
    have hfront : Reached next seeds a :=
      h.reached a (List.mem_append_right _ (by rw [ht]; exact List.mem_cons_self))
    rw [he]
    constructor
    · rw [List.nodup_append]
      refine ⟨h.nodup, List.nodup_singleton a, fun b hb c hc hbc => ?_⟩
      rw [List.mem_singleton] at hc
      exact ha (by rw [← hc, ← hbc]; exact hb)
    · intro b hb
      simp only [List.mem_append, List.mem_cons, List.not_mem_nil, or_false,
        List.mem_filter] at hb
      obtain (hb | rfl) | hb | ⟨hb, -⟩ := hb
      · exact h.reached b (List.mem_append_left _ hb)
      · exact hfront
      · exact h.reached b (List.mem_append_right _ (by rw [ht]; exact List.mem_cons_of_mem a hb))
      · exact hfront.hop hb
    · intro b hb
      exact hkept b (h.begun b hb)
    · intro b hb c hc
      rcases List.mem_append.mp hb with hb | hb
      · exact hkept c (h.expanded b hb c hc)
      · rw [List.mem_singleton] at hb
        rw [hb] at hc
        exact hnew c hc

theorem sound (next : α → List α) (seeds : List α) (n : Nat) :
    Sound next seeds (turns next n (start seeds)) :=
  turns_induction (fun _ h => sound_turn h) (sound_start next seeds) n

/-! ## In what order -/

/-- Those before `a` are all that are fewer hops away. -/
def Ordered (next : α → List α) (seeds asked : List α) : Prop :=
  ∀ pre a post, asked = pre ++ a :: post → ∀ n, ¬ Within next seeds n a →
    ∀ b, Within next seeds n b → b ∈ pre

/-- The queue is what is left of those at `k` hops, and behind it those one hop further. -/
structure Layered (next : α → List α) (seeds : List α) (k : Nat) (f : Frontier α)
    (front back : List α) : Prop where
  split : f.todo = front ++ back
  near : ∀ a ∈ front, Within next seeds k a
  beyond : ∀ a ∈ back, Within next seeds (k + 1) a
  inner : ∀ m < k, ∀ b, Within next seeds m b → b ∈ f.asked
  outer : ∀ b, Within next seeds k b → b ∈ f.asked ++ front

omit [DecidableEq α] in
/-- When no one is left at `k` hops, those one hop further are at the front. -/
theorem Layered.advance {k : Nat} {f : Frontier α} {back : List α} (hs : Sound next seeds f)
    (h : Layered next seeds k f [] back) : Layered next seeds (k + 1) f back [] where
  split := by rw [h.split, List.append_nil, List.nil_append]
  near := h.beyond
  beyond a ha := by cases ha
  inner m hm b hb := by
    have hb' := h.outer b (hb.mono (by omega))
    rwa [List.append_nil] at hb'
  outer b hb := by
    have hk : ∀ c, Within next seeds k c → c ∈ f.asked := by
      intro c hc
      have hc' := h.outer c hc
      rwa [List.append_nil] at hc'
    have ht : f.todo = back := h.split
    cases hb with
    | seed hb => exact List.mem_append_left _ (hk b (.seed hb))
    | hop ha hb =>
      rw [← ht]
      exact hs.expanded _ (hk _ ha) b hb

/-- A turn that takes one from those at `k` hops. -/
theorem layered_turn {k : Nat} {f : Frontier α} {a : α} {front back : List α}
    (h : Layered next seeds k f (a :: front) back) (ho : Ordered next seeds f.asked) :
    ∃ front back, Layered next seeds k (turn next f) front back ∧
      Ordered next seeds (turn next f).asked := by
  have hnear : Within next seeds k a := h.near a List.mem_cons_self
  obtain ⟨ht, -⟩ | ⟨b, rest, ht, hb, he⟩ | ⟨b, rest, ht, hb, he⟩ := turn_cases next f
  · have hnil := h.split
    rw [ht] at hnil
    cases hnil
  · have hsplit := h.split
    rw [ht, List.cons_append] at hsplit
    obtain ⟨rfl, rfl⟩ := List.cons.inj hsplit
    rw [he]
    refine ⟨front, back, ⟨rfl, fun c hc => h.near c (List.mem_cons_of_mem b hc), h.beyond,
      h.inner, fun c hc => ?_⟩, ho⟩
    have hc' := h.outer c hc
    simp only [List.mem_append, List.mem_cons] at hc' ⊢
    obtain hc' | rfl | hc' := hc'
    · exact .inl hc'
    · exact .inl hb
    · exact .inr hc'
  · have hsplit := h.split
    rw [ht, List.cons_append] at hsplit
    obtain ⟨rfl, rfl⟩ := List.cons.inj hsplit
    rw [he]
    refine ⟨front, back ++ (next b).filter (· ∉ f.asked ++ [b]), ?_, ?_⟩
    · constructor
      · exact List.append_assoc ..
      · exact fun c hc => h.near c (List.mem_cons_of_mem b hc)
      · intro c hc
        rcases List.mem_append.mp hc with hc | hc
        · exact h.beyond c hc
        · exact .hop hnear (List.mem_of_mem_filter hc)
      · exact fun m hm c hc => List.mem_append_left _ (h.inner m hm c hc)
      · intro c hc
        have hc' := h.outer c hc
        simp only [List.mem_append, List.mem_cons, List.not_mem_nil, or_false] at hc' ⊢
        tauto
    · intro pre c post hcut n hn d hd
      rcases List.eq_nil_or_concat post with rfl | ⟨post, e, rfl⟩
      · -- the one just asked: what is nearer than it is further in than `k`
        obtain ⟨hpre, hbc⟩ := List.append_inj' hcut rfl
        obtain rfl := List.singleton_inj.mp hbc
        rw [← hpre]
        refine h.inner n ?_ d hd
        by_contra hle
        exact hn (hnear.mono (by omega))
      · rw [List.concat_eq_append, ← List.cons_append, ← List.append_assoc] at hcut
        exact ho pre c post (List.append_inj' hcut rfl).1 n hn d hd

/-- Nothing is asked before something that is fewer hops away. -/
theorem nearer_first (next : α → List α) (seeds : List α) (n : Nat) :
    Ordered next seeds (turns next n (start seeds)).asked := by
  have hinv : ∀ m, ∃ k front back,
      Layered next seeds k (turns next m (start seeds)) front back ∧
        Ordered next seeds (turns next m (start seeds)).asked := by
    intro m
    induction m with
    | zero =>
      have hempty : Ordered next seeds (start seeds).asked := by
        intro pre a post h
        have hlen := congrArg List.length h
        simp [start] at hlen
      refine ⟨0, seeds, [], ⟨(List.append_nil seeds).symm, fun a ha => .seed ha,
        fun a ha => (by cases ha), fun m hm => (by omega), fun b hb => ?_⟩, hempty⟩
      cases hb with
      | seed hb => exact hb
    | succ m ih =>
      obtain ⟨k, front, back, h, ho⟩ := ih
      have hs := sound next seeds m
      rw [turns]
      cases front with
      | cons a front =>
        obtain ⟨front, back, h, ho⟩ := layered_turn h ho
        exact ⟨k, front, back, h, ho⟩
      | nil =>
        cases back with
        | cons a back =>
          obtain ⟨front, back, h, ho⟩ := layered_turn (h.advance hs) ho
          exact ⟨k + 1, front, back, h, ho⟩
        | nil =>
          have hstay : turn next (turns next m (start seeds)) = turns next m (start seeds) := by
            rw [turn, h.split]
            rfl
          rw [hstay]
          exact ⟨k, [], [], h, ho⟩
  obtain ⟨_, _, _, _, ho⟩ := hinv n
  exact ho

/-! ## That it ends -/

/-- What is queued, and what those not asked yet could add to it. -/
def potential (next : α → List α) (U : Finset α) (f : Frontier α) : Nat :=
  f.todo.length + ∑ a ∈ U.filter (· ∉ f.asked), (next a).length

theorem potential_turn (next : α → List α) {U : Finset α} {f : Frontier α}
    (hU : ∀ a ∈ f.todo, a ∈ U) (hne : f.todo ≠ []) :
    potential next U (turn next f) + 1 ≤ potential next U f := by
  obtain ⟨ht, -⟩ | ⟨a, rest, ht, ha, he⟩ | ⟨a, rest, ht, ha, he⟩ := turn_cases next f
  · exact absurd ht hne
  · rw [he, potential, potential, ht, List.length_cons]
    dsimp only
    omega
  · have hin : a ∈ U.filter (· ∉ f.asked) :=
      Finset.mem_filter.mpr ⟨hU a (by rw [ht]; exact List.mem_cons_self), ha⟩
    have hrest : U.filter (· ∉ f.asked ++ [a]) = (U.filter (· ∉ f.asked)).erase a := by
      ext b
      simp only [Finset.mem_filter, Finset.mem_erase, List.mem_append, List.mem_singleton]
      tauto
    have hsum := Finset.add_sum_erase _ (fun b => (next b).length) hin
    have hlen := List.length_filter_le (fun b => decide (b ∉ f.asked ++ [a])) (next a)
    rw [he, potential, potential, ht, List.length_cons, List.length_append]
    dsimp only at hsum ⊢
    rw [hrest]
    omega

/-- The search comes to its end where finitely many can be reached. -/
theorem ends (next : α → List α) (seeds : List α) (hfin : {a | Reached next seeds a}.Finite) :
    ∃ n, (turns next n (start seeds)).todo = [] := by
  have hU : ∀ n, ∀ a ∈ (turns next n (start seeds)).todo, a ∈ hfin.toFinset := by
    intro n a ha
    rw [Set.Finite.mem_toFinset]
    exact (sound next seeds n).reached a (List.mem_append_right _ ha)
  by_contra hnever
  push Not at hnever
  have hfall : ∀ n, potential next hfin.toFinset (turns next n (start seeds)) + n ≤
      potential next hfin.toFinset (start seeds) := by
    intro n
    induction n with
    | zero => exact Nat.le_refl _
    | succ n ih =>
      have hstep := potential_turn next (hU n) (hnever n)
      rw [turns]
      omega
  have hlast := hfall (potential next hfin.toFinset (start seeds) + 1)
  omega

end Frontier
end Wormhole
