import Mathlib.Data.Finset.Basic
import Mathlib.Data.Finset.Filter
import Mathlib.Data.Finset.Insert
import Mathlib.Logic.Function.Basic

/-!
# Reference counting by name

A table keeps, for each live entry, the set of names it is counted under. A
holder takes an entry by adding a name and drops it by removing one; the entry
is deleted with its last name. Which holder added a name is not kept.

`Refs` is the missing record: who holds which entry under which name, and which
entries have been taken since they were last created. The table is `Counted`
when every name belongs to somebody who still holds the entry, and a taken entry
that is live has a name. Taking and creating entries keep it so; dropping does
when it leaves none of the holder's own names (`Counted.drop`). Then nothing
that was taken is left once nobody holds anything (`Counted.none_of_released`).
-/
namespace Wormhole.RefCount

variable {ι κ σ : Type*}

structure Refs (ι κ σ : Type*) where
  held : Finset (ι × κ × σ)
  used : Finset κ

structure Counted (names : κ → Option (Finset σ)) (r : Refs ι κ σ) : Prop where
  held : ∀ k ns, names k = some ns → ∀ a ∈ ns, ∃ i, (i, k, a) ∈ r.held
  used : ∀ k ∈ r.used, ∀ ns, names k = some ns → ns.Nonempty

namespace Refs

def init : Refs ι κ σ := ⟨∅, ∅⟩

/-- The entries `made` are made anew, without names. -/
def create (r : Refs ι κ σ) (made : κ → Bool) : Refs ι κ σ :=
  { r with used := r.used.filter fun k => made k = false }

/-- `i` drops `k`. -/
def drop [DecidableEq ι] [DecidableEq κ] (r : Refs ι κ σ) (i : ι) (k : κ) : Refs ι κ σ :=
  { r with held := r.held.filter fun h => ¬ (h.1 = i ∧ h.2.1 = k) }

/-- `i` takes `k` under the name `a`. -/
def take [DecidableEq ι] [DecidableEq κ] [DecidableEq σ] (r : Refs ι κ σ) (i : ι) (k : κ) (a : σ) :
    Refs ι κ σ :=
  ⟨insert (i, k, a) r.held, insert k r.used⟩

end Refs

namespace Counted

variable {names names' : κ → Option (Finset σ)} {r : Refs ι κ σ} {i : ι} {k : κ} {a : σ}
  {ns ns' : Finset σ}

theorem init (h : ∀ k, names k = none) : Counted names (Refs.init : Refs ι κ σ) where
  held := fun k ns hk => by rw [h k] at hk; cases hk
  used := fun k hk => absurd hk (Finset.notMem_empty k)

/-- Nobody holds anything, so nothing that was taken is left. -/
theorem none_of_released (h : Counted names r) (hr : r.held = ∅) (hk : k ∈ r.used) :
    names k = none := by
  cases hns : names k with
  | none => rfl
  | some ns =>
    obtain ⟨a, ha⟩ := h.used k hk ns hns
    obtain ⟨i, hi⟩ := h.held k ns hns a ha
    rw [hr] at hi
    exact absurd hi (Finset.notMem_empty _)

/-- New entries, or entries that replace live ones. -/
theorem create {made : κ → Bool} (h : Counted names r)
    (hnames : ∀ k, names' k = if made k then some ∅ else names k) :
    Counted names' (r.create made) where
  held := by
    intro j ns hns a ha
    rw [hnames] at hns
    split at hns
    · cases hns; exact absurd ha (Finset.notMem_empty a)
    · exact h.held j ns hns a ha
  used := by
    intro j hj ns hns
    obtain ⟨hj, hmade⟩ := Finset.mem_filter.mp hj
    rw [hnames, hmade] at hns
    exact h.used j hj ns hns

variable [DecidableEq κ] [DecidableEq ι]

/-- Dropping an entry that is not there. -/
theorem drop_absent (h : Counted names r) (hk : names k = none) : Counted names (r.drop i k) where
  held := by
    intro j ns hns b hb
    obtain ⟨i', hi'⟩ := h.held j ns hns b hb
    refine ⟨i', Finset.mem_filter.mpr ⟨hi', ?_⟩⟩
    rintro ⟨-, hj⟩
    have hj : j = k := hj
    rw [hj, hk] at hns
    cases hns
  used := h.used

variable [DecidableEq σ]

/-- Dropping keeps the count when no name that is left is the holder's own. -/
theorem drop (h : Counted names r) (hns : names k = some ns) (hsub : ns' ⊆ ns)
    (hown : ∀ a ∈ ns', (i, k, a) ∉ r.held) :
    Counted (Function.update names k (if ns' = ∅ then none else some ns')) (r.drop i k) where
  held := by
    intro j ms hms b hb
    by_cases hj : j = k
    · subst hj
      rw [Function.update_self] at hms
      split at hms
      · cases hms
      · cases hms
        obtain ⟨i', hi'⟩ := h.held j ns hns b (hsub hb)
        refine ⟨i', Finset.mem_filter.mpr ⟨hi', ?_⟩⟩
        rintro ⟨rfl, -⟩
        exact hown b hb hi'
    · rw [Function.update_of_ne hj] at hms
      obtain ⟨i', hi'⟩ := h.held j ms hms b hb
      exact ⟨i', Finset.mem_filter.mpr ⟨hi', fun hk => hj hk.2⟩⟩
  used := by
    intro j hj ms hms
    by_cases hjk : j = k
    · subst hjk
      rw [Function.update_self] at hms
      split at hms
      · cases hms
      · rename_i hne
        cases hms
        exact Finset.nonempty_iff_ne_empty.mpr hne
    · rw [Function.update_of_ne hjk] at hms
      exact h.used j hj ms hms

theorem take (h : Counted names r) (i : ι) (k : κ) (a : σ) :
    Counted (Function.update names k (some (insert a ((names k).getD ∅)))) (r.take i k a) where
  held := by
    intro j ns hns b hb
    by_cases hj : j = k
    · subst hj
      rw [Function.update_self] at hns
      cases hns
      rcases Finset.mem_insert.mp hb with rfl | hb
      · exact ⟨i, Finset.mem_insert_self _ _⟩
      · cases hk : names j with
        | none => rw [hk] at hb; exact absurd hb (Finset.notMem_empty b)
        | some ns =>
          rw [hk] at hb
          obtain ⟨i', hi'⟩ := h.held j ns hk b hb
          exact ⟨i', Finset.mem_insert_of_mem hi'⟩
    · rw [Function.update_of_ne hj] at hns
      obtain ⟨i', hi'⟩ := h.held j ns hns b hb
      exact ⟨i', Finset.mem_insert_of_mem hi'⟩
  used := by
    intro j hj ns hns
    by_cases hjk : j = k
    · subst hjk
      rw [Function.update_self] at hns
      cases hns
      exact ⟨a, Finset.mem_insert_self _ _⟩
    · rw [Function.update_of_ne hjk] at hns
      exact h.used j ((Finset.mem_insert.mp hj).resolve_left hjk) ns hns

end Counted
end Wormhole.RefCount
