import Mathlib.Algebra.GroupWithZero.Nat
import Mathlib.Algebra.Order.BigOperators.Group.List
import Mathlib.Algebra.Order.Group.Nat
import Mathlib.Data.List.Induction
import Mathlib.Order.Defs.PartialOrder
import Mathlib.Tactic.ByContra

/-!
# Counters that are reset when they are looked at

A counter for the present period of a calendar (a day, a month) that keeps the key of the
period in which it was last reset (the day of the year, the number of the month), and is
reset only by a look that finds another key. Amounts recorded in between are added to
whatever is there.

A log lists the looks and the records in order. `Stretch` cuts what was recorded in two at
the first of the looks that, up to the present one, all found the present key.

* `look_run`: the counter then holds what was recorded since that look.
* `value_eq_total_iff`: this is what was recorded in the present period if and only if
  nothing of the period was recorded before the stretch, and nothing else since.
-/
namespace Wormhole.LazyReset

universe u v w

variable {δ : Type u} {κ : Type v} {π : Type w}

inductive Entry (δ : Type u) where
  | looked (d : δ)
  | recorded (d : δ) (n : Nat)

structure Counter (κ : Type v) where
  value : Nat
  last : κ

variable [DecidableEq κ] [DecidableEq π] (key : δ → κ) (period : δ → π)

def Counter.look (c : Counter κ) (d : δ) : Counter κ :=
  if key d ≠ c.last then ⟨0, key d⟩ else c

def Counter.record (c : Counter κ) (n : Nat) : Counter κ := { c with value := c.value + n }

def Counter.enter (c : Counter κ) : Entry δ → Counter κ
  | .looked d => c.look key d
  | .recorded _ n => c.record n

/-- The counter after the log. -/
def run (start : κ) (log : List (Entry δ)) : Counter κ := log.foldl (Counter.enter key) ⟨0, start⟩

/-- The records of the log. -/
def records : List (Entry δ) → List (δ × Nat)
  | [] => []
  | .looked _ :: log => records log
  | .recorded d n :: log => (d, n) :: records log

def sum (rs : List (δ × Nat)) : Nat := (rs.map Prod.snd).sum

/-- What was recorded in the period of `d`. -/
def total (rs : List (δ × Nat)) (d : δ) : Nat :=
  sum (rs.filter fun r => period r.1 = period d)

/-- What was recorded before the looks began that found the key, and since, if the last look
found it. -/
structure Stretch (δ : Type u) where
  before : List (δ × Nat)
  since : Option (List (δ × Nat))

def Stretch.enter (k : κ) (st : Stretch δ) : Entry δ → Stretch δ
  | .looked d =>
    if key d = k then { st with since := some (st.since.getD []) }
    else ⟨st.before ++ st.since.getD [], none⟩
  | .recorded d n =>
    match st.since with
    | some rs => { st with since := some (rs ++ [(d, n)]) }
    | none => { st with before := st.before ++ [(d, n)] }

/-- The log, cut for a look that finds `k`. -/
def stretch (k : κ) (log : List (Entry δ)) : Stretch δ :=
  log.foldl (Stretch.enter key k) ⟨[], none⟩

/-- Nothing of the period of `d` was recorded before the stretch of looks with its key, and
nothing of another period since. -/
structure Clear (log : List (Entry δ)) (d : δ) : Prop where
  before : ∀ r ∈ (stretch key (key d) log).before, period r.1 = period d → r.2 = 0
  since : ∀ rs, (stretch key (key d) log).since = some rs →
    ∀ r ∈ rs, period r.1 ≠ period d → r.2 = 0

variable {key period}

theorem records_append (log : List (Entry δ)) (e : Entry δ) :
    records (log ++ [e]) = records log ++ records [e] := by
  induction log with
  | nil => rfl
  | cons e' log ih => cases e' <;> simp [records, ih]

theorem run_append (start : κ) (log : List (Entry δ)) (e : Entry δ) :
    run key start (log ++ [e]) = (run key start log).enter key e := by
  simp [run]

theorem stretch_append (k : κ) (log : List (Entry δ)) (e : Entry δ) :
    stretch key k (log ++ [e]) = (stretch key k log).enter key k e := by
  simp [stretch]

theorem sum_append (rs qs : List (δ × Nat)) : sum (rs ++ qs) = sum rs + sum qs := by
  simp [sum]

/-- The two parts are all the records, in order. -/
theorem records_stretch (k : κ) (log : List (Entry δ)) :
    records log = (stretch key k log).before ++ (stretch key k log).since.getD [] := by
  induction log using List.reverseRecOn with
  | nil => rfl
  | append_singleton log e ih =>
    rw [records_append, stretch_append, ih]
    generalize stretch key k log = st
    obtain ⟨before, since⟩ := st
    cases e with
    | looked d =>
      unfold Stretch.enter
      by_cases h : key d = k <;> simp [h, records]
    | recorded d n => cases since <;> simp [Stretch.enter, records]

/-- The counter knows whether the last look found the key, and if so holds what was recorded
since the stretch began. -/
theorem run_stretch (key : δ → κ) {start k : κ} (hstart : start ≠ k) (log : List (Entry δ)) :
    match (stretch key k log).since with
    | some rs => run key start log = ⟨sum rs, k⟩
    | none => (run key start log).last ≠ k := by
  induction log using List.reverseRecOn with
  | nil => exact hstart
  | append_singleton log e ih =>
    rw [run_append, stretch_append]
    generalize stretch key k log = st at ih ⊢
    obtain ⟨before, since⟩ := st
    cases e with
    | looked d =>
      unfold Stretch.enter
      by_cases h : key d = k
      · subst h
        cases since with
        | some rs =>
          dsimp only at ih
          simp [ih, Counter.enter, Counter.look]
        | none =>
          have hne : key d ≠ (run key start log).last := Ne.symm ih
          simp [Counter.enter, Counter.look, hne, sum]
      · cases since with
        | some rs =>
          dsimp only at ih
          simp [ih, Counter.enter, Counter.look, h]
        | none =>
          simp only [h, if_false, Counter.enter, Counter.look]
          split
          · exact h
          · exact ih
    | recorded d n =>
      cases since with
      | some rs =>
        dsimp only at ih
        simp [Stretch.enter, ih, Counter.enter, Counter.record, sum]
      | none => exact ih

/-- **A look leaves what was recorded since the stretch began.** -/
theorem look_run {start : κ} {d : δ} (hstart : start ≠ key d) (log : List (Entry δ)) :
    ((run key start log).look key d).value = sum ((stretch key (key d) log).since.getD []) := by
  have h := run_stretch key hstart log
  cases e : (stretch key (key d) log).since with
  | some rs =>
    rw [e] at h
    dsimp only at h
    simp [h, Counter.look]
  | none =>
    rw [e] at h
    have hne : key d ≠ (run key start log).last := Ne.symm h
    simp [Counter.look, hne, sum]

theorem total_append (rs qs : List (δ × Nat)) (d : δ) :
    total period (rs ++ qs) d = total period rs d + total period qs d := by
  unfold total
  rw [List.filter_append, sum_append]

theorem sum_eq_zero_iff (rs : List (δ × Nat)) : sum rs = 0 ↔ ∀ r ∈ rs, r.2 = 0 := by
  unfold sum
  rw [List.sum_eq_zero_iff]
  simp only [List.mem_map, forall_exists_index, and_imp, forall_apply_eq_imp_iff₂]

theorem total_eq_zero_iff (rs : List (δ × Nat)) (d : δ) :
    total period rs d = 0 ↔ ∀ r ∈ rs, period r.1 = period d → r.2 = 0 := by
  unfold total
  rw [sum_eq_zero_iff]
  simp only [List.mem_filter, decide_eq_true_eq, and_imp]

/-- What is left when the records of a period are taken out. -/
theorem sum_eq_total_add (period : δ → π) (rs : List (δ × Nat)) (d : δ) :
    sum rs = total period rs d + sum (rs.filter fun r => period r.1 ≠ period d) := by
  induction rs with
  | nil => rfl
  | cons r rs ih =>
    unfold total sum at ih ⊢
    by_cases h : period r.1 = period d
    · simp only [List.filter_cons, h, decide_true, if_true, ne_eq, not_true_eq_false,
        decide_false, Bool.false_eq_true, if_false, List.map_cons, List.sum_cons] at ih ⊢
      omega
    · simp only [List.filter_cons, h, decide_false, Bool.false_eq_true, if_false, ne_eq,
        not_false_eq_true, decide_true, if_true, List.map_cons, List.sum_cons] at ih ⊢
      omega

/-- **When the counter is right.** On a calendar whose periods have no gaps, and for a log in
order up to `d`, a look at `d` finds what was recorded in its period if and only if the log is
clear. -/
theorem value_eq_total_iff [Preorder δ] (key : δ → κ) (period : δ → π) (start : κ) {d : δ}
    (hstart : start ≠ key d)
    (hconvex : ∀ a b c, a ≤ b → b ≤ c → period a = period c → period b = period c)
    {log : List (Entry δ)} (hsorted : ((records log).map Prod.fst ++ [d]).Pairwise (· ≤ ·)) :
    ((run key start log).look key d).value = total period (records log) d ↔
      Clear key period log d := by
  rw [look_run hstart, records_stretch (key d) log, total_append,
    sum_eq_total_add period _ d]
  rw [records_stretch (key d) log, List.map_append, List.append_assoc] at hsorted
  have hafter : ∀ r ∈ (stretch key (key d) log).before,
      ∀ q ∈ (stretch key (key d) log).since.getD [], r.1 ≤ q.1 ∧ q.1 ≤ d := by
    intro r hr q hq
    have hcross := List.pairwise_append.mp hsorted
    have hlast := List.pairwise_append.mp hcross.2.1
    exact ⟨hcross.2.2 r.1 (List.mem_map_of_mem hr) q.1
      (List.mem_append_left _ (List.mem_map_of_mem hq)),
      hlast.2.2 q.1 (List.mem_map_of_mem hq) d (List.mem_singleton_self d)⟩
  generalize hst : stretch key (key d) log = st at hafter ⊢
  obtain ⟨before, since⟩ := st
  constructor
  · intro h
    have hbalance : sum (List.filter (fun r => decide (period r.1 ≠ period d)) (since.getD [])) =
        total period before d := by
      dsimp only at h
      omega
    -- an amount of the period before the stretch leaves no room for another period since
    have hbefore : total period before d = 0 := by
      by_contra hne
      rw [total_eq_zero_iff] at hne
      have hzero : sum (List.filter (fun r => decide (period r.1 ≠ period d))
          (since.getD [])) = 0 := by
        rw [List.filter_eq_nil_iff.mpr, sum, List.map_nil, List.sum_nil]
        intro q hq hp
        apply hne
        intro r hr hr'
        obtain ⟨hrq, hqd⟩ := hafter r hr q hq
        exact absurd (hconvex r.1 q.1 d hrq hqd hr') (of_decide_eq_true hp)
      rw [hbalance, total_eq_zero_iff] at hzero
      exact hne hzero
    rw [hbefore, sum_eq_zero_iff] at hbalance
    refine ⟨?_, ?_⟩
    · rw [hst]
      exact (total_eq_zero_iff _ d).mp hbefore
    · rw [hst]
      intro rs hrs r hr hp
      dsimp only at hrs
      refine hbalance r (List.mem_filter.mpr ⟨?_, decide_eq_true hp⟩)
      rw [hrs]
      exact hr
  · intro h
    have hbefore := h.before
    have hsince := h.since
    rw [hst] at hbefore hsince
    have hzero := (total_eq_zero_iff before d).mpr hbefore
    have hrest : sum (List.filter (fun r => decide (period r.1 ≠ period d))
        (since.getD [])) = 0 := by
      rw [sum_eq_zero_iff]
      intro r hr
      obtain ⟨hr, hp⟩ := List.mem_filter.mp hr
      cases since with
      | none => cases hr
      | some rs => exact hsince rs rfl r hr (of_decide_eq_true hp)
    dsimp only
    omega

end Wormhole.LazyReset
