import Mathlib.Algebra.Order.Group.Multiset

/-!
# Labelled transition systems, runs, invariants

A concurrent component is an `LTS`: initial states and a labelled step
relation. Everything the development says about "every run" and "every
reachable state" is said with `Run` and `Reachable`.

* `Inductive` / `Inductive.reachable`: the induction over a run, done once.
* `restrict`: the runs all of whose steps meet a condition on the state
  before the step and on the label; `Run.restrict_iff` for what a step that does
  not meet it loses for good, `Run.restrict_iff_restrict` for two conditions that agree.
* `observe`: a history variable. It records what happened and never blocks a
  step, so a run of `M.observe` is a run of `M` plus its record
  (`observe_reachable`, `exists_observe`).
* `Run.prefixes_iff`: the runs along which a property of states holds throughout;
  `Run.switch`: the runs that go over from one property to another.
* `Run.simulate`: a run that another system goes on with, step by step.
* `Run.view_iff`: a view of the state that every step carries on, and what a run loses
  of it; `Run.length_le` for a measure that every step brings down.
* `exec`: executing a list of labels where the step is a partial function;
  `reachable_of_exec` turns a computed run into reachability, also with a record
  (`observe_ofStep`).
* `gather`: what the steps of a run give out, in order; `Run.gather` carries
  an invariant of the state and what was gathered so far along a run.
* `Run.flow`: what is owed before a run, plus what the steps add, is what the
  steps give out plus what is owed afterwards. `Run.fifo` is the same with the
  order kept, and `Run.lossless_iff` says when steps that may drop part of what
  they give out have dropped nothing.
-/
namespace Wormhole

universe u v w

/-- Initial states and a step relation with labels. -/
structure LTS (σ : Type u) (ℓ : Type v) where
  init : σ → Prop
  step : σ → ℓ → σ → Prop

namespace LTS

variable {σ : Type u} {ℓ : Type v} {η : Type w} {M : LTS σ ℓ}

/-- `M.Run s ls t`: the labels `ls`, in this order, lead from `s` to `t`. -/
inductive Run (M : LTS σ ℓ) : σ → List ℓ → σ → Prop
  | nil (s : σ) : Run M s [] s
  | cons {s t r : σ} {l : ℓ} {ls : List ℓ} : M.step s l t → Run M t ls r → Run M s (l :: ls) r

theorem Run.append {s t r : σ} {ls ks : List ℓ} (h : M.Run s ls t) (h' : M.Run t ks r) :
    M.Run s (ls ++ ks) r := by
  induction h with
  | nil => exact h'
  | cons hst _ ih => exact .cons hst (ih h')

theorem Run.single {s t : σ} {l : ℓ} (h : M.step s l t) : M.Run s [l] t := .cons h (.nil t)

/-- Some run from an initial state ends in `s`. -/
def Reachable (M : LTS σ ℓ) (s : σ) : Prop := ∃ s0 ls, M.init s0 ∧ M.Run s0 ls s

theorem Reachable.init {s : σ} (h : M.init s) : M.Reachable s := ⟨s, [], h, .nil s⟩

theorem Reachable.run {s t : σ} {ls : List ℓ} (h : M.Reachable s) (hr : M.Run s ls t) :
    M.Reachable t := by
  obtain ⟨s0, ks, h0, hk⟩ := h
  exact ⟨s0, ks ++ ls, h0, hk.append hr⟩

theorem Reachable.step {s t : σ} {l : ℓ} (h : M.Reachable s) (hs : M.step s l t) :
    M.Reachable t := h.run (.single hs)

/-! ## Inductive invariants -/

/-- `I` holds initially and every step preserves it. -/
structure Inductive (M : LTS σ ℓ) (I : σ → Prop) : Prop where
  init : ∀ s, M.init s → I s
  step : ∀ s l t, I s → M.step s l t → I t

theorem Run.invariant {I : σ → Prop} (hI : ∀ s l t, I s → M.step s l t → I t) {s t : σ}
    {ls : List ℓ} (hr : M.Run s ls t) (hs : I s) : I t := by
  induction hr with
  | nil => exact hs
  | cons hst _ ih => exact ih (hI _ _ _ hs hst)

/-- What a step keeps as long as `P` holds in every state on the way. -/
theorem Run.strengthen {P Q : σ → Prop} (hQ : ∀ s l t, Q s → M.step s l t → P t → Q t) {s t : σ}
    {ls : List ℓ} (hr : M.Run s ls t) (hs : Q s)
    (hP : ∀ ks u, ks <+: ls → M.Run s ks u → P u) : Q t := by
  induction hr with
  | nil => exact hs
  | @cons s t r l ls hst _ ih =>
    refine ih (hQ s l t hs hst (hP [l] t ⟨ls, rfl⟩ (.single hst))) ?_
    intro ks u hk hu
    exact hP (l :: ks) u (List.cons_prefix_cons.mpr ⟨rfl, hk⟩) (.cons hst hu)

/-- An invariant of the state and the steps that led to it. -/
theorem Run.history {I : List ℓ → σ → Prop} {s0 t : σ} {ls : List ℓ}
    (hI : ∀ pre s l t, M.Run s0 pre s → I pre s → M.step s l t → I (pre ++ [l]) t)
    (h0 : I [] s0) (hr : M.Run s0 ls t) : I ls t := by
  have key : ∀ {s t : σ} {ls : List ℓ}, M.Run s ls t →
      ∀ pre, M.Run s0 pre s → I pre s → I (pre ++ ls) t := by
    intro s t ls h
    induction h with
    | nil => intro pre _ hi; rwa [List.append_nil]
    | @cons s t r l ls hst _ ih =>
      intro pre hp hi
      have := ih (pre ++ [l]) (hp.append (.single hst)) (hI pre s l t hp hi hst)
      rwa [List.append_assoc] at this
  exact key hr [] (.nil s0) h0

theorem Inductive.reachable {I : σ → Prop} (hI : M.Inductive I) (s : σ) (h : M.Reachable s) :
    I s := by
  obtain ⟨s0, ls, h0, hr⟩ := h
  exact hr.invariant hI.step (hI.init s0 h0)

/-- An invariant already known of the reachable states may be assumed of the
state before the step. -/
theorem Inductive.of_known {J I : σ → Prop} (hJ : ∀ s, M.Reachable s → J s)
    (h0 : ∀ s, M.init s → I s)
    (hI : ∀ s l t, M.Reachable s → J s → I s → M.step s l t → I t) :
    ∀ s, M.Reachable s → I s := by
  rintro s ⟨s0, ls, hs0, hr⟩
  have key : ∀ {a b : σ} {ks : List ℓ}, M.Run a ks b → M.Reachable a → I a → I b := by
    intro a b ks hab
    induction hab with
    | nil => exact fun _ h => h
    | cons hst _ ih => exact fun ha hIa => ih (ha.step hst) (hI _ _ _ ha (hJ _ ha) hIa hst)
  exact key hr (.init hs0) (h0 s0 hs0)

/-! ## Runs whose steps meet a condition -/

/-- The runs of `M` every step of which meets `C`. -/
def restrict (M : LTS σ ℓ) (C : σ → ℓ → Prop) : LTS σ ℓ where
  init := M.init
  step s l t := C s l ∧ M.step s l t

theorem Run.of_restrict {C : σ → ℓ → Prop} {s t : σ} {ls : List ℓ}
    (h : (M.restrict C).Run s ls t) : M.Run s ls t := by
  induction h with
  | nil => exact .nil _
  | cons hst _ ih => exact .cons hst.2 ih

theorem Reachable.of_restrict {C : σ → ℓ → Prop} {s : σ} (h : (M.restrict C).Reachable s) :
    M.Reachable s := by
  obtain ⟨s0, ls, h0, hr⟩ := h
  exact ⟨s0, ls, h0, hr.of_restrict⟩

theorem Run.restrict_invariant {C : σ → ℓ → Prop} {I : σ → Prop}
    (hI : ∀ s l t, I s → C s l → M.step s l t → I t) {s t : σ} {ls : List ℓ}
    (hr : (M.restrict C).Run s ls t) (hs : I s) : I t := by
  have hstep : ∀ s l t, I s → (M.restrict C).step s l t → I t :=
    fun s l t hs hst => hI s l t hs hst.1 hst.2
  exact hr.invariant hstep hs

theorem Run.restrict_mono {C C' : σ → ℓ → Prop} {K : σ → Prop}
    (hK : ∀ s l t, M.step s l t → K t → K s) (hC : ∀ s l, K s → C s l → C' s l) {s t : σ}
    {ls : List ℓ} (hr : (M.restrict C).Run s ls t) (ht : K t) :
    (M.restrict C').Run s ls t ∧ K s := by
  induction hr with
  | nil => exact ⟨.nil _, ht⟩
  | cons hst _ ih =>
    obtain ⟨hrun, hk⟩ := ih ht
    have hs := hK _ _ _ hst.2 hk
    exact ⟨.cons ⟨hC _ _ hs hst.1, hst.2⟩ hrun, hs⟩

/-- Two conditions that agree where `K` holds, which no step brings about, restrict the
runs to a state with `K` in the same way. -/
theorem Run.restrict_congr {C C' : σ → ℓ → Prop} {K : σ → Prop}
    (hK : ∀ s l t, M.step s l t → K t → K s) (hC : ∀ s l, K s → (C s l ↔ C' s l)) {s t : σ}
    {ls : List ℓ} (ht : K t) :
    (M.restrict C).Run s ls t ↔ (M.restrict C').Run s ls t :=
  ⟨fun hr => (hr.restrict_mono hK (fun s l hs => (hC s l hs).mp) ht).1,
    fun hr => (hr.restrict_mono hK (fun s l hs => (hC s l hs).mpr) ht).1⟩

/-- What a step can only lose, and loses exactly when it does not meet `C`, holds
after a run exactly when it held before and every step met `C`. -/
theorem Run.restrict_iff {C : σ → ℓ → Prop} {I P : σ → Prop}
    (hI : ∀ s l t, I s → M.step s l t → I t)
    (hP : ∀ s l t, I s → M.step s l t → (P t ↔ P s ∧ C s l)) {s t : σ} {ls : List ℓ}
    (hr : M.Run s ls t) (hs : I s) : P t ↔ P s ∧ (M.restrict C).Run s ls t := by
  constructor
  · intro h
    induction hr with
    | nil s => exact ⟨h, .nil s⟩
    | cons hst _ ih =>
      obtain ⟨hp, hrun⟩ := ih (hI _ _ _ hs hst) h
      obtain ⟨hp, hc⟩ := (hP _ _ _ hs hst).mp hp
      exact ⟨hp, .cons ⟨hc, hst⟩ hrun⟩
  · rintro ⟨hp, hrun⟩
    have hstep : ∀ s l t, I s ∧ P s → C s l → M.step s l t → I t ∧ P t :=
      fun s l t h hc hst => ⟨hI s l t h.1 hst, (hP s l t h.1 hst).mpr ⟨h.2, hc⟩⟩
    exact (hrun.restrict_invariant hstep ⟨hs, hp⟩).2

/-- Two conditions that agree where `I` holds, which the steps that meet the first keep, are
met by the same runs from there. -/
theorem Run.restrict_iff_restrict {C D : σ → ℓ → Prop} {I : σ → Prop}
    (hI : ∀ s l t, I s → C s l → M.step s l t → I t)
    (hCD : ∀ s l t, I s → M.step s l t → (C s l ↔ D s l)) {s t : σ} {ls : List ℓ} (hs : I s) :
    (M.restrict C).Run s ls t ↔ (M.restrict D).Run s ls t := by
  constructor
  · intro h
    induction h with
    | nil s => exact .nil s
    | cons hst _ ih =>
      have hnext := hI _ _ _ hs hst.1 hst.2
      exact .cons ⟨(hCD _ _ _ hs hst.2).mp hst.1, hst.2⟩ (ih hnext)
  · intro h
    induction h with
    | nil s => exact .nil s
    | cons hst _ ih =>
      have hc := (hCD _ _ _ hs hst.2).mpr hst.1
      have hnext := hI _ _ _ hs hc hst.2
      exact .cons ⟨hc, hst.2⟩ (ih hnext)

/-! ## History variables -/

/-- `M` with a record of its run: `upd` sees every step and updates the record. -/
def observe (M : LTS σ ℓ) (h0 : η) (upd : η → σ → ℓ → σ → η) : LTS (σ × η) ℓ where
  init p := M.init p.1 ∧ p.2 = h0
  step p l q := M.step p.1 l q.1 ∧ q.2 = upd p.2 p.1 l q.1

theorem observe_reachable {h0 : η} {upd : η → σ → ℓ → σ → η} {p : σ × η}
    (h : (M.observe h0 upd).Reachable p) : M.Reachable p.1 := by
  have hI : (M.observe h0 upd).Inductive fun p => M.Reachable p.1 :=
    ⟨fun _ h => .init h.1, fun _ _ _ h hs => h.step hs.1⟩
  exact hI.reachable p h

/-- Every reachable state has a record. -/
theorem exists_observe (h0 : η) (upd : η → σ → ℓ → σ → η) {s : σ} (h : M.Reachable s) :
    ∃ r, (M.observe h0 upd).Reachable (s, r) := by
  have hI : M.Inductive fun s => ∃ r, (M.observe h0 upd).Reachable (s, r) := by
    refine ⟨fun s hs => ⟨h0, .init ⟨hs, rfl⟩⟩, ?_⟩
    rintro s l t ⟨r, hr⟩ hst
    exact ⟨upd r s l t, hr.step ⟨hst, rfl⟩⟩
  exact hI.reachable s h

/-! ## Executing a partial step function -/

/-- The system of a partial step function. -/
def ofStep (init : σ → Prop) (step : σ → ℓ → Option σ) : LTS σ ℓ where
  init := init
  step s l t := step s l = some t

/-- The state after the labels `ls`, `none` when one of them is not enabled. -/
def exec (step : σ → ℓ → Option σ) : σ → List ℓ → Option σ
  | s, [] => some s
  | s, l :: ls => (step s l).bind fun t => exec step t ls

theorem run_of_exec {init : σ → Prop} {step : σ → ℓ → Option σ} :
    ∀ {ls : List ℓ} {s t : σ}, exec step s ls = some t → (ofStep init step).Run s ls t
  | [], s, t, h => by cases h; exact .nil s
  | l :: ls, s, t, h => by
    simp only [exec, Option.bind_eq_some_iff] at h
    obtain ⟨r, hr, ht⟩ := h
    exact .cons hr (run_of_exec ht)

/-- The labels of a run say where it ends. -/
theorem Run.unique {init : σ → Prop} {step : σ → ℓ → Option σ} {s t u : σ} {ls : List ℓ}
    (h : (ofStep init step).Run s ls t) (h' : (ofStep init step).Run s ls u) : t = u := by
  induction h with
  | nil =>
    cases h'
    rfl
  | @cons s v t l ls hst _ ih =>
    cases h' with
    | @cons _ w _ _ _ hsw hrest =>
      have hv : step s l = some v := hst
      have hw : step s l = some w := hsw
      rw [hv] at hw
      cases hw
      exact ih hrest

theorem reachable_of_exec {init : σ → Prop} {step : σ → ℓ → Option σ} {s0 t : σ} {ls : List ℓ}
    (h0 : init s0) (h : exec step s0 ls = some t) : (ofStep init step).Reachable t :=
  ⟨s0, ls, h0, run_of_exec h⟩

/-- The state after the labels `ls`, `s` itself when one of them is not enabled. -/
def after (step : σ → ℓ → Option σ) (s : σ) (ls : List ℓ) : σ := (exec step s ls).getD s

theorem exec_after {step : σ → ℓ → Option σ} {s : σ} {ls : List ℓ}
    (h : (exec step s ls).isSome = true) : exec step s ls = some (after step s ls) := by
  obtain ⟨t, ht⟩ := Option.isSome_iff_exists.mp h
  unfold after
  rw [ht]
  rfl

theorem step_after {step : σ → ℓ → Option σ} {s : σ} {l : ℓ} (h : (step s l).isSome = true) :
    step s l = some (after step s [l]) := by
  obtain ⟨t, ht⟩ := Option.isSome_iff_exists.mp h
  unfold after exec
  rw [ht]
  rfl

/-- `step` where a check of the state and the label succeeds. -/
def checked (check : σ → ℓ → Bool) (step : σ → ℓ → Option σ) (s : σ) (l : ℓ) : Option σ :=
  if check s l then step s l else none

theorem restrict_run_of_exec {init : σ → Prop} {step : σ → ℓ → Option σ} {C : σ → ℓ → Prop}
    {check : σ → ℓ → Bool} (hC : ∀ s l, check s l = true → C s l) :
    ∀ {ls : List ℓ} {s t : σ}, exec (checked check step) s ls = some t →
      ((ofStep init step).restrict C).Run s ls t
  | [], s, t, h => by cases h; exact .nil s
  | l :: ls, s, t, h => by
    simp only [exec, Option.bind_eq_some_iff, checked] at h
    obtain ⟨r, hr, ht⟩ := h
    split at hr
    · rename_i hc; exact .cons ⟨hC s l hc, hr⟩ (restrict_run_of_exec hC ht)
    · cases hr

theorem restrict_run_of_decide {init : σ → Prop} {step : σ → ℓ → Option σ} {C : σ → ℓ → Prop}
    [∀ s l, Decidable (C s l)] {ls : List ℓ} {s t : σ}
    (h : exec (checked (fun s l => decide (C s l)) step) s ls = some t) :
    ((ofStep init step).restrict C).Run s ls t :=
  restrict_run_of_exec (fun _ _ => of_decide_eq_true) h

theorem restrict_reachable_of_exec {init : σ → Prop} {step : σ → ℓ → Option σ}
    {C : σ → ℓ → Prop} {check : σ → ℓ → Bool} {s0 t : σ} {ls : List ℓ} (h0 : init s0)
    (hC : ∀ s l, check s l = true → C s l) (h : exec (checked check step) s0 ls = some t) :
    ((ofStep init step).restrict C).Reachable t :=
  ⟨s0, ls, h0, restrict_run_of_exec hC h⟩

/-- A step together with what it does to the record. -/
def recorded (step : σ → ℓ → Option σ) (upd : η → σ → ℓ → σ → η) (p : σ × η) (l : ℓ) :
    Option (σ × η) :=
  (step p.1 l).map fun t => (t, upd p.2 p.1 l t)

theorem observe_ofStep (init : σ → Prop) (step : σ → ℓ → Option σ) (h0 : η)
    (upd : η → σ → ℓ → σ → η) :
    (ofStep init step).observe h0 upd =
      ofStep (fun p => init p.1 ∧ p.2 = h0) (recorded step upd) := by
  have hstep : ∀ p l q, (step p.1 l = some q.1 ∧ q.2 = upd p.2 p.1 l q.1) ↔
      recorded step upd p l = some q := by
    rintro p l ⟨t, r⟩
    simp only [recorded, Option.map_eq_some_iff, Prod.mk.injEq]
    constructor
    · rintro ⟨h, rfl⟩; exact ⟨t, h, rfl, rfl⟩
    · rintro ⟨_, h, rfl, rfl⟩; exact ⟨h, rfl⟩
  simp only [observe, ofStep, hstep]

/-- A property of states that a step from where it holds keeps exactly when it meets
`C`: it holds all along a run exactly when every step of the run meets `C`. -/
theorem Run.prefixes_iff {init : σ → Prop} {step : σ → ℓ → Option σ} {C : σ → ℓ → Prop}
    {I P : σ → Prop} (hI : ∀ s l t, I s → step s l = some t → I t)
    (hP : ∀ s l t, I s → P s → step s l = some t → (P t ↔ C s l)) {s t : σ} {ls : List ℓ}
    (hr : (ofStep init step).Run s ls t) (hs : I s) (hp : P s) :
    (∀ ks u, ks <+: ls → (ofStep init step).Run s ks u → P u) ↔
      ((ofStep init step).restrict C).Run s ls t := by
  constructor
  · intro h
    induction hr with
    | nil s => exact .nil s
    | @cons s t r l ls hst _ ih =>
      have hpt : P t := h [l] t ⟨ls, rfl⟩ (.single hst)
      refine .cons ⟨(hP s l t hs hp hst).mp hpt, hst⟩ (ih (hI s l t hs hst) hpt ?_)
      intro ks u hk hu
      exact h (l :: ks) u (List.cons_prefix_cons.mpr ⟨rfl, hk⟩) (.cons hst hu)
  · intro h
    induction h with
    | nil s =>
      intro ks u hk hu
      rw [List.prefix_nil.mp hk] at hu
      cases hu
      exact hp
    | @cons s t r l ls hst hrest ih =>
      obtain ⟨hc, hst⟩ := hst
      have hst' : step s l = some t := hst
      intro ks u hk hu
      cases hu with
      | nil => exact hp
      | @cons _ v _ k ks hkv hu =>
        obtain ⟨rfl, hks⟩ := List.cons_prefix_cons.mp hk
        have hv : step s k = some v := hkv
        rw [hst'] at hv
        cases hv
        exact ih (Run.of_restrict hrest) (hI s k t hs hst')
          ((hP s k t hs hp hst').mpr hc) ks u hks hu

/-- Where every state of a run is of the first kind or of the second, steps keep the second kind
and the run ends in it, the run goes over from the one to the other once. -/
theorem Run.switch {init : σ → Prop} {step : σ → ℓ → Option σ} {A B : σ → Prop}
    (hB : ∀ s l t, B s → step s l = some t → B t) {s t : σ} {ls : List ℓ}
    (hr : (ofStep init step).Run s ls t)
    (hAB : ∀ ks u, ks <+: ls → (ofStep init step).Run s ks u → A u ∨ B u) (ht : B t) :
    ∃ k ≤ ls.length, ∀ ks u, ks <+: ls → (ofStep init step).Run s ks u →
      (ks.length < k → A u) ∧ (k ≤ ks.length → B u) := by
  induction hr with
  | nil s =>
    refine ⟨0, Nat.le_refl _, ?_⟩
    intro ks u hks hu
    rw [List.prefix_nil.mp hks] at hu
    cases hu
    exact ⟨fun h => absurd h (Nat.not_lt_zero _), fun _ => ht⟩
  | @cons s u t l ls hst _ ih =>
    have hst' : step s l = some u := hst
    by_cases hs : B s
    · refine ⟨0, Nat.zero_le _, ?_⟩
      intro ks v _ hv
      exact ⟨fun h => absurd h (Nat.not_lt_zero _), fun _ => hv.invariant (I := B) hB hs⟩
    · have hA : A s := (hAB [] s List.nil_prefix (.nil s)).resolve_right hs
      have hAB' : ∀ ks v, ks <+: ls → (ofStep init step).Run u ks v → A v ∨ B v :=
        fun ks v hks hv => hAB (l :: ks) v (List.cons_prefix_cons.mpr ⟨rfl, hks⟩) (.cons hst hv)
      obtain ⟨k, hk, hrest⟩ := ih hAB' ht
      refine ⟨k + 1, Nat.succ_le_succ hk, ?_⟩
      intro ks v hks hv
      cases hv with
      | nil => exact ⟨fun _ => hA, fun h => absurd h (Nat.not_succ_le_zero k)⟩
      | @cons _ w _ j ks hsw hv =>
        obtain ⟨rfl, hpre⟩ := List.cons_prefix_cons.mp hks
        have hw : step s j = some w := hsw
        rw [hst'] at hw
        cases hw
        obtain ⟨hbefore, hafter⟩ := hrest ks v hpre hv
        exact ⟨fun h => hbefore (Nat.lt_of_succ_lt_succ h),
          fun h => hafter (Nat.le_of_succ_le_succ h)⟩

/-! ## Runs seen from above -/

/-- From states that `R` relates, `N` goes on as `M` does. -/
theorem Run.simulate {τ κ : Type*} {N : LTS τ κ} {R : σ → τ → Prop}
    (hR : ∀ s l t u, R s u → M.step s l t → ∃ ks v, N.Run u ks v ∧ R t v) {s t : σ} {ls : List ℓ}
    (hr : M.Run s ls t) {u : τ} (h : R s u) : ∃ ks v, N.Run u ks v ∧ R t v := by
  induction hr generalizing u with
  | nil s => exact ⟨[], u, .nil u, h⟩
  | @cons s r t l ls hst _ ih =>
    obtain ⟨ks, v, hfirst, hv⟩ := hR s l r u h hst
    obtain ⟨more, w, hrest, hw⟩ := ih hv
    exact ⟨ks ++ more, w, hfirst.append hrest, hw⟩

/-- A view of the state that every step carries on, where what the view says (`P`) is kept
by just the steps that meet `C`. -/
theorem Run.view_iff {init : σ → Prop} {step : σ → ℓ → Option σ} {α : Type w}
    {R : σ → α → Prop} {P : α → Prop} {C : σ → ℓ → Prop}
    (hR : ∀ s l t a, R s a → step s l = some t → ∃ b, R t b ∧ (P b ↔ P a ∧ C s l)) {s t : σ}
    {ls : List ℓ} (hr : (ofStep init step).Run s ls t) {a : α} (ha : R s a) :
    ∃ b, R t b ∧ (P b ↔ P a ∧ ((ofStep init step).restrict C).Run s ls t) := by
  induction hr generalizing a with
  | nil s => exact ⟨a, ha, (and_iff_left (.nil s)).symm⟩
  | @cons s u t l ls hst _ ih =>
    have hst' : step s l = some u := hst
    obtain ⟨b, hb, hPb⟩ := hR s l u a ha hst'
    obtain ⟨c, hc, hPc⟩ := ih hb
    refine ⟨c, hc, ?_⟩
    rw [hPc, hPb, and_assoc]
    refine and_congr_right fun _ => ⟨fun h => .cons ⟨h.1, hst⟩ h.2, fun h => ?_⟩
    cases h with
    | @cons _ v _ _ _ hsv hrest =>
      have hv : step s l = some v := hsv.2
      rw [hst'] at hv
      cases hv
      exact ⟨hsv.1, hrest⟩

/-- When every step brings a measure of the state and its view down, it bounds the run. -/
theorem Run.length_le {init : σ → Prop} {step : σ → ℓ → Option σ} {α : Type w}
    {R : σ → α → Prop} {μ : σ → α → Nat}
    (hR : ∀ s l t a, R s a → step s l = some t → ∃ b, R t b ∧ μ t b < μ s a) {s t : σ}
    {ls : List ℓ} (hr : (ofStep init step).Run s ls t) {a : α} (ha : R s a) :
    ls.length ≤ μ s a := by
  induction hr generalizing a with
  | nil s => exact Nat.zero_le _
  | @cons s u t l ls hst _ ih =>
    obtain ⟨b, hb, hlt⟩ := hR s l u a ha hst
    have hrest := ih hb
    rw [List.length_cons]
    omega

/-! ## What a run gives out -/

variable {β : Type w}

/-- What the steps of a run give out, in order. `q` reads the state before the
step and the label. -/
def gather (step : σ → ℓ → Option σ) (q : σ → ℓ → List β) : σ → List ℓ → List β
  | _, [] => []
  | s, l :: ls =>
    match step s l with
    | some t => q s l ++ gather step q t ls
    | none => []

variable {init : σ → Prop} {step : σ → ℓ → Option σ} {C : σ → ℓ → Prop}

theorem Run.gather_append (q : σ → ℓ → List β) (ks : List ℓ) {s t : σ} {ls : List ℓ}
    (hr : (ofStep init step).Run s ls t) :
    gather step q s (ls ++ ks) = gather step q s ls ++ gather step q t ks := by
  induction hr with
  | nil s => rfl
  | @cons s t r l ls hst _ ih =>
    have hst' : step s l = some t := hst
    simp only [List.cons_append, gather, hst', ih, List.append_assoc]

/-- An invariant of the state and what was gathered so far. -/
theorem Run.gather {q : σ → ℓ → List β} {I : σ → List β → Prop} (got : List β)
    (hI : ∀ s l t got, C s l → step s l = some t → I s got → I t (got ++ q s l)) {s t : σ}
    {ls : List ℓ} (hr : ((ofStep init step).restrict C).Run s ls t) (hs : I s got) :
    I t (got ++ gather step q s ls) := by
  induction hr generalizing got with
  | nil s => simpa only [LTS.gather, List.append_nil] using hs
  | @cons s t r l ls hst _ ih =>
    obtain ⟨hc, hst⟩ := hst
    have hst' : step s l = some t := hst
    have := ih (got ++ q s l) (hI s l t got hc hst' hs)
    simpa only [LTS.gather, hst', List.append_assoc] using this

/-- Conservation over a run: when every step turns what is owed plus what it
adds into what it gives out plus what is then owed, so does the whole run. -/
theorem Run.flow {owed : σ → Multiset β} {added given : σ → ℓ → List β} {P : σ → Prop}
    (hP : ∀ s l t, C s l → step s l = some t → P s → P t)
    (hstep : ∀ s l t, C s l → step s l = some t → P s →
      owed s + (added s l : Multiset β) = (given s l : Multiset β) + owed t)
    {s t : σ} {ls : List ℓ} (hr : ((ofStep init step).restrict C).Run s ls t) (hs : P s) :
    owed s + (LTS.gather step added s ls : Multiset β) =
      (LTS.gather step given s ls : Multiset β) + owed t := by
  induction hr with
  | nil s => simp only [LTS.gather, Multiset.coe_nil, zero_add, add_zero]
  | @cons s t r l ls hst _ ih =>
    obtain ⟨hc, hst⟩ := hst
    have hst' : step s l = some t := hst
    have h1 := hstep s l t hc hst' hs
    have h2 := ih (hP s l t hc hst' hs)
    simp only [LTS.gather, hst', ← Multiset.coe_add]
    calc owed s + ((added s l : Multiset β) + LTS.gather step added t ls)
        = (owed s + added s l) + LTS.gather step added t ls := (add_assoc _ _ _).symm
      _ = given s l + (owed t + LTS.gather step added t ls) := by rw [h1, add_assoc]
      _ = given s l + LTS.gather step given t ls + owed r := by rw [h2, add_assoc]

/-- Conservation in order: when every step takes what it gives out from the
front of what is owed and appends what it adds behind, so does the whole run. -/
theorem Run.fifo {owed : σ → List β} {added given : σ → ℓ → List β} {P : σ → Prop}
    (hP : ∀ s l t, C s l → step s l = some t → P s → P t)
    (hstep : ∀ s l t, C s l → step s l = some t → P s →
      owed s ++ added s l = given s l ++ owed t)
    {s t : σ} {ls : List ℓ} (hr : ((ofStep init step).restrict C).Run s ls t) (hs : P s) :
    owed s ++ LTS.gather step added s ls = LTS.gather step given s ls ++ owed t := by
  induction hr with
  | nil s => simp only [LTS.gather, List.append_nil, List.nil_append]
  | @cons s t r l ls hst _ ih =>
    obtain ⟨hc, hst⟩ := hst
    have hst' : step s l = some t := hst
    have h1 := hstep s l t hc hst' hs
    have h2 := ih (hP s l t hc hst' hs)
    simp only [LTS.gather, hst']
    calc owed s ++ (added s l ++ LTS.gather step added t ls)
        = (owed s ++ added s l) ++ LTS.gather step added t ls := (List.append_assoc _ _ _).symm
      _ = given s l ++ (owed t ++ LTS.gather step added t ls) := by rw [h1, List.append_assoc]
      _ = given s l ++ LTS.gather step given t ls ++ owed r := by rw [h2, List.append_assoc]

theorem Run.restrict_true {M : LTS σ ℓ} {s t : σ} {ls : List ℓ} (h : M.Run s ls t) :
    (M.restrict fun _ _ => True).Run s ls t := by
  induction h with
  | nil s => exact .nil s
  | cons hst _ ih => exact .cons ⟨trivial, hst⟩ ih

theorem append_eq_of_sublist {a b c d : List β} (h1 : a.Sublist b) (h2 : c.Sublist d) :
    a ++ c = b ++ d ↔ a = b ∧ c = d := by
  constructor
  · intro h
    have hl := congrArg List.length h
    have l1 := h1.length_le
    have l2 := h2.length_le
    simp only [List.length_append] at hl
    exact ⟨h1.eq_of_length (by omega), h2.eq_of_length (by omega)⟩
  · rintro ⟨rfl, rfl⟩
    rfl

/-- When a step keeps part of what it gives out, a run keeps all of it exactly
when each of its steps does. -/
theorem Run.gather_kept_iff {given kept : σ → ℓ → List β} {good : σ → ℓ → Prop}
    (hsub : ∀ s l, (kept s l).Sublist (given s l))
    (hgood : ∀ s l, kept s l = given s l ↔ good s l) {s t : σ} {ls : List ℓ}
    (hr : (ofStep init step).Run s ls t) :
    (LTS.gather step kept s ls).Sublist (LTS.gather step given s ls) ∧
      (LTS.gather step kept s ls = LTS.gather step given s ls ↔
        ((ofStep init step).restrict good).Run s ls t) := by
  induction hr with
  | nil s => exact ⟨List.Sublist.refl _, fun _ => .nil s, fun _ => rfl⟩
  | @cons s t r l ls hst _ ih =>
    have hst' : step s l = some t := hst
    obtain ⟨ih1, ih2⟩ := ih
    simp only [LTS.gather, hst']
    refine ⟨(hsub s l).append ih1, ?_⟩
    rw [append_eq_of_sublist (hsub s l) ih1, hgood, ih2]
    constructor
    · rintro ⟨hg, hr⟩
      exact .cons ⟨hg, hst⟩ hr
    · intro h
      cases h with
      | cons h' hr =>
        obtain ⟨hg, hst''⟩ := h'
        have : step s l = some _ := hst''
        rw [hst'] at this
        cases this
        exact ⟨hg, hr⟩

/-- **Conservation with losses.** Every step turns what is owed plus what it adds
into what it gives out plus what is then owed, and keeps part of what it gives
out; the good steps keep all of it and take it from the front. Then a run has
kept everything but what is still owed, in order, exactly when each of its
steps is good. -/
theorem Run.lossless_iff_of_flow (owed : σ → List β) (added given kept : σ → ℓ → List β)
    (good : σ → ℓ → Prop) {P : σ → Prop} (hP : ∀ s l t, step s l = some t → P s → P t)
    (hflow : ∀ s l t, step s l = some t → P s →
      (owed s : Multiset β) + (added s l : Multiset β) = (given s l : Multiset β) + owed t)
    (hfifo : ∀ s l t, step s l = some t → P s → good s l →
      owed s ++ added s l = given s l ++ owed t)
    (hsub : ∀ s l, (kept s l).Sublist (given s l))
    (hgood : ∀ s l, kept s l = given s l ↔ good s l) {s t : σ} {ls : List ℓ}
    (hr : (ofStep init step).Run s ls t) (hs : P s) :
    LTS.gather step kept s ls ++ owed t = owed s ++ LTS.gather step added s ls ↔
      ((ofStep init step).restrict good).Run s ls t := by
  obtain ⟨hk, hiff⟩ := Run.gather_kept_iff hsub hgood hr
  constructor
  · intro h
    have hf := Run.flow (fun s l t _ => hP s l t) (fun s l t _ => hflow s l t) hr.restrict_true hs
    have hm := congrArg (fun xs : List β => (xs : Multiset β)) h
    simp only [← Multiset.coe_add] at hm
    rw [hf, add_right_cancel_iff] at hm
    exact hiff.mp (hk.eq_of_length (by simpa using congrArg Multiset.card hm))
  · intro h
    rw [hiff.mpr h]
    exact (Run.fifo (fun s l t _ => hP s l t) (fun s l t hg hst hs => hfifo s l t hst hs hg)
      h hs).symm

/-- `lossless_iff_of_flow` where every step takes what it gives out from the front. -/
theorem Run.lossless_iff (owed : σ → List β) (added given kept : σ → ℓ → List β)
    (good : σ → ℓ → Prop) {P : σ → Prop} (hP : ∀ s l t, step s l = some t → P s → P t)
    (hstep : ∀ s l t, step s l = some t → P s → owed s ++ added s l = given s l ++ owed t)
    (hsub : ∀ s l, (kept s l).Sublist (given s l))
    (hgood : ∀ s l, kept s l = given s l ↔ good s l) {s t : σ} {ls : List ℓ}
    (hr : (ofStep init step).Run s ls t) (hs : P s) :
    LTS.gather step kept s ls ++ owed t = owed s ++ LTS.gather step added s ls ↔
      ((ofStep init step).restrict good).Run s ls t := by
  refine Run.lossless_iff_of_flow owed added given kept good hP (fun s l t hst hs => ?_)
    (fun s l t hst hs _ => hstep s l t hst hs) hsub hgood hr hs
  simp only [Multiset.coe_add, hstep s l t hst hs]

end LTS
end Wormhole
