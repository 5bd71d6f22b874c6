import Mathlib.Data.List.Nodup

/-!
# A queue that tasks wait for

Items, first in first out, and the tasks that wait for one, as `asyncio.Queue` keeps them. An item
that is put wakes the oldest task that waits; the task takes an item when it runs, which may be
later, and waits again when another one took it. A woken task that is cancelled before it runs hands
the wake-up on when it leaves.

* `Sound.awake`: as long as a task waits that was not woken, there are no more items than tasks
  that are about to run, so no wake-up is lost.
-/
namespace Wormhole

universe u v
variable {τ : Type u} {α : Type v}

/-- `getters` wait, the oldest first; `woken` were woken and have not run since; `leaving` were
cancelled after they were woken. -/
structure AsyncQueue (τ : Type u) (α : Type v) where
  items : List α
  getters : List τ
  woken : List τ
  leaving : List τ

namespace AsyncQueue

def empty : AsyncQueue τ α := ⟨[], [], [], []⟩

/-- The oldest task that waits is woken. -/
def wakeNext (q : AsyncQueue τ α) : AsyncQueue τ α :=
  match q.getters with
  | [] => q
  | t :: ts => { q with getters := ts, woken := q.woken ++ [t] }

/-- `put_nowait`. -/
def put (q : AsyncQueue τ α) (a : α) : AsyncQueue τ α := wakeNext { q with items := q.items ++ [a] }

/-- A task asks for an item: it gets the first one, or waits. -/
def get (q : AsyncQueue τ α) (t : τ) : AsyncQueue τ α × Option α :=
  match q.items with
  | [] => ({ q with getters := q.getters ++ [t] }, none)
  | a :: as => ({ q with items := as }, some a)

variable [DecidableEq τ]

/-- A woken task runs. -/
def resume (q : AsyncQueue τ α) (t : τ) : AsyncQueue τ α × Option α :=
  get { q with woken := q.woken.erase t } t

/-- A task is cancelled where it waits. -/
def cancel (q : AsyncQueue τ α) (t : τ) : AsyncQueue τ α :=
  if t ∈ q.woken then { q with woken := q.woken.erase t, leaving := q.leaving ++ [t] }
  else { q with getters := q.getters.erase t }

/-- A cancelled task runs. -/
def leave (q : AsyncQueue τ α) (t : τ) : AsyncQueue τ α :=
  if t ∈ q.leaving then
    if q.items = [] then { q with leaving := q.leaving.erase t }
    else wakeNext { q with leaving := q.leaving.erase t }
  else q

omit [DecidableEq τ]

variable {q : AsyncQueue τ α} {t u : τ} {a : α}

/-! ## Items -/

@[simp] theorem wakeNext_items (q : AsyncQueue τ α) : q.wakeNext.items = q.items := by
  unfold wakeNext
  split <;> rfl

@[simp] theorem put_items (q : AsyncQueue τ α) (a : α) : (q.put a).items = q.items ++ [a] := by
  rw [put, wakeNext_items]

/-- What a task gets is the first item. -/
theorem get_items (q : AsyncQueue τ α) (t : τ) :
    q.items = (q.get t).2.toList ++ (q.get t).1.items := by
  unfold get
  split
  · rename_i h
    simp [h]
  · rename_i h
    exact h

/-! ## Tasks -/

/-- Those that ask for an item. -/
def waiting (q : AsyncQueue τ α) : List τ := q.getters ++ q.woken

def tasks (q : AsyncQueue τ α) : List τ := q.waiting ++ q.leaving

/-- No task is in the queue twice, and where one waits the items are spoken for. -/
structure Sound (q : AsyncQueue τ α) : Prop where
  nodup : q.tasks.Nodup
  awake : q.getters ≠ [] → q.items.length ≤ q.woken.length + q.leaving.length

theorem sound_empty : (empty : AsyncQueue τ α).Sound :=
  ⟨List.nodup_nil, fun h => absurd rfl h⟩

@[simp] theorem wakeNext_leaving (q : AsyncQueue τ α) : q.wakeNext.leaving = q.leaving := by
  unfold wakeNext
  split <;> rfl

theorem wakeNext_waiting (q : AsyncQueue τ α) : q.wakeNext.waiting.Perm q.waiting := by
  unfold wakeNext
  split
  · exact List.Perm.refl _
  · rename_i t ts h
    calc (ts ++ (q.woken ++ [t])).Perm (t :: (ts ++ q.woken)) := by
          rw [← List.append_assoc]
          exact List.perm_append_singleton t _
      _ = q.waiting := by rw [waiting, h, List.cons_append]

theorem wakeNext_nodup (h : q.tasks.Nodup) : q.wakeNext.tasks.Nodup := by
  have hp := (wakeNext_waiting q).append_right q.leaving
  rw [tasks, wakeNext_leaving]
  exact hp.nodup_iff.mpr h

/-- After a wake-up one more item is spoken for. -/
theorem wakeNext_awake (h : q.getters ≠ [] → q.items.length ≤ q.woken.length + q.leaving.length + 1) :
    q.wakeNext.getters ≠ [] →
      q.wakeNext.items.length ≤ q.wakeNext.woken.length + q.wakeNext.leaving.length := by
  intro hne
  rw [wakeNext_items, wakeNext_leaving]
  unfold wakeNext at hne ⊢
  split at hne
  · rename_i hg
    exact absurd hg hne
  · rename_i t ts hg
    have hle := h (by rw [hg]; exact List.cons_ne_nil t ts)
    simp only [List.length_append, List.length_singleton]
    omega

theorem sound_put (h : q.Sound) (a : α) : (q.put a).Sound := by
  refine ⟨wakeNext_nodup h.nodup, wakeNext_awake fun hne => ?_⟩
  have hle := h.awake hne
  simp only [List.length_append, List.length_singleton]
  omega

theorem put_waiting (q : AsyncQueue τ α) (a : α) : u ∈ (q.put a).waiting ↔ u ∈ q.waiting :=
  (wakeNext_waiting _).mem_iff

@[simp] theorem put_leaving (q : AsyncQueue τ α) (a : α) : (q.put a).leaving = q.leaving :=
  wakeNext_leaving _

/-! ## Asking -/

theorem get_waiting (q : AsyncQueue τ α) (t : τ) : u ∈ (q.get t).1.waiting ↔
    u ∈ q.waiting ∨ ((q.get t).2 = none ∧ u = t) := by
  unfold get waiting
  split
  · simp only [List.mem_append, List.mem_singleton, true_and]
    tauto
  · simp

@[simp] theorem get_leaving (q : AsyncQueue τ α) (t : τ) : (q.get t).1.leaving = q.leaving := by
  unfold get
  split <;> rfl

theorem get_nodup (h : q.tasks.Nodup) (ht : t ∉ q.tasks) : (q.get t).1.tasks.Nodup := by
  unfold get
  split
  · have hp : (q.getters ++ [t] ++ q.woken ++ q.leaving).Perm (t :: q.tasks) := by
      rw [tasks, waiting, List.append_assoc, List.append_assoc, List.append_assoc]
      exact List.perm_middle
    exact hp.nodup_iff.mpr (List.nodup_cons.mpr ⟨ht, h⟩)
  · exact h

/-- A task that finds nothing waits; one that finds an item takes it away. -/
theorem get_awake {b : Nat}
    (h : q.getters ≠ [] → q.items.length ≤ q.woken.length + q.leaving.length + b)
    (hb : b ≤ 1) : (q.get t).1.getters ≠ [] →
      (q.get t).1.items.length ≤ (q.get t).1.woken.length + (q.get t).1.leaving.length := by
  unfold get
  split
  · rename_i hi
    intro _
    simp [hi]
  · rename_i a as hi
    intro hne
    have hle := h hne
    rw [hi, List.length_cons] at hle
    dsimp only
    omega

theorem sound_get (h : q.Sound) (ht : t ∉ q.tasks) : (q.get t).1.Sound :=
  ⟨get_nodup h.nodup ht, get_awake (b := 0) h.awake (by omega)⟩

variable [DecidableEq τ]

/-! ## Running -/

/-- The woken task that runs is for a moment nowhere in the queue. -/
theorem notMem_erase_woken (h : q.tasks.Nodup) (ht : t ∈ q.woken) :
    t ∉ ({ q with woken := q.woken.erase t } : AsyncQueue τ α).tasks := by
  have hp : q.tasks.Perm (t :: ({ q with woken := q.woken.erase t } : AsyncQueue τ α).tasks) := by
    rw [tasks, waiting, List.append_assoc]
    refine (((List.perm_cons_erase ht).append_right q.leaving).append_left q.getters).trans ?_
    rw [tasks, waiting, List.append_assoc]
    exact List.perm_middle
  exact (List.nodup_cons.mp (hp.nodup_iff.mp h)).1

theorem erase_woken_nodup (h : q.tasks.Nodup) (t : τ) :
    ({ q with woken := q.woken.erase t } : AsyncQueue τ α).tasks.Nodup :=
  h.sublist ((List.erase_sublist.append_left q.getters).append_right q.leaving)

theorem mem_erase_woken (h : q.tasks.Nodup) (ht : t ∈ q.woken) :
    u ∈ ({ q with woken := q.woken.erase t } : AsyncQueue τ α).waiting ↔ u ∈ q.waiting ∧ u ≠ t := by
  have hgone := notMem_erase_woken h ht
  constructor
  · intro hu
    refine ⟨((List.erase_sublist (a := t)).append_left q.getters).subset hu, ?_⟩
    intro he
    exact hgone (List.mem_append_left _ (he ▸ hu))
  · intro hu
    obtain ⟨hu, hne⟩ := hu
    rcases List.mem_append.mp hu with hu | hu
    · exact List.mem_append_left _ hu
    · exact List.mem_append_right _ ((List.mem_erase_of_ne hne).mpr hu)

theorem sound_resume (h : q.Sound) (ht : t ∈ q.woken) : (q.resume t).1.Sound := by
  refine ⟨get_nodup (erase_woken_nodup h.nodup t) (notMem_erase_woken h.nodup ht),
    get_awake (b := 1) (fun hne => ?_) (Nat.le_refl 1)⟩
  have hle := h.awake hne
  have hlen := List.length_erase_of_mem ht
  have hpos := List.length_pos_of_mem ht
  dsimp only
  omega

theorem resume_items (q : AsyncQueue τ α) (t : τ) :
    q.items = (q.resume t).2.toList ++ (q.resume t).1.items :=
  get_items { q with woken := q.woken.erase t } t

theorem resume_waiting (h : q.Sound) (ht : t ∈ q.woken) : u ∈ (q.resume t).1.waiting ↔
    u ∈ q.waiting ∧ (u ≠ t ∨ (q.resume t).2 = none) := by
  have hin : t ∈ q.waiting := List.mem_append_right _ ht
  rw [resume, get_waiting, mem_erase_woken h.nodup ht]
  constructor
  · intro hu
    obtain ⟨hu, hne⟩ | ⟨hnone, rfl⟩ := hu
    · exact ⟨hu, .inl hne⟩
    · exact ⟨hin, .inr hnone⟩
  · intro hu
    obtain ⟨hu, hor⟩ := hu
    by_cases he : u = t
    · exact .inr ⟨hor.resolve_left (not_not_intro he), he⟩
    · exact .inl ⟨hu, he⟩

@[simp] theorem resume_leaving (q : AsyncQueue τ α) (t : τ) :
    (q.resume t).1.leaving = q.leaving :=
  get_leaving { q with woken := q.woken.erase t } t

/-! ## Giving up -/

@[simp] theorem cancel_items (q : AsyncQueue τ α) (t : τ) : (q.cancel t).items = q.items := by
  unfold cancel
  split <;> rfl

theorem sound_cancel (h : q.Sound) (t : τ) : (q.cancel t).Sound := by
  unfold cancel
  split
  · rename_i ht
    have hlen := List.length_erase_of_mem ht
    have hpos := List.length_pos_of_mem ht
    constructor
    · have hp : (q.getters ++ q.woken.erase t ++ (q.leaving ++ [t])).Perm q.tasks := by
        rw [tasks, waiting, List.append_assoc, List.append_assoc]
        refine List.Perm.append_left q.getters ?_
        rw [← List.append_assoc]
        exact (List.perm_append_singleton t _).trans
          ((List.perm_cons_erase ht).symm.append_right q.leaving)
      exact hp.nodup_iff.mpr h.nodup
    · intro hne
      have hle := h.awake hne
      simp only [List.length_append, List.length_singleton]
      omega
  · constructor
    · exact h.nodup.sublist ((List.erase_sublist.append_right q.woken).append_right q.leaving)
    · intro hne
      refine h.awake fun hnil => hne ?_
      dsimp only
      rw [hnil]
      rfl

theorem cancel_waiting (h : q.Sound) (t : τ) :
    u ∈ (q.cancel t).waiting ↔ u ∈ q.waiting ∧ u ≠ t := by
  have hw : q.waiting.Nodup := (List.nodup_append.mp h.nodup).1
  unfold cancel
  split
  · rename_i ht
    exact mem_erase_woken h.nodup ht
  · rename_i ht
    have hg : q.getters.Nodup := (List.nodup_append.mp hw).1
    simp only [waiting, List.mem_append, hg.mem_erase_iff]
    constructor
    · intro hu
      obtain ⟨hne, hu⟩ | hu := hu
      · exact ⟨.inl hu, hne⟩
      · exact ⟨.inr hu, fun he => ht (he ▸ hu)⟩
    · intro hu
      exact hu.1.imp (fun hg => ⟨hu.2, hg⟩) id

theorem cancel_leaving (q : AsyncQueue τ α) (t : τ) :
    u ∈ (q.cancel t).leaving → u ∈ q.leaving ∨ u = t := by
  unfold cancel
  split
  · intro hu
    simpa using hu
  · exact .inl

@[simp] theorem leave_items (q : AsyncQueue τ α) (t : τ) : (q.leave t).items = q.items := by
  unfold leave
  split
  · split
    · rfl
    · rw [wakeNext_items]
  · rfl

theorem sound_leave (h : q.Sound) (t : τ) : (q.leave t).Sound := by
  have hn : ({ q with leaving := q.leaving.erase t } : AsyncQueue τ α).tasks.Nodup :=
    h.nodup.sublist (List.erase_sublist.append_left q.waiting)
  unfold leave
  split
  · rename_i ht
    have hlen := List.length_erase_of_mem ht
    have hpos := List.length_pos_of_mem ht
    split
    · rename_i hi
      exact ⟨hn, fun _ => by simp [hi]⟩
    · refine ⟨wakeNext_nodup hn, wakeNext_awake fun hne => ?_⟩
      have hle := h.awake hne
      dsimp only
      omega
  · exact h

theorem leave_waiting (q : AsyncQueue τ α) (t : τ) :
    u ∈ (q.leave t).waiting ↔ u ∈ q.waiting := by
  unfold leave
  split
  · split
    · exact Iff.rfl
    · exact (wakeNext_waiting _).mem_iff
  · exact Iff.rfl

theorem leave_leaving (h : q.Sound) (t : τ) :
    u ∈ (q.leave t).leaving ↔ u ∈ q.leaving ∧ u ≠ t := by
  have hl : q.leaving.Nodup := (List.nodup_append.mp h.nodup).2.1
  have hmem : u ∈ q.leaving.erase t ↔ u ∈ q.leaving ∧ u ≠ t := by
    rw [hl.mem_erase_iff, and_comm]
  unfold leave
  split
  · split
    · exact hmem
    · rw [wakeNext_leaving]
      exact hmem
  · rename_i ht
    exact ⟨fun hu => ⟨hu, fun he => ht (he ▸ hu)⟩, fun hu => hu.1⟩

end AsyncQueue
end Wormhole
