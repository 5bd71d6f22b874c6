import Wormhole.Core.Dict
import Wormhole.Core.LTS
import Wormhole.L1Encoding.Json

/-!
# One manager, several wormholes

`WormholeManager` of `src/wh/core/wormhole_manager.py`: the wormhole it has, the versions it
keeps, and the calls under way, each where it waits for the wormhole. Calls may overlap, and
what they wait for comes in any order. A timeout leaves a call waiting: it gives up the
future and not the `Deferred`. `establish_with_fallback` makes the calls `create`, `verify` and
`close` in turn; they are calls here as any other.

`close` forgets the wormhole and not the versions. They belong to the wormhole that they were
received from, and `dilate` takes them for those of the one it is about to dilate.

* `dilated_in_order_iff`: `dilate()` is called on wormholes whose versions were received, along
  a whole run, exactly when no step meets versions of another wormhole (`Meets`).
* `meets_of_once`: no step does as long as the manager creates one wormhole.
-/
namespace Wormhole.L5.Reuse
open Wormhole.L1

/-! ## The manager -/

/-- Where a call waits, and for which wormhole. -/
inductive Task
  /-- For `get_versions()`. -/
  | verifying (wormhole : Nat)
  /-- The same, in `dilate`. -/
  | dilateVerifying (wormhole : Nat)
  /-- For `when_dilated()`. -/
  | dilating (wormhole : Nat)
  | closing (wormhole : Nat)
deriving DecidableEq

def Task.wormhole : Task → Nat
  | .verifying w => w
  | .dilateVerifying w => w
  | .dilating w => w
  | .closing w => w

/-- Wormholes are numbered as they are created. Of the run, the record has those whose versions
were received and those on which `dilate()` was called. -/
structure Manager where
  wormhole : Option Nat
  versions : Option Json
  dilated : Bool
  created : Nat
  tasks : Dict Nat Task
  received : List Nat
  dilateCalls : List Nat

def Manager.init : Manager where
  wormhole := none
  versions := none
  dilated := false
  created := 0
  tasks := Dict.empty
  received := []
  dilateCalls := []

inductive Event
  /-- `create_and_allocate_code`, `create_and_set_code`: the wormhole is created. -/
  | create
  | verify (task : Nat)
  | dilate (task : Nat)
  | close (task : Nat)
  /-- What the task waits for `get_versions()` to give. -/
  | versions (task : Nat) (v : Json)
  /-- What it waits for fails. -/
  | fails (task : Nat)
  | whenDilated (task : Nat)
  | closed (task : Nat)

namespace Manager

/-- `not self._versions` is false. -/
def keepsVersions (m : Manager) : Bool := m.versions.any Json.truthy

/-- `self._wormhole.dilate()`, in `task`, which ends if there is no wormhole.
mirrors src/wh/core/wormhole_manager.py:454-458 -/
def callDilate (m : Manager) (task : Nat) : Manager :=
  match m.wormhole with
  | none => { m with tasks := m.tasks.del task }
  | some w =>
    { m with tasks := m.tasks.set task (.dilating w), dilateCalls := w :: m.dilateCalls }

/-- The versions of `w` have come.
mirrors src/wh/core/wormhole_manager.py:349 -/
def receive (m : Manager) (w : Nat) (v : Json) : Manager :=
  { m with versions := some v, received := w :: m.received }

/-- mirrors src/wh/core/wormhole_manager.py:438-456 -/
def dilate (m : Manager) (task : Nat) : Option Manager :=
  match m.wormhole with
  | none => none
  | some w =>
    if m.keepsVersions then some (m.callDilate task)
    else some { m with tasks := m.tasks.set task (.dilateVerifying w) }

/-- mirrors src/wh/core/wormhole_manager.py:567-582 -/
def forget (m : Manager) : Manager := { m with wormhole := none, dilated := false }

/-- `none`: the call raises at once or has nothing to do, or there is no such task. -/
def step (m : Manager) : Event → Option Manager
  | .create => some { m with wormhole := some m.created, created := m.created + 1 }
  | .verify t =>
    match m.tasks.get? t, m.wormhole with
    | none, some w => some { m with tasks := m.tasks.set t (.verifying w) }
    | _, _ => none
  | .dilate t =>
    match m.tasks.get? t with
    | none => m.dilate t
    | some _ => none
  | .close t =>
    match m.tasks.get? t, m.wormhole with
    | none, some w => some { m with tasks := m.tasks.set t (.closing w) }
    | _, _ => none
  | .versions t v =>
    match m.tasks.get? t with
    | some (.verifying w) => some { m.receive w v with tasks := m.tasks.del t }
    | some (.dilateVerifying w) => some ((m.receive w v).callDilate t)
    | _ => none
  | .fails t =>
    match m.tasks.get? t with
    | some (.closing _) => some { m.forget with tasks := m.tasks.del t }
    | some _ => some { m with tasks := m.tasks.del t }
    | none => none
  | .whenDilated t =>
    match m.tasks.get? t with
    | some (.dilating _) => some { m with dilated := true, tasks := m.tasks.del t }
    | _ => none
  | .closed t =>
    match m.tasks.get? t with
    | some (.closing _) => some { m.forget with tasks := m.tasks.del t }
    | _ => none

end Manager

def system : LTS Manager Event := .ofStep (· = .init) Manager.step

/-! ## In order -/

/-- `dilate()` was called only on wormholes whose versions had been received. -/
def InOrder (m : Manager) : Prop := ∀ w ∈ m.dilateCalls, w ∈ m.received

/-- A `dilate` that finds versions finds some of the wormhole at hand; one that waited for the
versions of a wormhole goes on with this wormhole, or with one whose versions came before. -/
def Meets (m : Manager) : Event → Prop
  | .dilate _ => m.keepsVersions = true → ∀ w, m.wormhole = some w → w ∈ m.received
  | .versions t _ => ∀ w, m.tasks.get? t = some (.dilateVerifying w) →
      ∀ w', m.wormhole = some w' → w' = w ∨ w' ∈ m.received
  | _ => True

section Steps

variable {m m' : Manager} {e : Event}

theorem inOrder_callDilate (h : InOrder m) (t : Nat) :
    InOrder (m.callDilate t) ↔ ∀ w, m.wormhole = some w → w ∈ m.received := by
  unfold Manager.callDilate InOrder at *
  cases m.wormhole with
  | none => simpa using h
  | some w =>
    simp only [List.mem_cons, forall_eq_or_imp, Option.some.injEq, forall_eq']
    exact and_iff_left h

theorem InOrder.receive (h : InOrder m) (w : Nat) (v : Json) : InOrder (m.receive w v) :=
  fun w' hw' => List.mem_cons_of_mem w (h w' hw')

/-- Everything a step does. The conditions of `Meets` are about `dilates` and `goesOn`. -/
inductive Move (m : Manager) (e : Event) : Manager → Prop
  | created (hm : Meets m e) :
      Move m e { m with wormhole := some m.created, created := m.created + 1 }
  | waits (t : Nat) (task : Task) (hw : m.wormhole = some task.wormhole) (hm : Meets m e) :
      Move m e { m with tasks := m.tasks.set t task }
  | ended (t : Nat) (dilated : Bool) (hm : Meets m e) :
      Move m e { m with dilated := dilated, tasks := m.tasks.del t }
  | forgot (t : Nat) (hm : Meets m e) : Move m e { m.forget with tasks := m.tasks.del t }
  | verified (t w : Nat) (v : Json) (ht : m.tasks.get? t = some (.verifying w)) (hm : Meets m e) :
      Move m e { m.receive w v with tasks := m.tasks.del t }
  | dilates (t : Nat) (hk : m.keepsVersions = true)
      (hm : Meets m e ↔ ∀ w, m.wormhole = some w → w ∈ m.received) : Move m e (m.callDilate t)
  | goesOn (t w : Nat) (v : Json) (ht : m.tasks.get? t = some (.dilateVerifying w))
      (hm : Meets m e ↔ ∀ w', m.wormhole = some w' → w' = w ∨ w' ∈ m.received) :
      Move m e ((m.receive w v).callDilate t)

theorem dilate_move {t : Nat} (hs : m.dilate t = some m') : Move m (.dilate t) m' := by
  unfold Manager.dilate at hs
  split at hs
  · cases hs
  · rename_i w hw
    split at hs
    · rename_i hk
      cases hs
      exact .dilates t hk ⟨fun h => h hk, fun h _ => h⟩
    · rename_i hk
      cases hs
      exact .waits t (.dilateVerifying w) hw fun h => absurd h hk

theorem versions_move {t : Nat} {v : Json} (hs : m.step (.versions t v) = some m') :
    Move m (.versions t v) m' := by
  simp only [Manager.step] at hs
  split at hs
  · rename_i w ht
    cases hs
    refine .verified t w v ht fun w' hw' => ?_
    rw [ht] at hw'
    cases hw'
  · rename_i w ht
    cases hs
    refine .goesOn t w v ht ⟨fun h => h w ht, fun h w' hw' => ?_⟩
    rw [ht] at hw'
    cases hw'
    exact h
  · cases hs

theorem step_move (hs : m.step e = some m') : Move m e m' := by
  cases e with
  | create =>
    cases hs
    exact .created trivial
  | verify t =>
    simp only [Manager.step] at hs
    split at hs
    · rename_i w _ hw
      cases hs
      exact .waits t (.verifying w) hw trivial
    · cases hs
  | dilate t =>
    simp only [Manager.step] at hs
    split at hs
    · exact dilate_move hs
    · cases hs
  | close t =>
    simp only [Manager.step] at hs
    split at hs
    · rename_i w _ hw
      cases hs
      exact .waits t (.closing w) hw trivial
    · cases hs
  | versions t v => exact versions_move hs
  | fails t =>
    simp only [Manager.step] at hs
    split at hs
    · cases hs
      exact .forgot t trivial
    · cases hs
      exact .ended t m.dilated trivial
    · cases hs
  | whenDilated t =>
    simp only [Manager.step] at hs
    split at hs
    · cases hs
      exact .ended t true trivial
    · cases hs
  | closed t =>
    simp only [Manager.step] at hs
    split at hs
    · cases hs
      exact .forgot t trivial
    · cases hs

/-- One step calls `dilate()` out of order just when it does not meet `Meets`. -/
theorem inOrder_step (h : InOrder m) (hs : m.step e = some m') : InOrder m' ↔ Meets m e := by
  cases step_move hs with
  | created hm => exact iff_of_true h hm
  | waits t task hw hm => exact iff_of_true h hm
  | ended t dilated hm => exact iff_of_true h hm
  | forgot t hm => exact iff_of_true h hm
  | verified t w v ht hm => exact iff_of_true (h.receive w v) hm
  | dilates t hk hm => rw [hm, inOrder_callDilate h]
  | goesOn t w v ht hm =>
    rw [hm, inOrder_callDilate (h.receive w v)]
    simp [Manager.receive]

end Steps

/-! ## One wormhole -/

/-- Everything is about wormholes that were created, and the versions that are kept were
received. -/
structure Inv (m : Manager) : Prop where
  current : ∀ w, m.wormhole = some w → w < m.created
  tasks : ∀ t task, m.tasks.get? t = some task → task.wormhole < m.created
  kept : m.versions.isSome = true → ∃ w ∈ m.received, w < m.created

section Once

variable {m m' : Manager} {e : Event}

theorem tasks_set (h : Inv m) (t : Nat) {task : Task} (ht : task.wormhole < m.created) :
    ∀ t' task', (m.tasks.set t task).get? t' = some task' → task'.wormhole < m.created := by
  intro t' task' hget
  rw [Dict.get?_set] at hget
  split at hget
  · cases hget
    exact ht
  · exact h.tasks t' task' hget

theorem tasks_del (h : Inv m) (t : Nat) :
    ∀ t' task', (m.tasks.del t).get? t' = some task' → task'.wormhole < m.created := by
  intro t' task' hget
  rw [Dict.get?_del] at hget
  split at hget
  · cases hget
  · exact h.tasks t' task' hget

theorem Inv.callDilate (h : Inv m) (t : Nat) : Inv (m.callDilate t) := by
  unfold Manager.callDilate
  split
  · exact ⟨h.current, tasks_del h t, h.kept⟩
  · rename_i w hw
    exact ⟨h.current, tasks_set h t (h.current w hw), h.kept⟩

theorem Inv.receive (h : Inv m) {w : Nat} (hw : w < m.created) (v : Json) :
    Inv (m.receive w v) :=
  ⟨h.current, h.tasks, fun _ => ⟨w, List.mem_cons_self, hw⟩⟩

theorem Inv.forget (h : Inv m) (t : Nat) : Inv { m.forget with tasks := m.tasks.del t } := by
  refine ⟨?_, tasks_del h t, h.kept⟩
  intro w hw
  cases hw

theorem inv_step (h : Inv m) (hs : m.step e = some m') : Inv m' := by
  cases step_move hs with
  | created _ =>
    refine ⟨?_, ?_, ?_⟩
    · intro w hw
      cases hw
      exact Nat.lt_succ_self _
    · exact fun t task ht => Nat.lt_succ_of_lt (h.tasks t task ht)
    · intro hv
      obtain ⟨w, hw, hlt⟩ := h.kept hv
      exact ⟨w, hw, Nat.lt_succ_of_lt hlt⟩
  | waits t task hw _ => exact ⟨h.current, tasks_set h t (h.current _ hw), h.kept⟩
  | ended t dilated _ => exact ⟨h.current, tasks_del h t, h.kept⟩
  | forgot t _ => exact h.forget t
  | verified t w v ht _ =>
    have hr := h.receive (h.tasks t _ ht) v
    exact ⟨hr.current, tasks_del hr t, hr.kept⟩
  | dilates t _ _ => exact h.callDilate t
  | goesOn t w v ht _ => exact (h.receive (h.tasks t _ ht) v).callDilate t

theorem inv_init : Inv .init := by
  refine ⟨?_, ?_, ?_⟩
  · intro w hw
    cases hw
  · intro t task ht
    cases ht
  · intro hv
    cases hv

theorem meets_of_one (h : Inv m) (hone : m.created ≤ 1) : Meets m e := by
  cases e with
  | dilate t =>
    intro hkeeps w hw
    have hsome : m.versions.isSome = true := by
      unfold Manager.keepsVersions at hkeeps
      cases hv : m.versions with
      | none => rw [hv] at hkeeps; cases hkeeps
      | some v => rfl
    obtain ⟨w', hw', hlt⟩ := h.kept hsome
    have hcur := h.current w hw
    have hsame : w = w' := by omega
    exact hsame ▸ hw'
  | versions t v =>
    intro w ht w' hw'
    have hcur := h.current w' hw'
    have htask : w < m.created := h.tasks t _ ht
    left
    omega
  | _ => trivial

@[simp] theorem callDilate_created (m : Manager) (t : Nat) :
    (m.callDilate t).created = m.created := by
  unfold Manager.callDilate
  split <;> rfl

theorem created_step (hs : m.step e = some m') : m.created ≤ m'.created := by
  cases step_move hs with
  | created _ => exact Nat.le_succ _
  | dilates t _ _ => rw [callDilate_created]
  | goesOn t w v _ _ =>
    rw [callDilate_created]
    exact le_refl _
  | _ => exact le_refl _

end Once

/-- As long as one wormhole was created, the versions that are found or awaited are its own. -/
theorem meets_of_once {events : List Event} {m : Manager} (hr : system.Run .init events m)
    (hone : m.created ≤ 1) : (system.restrict Meets).Run .init events m := by
  have hinv : (system.restrict fun m _ => Inv m).Run .init events m := by
    refine (LTS.Run.restrict_iff_restrict (C := fun _ _ => True) (I := Inv) ?_ ?_ inv_init).mp
      hr.restrict_true
    · exact fun m e m' h _ hs => inv_step h hs
    · exact fun m e m' h _ => iff_of_true trivial h
  have hback : ∀ m e m', system.step m e m' → m'.created ≤ 1 → m.created ≤ 1 :=
    fun _ _ _ hs hle => (created_step hs).trans hle
  exact (hinv.restrict_mono (K := fun m => m.created ≤ 1) hback
    (fun m e hle h => meets_of_one h hle) hone).1

/-! ## Runs -/

theorem inOrder_init : InOrder .init := fun _ hw => absurd hw List.not_mem_nil

/-- **Dilation waits for the current peer**, along a whole run, exactly when no `dilate` finds
or awaits the versions of another wormhole than the one it dilates. -/
theorem dilated_in_order_iff {events : List Event} {m : Manager}
    (hr : system.Run .init events m) :
    (∀ done m', done <+: events → system.Run .init done m' → InOrder m') ↔
      (system.restrict Meets).Run .init events m := by
  refine LTS.Run.prefixes_iff (I := fun _ => True) (fun _ _ _ _ _ => trivial) ?_ hr trivial
    inOrder_init
  intro m e m' _ h hs
  exact inOrder_step h hs

/-- What a peer sends, `{"wh.tools/v1": {}}`. -/
def peerVersions : Json := .obj [("wh.tools/v1", .obj [])]

/-- Connected, dilated and closed. -/
def firstUse : List Event :=
  [.create, .verify 0, .versions 0 peerVersions, .dilate 1, .whenDilated 1, .close 2, .closed 2]

/-- Connected again, with `verify` before `dilate`. -/
def secondUse : List Event :=
  firstUse ++ [Event.create, .verify 3, .versions 3 peerVersions, .dilate 4]

def meets (m : Manager) : Event → Bool
  | .dilate _ => !m.keepsVersions || m.wormhole.all fun w => m.received.contains w
  | .versions t _ =>
    match m.tasks.get? t with
    | some (.dilateVerifying w) => m.wormhole.all fun w' => w' = w || m.received.contains w'
    | _ => true
  | _ => true

theorem meets_of_check (m : Manager) (e : Event) (h : meets m e = true) : Meets m e := by
  cases e with
  | dilate t =>
    intro hkeeps w hw
    simpa [meets, hkeeps, hw] using h
  | versions t v =>
    intro w ht w' hw'
    simpa [meets, ht, hw'] using h
  | _ => trivial

def secondManager : Manager := LTS.after (LTS.checked meets Manager.step) .init secondUse

theorem dilated_in_order_twice : InOrder secondManager ∧ secondManager.dilateCalls = [1, 0] := by
  have hmeets : (system.restrict Meets).Run .init secondUse secondManager :=
    LTS.restrict_run_of_exec meets_of_check (LTS.exec_after (by decide +kernel))
  have hrun : system.Run .init secondUse secondManager := hmeets.of_restrict
  exact ⟨(dilated_in_order_iff hrun).mpr hmeets _ _ (List.prefix_refl _) hrun, by decide +kernel⟩

/-- The second time without. -/
def staleUse : List Event := firstUse ++ [Event.create, .dilate 3]

def staleManager : Manager := LTS.after Manager.step .init staleUse

/-- `dilate()` is called on the second wormhole, whose versions were never received. -/
theorem stale_versions_dilate :
    system.Run .init staleUse staleManager ∧
    staleManager.dilateCalls = [1, 0] ∧ staleManager.received = [0] ∧ ¬InOrder staleManager := by
  have hcalls : staleManager.dilateCalls = [1, 0] := by decide +kernel
  have hreceived : staleManager.received = [0] := by decide +kernel
  refine ⟨LTS.run_of_exec (LTS.exec_after (by decide +kernel)), hcalls, hreceived, ?_⟩
  intro h
  have hmem := h 1 (by rw [hcalls]; exact List.mem_cons_self)
  rw [hreceived] at hmem
  exact absurd hmem (by decide)

end Wormhole.L5.Reuse
