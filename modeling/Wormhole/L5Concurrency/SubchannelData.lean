import Wormhole.Core.LTS
import Wormhole.L4App.Dilation

/-!
# Data on a subchannel, and who takes it

The subchannels of one side (`Wormhole.L4.Dilation`), how they come to the application, and what
it is given of the data on them. A subchannel that the peer opens goes through a
`SubchannelListener` of `packages/dilation/src/index.js`, where it waits for an `accept`. One that
is opened here is returned when the record that opens it has been sent. Data may come meanwhile.

What came before `onData` is in the buffer, and only `read` takes it from there.

* `delivered_iff`: along a whole run, whoever has set `onData` or has emptied the buffer has been
  given what came, in order, exactly when nobody sets `onData` while the buffer has data (`Meets`).
-/
namespace Wormhole.L5.SubchannelData
open Wormhole.L1 Wormhole.L4.Dilation

/-! ## One subchannel -/

/-- A subchannel, with the payloads of the records it received and the chunks that `onData` and
`read` gave, both in order. -/
structure Stream where
  subchannel : Subchannel
  received : List Bytes
  given : List Bytes

namespace Stream

def create (id : Nat) (protocol : String) (isInitiator : Bool) : Stream :=
  ⟨.create id protocol isInitiator, [], []⟩

def receive (data : Bytes) (s : Stream) : Stream where
  subchannel := s.subchannel.receiveData data
  received := s.received ++ [data]
  given := s.given ++ s.subchannel.handed data

/-- `onData = handler`, which may be `null`. -/
def assign (handler : Bool) (s : Stream) : Stream :=
  { s with subchannel := { s.subchannel with onData := handler } }

def read (s : Stream) : Stream :=
  { s with subchannel := s.subchannel.read.2, given := s.given ++ s.subchannel.read.1.toList }

/-- Whoever listens, or has read all there is, was given what came. -/
def Complete (s : Stream) : Prop :=
  s.subchannel.onData = true ∨ s.subchannel.hasData = false → s.given = s.received

/-- What was given and what is buffered is what came, and nothing is buffered for one who
listens. -/
structure InOrder (s : Stream) : Prop where
  whole : s.given ++ s.subchannel.receiveBuffer = s.received
  listens : s.subchannel.onData = true → s.subchannel.receiveBuffer = []

variable {s : Stream}

theorem hasData_eq_false {s : Subchannel} : s.hasData = false ↔ s.receiveBuffer = [] := by
  unfold Subchannel.hasData
  simp

theorem inOrder_create (id : Nat) (protocol : String) (isInitiator : Bool) :
    (create id protocol isInitiator).InOrder := ⟨rfl, fun _ => rfl⟩

theorem InOrder.complete (h : s.InOrder) : s.Complete := by
  intro hdone
  have hnil : s.subchannel.receiveBuffer = [] := by
    rcases hdone with hon | hdata
    · exact h.listens hon
    · exact hasData_eq_false.mp hdata
  have hwhole := h.whole
  rwa [hnil, List.append_nil] at hwhole

theorem InOrder.receive (h : s.InOrder) (data : Bytes) : (s.receive data).InOrder := by
  cases hon : s.subchannel.onData with
  | true =>
    have hnil := h.listens hon
    have hgiven : s.given = s.received := h.complete (.inl hon)
    refine ⟨?_, ?_⟩
    · simp [Stream.receive, Subchannel.receiveData, Subchannel.handed, hon, hnil, hgiven]
    · simp [Stream.receive, Subchannel.receiveData, hon, hnil]
  | false =>
    refine ⟨?_, ?_⟩
    · simp [Stream.receive, Subchannel.receiveData, Subchannel.handed, hon, ← h.whole]
    · simp [Stream.receive, Subchannel.receiveData, hon]

theorem InOrder.read (h : s.InOrder) : s.read.InOrder := by
  cases hb : s.subchannel.receiveBuffer with
  | nil =>
    refine ⟨?_, ?_⟩
    · simpa [Stream.read, Subchannel.read, hb] using h.whole
    · simp [Stream.read, Subchannel.read, hb]
  | cons chunk rest =>
    refine ⟨?_, ?_⟩
    · simpa [Stream.read, Subchannel.read, hb] using h.whole
    · intro hon
      have hnil := h.listens hon
      rw [hb] at hnil
      cases hnil

theorem inOrder_assign (h : s.InOrder) (handler : Bool) :
    (s.assign handler).InOrder ↔ (handler = true → s.subchannel.hasData = false) := by
  rw [hasData_eq_false]
  exact ⟨fun ha => ha.listens, fun hm => ⟨h.whole, hm⟩⟩

/-- What is in the buffer when `onData` is set is missing. -/
theorem InOrder.of_assign (h : s.InOrder) {handler : Bool} (hc : (s.assign handler).Complete) :
    (s.assign handler).InOrder := by
  refine ⟨h.whole, ?_⟩
  intro hon
  have hgiven : s.given = s.received := hc (.inl hon)
  have hwhole := h.whole
  rw [hgiven] at hwhole
  exact List.append_right_eq_self.mp hwhole

end Stream

/-! ## One side -/

/-- Subchannels are numbered as they are made. `held` has those that the application was given,
`connecting` those that `openSubchannel` is to return; `waitingResolvers` is how many calls of
`accept` wait. -/
structure Side where
  streams : Nat → Stream
  made : Nat
  connecting : List Nat
  pendingConnections : List Nat
  waitingResolvers : Nat
  held : List Nat

def Side.init : Side where
  streams := fun _ => .create 0 "" false
  made := 0
  connecting := []
  pendingConnections := []
  waitingResolvers := 0
  held := []

inductive Event
  | openSubchannel (id : Nat) (protocol : String)
  /-- The call of `openSubchannel` returns. -/
  | returns (r : Nat)
  /-- The peer opens a subchannel. -/
  | opened (id : Nat) (protocol : String)
  | accept
  | data (r : Nat) (payload : Bytes)
  | onData (r : Nat) (handler : Bool)
  | read (r : Nat)

namespace Side

def upd (s : Side) (r : Nat) (f : Stream → Stream) : Side :=
  { s with streams := fun q => if q = r then f (s.streams q) else s.streams q }

/-- A new subchannel. -/
def make (s : Side) (stream : Stream) : Side :=
  { s with
    streams := fun q => if q = s.made then stream else s.streams q
    made := s.made + 1 }

/-- The listener's callback.
mirrors packages/dilation/src/index.js:958-965 (`listen`) -/
def notify (s : Side) (r : Nat) : Side :=
  match s.waitingResolvers with
  | n + 1 => { s with waitingResolvers := n, held := r :: s.held }
  | 0 => { s with pendingConnections := s.pendingConnections ++ [r] }

/-- mirrors packages/dilation/src/index.js:972-980 -/
def accept (s : Side) : Side :=
  match s.pendingConnections with
  | r :: rest => { s with pendingConnections := rest, held := r :: s.held }
  | [] => { s with waitingResolvers := s.waitingResolvers + 1 }

def step (s : Side) : Event → Option Side
  | .openSubchannel id protocol => some
    { s.make (.create id protocol true) with connecting := s.made :: s.connecting }
  | .returns r =>
    if r ∈ s.connecting then
      some { s with connecting := s.connecting.erase r, held := r :: s.held }
    else none
  | .opened id protocol => some ((s.make (.create id protocol false)).notify s.made)
  | .accept => some s.accept
  | .data r payload => if r < s.made then some (s.upd r (.receive payload)) else none
  | .onData r handler => if r ∈ s.held then some (s.upd r (.assign handler)) else none
  | .read r => if r ∈ s.held then some (s.upd r .read) else none

end Side

def system : LTS Side Event := .ofStep (· = .init) Side.step

/-! ## Runs -/

def Delivered (s : Side) : Prop := ∀ r, (s.streams r).Complete

def InOrder (s : Side) : Prop := ∀ r, (s.streams r).InOrder

/-- The buffer has no data when `onData` is set. -/
def Meets (s : Side) : Event → Prop
  | .onData r handler => handler = true → (s.streams r).subchannel.hasData = false
  | _ => True

section Steps

variable {s s' : Side} {e : Event}

@[simp] theorem notify_streams (s : Side) (r : Nat) : (s.notify r).streams = s.streams := by
  unfold Side.notify
  split <;> rfl

@[simp] theorem accept_streams (s : Side) : s.accept.streams = s.streams := by
  unfold Side.accept
  split <;> rfl

theorem InOrder.make (h : InOrder s) {stream : Stream} (hs : stream.InOrder) :
    InOrder (s.make stream) := by
  intro r
  simp only [Side.make]
  split
  · exact hs
  · exact h r

theorem inOrder_upd (h : InOrder s) (r : Nat) (f : Stream → Stream) :
    InOrder (s.upd r f) ↔ (f (s.streams r)).InOrder := by
  constructor
  · intro hu
    simpa [Side.upd] using hu r
  · intro hf q
    simp only [Side.upd]
    split
    · rename_i hq
      exact hq ▸ hf
    · exact h q

/-- A step keeps the order just when it does not set `onData` on a buffer with data. -/
theorem inOrder_step (h : InOrder s) (hs : s.step e = some s') : InOrder s' ↔ Meets s e := by
  cases e with
  | openSubchannel id protocol =>
    cases hs
    exact iff_of_true (h.make (Stream.inOrder_create id protocol true)) trivial
  | returns r =>
    simp only [Side.step] at hs
    split at hs
    · cases hs
      exact iff_of_true h trivial
    · cases hs
  | opened id protocol =>
    cases hs
    refine iff_of_true (fun r => ?_) trivial
    rw [notify_streams]
    exact h.make (Stream.inOrder_create id protocol false) r
  | accept =>
    cases hs
    refine iff_of_true (fun r => ?_) trivial
    rw [accept_streams]
    exact h r
  | data r payload =>
    simp only [Side.step] at hs
    split at hs
    · cases hs
      exact iff_of_true ((inOrder_upd h r _).mpr ((h r).receive payload)) trivial
    · cases hs
  | onData r handler =>
    simp only [Side.step] at hs
    split at hs
    · cases hs
      rw [inOrder_upd h, Stream.inOrder_assign (h r)]
      rfl
    · cases hs
  | read r =>
    simp only [Side.step] at hs
    split at hs
    · cases hs
      exact iff_of_true ((inOrder_upd h r _).mpr (h r).read) trivial
    · cases hs

/-- A step that delivers keeps the order. -/
theorem inOrder_of_delivered (h : InOrder s) (hs : s.step e = some s') (hd : Delivered s') :
    InOrder s' := by
  rw [inOrder_step h hs]
  cases e with
  | onData r handler =>
    simp only [Side.step] at hs
    split at hs
    · cases hs
      have hr := hd r
      simp only [Side.upd, if_true] at hr
      exact (Stream.inOrder_assign (h r) handler).mp ((h r).of_assign hr)
    · cases hs
  | _ => trivial

end Steps

theorem inOrder_init : InOrder .init := fun _ => Stream.inOrder_create 0 "" false

/-- A run that delivers all along keeps the order. -/
theorem inOrder_of_prefixes {events done : List Event} {s : Side}
    (h : ∀ done s', done <+: events → system.Run .init done s' → Delivered s')
    (hdone : done <+: events) (hr : system.Run .init done s) : InOrder s :=
  hr.strengthen (P := Delivered) (Q := InOrder)
    (fun _ _ _ hs hst hd => inOrder_of_delivered hs hst hd) inOrder_init
    fun ks u hk hu => h ks u (hk.trans hdone) hu

theorem inOrder_iff {events : List Event} {s : Side} (hr : system.Run .init events s) :
    (∀ done s', done <+: events → system.Run .init done s' → InOrder s') ↔
      (system.restrict Meets).Run .init events s := by
  refine LTS.Run.prefixes_iff (I := fun _ => True) (fun _ _ _ _ _ => trivial) ?_ hr trivial
    inOrder_init
  intro s e s' _ h hs
  exact inOrder_step h hs

/-- **Data reaches its consumer once and in order**, along a whole run, exactly when `onData` is
set on empty buffers only. -/
theorem delivered_iff {events : List Event} {s : Side} (hr : system.Run .init events s) :
    (∀ done s', done <+: events → system.Run .init done s' → Delivered s') ↔
      (system.restrict Meets).Run .init events s := by
  rw [← inOrder_iff hr]
  constructor
  · intro h done s' hdone hrun
    exact inOrder_of_prefixes h hdone hrun
  · intro h done s' hdone hrun r
    exact (h done s' hdone hrun r).complete

/-- What came before `accept` is read before `onData` is set. -/
def readRun : List Event :=
  [.opened 2 "chat", .data 0 [], .data 0 [1], .accept, .read 0, .read 0, .onData 0 true,
    .data 0 [2]]

instance : ∀ s e, Decidable (Meets s e)
  | s, .onData r handler =>
    inferInstanceAs (Decidable (handler = true → (s.streams r).subchannel.hasData = false))
  | _, .openSubchannel _ _ => isTrue trivial
  | _, .returns _ => isTrue trivial
  | _, .opened _ _ => isTrue trivial
  | _, .accept => isTrue trivial
  | _, .data _ _ => isTrue trivial
  | _, .read _ => isTrue trivial

def readSide : Side :=
  LTS.after (LTS.checked (fun s e => decide (Meets s e)) Side.step) .init readRun

theorem delivered_after_read :
    Delivered readSide ∧ (readSide.streams 0).given = [[], [1], [2]] := by
  have hmeets : (system.restrict Meets).Run .init readRun readSide :=
    LTS.restrict_run_of_decide (LTS.exec_after (by decide +kernel))
  have hrun : system.Run .init readRun readSide := hmeets.of_restrict
  exact ⟨(delivered_iff hrun).mpr hmeets _ _ (List.prefix_refl _) hrun, by decide +kernel⟩

/-- Nobody reads it. -/
def acceptRun : List Event :=
  [.opened 2 "chat", .data 0 [1], .accept, .onData 0 true, .data 0 [2]]

def acceptSide : Side := LTS.after Side.step .init acceptRun

/-- `onData` is given the second chunk and not the first. -/
theorem early_chunk_missing :
    system.Run .init acceptRun acceptSide ∧ ¬Delivered acceptSide ∧
      (acceptSide.streams 0).received = [[1], [2]] ∧ (acceptSide.streams 0).given = [[2]] := by
  have hreceived : (acceptSide.streams 0).received = [[1], [2]] := by decide +kernel
  have hgiven : (acceptSide.streams 0).given = [[2]] := by decide +kernel
  refine ⟨LTS.run_of_exec (LTS.exec_after (by decide +kernel)), ?_, hreceived, hgiven⟩
  intro h
  have heq := h 0 (.inl (by decide +kernel))
  rw [hreceived, hgiven] at heq
  exact absurd heq (by decide)

end Wormhole.L5.SubchannelData
