import Wormhole.Core.LTS
import Wormhole.L4App.Dilation

/-!
# The state of a wormhole

`Wormhole.state` is written by `dilate`, by `close`, and by the callback each
`DilationManager` got from `dilate`: the manager is CONNECTED, the wormhole is
DILATED; the manager has FAILED, the wormhole falls back to CONNECTED. `close`
stops the manager but disarms nothing: neither the manager's ten-second timer,
nor a `dilate` call that has not returned, nor a message that is being
decrypted.

An `Attempt` is one `DilationManager` together with the `dilate` call that made
it. A wormhole that fell back to CONNECTED may dilate again, and the manager of
the first attempt lives on.

* `wf_reachable`: what the events of an attempt keep true.
* `rest_step`: once closed, with every attempt at rest, nothing is left that
  writes the state.
* `stays_closed_iff`: so the wormhole stays closed in every continuation exactly
  when every attempt is at rest as `close` resolves.
* `timer_reopens`: a wormhole that was closed five seconds after it dilated is
  CONNECTED again five seconds later.
-/
namespace Wormhole.L5.WormholeState
open Wormhole.L4.Dilation

/-- mirrors packages/protocol/src/index.js:20-30 -/
inductive WState
  | disconnected
  | allocating
  | waiting
  | exchanging
  | connected
  | dilating
  | dilated
  | failed
  | closed
  deriving DecidableEq

/-- Where the `dilate` call of an attempt is: deriving the key, sending PLEASE,
in `_waitForConnection`, with its promise settled, returned. -/
inductive Call
  | key
  | please
  | waiting
  | resolved
  | rejected
  | done
  deriving DecidableEq

/-- A manager. `handling` counts the dilation messages that are being
decrypted; `controlChannel` is `none` for `null`. -/
structure Attempt where
  state : DilationState
  call : Call
  timer : Bool
  messageHandler : Bool
  handling : Nat
  peerConnection : Bool
  controlChannel : Option ReadyState

/-- Where a `close` call waits: for `dilation.close()` or for `mailbox.close()`. -/
inductive Closing
  | dilation
  | mailbox
  deriving DecidableEq

/-- `dilation` and `mailbox` are the fields of the wormhole, `listening` says
that the mailbox client still receives. `reports` has every state that
`onStateChange` was called with. -/
structure St where
  state : WState
  reports : List WState
  isDilated : Bool
  dilation : Option Nat
  mailbox : Bool
  listening : Bool
  attempt : Nat → Attempt
  attempts : Nat
  closings : List Closing

def St.upd (s : St) (i : Nat) (f : Attempt → Attempt) : St :=
  { s with attempt := fun j => if j = i then f (s.attempt j) else s.attempt j }

/-- mirrors packages/protocol/src/index.js:562-569 (`Wormhole.setState`) -/
def St.setState (s : St) (new : WState) : St :=
  { s with state := new, reports := if s.state = new then s.reports else s.reports ++ [new] }

/-- The callback that `dilate` installs.

mirrors packages/protocol/src/index.js:467-479 -/
def onStateChange (s : St) (new : DilationState) : St :=
  match new with
  | .connected => { s with isDilated := true }.setState .dilated
  | .failed => s.setState .connected
  | _ => s

/-- `checkState` in `_waitForConnection`.

mirrors packages/dilation/src/index.js:208-214 -/
def checkState (new : DilationState) (a : Attempt) : Attempt :=
  if a.call = .waiting then
    match new with
    | .connected => { a with call := .resolved }
    | .failed => { a with call := .rejected }
    | .stopped => { a with call := .rejected }
    | _ => a
  else a

/-- mirrors packages/dilation/src/index.js:737-745 (`DilationManager.setState`)
with the listener that `_waitForConnection` puts around the callback (:219-224) -/
def setDilationState (s : St) (i : Nat) (new : DilationState) : St :=
  if (s.attempt i).state = new then s
  else (onStateChange (s.upd i fun a => { a with state := new }) new).upd i (checkState new)

/-! ## Steps -/

inductive Ice
  | failed
  | disconnected
  | other
  deriving DecidableEq

inductive Lbl
  | dilate
  | derived (i : Nat)
  | added (i : Nat) (ok : Bool)
  | proceed (i : Nat)
  | timeout (i : Nat)
  | message (i : Nat)
  | please (i : Nat) (leader : Bool)
  | ignored (i : Nat)
  | datachannel (i : Nat)
  | opened (i : Nat)
  | channelClosed (i : Nat)
  | ice (i : Nat) (ev : Ice)
  | close
  | closeDilation
  | closeMailbox
  | socketClosed
  deriving DecidableEq

/-- A manager whose `dilate` has got as far as deriving the key. -/
def Attempt.create : Attempt := ⟨.waiting, .key, false, false, 0, false, none⟩

/-- mirrors packages/protocol/src/index.js:443-499 (`dilate`) -/
def dilate (s : St) : St :=
  if s.state ≠ .connected then s
  else if s.isDilated then s
  else if s.mailbox then
    { (s.setState .dilating).upd s.attempts fun _ => .create with
      dilation := some s.attempts
      attempts := s.attempts + 1 }
  else (s.setState .dilating).setState .connected

/-- mirrors packages/dilation/src/index.js:760-787 (`DilationManager.close`) -/
def closeManager (s : St) (i : Nat) : St :=
  setDilationState
    (s.upd i fun a =>
      { a with messageHandler := false, peerConnection := false, controlChannel := none })
    i .stopped

/-- The rest of `Wormhole.close` once the dilation is closed: on to the mailbox,
or to the end.

mirrors packages/protocol/src/index.js:544-557 -/
def closeNext (s : St) (rest : List Closing) : St :=
  if s.mailbox then { s with closings := rest ++ [.mailbox] }
  else { s with closings := rest }.setState .closed

/-- mirrors packages/dilation/src/index.js:206-235 (`_waitForConnection`) -/
def waitForConnection (a : Attempt) : Attempt :=
  checkState a.state { a with call := .waiting, timer := true }

/-- An event of attempt `i`. -/
def attemptStep (s : St) (i : Nat) : Lbl → Option St
  | .derived _ =>
    if (s.attempt i).call = .key then
      some (s.upd i fun a => { a with messageHandler := true, call := .please })
    else none
  | .added _ ok =>
    if (s.attempt i).call = .please then
      some (s.upd i fun a => if ok then waitForConnection a else { a with call := .rejected })
    else none
  | .proceed _ =>
    match (s.attempt i).call with
    | .resolved => some (s.upd i fun a => { a with call := .done })
    | .rejected => some ((s.upd i fun a => { a with call := .done }).setState .connected)
    | _ => none
  | .timeout _ =>
    if (s.attempt i).timer then
      let s' := s.upd i fun a => { a with timer := false }
      some (if (s.attempt i).state = .connected then s' else setDilationState s' i .failed)
    else none
  | .message _ =>
    if (s.attempt i).messageHandler ∧ s.listening then
      some (s.upd i fun a => { a with handling := a.handling + 1 })
    else none
  | .please _ leader =>
    if 0 < (s.attempt i).handling then
      let s' := setDilationState (setDilationState
        (s.upd i fun a => { a with handling := a.handling - 1 }) i .wanting) i .connecting
      some (s'.upd i fun a =>
        { a with
          peerConnection := true
          controlChannel := if leader then some .connecting else a.controlChannel })
    else none
  | .ignored _ =>
    if 0 < (s.attempt i).handling then
      some (s.upd i fun a => { a with handling := a.handling - 1 })
    else none
  | .datachannel _ =>
    if (s.attempt i).peerConnection then
      some (s.upd i fun a => { a with controlChannel := some .connecting })
    else none
  | .opened _ =>
    if (s.attempt i).controlChannel = some .connecting then
      some (setDilationState (s.upd i fun a => { a with controlChannel := some .opened }) i
        .connected)
    else none
  | .channelClosed _ =>
    if (s.attempt i).controlChannel.isSome then
      let s' := s.upd i fun a => { a with controlChannel := some .closed }
      some (if (s.attempt i).state = .connected then setDilationState s' i .reconnecting else s')
    else none
  | .ice _ ev =>
    if (s.attempt i).peerConnection then
      match ev with
      | .failed => some (setDilationState s i .failed)
      | .disconnected => some (setDilationState s i .reconnecting)
      | .other => some s
    else some s
  | _ => none

/-- The attempt an event is of. -/
def Lbl.attempt : Lbl → Option Nat
  | .derived i => some i
  | .added i _ => some i
  | .proceed i => some i
  | .timeout i => some i
  | .message i => some i
  | .please i _ => some i
  | .ignored i => some i
  | .datachannel i => some i
  | .opened i => some i
  | .channelClosed i => some i
  | .ice i _ => some i
  | _ => none

def step (s : St) (l : Lbl) : Option St :=
  match l.attempt with
  | some i => if i < s.attempts then attemptStep s i l else none
  | none =>
    match l with
    | .dilate => some (dilate s)
    | .close =>
      match s.dilation with
      | some i => some { closeManager s i with closings := s.closings ++ [.dilation] }
      | none => some (closeNext s s.closings)
    | .closeDilation =>
      if .dilation ∈ s.closings then
        some (closeNext { s with dilation := none, isDilated := false } (s.closings.erase .dilation))
      else none
    | .closeMailbox =>
      if .mailbox ∈ s.closings then
        some ({ s with
          mailbox := false
          listening := false
          closings := s.closings.erase .mailbox }.setState .closed)
      else none
    | .socketClosed => some { s with listening := false }
    | _ => none

/-- Not dilated or closed so far, in whatever state. -/
structure Fresh (s : St) : Prop where
  isDilated : s.isDilated = false
  dilation : s.dilation = none
  mailbox : s.mailbox = false → s.listening = false
  attempt : s.attempt = fun _ => .create
  attempts : s.attempts = 0
  closings : s.closings = []

/-- Undilated and connected. -/
def init : St where
  state := .connected
  reports := []
  isDilated := false
  dilation := none
  mailbox := true
  listening := true
  attempt _ := .create
  attempts := 0
  closings := []

theorem fresh_init : Fresh init := ⟨rfl, rfl, nofun, rfl, rfl, rfl⟩

def lts : LTS St Lbl := .ofStep Fresh step

/-- The step is one by which a `close` call resolves. -/
def resolves (s : St) : Lbl → Bool
  | .close => s.dilation.isNone && !s.mailbox
  | .closeDilation => !s.mailbox
  | .closeMailbox => true
  | _ => false

/-! ## What `setState` of a manager does -/

/-- The attempt after its manager has changed state. -/
def reach (new : DilationState) (a : Attempt) : Attempt :=
  if a.state = new then a else checkState new { a with state := new }

section
variable (s : St) (i : Nat) (new : DilationState)

@[simp] theorem attempt_upd (f : Attempt → Attempt) (j : Nat) :
    (s.upd i f).attempt j = if j = i then f (s.attempt j) else s.attempt j := rfl

theorem attempt_setDilationState (j : Nat) :
    (setDilationState s i new).attempt j =
      if j = i then reach new (s.attempt j) else s.attempt j := by
  have hon : ∀ s : St, (onStateChange s new).attempt = s.attempt := fun s => by cases new <;> rfl
  unfold setDilationState reach
  by_cases hj : j = i
  · rw [if_pos hj, hj]
    split
    · rfl
    · rw [attempt_upd, if_pos rfl, hon, attempt_upd, if_pos rfl]
  · rw [if_neg hj]
    split
    · rfl
    · rw [attempt_upd, if_neg hj, hon, attempt_upd, if_neg hj]

/-- The rest of the wormhole. -/
theorem frame_setDilationState :
    (setDilationState s i new).attempts = s.attempts ∧
      (setDilationState s i new).dilation = s.dilation ∧
      (setDilationState s i new).mailbox = s.mailbox ∧
      (setDilationState s i new).listening = s.listening := by
  unfold setDilationState
  split
  · exact ⟨rfl, rfl, rfl, rfl⟩
  · cases new <;> exact ⟨rfl, rfl, rfl, rfl⟩

/-- A state that is neither CONNECTED nor FAILED is not passed on. -/
theorem quiet_setDilationState (h1 : new ≠ .connected) (h2 : new ≠ .failed) :
    (setDilationState s i new).state = s.state ∧ (setDilationState s i new).reports = s.reports := by
  unfold setDilationState
  split
  · exact ⟨rfl, rfl⟩
  · cases new with
    | connected => exact absurd rfl h1
    | failed => exact absurd rfl h2
    | _ => exact ⟨rfl, rfl⟩

theorem state_failed (h : (s.attempt i).state ≠ .failed) :
    (setDilationState s i .failed).state = .connected := by
  unfold setDilationState
  rw [if_neg h]
  rfl

theorem state_connected (h : (s.attempt i).state ≠ .connected) :
    (setDilationState s i .connected).state = .dilated := by
  unfold setDilationState
  rw [if_neg h]
  rfl

end

theorem state_reach (new : DilationState) (a : Attempt) : (reach new a).state = new := by
  unfold reach checkState
  split
  · rename_i h
    exact h
  · split
    · cases new <;> rfl
    · rfl

/-! ## Attempts -/

/-- While its promise is pending a manager has its timer and has neither
connected nor given up; it is connected, or has a channel, only with a peer
connection. -/
structure Ok (a : Attempt) : Prop where
  wait : a.call = .waiting →
    a.timer = true ∧ a.state ≠ .connected ∧ a.state ≠ .failed ∧ a.state ≠ .stopped
  live : a.state = .connected → a.peerConnection = true
  chan : a.controlChannel.isSome = true → a.peerConnection = true

theorem ok_reach {a : Attempt} {new : DilationState} (h : Ok a)
    (hlive : new = .connected → a.peerConnection = true) : Ok (reach new a) := by
  unfold reach checkState
  split
  · exact h
  · split
    · rename_i hc
      have hw := (h.wait hc).1
      cases new with
      | connected => exact ⟨fun hc => by (cases hc), hlive, h.chan⟩
      | failed => exact ⟨fun hc => by (cases hc), hlive, h.chan⟩
      | stopped => exact ⟨fun hc => by (cases hc), hlive, h.chan⟩
      | _ => exact ⟨fun _ => ⟨hw, by simp, by simp, by simp⟩, hlive, h.chan⟩
    · rename_i hc
      exact ⟨fun hc' => absurd hc' hc, hlive, h.chan⟩

theorem ok_waitForConnection {a : Attempt} (h : Ok a) : Ok (waitForConnection a) := by
  unfold waitForConnection checkState
  rw [if_pos rfl]
  dsimp only
  split
  · exact ⟨fun hc => by (cases hc), h.live, h.chan⟩
  · exact ⟨fun hc => by (cases hc), h.live, h.chan⟩
  · exact ⟨fun hc => by (cases hc), h.live, h.chan⟩
  · rename_i h1 h2 h3
    exact ⟨fun _ => ⟨rfl, h1, h2, h3⟩, h.live, h.chan⟩

/-- Every attempt is in order, `dilation` is one of them, and without a mailbox
nothing is received. -/
structure Wf (s : St) : Prop where
  ok : ∀ i, Ok (s.attempt i)
  dilation : ∀ i, s.dilation = some i → i < s.attempts
  silent : s.mailbox = false → s.listening = false

theorem ok_upd {s : St} {i : Nat} {f : Attempt → Attempt} (h : ∀ j, Ok (s.attempt j))
    (hf : Ok (f (s.attempt i))) : ∀ j, Ok ((s.upd i f).attempt j) := by
  intro j
  rw [attempt_upd]
  split
  · rename_i hj
    rw [hj]
    exact hf
  · exact h j

theorem ok_setDilationState {s : St} (i : Nat) (new : DilationState) (h : ∀ j, Ok (s.attempt j))
    (hlive : new = .connected → (s.attempt i).peerConnection = true) :
    ∀ j, Ok ((setDilationState s i new).attempt j) := by
  intro j
  rw [attempt_setDilationState]
  split
  · rename_i hj
    rw [hj]
    exact ok_reach (h i) hlive
  · exact h j

/-- Everything an event of attempt `i` can do. -/
inductive Move (s : St) (i : Nat) : Lbl → St → Prop
  | derived (j : Nat) (h : (s.attempt i).call = .key) :
      Move s i (.derived j) (s.upd i fun a => { a with messageHandler := true, call := .please })
  | added (j : Nat) (h : (s.attempt i).call = .please) :
      Move s i (.added j true) (s.upd i waitForConnection)
  | notAdded (j : Nat) (h : (s.attempt i).call = .please) :
      Move s i (.added j false) (s.upd i fun a => { a with call := .rejected })
  | returned (j : Nat) (h : (s.attempt i).call = .resolved) :
      Move s i (.proceed j) (s.upd i fun a => { a with call := .done })
  | threw (j : Nat) (h : (s.attempt i).call = .rejected) :
      Move s i (.proceed j) ((s.upd i fun a => { a with call := .done }).setState .connected)
  | late (j : Nat) (h : (s.attempt i).timer = true) (hs : (s.attempt i).state = .connected) :
      Move s i (.timeout j) (s.upd i fun a => { a with timer := false })
  | timeout (j : Nat) (h : (s.attempt i).timer = true) (hs : (s.attempt i).state ≠ .connected) :
      Move s i (.timeout j)
        (setDilationState (s.upd i fun a => { a with timer := false }) i .failed)
  | message (j : Nat) (h : (s.attempt i).messageHandler = true) (hl : s.listening = true) :
      Move s i (.message j) (s.upd i fun a => { a with handling := a.handling + 1 })
  | please (j : Nat) (leader : Bool) (h : 0 < (s.attempt i).handling) :
      Move s i (.please j leader)
        ((setDilationState (setDilationState
          (s.upd i fun a => { a with handling := a.handling - 1 }) i .wanting) i .connecting).upd i
          fun a =>
            { a with
              peerConnection := true
              controlChannel := if leader then some .connecting else a.controlChannel })
  | ignored (j : Nat) (h : 0 < (s.attempt i).handling) :
      Move s i (.ignored j) (s.upd i fun a => { a with handling := a.handling - 1 })
  | datachannel (j : Nat) (h : (s.attempt i).peerConnection = true) :
      Move s i (.datachannel j) (s.upd i fun a => { a with controlChannel := some .connecting })
  | opened (j : Nat) (h : (s.attempt i).controlChannel = some .connecting) :
      Move s i (.opened j)
        (setDilationState (s.upd i fun a => { a with controlChannel := some .opened }) i .connected)
  | channelClosed (j : Nat) (h : (s.attempt i).controlChannel.isSome = true) (new : DilationState)
      (hn : new = .reconnecting ∨ new = (s.attempt i).state) :
      Move s i (.channelClosed j)
        (setDilationState (s.upd i fun a => { a with controlChannel := some .closed }) i new)
  | iceFailed (j : Nat) (h : (s.attempt i).peerConnection = true) :
      Move s i (.ice j .failed) (setDilationState s i .failed)
  | iceLost (j : Nat) (h : (s.attempt i).peerConnection = true) :
      Move s i (.ice j .disconnected) (setDilationState s i .reconnecting)
  | ice (j : Nat) (ev : Ice) : Move s i (.ice j ev) s

theorem setDilationState_self (s : St) (i : Nat) : setDilationState s i (s.attempt i).state = s :=
  if_pos rfl

theorem attempt_move {s t : St} {i : Nat} {l : Lbl} (h : attemptStep s i l = some t) :
    Move s i l t := by
  unfold attemptStep at h
  split at h
  · split at h
    · rename_i hc; cases h; exact .derived _ hc
    · cases h
  · split at h
    · rename_i ok hc
      cases h
      cases ok with
      | true => exact .added _ hc
      | false => exact .notAdded _ hc
    · cases h
  · split at h
    · rename_i hc; cases h; exact .returned _ hc
    · rename_i hc; cases h; exact .threw _ hc
    · cases h
  · split at h
    · rename_i ht
      cases h
      split
      · rename_i hs; exact .late _ ht hs
      · rename_i hs; exact .timeout _ ht hs
    · cases h
  · split at h
    · rename_i hm; cases h; exact .message _ hm.1 hm.2
    · cases h
  · split at h
    · rename_i hp; cases h; exact .please _ _ hp
    · cases h
  · split at h
    · rename_i hp; cases h; exact .ignored _ hp
    · cases h
  · split at h
    · rename_i hp; cases h; exact .datachannel _ hp
    · cases h
  · split at h
    · rename_i hc; cases h; exact .opened _ hc
    · cases h
  · rename_i j
    split at h
    · rename_i hc
      cases h
      split
      · exact .channelClosed _ hc _ (.inl rfl)
      · have hst : ((s.upd i fun a => { a with controlChannel := some .closed }).attempt i).state =
            (s.attempt i).state := by rw [attempt_upd, if_pos rfl]
        have := Move.channelClosed (s := s) (i := i) j hc _ (.inr rfl)
        rw [← hst, setDilationState_self] at this
        exact this
    · cases h
  · split at h
    · rename_i hp
      split at h
      · cases h; exact .iceFailed _ hp
      · cases h; exact .iceLost _ hp
      · cases h; exact .ice _ _
    · cases h; exact .ice _ _
  · cases h

/-- What an event of an attempt leaves alone. -/
theorem frame_move {s t : St} {i : Nat} {l : Lbl} (hm : Move s i l t) :
    t.attempts = s.attempts ∧ t.dilation = s.dilation ∧ t.mailbox = s.mailbox ∧
      t.listening = s.listening := by
  cases hm with
  | timeout j h hs => exact frame_setDilationState _ i .failed
  | please j leader h =>
    obtain ⟨h1, h2, h3, h4⟩ := frame_setDilationState
      (s.upd i fun a => { a with handling := a.handling - 1 }) i .wanting
    obtain ⟨k1, k2, k3, k4⟩ := frame_setDilationState (setDilationState
      (s.upd i fun a => { a with handling := a.handling - 1 }) i .wanting) i .connecting
    exact ⟨k1.trans h1, k2.trans h2, k3.trans h3, k4.trans h4⟩
  | opened j h => exact frame_setDilationState _ i .connected
  | channelClosed j h new hn => exact frame_setDilationState _ i new
  | iceFailed j h => exact frame_setDilationState _ i .failed
  | iceLost j h => exact frame_setDilationState _ i .reconnecting
  | _ => exact ⟨rfl, rfl, rfl, rfl⟩

/-- The timer that finds its manager unconnected settles the promise. -/
theorem ok_timeout {a : Attempt} (h : Ok a) : Ok (reach .failed { a with timer := false }) := by
  unfold reach checkState
  split
  · rename_i hs
    exact ⟨fun hc => absurd hs (h.wait hc).2.2.1, h.live, h.chan⟩
  · split
    · exact ⟨nofun, nofun, h.chan⟩
    · rename_i hc
      exact ⟨fun hc' => absurd hc' hc, nofun, h.chan⟩

theorem ok_move {s t : St} {i : Nat} {l : Lbl} (h : ∀ j, Ok (s.attempt j)) (hm : Move s i l t) :
    ∀ j, Ok (t.attempt j) := by
  have hi := h i
  cases hm with
  | added j hc => exact ok_upd h (ok_waitForConnection hi)
  | late j ht hs =>
    refine ok_upd h ?_
    exact ⟨fun hc => absurd hs (hi.wait hc).2.1, hi.live, hi.chan⟩
  | timeout j ht hs =>
    intro k
    rw [attempt_setDilationState, attempt_upd]
    split
    · rename_i hk
      rw [hk]
      exact ok_timeout hi
    · exact h k
  | message j hm hl =>
    refine ok_upd h ?_
    exact ⟨hi.wait, hi.live, hi.chan⟩
  | please j leader hp =>
    have h1 : ∀ k, Ok ((s.upd i fun a => { a with handling := a.handling - 1 }).attempt k) := by
      refine ok_upd h ?_
      exact ⟨hi.wait, hi.live, hi.chan⟩
    have h2 := ok_setDilationState i .connecting (ok_setDilationState i .wanting h1 nofun) nofun
    refine ok_upd h2 ?_
    exact ⟨(h2 i).wait, fun _ => rfl, fun _ => rfl⟩
  | ignored j hp =>
    refine ok_upd h ?_
    exact ⟨hi.wait, hi.live, hi.chan⟩
  | datachannel j hp =>
    refine ok_upd h ?_
    exact ⟨hi.wait, hi.live, fun _ => hp⟩
  | opened j hc =>
    have hp := hi.chan (by rw [hc]; rfl)
    refine ok_setDilationState i _ (ok_upd h ?_) fun _ => ?_
    · exact ⟨hi.wait, hi.live, fun _ => hp⟩
    · rw [attempt_upd, if_pos rfl]
      exact hp
  | channelClosed j hc new hn =>
    have hp := hi.chan hc
    refine ok_setDilationState i _ (ok_upd h ?_) fun _ => ?_
    · exact ⟨hi.wait, hi.live, fun _ => hp⟩
    · rw [attempt_upd, if_pos rfl]
      exact hp
  | iceFailed j hp => exact ok_setDilationState i _ h nofun
  | iceLost j hp => exact ok_setDilationState i _ h nofun
  | ice j ev => exact h
  | threw j hc =>
    have hdone : Ok { s.attempt i with call := .done } := ⟨nofun, hi.live, hi.chan⟩
    exact ok_upd (i := i) (f := fun a => { a with call := .done }) h hdone
  | _ =>
    refine ok_upd h ?_
    exact ⟨nofun, hi.live, hi.chan⟩

/-- Everything a step can do. -/
inductive Moves (s : St) : Lbl → St → Prop
  | event (i : Nat) (l : Lbl) (t : St) (hi : i < s.attempts) (hm : Move s i l t) : Moves s l t
  | refused (h : s.state ≠ .connected ∨ s.isDilated = true) : Moves s .dilate s
  | dilate (h : s.state = .connected) :
      Moves s .dilate { (s.setState .dilating).upd s.attempts fun _ => .create with
        dilation := some s.attempts
        attempts := s.attempts + 1 }
  | noMailbox (h : s.state = .connected) (hm : s.mailbox = false) :
      Moves s .dilate ((s.setState .dilating).setState .connected)
  | close (i : Nat) (h : s.dilation = some i) :
      Moves s .close { closeManager s i with closings := s.closings ++ [.dilation] }
  | closeUndilated (h : s.dilation = none) : Moves s .close (closeNext s s.closings)
  | closeDilation (h : .dilation ∈ s.closings) :
      Moves s .closeDilation
        (closeNext { s with dilation := none, isDilated := false } (s.closings.erase .dilation))
  | closeMailbox (h : .mailbox ∈ s.closings) :
      Moves s .closeMailbox ({ s with
        mailbox := false
        listening := false
        closings := s.closings.erase .mailbox }.setState .closed)
  | socketClosed : Moves s .socketClosed { s with listening := false }

theorem step_moves {s t : St} {l : Lbl} (h : step s l = some t) : Moves s l t := by
  unfold step at h
  split at h
  · rename_i i hl
    split at h
    · rename_i hi
      exact .event i l t hi (attempt_move h)
    · cases h
  · split at h
    · cases h
      unfold dilate
      split
      · rename_i hs; exact .refused (.inl hs)
      · rename_i hs
        have hs := not_not.mp hs
        split
        · rename_i hd; exact .refused (.inr hd)
        · split
          · exact .dilate hs
          · rename_i hm; exact .noMailbox hs (Bool.eq_false_iff.mpr hm)
    · split at h
      · rename_i i hd; cases h; exact .close i hd
      · rename_i hd; cases h; exact .closeUndilated hd
    · split at h
      · rename_i hc; cases h; exact .closeDilation hc
      · cases h
    · split at h
      · rename_i hc; cases h; exact .closeMailbox hc
      · cases h
    · cases h; exact .socketClosed
    · cases h

theorem ok_closeManager {s : St} (h : ∀ j, Ok (s.attempt j)) (i : Nat) :
    ∀ j, Ok ((closeManager s i).attempt j) := by
  intro j
  unfold closeManager
  rw [attempt_setDilationState, attempt_upd]
  by_cases hj : j = i
  · rw [if_pos hj, if_pos hj, hj]
    unfold reach checkState
    split
    · rename_i hs
      have hs : (s.attempt i).state = .stopped := hs
      refine ⟨(h i).wait, fun hl => ?_, nofun⟩
      rw [hs] at hl
      cases hl
    · split
      · exact ⟨nofun, nofun, nofun⟩
      · rename_i hc
        exact ⟨fun hc' => absurd hc' hc, nofun, nofun⟩
  · rw [if_neg hj]
    rw [if_neg hj]
    exact h j

theorem wf_step {s t : St} {l : Lbl} (h : Wf s) (hm : Moves s l t) : Wf t := by
  cases hm with
  | event i l t hi hm =>
    obtain ⟨h1, h2, h3, h4⟩ := frame_move hm
    refine ⟨ok_move h.ok hm, fun j hj => ?_, fun hmb => ?_⟩
    · rw [h1]
      exact h.dilation j (h2 ▸ hj)
    · rw [h4]
      exact h.silent (h3 ▸ hmb)
  | refused hr => exact h
  | dilate hs =>
    refine ⟨?_, fun j hj => ?_, h.silent⟩
    · have hnew : Ok Attempt.create := ⟨nofun, nofun, nofun⟩
      exact ok_upd (i := s.attempts) (f := fun _ => .create) h.ok hnew
    · cases hj
      exact Nat.lt_succ_self _
  | noMailbox hs hmb => exact ⟨h.ok, h.dilation, h.silent⟩
  | close i hd =>
    obtain ⟨h1, h2, h3, h4⟩ := frame_setDilationState (s.upd i fun a =>
      { a with messageHandler := false, peerConnection := false, controlChannel := none }) i .stopped
    refine ⟨ok_closeManager h.ok i, fun j hj => ?_, fun hmb => ?_⟩
    · have hj' : s.dilation = some j := h2.symm.trans hj
      exact Nat.lt_of_lt_of_eq (h.dilation j hj') h1.symm
    · exact h4.trans (h.silent (h3.symm.trans hmb))
  | closeUndilated hd =>
    unfold closeNext
    split
    · exact ⟨h.ok, h.dilation, h.silent⟩
    · exact ⟨h.ok, h.dilation, h.silent⟩
  | closeDilation hc =>
    unfold closeNext
    split
    · exact ⟨h.ok, nofun, h.silent⟩
    · exact ⟨h.ok, nofun, h.silent⟩
  | closeMailbox hc => exact ⟨h.ok, h.dilation, fun _ => rfl⟩
  | socketClosed => exact ⟨h.ok, h.dilation, fun _ => rfl⟩

theorem wf_reachable : ∀ s, lts.Reachable s → Wf s := by
  refine LTS.Inductive.reachable ⟨?_, fun s l t h hs => wf_step h (step_moves hs)⟩
  intro s hs
  refine ⟨fun i => ?_, fun i hi => ?_, hs.mailbox⟩
  · rw [hs.attempt]
    exact ⟨nofun, nofun, nofun⟩
  · rw [hs.dilation] at hi
    cases hi

/-! ## At rest -/

/-- Nothing is left of the attempt that writes the state: its `dilate` call has
its result, its timer is over (or would find it FAILED already), it handles no
message and has no peer connection. -/
structure AtRest (dilation : Option Nat) (i : Nat) (a : Attempt) : Prop where
  call : a.call = .resolved ∨ a.call = .done
  timer : a.timer = true → a.state = .failed ∧ dilation ≠ some i
  handling : a.handling = 0
  peer : a.peerConnection = false

def Rest (s : St) : Prop := ∀ i, i < s.attempts → AtRest s.dilation i (s.attempt i)

/-- Closed, and deaf. -/
structure Closed (s : St) : Prop where
  state : s.state = .closed
  silent : s.listening = false
  rest : Rest s

theorem rest_upd {s : St} {i : Nat} {f : Attempt → Attempt} (h : Rest s)
    (hf : i < s.attempts → AtRest s.dilation i (f (s.attempt i))) : Rest (s.upd i f) := by
  intro j hj
  rw [attempt_upd]
  split
  · rename_i heq
    subst heq
    exact hf hj
  · exact h j hj

theorem rest_stopped {d : Option Nat} {i : Nat} {a : Attempt} (h : AtRest d i a)
    (hd : d = some i) : AtRest d i (reach .stopped
      { a with messageHandler := false, peerConnection := false, controlChannel := none }) := by
  have ht : a.timer = true → False := fun ht => (h.timer ht).2 hd
  have hc : a.call ≠ .waiting := by
    intro hc
    rcases h.call with h' | h' <;> rw [h'] at hc <;> cases hc
  unfold reach checkState
  split
  · exact ⟨h.call, fun ht' => (ht ht').elim, h.handling, rfl⟩
  · exact ⟨h.call, fun ht' => (ht ht').elim, h.handling, rfl⟩

theorem closed_setState {s : St} (hs : s.state = .closed) :
    (s.setState .closed).reports = s.reports := if_pos hs

/-- The last part of `close` on a wormhole that is closed. -/
theorem closed_closeNext {s : St} (h : Closed s) (rest : List Closing) :
    Closed (closeNext s rest) ∧ (closeNext s rest).reports = s.reports := by
  unfold closeNext
  split
  · exact ⟨⟨h.state, h.silent, h.rest⟩, rfl⟩
  · exact ⟨⟨rfl, h.silent, h.rest⟩, closed_setState h.state⟩

/-- **Rest is for good.** A closed wormhole whose attempts are all at rest stays
as it is, and reports nothing. -/
theorem rest_step {s t : St} {l : Lbl} (hw : Wf s) (h : Closed s) (hm : Moves s l t) :
    Closed t ∧ t.reports = s.reports := by
  obtain ⟨hs, hl, hr⟩ := h
  cases hm with
  | event i l t hi hm =>
    have ha := hr i hi
    have hch : (s.attempt i).controlChannel.isSome ≠ true := by
      intro hc
      have := (hw.ok i).chan hc
      rw [ha.peer] at this
      cases this
    cases hm with
    | derived j hc => rcases ha.call with h' | h' <;> rw [h'] at hc <;> cases hc
    | added j hc => rcases ha.call with h' | h' <;> rw [h'] at hc <;> cases hc
    | notAdded j hc => rcases ha.call with h' | h' <;> rw [h'] at hc <;> cases hc
    | returned j hc =>
      exact ⟨⟨hs, hl, rest_upd hr fun _ => ⟨.inr rfl, ha.timer, ha.handling, ha.peer⟩⟩, rfl⟩
    | threw j hc => rcases ha.call with h' | h' <;> rw [h'] at hc <;> cases hc
    | late j ht hst =>
      rw [(ha.timer ht).1] at hst
      cases hst
    | timeout j ht hst =>
      have hf : ((s.upd i fun a => { a with timer := false }).attempt i).state = .failed := by
        rw [attempt_upd, if_pos rfl]
        exact (ha.timer ht).1
      unfold setDilationState
      rw [if_pos hf]
      exact ⟨⟨hs, hl, rest_upd hr fun _ => ⟨ha.call, nofun, ha.handling, ha.peer⟩⟩, rfl⟩
    | message j hm hl' =>
      rw [hl] at hl'
      cases hl'
    | please j leader hp =>
      rw [ha.handling] at hp
      cases hp
    | ignored j hp =>
      rw [ha.handling] at hp
      cases hp
    | datachannel j hp =>
      rw [ha.peer] at hp
      cases hp
    | opened j hc => exact absurd (by rw [hc]; rfl) hch
    | channelClosed j hc new hn => exact absurd hc hch
    | iceFailed j hp =>
      rw [ha.peer] at hp
      cases hp
    | iceLost j hp =>
      rw [ha.peer] at hp
      cases hp
    | ice j ev => exact ⟨⟨hs, hl, hr⟩, rfl⟩
  | refused hr' => exact ⟨⟨hs, hl, hr⟩, rfl⟩
  | dilate hs' =>
    rw [hs] at hs'
    cases hs'
  | noMailbox hs' hmb =>
    rw [hs] at hs'
    cases hs'
  | close i hd =>
    obtain ⟨h1, h2, -, h4⟩ := frame_setDilationState (s.upd i fun a =>
      { a with messageHandler := false, peerConnection := false, controlChannel := none }) i .stopped
    obtain ⟨k1, k2⟩ := quiet_setDilationState (s.upd i fun a =>
      { a with messageHandler := false, peerConnection := false, controlChannel := none }) i .stopped
      nofun nofun
    refine ⟨⟨k1.trans hs, h4.trans hl, fun j hj => ?_⟩, k2⟩
    have hj' : j < s.attempts := Nat.lt_of_lt_of_eq hj h1
    have hd' : (closeManager s i).dilation = s.dilation := h2
    have hat : (closeManager s i).attempt j = if j = i then reach .stopped
        { s.attempt j with messageHandler := false, peerConnection := false, controlChannel := none }
        else s.attempt j := by
      unfold closeManager
      rw [attempt_setDilationState, attempt_upd]
      split <;> rfl
    dsimp only
    rw [hd', hat]
    split
    · rename_i hji
      exact rest_stopped (hr j hj') (hji ▸ hd)
    · exact hr j hj'
  | closeUndilated hd => exact closed_closeNext ⟨hs, hl, hr⟩ s.closings
  | closeDilation hc =>
    have hr' : Rest { s with dilation := none, isDilated := false } := by
      intro j hj
      have ha := hr j hj
      exact ⟨ha.call, fun ht => ⟨(ha.timer ht).1, nofun⟩, ha.handling, ha.peer⟩
    exact closed_closeNext (s := { s with dilation := none, isDilated := false }) ⟨hs, hl, hr'⟩ _
  | closeMailbox hc => exact ⟨⟨rfl, rfl, hr⟩, closed_setState hs⟩
  | socketClosed => exact ⟨⟨hs, rfl, hr⟩, rfl⟩

theorem rest_run {s t : St} {ls : List Lbl} (hr : lts.Run s ls t) (hw : Wf s) (h : Closed s) :
    Closed t ∧ t.reports = s.reports := by
  induction hr with
  | nil s => exact ⟨h, rfl⟩
  | cons hst _ ih =>
    have hm := step_moves hst
    obtain ⟨h', hrep⟩ := rest_step hw h hm
    obtain ⟨h'', hrep'⟩ := ih (wf_step hw hm) h'
    exact ⟨h'', hrep'.trans hrep⟩

/-! ## Not at rest -/

/-- Some continuation leaves CLOSED. -/
def Reopens (s : St) : Prop := ∃ ls u, lts.Run s ls u ∧ u.state ≠ .closed

theorem Reopens.step {s t : St} {l : Lbl} (hs : step s l = some t) (h : Reopens t) : Reopens s := by
  obtain ⟨ls, u, hr, hu⟩ := h
  exact ⟨l :: ls, u, .cons hs hr, hu⟩

theorem reopens_of_ne {s : St} (h : s.state ≠ .closed) : Reopens s := ⟨[], s, .nil s, h⟩

theorem step_event {s : St} {i : Nat} {l : Lbl} (hl : l.attempt = some i) (hi : i < s.attempts) :
    step s l = attemptStep s i l := by
  unfold step
  rw [hl]
  exact if_pos hi

section
variable {s : St} {i : Nat}

theorem reopens_timer (hi : i < s.attempts) (ht : (s.attempt i).timer = true)
    (hc : (s.attempt i).state ≠ .connected) (hf : (s.attempt i).state ≠ .failed) : Reopens s := by
  have hs : step s (.timeout i) = some
      (setDilationState (s.upd i fun a => { a with timer := false }) i .failed) := by
    rw [step_event rfl hi]
    unfold attemptStep
    simp only [ht, if_true, hc, if_false]
  refine .step hs (reopens_of_ne ?_)
  rw [state_failed _ _ (by rw [attempt_upd, if_pos rfl]; exact hf)]
  exact nofun

theorem reopens_rejected (hi : i < s.attempts) (hc : (s.attempt i).call = .rejected) :
    Reopens s := by
  have hs : step s (.proceed i) = some
      ((s.upd i fun a => { a with call := .done }).setState .connected) := by
    rw [step_event rfl hi]
    unfold attemptStep
    simp only [hc]
  exact .step hs (reopens_of_ne nofun)

theorem reopens_please (hi : i < s.attempts) (hc : (s.attempt i).call = .please) : Reopens s := by
  have hs : step s (.added i false) = some (s.upd i fun a => { a with call := .rejected }) := by
    rw [step_event rfl hi]
    unfold attemptStep
    simp only [hc, if_true]
    rfl
  refine .step hs (reopens_rejected (i := i) hi ?_)
  rw [attempt_upd, if_pos rfl]

theorem reopens_key (hi : i < s.attempts) (hc : (s.attempt i).call = .key) : Reopens s := by
  have hs : step s (.derived i) = some
      (s.upd i fun a => { a with messageHandler := true, call := .please }) := by
    rw [step_event rfl hi]
    unfold attemptStep
    simp only [hc, if_true]
  refine .step hs (reopens_please (i := i) hi ?_)
  rw [attempt_upd, if_pos rfl]

theorem reopens_opened (hi : i < s.attempts)
    (hc : (s.attempt i).controlChannel = some .connecting)
    (hs : (s.attempt i).state ≠ .connected) : Reopens s := by
  have hst : step s (.opened i) = some (setDilationState
      (s.upd i fun a => { a with controlChannel := some .opened }) i .connected) := by
    rw [step_event rfl hi]
    unfold attemptStep
    simp only [hc, if_true]
  refine .step hst (reopens_of_ne ?_)
  rw [state_connected _ _ (by rw [attempt_upd, if_pos rfl]; exact hs)]
  exact nofun

theorem reopens_waiting (hi : i < s.attempts) (hw : Ok (s.attempt i))
    (hc : (s.attempt i).call = .waiting) : Reopens s :=
  have h := hw.wait hc
  reopens_timer hi h.1 h.2.1 h.2.2.1

/-- The message being decrypted is a PLEASE of the lower side. -/
theorem reopens_handling (hi : i < s.attempts) (hp : 0 < (s.attempt i).handling) : Reopens s := by
  have hst : step s (.please i true) = some ((setDilationState (setDilationState
      (s.upd i fun a => { a with handling := a.handling - 1 }) i .wanting) i .connecting).upd i
      fun a => { a with peerConnection := true, controlChannel := some .connecting }) := by
    rw [step_event rfl hi]
    exact if_pos hp
  refine .step hst ?_
  refine reopens_opened (i := i) ?_ ?_ ?_
  · obtain ⟨h1, -⟩ := frame_setDilationState (setDilationState
      (s.upd i fun a => { a with handling := a.handling - 1 }) i .wanting) i .connecting
    obtain ⟨h2, -⟩ := frame_setDilationState
      (s.upd i fun a => { a with handling := a.handling - 1 }) i .wanting
    exact Nat.lt_of_lt_of_eq hi (h1.trans h2).symm
  · rw [attempt_upd, if_pos rfl]
  · rw [attempt_upd, if_pos rfl, attempt_setDilationState, if_pos rfl]
    show (reach .connecting _).state ≠ .connected
    rw [state_reach]
    exact nofun

/-- A peer connection reports that ICE failed, or gets a control channel. -/
theorem reopens_peer (hi : i < s.attempts) (hp : (s.attempt i).peerConnection = true) :
    Reopens s := by
  by_cases hf : (s.attempt i).state = .failed
  · have hst : step s (.datachannel i) = some
        (s.upd i fun a => { a with controlChannel := some .connecting }) := by
      rw [step_event rfl hi]
      exact if_pos hp
    refine .step hst ?_
    refine reopens_opened (i := i) hi ?_ ?_
    · rw [attempt_upd, if_pos rfl]
    · rw [attempt_upd, if_pos rfl]
      show (s.attempt i).state ≠ .connected
      rw [hf]
      exact nofun
  · have hst : step s (.ice i .failed) = some (setDilationState s i .failed) := by
      rw [step_event rfl hi]
      exact if_pos hp
    refine .step hst (reopens_of_ne ?_)
    rw [state_failed _ _ hf]
    exact nofun

/-- `close` stops the manager again, and the timer finds it STOPPED. -/
theorem reopens_dilation (hi : i < s.attempts) (hc : (s.attempt i).call ≠ .waiting)
    (ht : (s.attempt i).timer = true) (hf : (s.attempt i).state = .failed)
    (hd : s.dilation = some i) : Reopens s := by
  have hst : step s .close = some { closeManager s i with
      closings := s.closings ++ [.dilation] } := by
    unfold step
    simp only [Lbl.attempt, hd]
  have hat : (closeManager s i).attempt i = { s.attempt i with
      messageHandler := false, peerConnection := false, controlChannel := none
      state := .stopped } := by
    unfold closeManager
    rw [attempt_setDilationState, if_pos rfl, attempt_upd, if_pos rfl]
    unfold reach checkState
    simp only [hf, hc, reduceCtorEq, if_false]
  obtain ⟨h1, -⟩ := frame_setDilationState (s.upd i fun a =>
    { a with messageHandler := false, peerConnection := false, controlChannel := none }) i .stopped
  refine .step hst (reopens_timer (i := i) (Nat.lt_of_lt_of_eq hi h1.symm) ?_ ?_ ?_)
  · exact (congrArg Attempt.timer hat).trans ht
  · exact fun h => nomatch (congrArg Attempt.state hat).symm.trans h
  · exact fun h => nomatch (congrArg Attempt.state hat).symm.trans h

/-- Anything short of rest is enough to leave CLOSED. -/
theorem reopens_of_not_atRest (hi : i < s.attempts) (hok : Ok (s.attempt i))
    (h : ¬ AtRest s.dilation i (s.attempt i)) : Reopens s := by
  by_cases hp : (s.attempt i).peerConnection = true
  · exact reopens_peer hi hp
  by_cases hh : 0 < (s.attempt i).handling
  · exact reopens_handling hi hh
  have hcall : (s.attempt i).call = .resolved ∨ (s.attempt i).call = .done → Reopens s := by
    intro hc
    have hw : (s.attempt i).call ≠ .waiting := by
      intro hw
      rcases hc with h' | h' <;> rw [h'] at hw <;> cases hw
    by_cases ht : (s.attempt i).timer = true
    · by_cases hf : (s.attempt i).state = .failed
      · by_cases hd : s.dilation = some i
        · exact reopens_dilation hi hw ht hf hd
        · exact absurd ⟨hc, fun _ => ⟨hf, hd⟩, by omega, by simpa using hp⟩ h
      · exact reopens_timer hi ht (fun hs => hp (hok.live hs)) hf
    · exact absurd ⟨hc, fun ht' => absurd ht' ht, by omega, by simpa using hp⟩ h
  cases hc : (s.attempt i).call with
  | key => exact reopens_key hi hc
  | please => exact reopens_please hi hc
  | waiting => exact reopens_waiting hi hok hc
  | resolved => exact hcall (.inl hc)
  | rejected => exact reopens_rejected hi hc
  | done => exact hcall (.inr hc)

end

/-! ## Staying closed -/

/-- CLOSED in every later state, and nothing but CLOSED is reported. -/
def StaysClosed (t : St) : Prop :=
  ∀ ls u, lts.Run t ls u → u.state = .closed ∧
    ∃ later, u.reports = t.reports ++ later ∧ ∀ w ∈ later, w = .closed

theorem closeNext_state {s : St} {rest : List Closing} (h : s.mailbox = false) :
    (closeNext s rest).state = .closed ∧ (closeNext s rest).mailbox = false := by
  unfold closeNext
  rw [if_neg (by rw [h]; exact nofun)]
  exact ⟨rfl, h⟩

/-- `close` resolves in CLOSED, its mailbox gone. -/
theorem resolves_closed {s t : St} {l : Lbl} (hm : Moves s l t) (hl : resolves s l = true) :
    t.state = .closed ∧ t.mailbox = false := by
  cases hm with
  | event i l t hi hm => cases hm <;> cases hl
  | refused h => cases hl
  | dilate h => cases hl
  | noMailbox h hmb => cases hl
  | close i hd =>
    unfold resolves at hl
    rw [hd] at hl
    cases hl
  | closeUndilated hd =>
    unfold resolves at hl
    rw [hd] at hl
    exact closeNext_state (by simpa using hl)
  | closeDilation hc =>
    unfold resolves at hl
    exact closeNext_state (s := { s with dilation := none, isDilated := false }) (by simpa using hl)
  | closeMailbox hc => exact ⟨rfl, rfl⟩
  | socketClosed => cases hl

/-- **A closed wormhole stays closed exactly when nothing of it is still under
way.** Whatever run led to the step by which `close` resolves: in every
continuation the state is CLOSED and nothing else is reported, if and only if
every manager that `dilate` ever made is at rest. -/
theorem stays_closed_iff {s t : St} {l : Lbl} (hr : lts.Reachable s) (hs : lts.step s l t)
    (hl : resolves s l = true) : StaysClosed t ↔ Rest t := by
  have hm := step_moves hs
  have hw : Wf t := wf_step (wf_reachable s hr) hm
  obtain ⟨hst, hmb⟩ := resolves_closed hm hl
  constructor
  · intro h i hi
    by_contra hn
    obtain ⟨ls, u, hu, hne⟩ := reopens_of_not_atRest hi (hw.ok i) hn
    exact hne (h ls u hu).1
  · intro h ls u hu
    obtain ⟨hc, hrep⟩ := rest_run hu hw ⟨hst, hw.silent hmb, h⟩
    exact ⟨hc.state, [], by rw [hrep, List.append_nil], nofun⟩

/-- `dilate` fails at once, for PLEASE cannot be sent; `close` follows. -/
def refusedRun : List Lbl :=
  [.dilate, .derived 0, .added 0 false, .proceed 0, .close, .closeDilation]

theorem refused_stays_closed :
    StaysClosed (LTS.after step (LTS.after step init refusedRun) [.closeMailbox]) := by
  refine (stays_closed_iff (s := LTS.after step init refusedRun) (l := .closeMailbox)
    ?_ ?_ rfl).mpr ?_
  · exact LTS.reachable_of_exec fresh_init (LTS.exec_after (by decide +kernel))
  · exact LTS.step_after (by decide +kernel)
  · intro i hi
    generalize ht : LTS.after step (LTS.after step init refusedRun) [.closeMailbox] = t at hi ⊢
    have h0 : i = 0 := by
      have h1 : t.attempts = 1 := by rw [← ht]; decide +kernel
      omega
    subst h0
    subst ht
    refine ⟨.inr ?_, fun ht => ?_, ?_, ?_⟩
    · decide +kernel
    · exact absurd ht (by decide +kernel)
    · decide +kernel
    · decide +kernel

/-- Dilated and closed, five of the ten seconds of `dilate` left. -/
def timerRun : List Lbl :=
  [.dilate, .derived 0, .added 0 true, .message 0, .please 0 true, .opened 0, .proceed 0,
    .close, .closeDilation]

/-- **A closed wormhole reconnects.** The manager that `close` stopped is not
CONNECTED when its ten seconds are over, so it fails, and its wormhole falls
back. -/
theorem timer_reopens : ∃ s t u, lts.Reachable s ∧ lts.step s .closeMailbox t ∧
    resolves s .closeMailbox = true ∧ t.state = .closed ∧ lts.step t (.timeout 0) u ∧
    u.state = .connected ∧ u.reports = t.reports ++ [.connected] ∧ ¬ StaysClosed t := by
  refine ⟨LTS.after step init timerRun, LTS.after step (LTS.after step init timerRun)
    [.closeMailbox], LTS.after step (LTS.after step (LTS.after step init timerRun)
    [.closeMailbox]) [.timeout 0], ?_, ?_, rfl, ?_, ?_, ?_, ?_, ?_⟩
  · exact LTS.reachable_of_exec fresh_init (LTS.exec_after (by decide +kernel))
  · exact LTS.step_after (by decide +kernel)
  · decide +kernel
  · exact LTS.step_after (by decide +kernel)
  · decide +kernel
  · decide +kernel
  · intro h
    have hst : lts.step (LTS.after step (LTS.after step init timerRun) [.closeMailbox])
        (.timeout 0) _ := LTS.step_after (by decide +kernel)
    exact absurd (h _ _ (.single hst)).1 (by decide +kernel)

end Wormhole.L5.WormholeState
