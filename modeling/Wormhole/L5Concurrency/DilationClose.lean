import Wormhole.L4App.Dilation

/-!
# Closing a dilation

`DilationManager.close` calls `close` on every subchannel without awaiting it.
Each call gets as far as `encrypt`; then the manager lets go of the control
channel, all in one turn of the event loop. When the calls resume there is no
channel to send on, and `Subchannel.close` swallows the `TypeError`.

* `channel_gone`: once the channel is gone, nothing is ever sent.
* `close_records_iff`: so the peer is sent one CLOSE record for each open
  subchannel exactly when no subchannel is open.
-/
namespace Wormhole.L5.DilationClose
open Wormhole.L1 Wormhole.L3 Wormhole.L4.Dilation

variable (P : Crypto)

/-! ## What the pieces leave alone -/

theorem channel_sendRecord (m : Manager) (type : RecordType) (id : Nat) (data : Bytes)
    (caller : Caller) :
    (sendRecord m type id data caller).controlChannel = m.controlChannel := by
  unfold sendRecord
  split <;> rfl

theorem channel_continueWith (m : Manager) (returned : Bool) (c : Caller) :
    (continueWith m returned c).controlChannel = m.controlChannel := by
  cases c with
  | send r => cases returned <;> rfl
  | _ => rfl

theorem channel_handleRecord (m : Manager) (record : Record) :
    (handleRecord m record).controlChannel = m.controlChannel := by
  unfold handleRecord handleSubchannelOpen
  split
  · dsimp only
    split
    · rfl
    · exact channel_sendRecord _ _ _ _ _
  · split
    · rfl
    · split
      · rfl
      · split <;> rfl

theorem channel_handleControlMessage (m : Manager) (data : Bytes) :
    (handleControlMessage P m data).controlChannel = m.controlChannel := by
  unfold handleControlMessage
  split
  · rfl
  · exact channel_handleRecord _ _

/-! ## After the channel is gone -/

/-- A channel that was let go of does not come back. -/
theorem channel_gone_step {m m' : Manager} {e : Event} (h : m.controlChannel = none)
    (hm : Move P m e m') : m'.controlChannel = none := by
  cases hm with
  | openSubchannel protocol hs => exact (channel_sendRecord _ _ _ _ _).trans h
  | send r data hr ho => exact (channel_sendRecord _ _ _ _ _).trans h
  | closeOpen r hr ho => exact (channel_sendRecord _ _ _ _ _).trans h
  | resumed nonce p rest hp hc => exact (channel_continueWith _ _ _).trans h
  | failed nonce p rest hp hc => exact (channel_continueWith _ _ _).trans h
  | rejected c rest hc => exact (channel_continueWith _ _ _).trans h
  | message data => exact (channel_handleControlMessage P m data).trans h
  | channel c readyState state hc =>
    rw [h] at hc
    cases hc
  | close => rfl
  | _ => exact h

/-- Nothing is sent on it either, in any run. -/
theorem channel_gone {init : Manager → Prop} {m m' : Manager} {es : List Event}
    (h : m.controlChannel = none) (hr : (lts P init).Run m es m') :
    LTS.gather (step P) emitted m es = [] := by
  have hq : ∀ m e, m.controlChannel = none → emitted m e = [] := by
    intro m e hm
    cases e with
    | resume nonce => exact if_neg (by rw [hm]; simp)
    | _ => rfl
  induction hr with
  | nil m => rfl
  | @cons m m' m'' e es hst _ ih =>
    have hst' : step P m e = some m' := hst
    simp only [LTS.gather, hst', hq m e h, ih (channel_gone_step P h (step_move hst')),
      List.append_nil]

/-! ## The CLOSE records -/

def isCloseOf (id : Nat) (p : Suspended) : Bool := p.type = .close ∧ p.id = id

/-- One CLOSE record among those sent for each subchannel that was open. -/
def Announced (m : Manager) (sent : List Suspended) : Prop :=
  ∀ id r, m.subchannels.get? id = some r → (m.object r).isOpen = true →
    sent.countP (isCloseOf id) = 1

/-- **Closing a dilation.** From any state, connected or not, along any run that
begins with `close`, every open subchannel has been announced closed exactly
when none was open. -/
theorem close_records_iff {m m' : Manager} {es : List Event}
    (hr : (lts P (· = m)).Run m (.close :: es) m') :
    Announced m (LTS.gather (step P) emitted m (.close :: es)) ↔
      ∀ id r, m.subchannels.get? id = some r → (m.object r).isOpen = false := by
  have hsent : LTS.gather (step P) emitted m (.close :: es) = [] := by
    cases hr with
    | cons hst hr =>
      cases hst
      have hrest : LTS.gather (step P) emitted (close m) es = [] := channel_gone P rfl hr
      exact hrest
  rw [hsent]
  constructor
  · intro h id r hid
    cases ho : (m.object r).isOpen with
    | false => rfl
    | true => exact absurd (h id r hid ho) (by simp)
  · intro h id r hid ho
    rw [h id r hid] at ho
    cases ho

/-! ## One open subchannel -/

/-- Connected, with the subchannel 1 open. -/
def oneOpen : Manager :=
  Manager.install
    { state := .connected, dilationKey := List.replicate 32 1, controlChannel := some .opened,
      peerConnection := true, messageHandler := true, subchannels := .empty,
      object := fun _ => .create 0 "" true, nextRef := 0, subchannelListeners := fun _ => false,
      nextSubchannelId := 2, suspended := [], rejected := [] }
    1 (.create 1 "wh-http" true)

def zeroNonce : Nonce := ⟨List.replicate 24 0, rfl⟩

/-- The run is over, nothing waits any more, and no CLOSE record was sent. -/
theorem oneOpen_not_announced : ∃ m', (lts .plain (· = oneOpen)).Run oneOpen
      [.close, .resume zeroNonce] m' ∧ m'.suspended.length = 0 ∧ m'.rejected.length = 0 ∧
    ¬ Announced oneOpen (LTS.gather (step .plain) emitted oneOpen [.close, .resume zeroNonce]) := by
  refine ⟨_, .cons rfl (.cons rfl (.nil _)), rfl, rfl, fun h => ?_⟩
  have := h 1 0 rfl rfl
  exact absurd this (by decide)

theorem close_records_oneOpen :
    Announced oneOpen (LTS.gather (step .plain) emitted oneOpen [.close]) ↔
      ∀ id r, oneOpen.subchannels.get? id = some r → (oneOpen.object r).isOpen = false :=
  close_records_iff .plain (.cons rfl (.nil _))

end Wormhole.L5.DilationClose
