import Wormhole.L4App.TunnelSides

/-!
# The sockets of channels that are gone

A channel leaves `_channels` in four ways. `_handle_close` and
`_on_connection_lost` close its writer. The end of a forwarding loop only
deletes the entry, and an entry made under an id that is in use replaces the
one there; neither closes anything, and no one else has the writer.

`torn_down_iff`: after a run every writer whose channel is gone is closed,
exactly when the loops of the run ended after their entries had been taken
and entries were made under free ids only; `local_eof_leaks`: the local client
hangs up first.
-/
namespace Wormhole.L5.ChannelTeardown
open Wormhole.L3.Tunnel Wormhole.L4.TunnelSides

/-- The writers of the channels that are gone have been closed. -/
def TornDown (s : Side) : Prop := ∀ e ∈ s.tunnel.closedChannels, e.2.closed = true

/-- No loop ends while its id is in `_channels`, and no entry is made over another. -/
def Tidy (s : Side) : Ev → Prop
  | .act (.localEof c) => s.tunnel.channels.get? c = none
  | .targetEof c => s.tunnel.channels.get? c = none
  | .act (.resume c) =>
    s.tunnel.pendingOpens.get? c = some (some true) → s.tunnel.channels.get? c = none
  | .dialled d => s.tunnel.channels.get? d.channelId = none
  | _ => True

instance (s : Side) : (e : Ev) → Decidable (Tidy s e)
  | .act (.localEof c) => inferInstanceAs (Decidable (s.tunnel.channels.get? c = none))
  | .targetEof c => inferInstanceAs (Decidable (s.tunnel.channels.get? c = none))
  | .act (.resume c) => inferInstanceAs (Decidable
      (s.tunnel.pendingOpens.get? c = some (some true) → s.tunnel.channels.get? c = none))
  | .dialled d => inferInstanceAs (Decidable (s.tunnel.channels.get? d.channelId = none))
  | .act (.accept _ _) | .act (.openTimeout _) | .act (.localData _ _) | .frame _
  | .dialFailed _ | .targetData _ _ | .lost => isTrue trivial

/-- An entry of the table has an open writer. -/
theorem entry_closed_iff {s : Side} (hi : Inv s) (c : Nat) :
    (∀ e ∈ entry s.tunnel c, e.2.closed = true) ↔ s.tunnel.channels.get? c = none := by
  unfold entry
  cases hc : s.tunnel.channels.get? c with
  | none => simp
  | some ch => simp [hi.opened c ch hc]

theorem close_closed (es : List (Nat × Channel)) : ∀ e ∈ es.map close, e.2.closed = true := by
  intro e he
  obtain ⟨x, -, rfl⟩ := List.mem_map.mp he
  rfl

theorem gone_closed_iff {s : Side} (hi : Inv s) (e : Ev) :
    (∀ x ∈ gone s e, x.2.closed = true) ↔ Tidy s e := by
  cases e with
  | act l =>
    cases l with
    | resume c =>
      simp only [gone, Tidy]
      split
      · rename_i hp; simp only [hp, true_imp_iff, entry_closed_iff hi]
      · rename_i hp; simp [hp]
    | localEof c => exact entry_closed_iff hi c
    | _ => simp [gone, Tidy]
  | frame d =>
    cases d with
    | handleClose c => exact iff_of_true (close_closed _) trivial
    | _ => simp [gone, Tidy]
  | dialled d => exact entry_closed_iff hi d.channelId
  | targetEof c => exact entry_closed_iff hi c
  | lost => exact iff_of_true (close_closed _) trivial
  | _ => simp [gone, Tidy]

theorem step_tornDown {s t : Side} {e : Ev} (hi : Inv s) (h : step s e = some t) :
    TornDown t ↔ TornDown s ∧ Tidy s e := by
  rw [← gone_closed_iff hi, TornDown, (step_effect hi h).closedChannels]
  exact List.forall_mem_append

/-- **Headline.** After a run of a tunnel's side the writers of all channels that
are gone have been closed, exactly when each of its steps was tidy. -/
theorem torn_down_iff (es : List Ev) (t : Side) (hr : lts.Run fresh es t) :
    TornDown t ↔ (lts.restrict Tidy).Run fresh es t := by
  have hempty : TornDown fresh := fun e he => by cases he
  have hiff := LTS.Run.restrict_iff (C := Tidy) (I := Inv) (P := TornDown)
    (fun _ _ _ hi hst => step_inv hi hst) (fun _ _ _ hi hst => step_tornDown hi hst) hr inv_fresh
  rw [hiff, and_iff_right hempty]

/-! ## Who hangs up first -/

/-- A local connection, answered by the peer. -/
def openRun : List Ev :=
  [.act (.accept "localhost" 80), .frame (.handleOpenOk 1), .act (.resume 1)]

/-- The peer closes, then the loop finds the local client gone. -/
def peerFirst : List Ev := openRun ++ [Ev.frame (.handleClose 1), .act (.localEof 1)]

theorem peerFirst_tornDown : TornDown (LTS.after step fresh peerFirst) := by
  have hrun : (lts.restrict Tidy).Run fresh peerFirst (LTS.after step fresh peerFirst) :=
    LTS.restrict_run_of_decide rfl
  exact (torn_down_iff _ _ hrun.of_restrict).mpr hrun

/-- The local client hangs up: its channel is gone, its writer is open. -/
theorem local_eof_leaks : ¬ ∀ t, lts.Reachable t → TornDown t := by
  intro h
  have hrun : LTS.exec step fresh (openRun ++ [.act (.localEof 1)]) =
      some (LTS.after step fresh (openRun ++ [.act (.localEof 1)])) := rfl
  have := h _ (LTS.reachable_of_exec rfl hrun) (1, ⟨[], false⟩) (List.mem_singleton.mpr rfl)
  cases this

end Wormhole.L5.ChannelTeardown
