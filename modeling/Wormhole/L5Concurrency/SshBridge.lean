import Wormhole.Core.LTS
import Wormhole.L1Encoding.PyBytes

/-!
# The bridge of the SSH tunnel

`BridgeProtocol` of `src/wh/ssh/tunnel.py` on one end of a socket pair, with the
SSH transport on the other end. `dataReceived` makes one non-blocking `send` of
what came through the wormhole; how much of it the kernel takes is up to the
kernel (`accepted`, nothing being `BlockingIOError`). `_forward_local_to_wormhole`
reads what the SSH side wrote.

* `bridge_lossless_iff`: while neither end is closed, what can be read at the
  other end is what came in if and only if every `send` was taken whole.
* `upstream_lossless`: the other direction loses nothing.
-/
namespace Wormhole.L5.SshBridge
open Wormhole.L1

/-! ## State -/

/-- The socket pair and the task that reads from it. `toSsh` and `toBridge` are
what the kernel holds for either end. -/
structure Bridge where
  toSsh : Bytes
  toBridge : Bytes
  reading : Bool
  closed : Bool
  deriving DecidableEq, Repr

/-- The pair is made and the connection is up.
mirrors src/wh/ssh/tunnel.py:39-45,67-77 -/
def connectionMade : Bridge := ⟨[], [], true, false⟩

inductive Lbl
  /-- with how many bytes the kernel takes of it -/
  | dataReceived (data : Bytes) (accepted : Nat)
  | sshReads (n : Nat)
  | sshWrites (data : Bytes)
  | sockRecv (n : Nat)
  | recvFails
  | sshCloses
  | connectionLost
  deriving DecidableEq, Repr

/-! ## Steps -/

/-- `self._local_sock.send(data)`, once: its result is not looked at, and what it
raises is passed over.
mirrors src/wh/ssh/tunnel.py:79-86 -/
def dataReceived (s : Bridge) (data : Bytes) (accepted : Nat) : Bridge :=
  if s.closed then s else { s with toSsh := s.toSsh ++ data.take accepted }

/-- mirrors src/wh/ssh/tunnel.py:67-105 -/
def step (s : Bridge) : Lbl → Option Bridge
  | .dataReceived data accepted =>
    if accepted ≤ data.length then some (dataReceived s data accepted) else none
  | .sshReads n => some { s with toSsh := s.toSsh.drop n }
  | .sshWrites data => if s.closed then none else some { s with toBridge := s.toBridge ++ data }
  | .sockRecv n =>
    if s.reading = true ∧ s.toBridge ≠ [] ∧ 0 < n ∧ n ≤ 65536 then
      some { s with toBridge := s.toBridge.drop n }
    else none
  | .recvFails => some { s with reading := false }
  | .sshCloses => some { s with closed := true }
  | .connectionLost => some { s with reading := false, closed := true }

def lts : LTS Bridge Lbl := .ofStep (· = connectionMade) step

/-! ## What goes through -/

/-- What `dataReceived` is given. -/
def chunk : Lbl → Bytes
  | .dataReceived data _ => data
  | _ => []

/-- What a step reads at the other end of the pair. -/
def readBySsh (s : Bridge) : Lbl → Bytes
  | .sshReads n => s.toSsh.take n
  | _ => []

/-- What a step puts into the pair. -/
def taken (s : Bridge) : Lbl → Bytes
  | .dataReceived data accepted => if s.closed then [] else data.take accepted
  | _ => []

/-- All chunks passed to `dataReceived`. -/
def received (ls : List Lbl) : Bytes := LTS.gather step (fun _ => chunk) connectionMade ls

/-- What was read at the other end and what can still be read there. -/
def readable (ls : List Lbl) (t : Bridge) : Bytes :=
  LTS.gather step readBySsh connectionMade ls ++ t.toSsh

/-- The kernel has room for the whole chunk. -/
def TakenWhole (_ : Bridge) : Lbl → Prop
  | .dataReceived data accepted => data.length ≤ accepted
  | _ => True

instance (s : Bridge) : (l : Lbl) → Decidable (TakenWhole s l)
  | .dataReceived data accepted => inferInstanceAs (Decidable (data.length ≤ accepted))
  | .sshReads _ | .sshWrites _ | .sockRecv _ | .recvFails | .sshCloses | .connectionLost =>
    inferInstanceAs (Decidable True)

/-! ## From the wormhole to the SSH side -/

theorem taken_sublist (s : Bridge) (l : Lbl) : (taken s l).Sublist (chunk l) := by
  cases l with
  | dataReceived data accepted =>
    simp only [taken, chunk]
    split
    · exact List.nil_sublist _
    · exact List.take_sublist _ _
  | _ => exact List.Sublist.refl _

theorem takenWhole_iff {s : Bridge} (hs : s.closed = false) (l : Lbl) :
    taken s l = chunk l ↔ TakenWhole s l := by
  cases l with
  | dataReceived data accepted =>
    simp only [taken, chunk, hs, Bool.false_eq_true, if_false, List.take_eq_self_iff, TakenWhole]
  | _ => exact iff_of_true rfl trivial

/-- What was taken is read in order. -/
theorem step_toSsh {s t : Bridge} {l : Lbl} (h : step s l = some t) :
    s.toSsh ++ taken s l = readBySsh s l ++ t.toSsh := by
  cases l with
  | dataReceived data accepted =>
    simp only [step] at h
    split at h
    · cases h
      unfold dataReceived
      simp only [taken, readBySsh, List.nil_append]
      split
      · exact List.append_nil _
      · rfl
    · cases h
  | sshReads n =>
    cases h
    exact (List.append_nil _).trans (List.take_append_drop n s.toSsh).symm
  | sshWrites data =>
    simp only [step] at h
    split at h
    · cases h
    · cases h
      exact List.append_nil _
  | sockRecv n =>
    simp only [step] at h
    split at h
    · cases h
      exact List.append_nil _
    · cases h
  | recvFails | sshCloses | connectionLost =>
    cases h
    exact List.append_nil _

theorem closed_step {s t : Bridge} {l : Lbl} (h : step s l = some t) (ht : t.closed = false) :
    s.closed = false := by
  cases l with
  | dataReceived data accepted =>
    simp only [step] at h
    split at h
    · cases h
      unfold dataReceived at ht
      split at ht
      · exact ht
      · exact ht
    · cases h
  | sshReads n => cases h; exact ht
  | sshWrites data =>
    simp only [step] at h
    split at h
    · cases h
    · cases h; exact ht
  | sockRecv n =>
    simp only [step] at h
    split at h
    · cases h; exact ht
    · cases h
  | recvFails => cases h; exact ht
  | sshCloses => cases h; cases ht
  | connectionLost => cases h; cases ht

/-- Both ends are open in every state of a run that ends so. -/
theorem takenWhole_run_iff {s t : Bridge} {ls : List Lbl} (ht : t.closed = false) :
    (lts.restrict fun s l => taken s l = chunk l).Run s ls t ↔
      (lts.restrict TakenWhole).Run s ls t :=
  LTS.Run.restrict_congr (K := fun s => s.closed = false) (fun _ _ _ => closed_step)
    (fun _ l hs => takenWhole_iff hs l) ht

/-- What was read at the other end, and what can be read there, is what was taken. -/
theorem readable_eq {ls : List Lbl} {t : Bridge} (hr : lts.Run connectionMade ls t) :
    readable ls t = LTS.gather step taken connectionMade ls := by
  have hfifo := LTS.Run.fifo (P := fun _ => True) (fun _ _ _ _ _ _ => trivial)
    (fun _ _ _ _ hst _ => step_toSsh hst) hr.restrict_true trivial
  exact hfifo.symm

/-- **When the bridge loses nothing.** In every run in which neither end is closed, the
bytes that can be read at the other end are the chunks passed to `dataReceived`, in
order, if and only if the kernel took every chunk whole. -/
theorem bridge_lossless_iff (ls : List Lbl) (t : Bridge) (hr : lts.Run connectionMade ls t)
    (ht : t.closed = false) :
    readable ls t = received ls ↔ (lts.restrict TakenWhole).Run connectionMade ls t := by
  have hsub : ∀ s l, (taken s l).Sublist ((fun _ => chunk) s l) := taken_sublist
  have hkept := LTS.Run.gather_kept_iff hsub (fun _ _ => Iff.rfl) hr
  rw [readable_eq hr]
  exact hkept.2.trans (takenWhole_run_iff ht)

/-! ## From the SSH side to the wormhole -/

/-- What a step writes at the other end of the pair. -/
def writtenBySsh : Lbl → Bytes
  | .sshWrites data => data
  | _ => []

/-- What a step writes to the wormhole: what it has read.
mirrors src/wh/ssh/tunnel.py:88-97 -/
def forwarded (s : Bridge) : Lbl → Bytes
  | .sockRecv n => s.toBridge.take n
  | _ => []

theorem step_toBridge {s t : Bridge} {l : Lbl} (h : step s l = some t) :
    s.toBridge ++ writtenBySsh l = forwarded s l ++ t.toBridge := by
  cases l with
  | dataReceived data accepted =>
    simp only [step] at h
    split at h
    · cases h
      unfold dataReceived
      split
      · exact List.append_nil _
      · exact List.append_nil _
    · cases h
  | sshWrites data =>
    simp only [step] at h
    split at h
    · cases h
    · cases h
      rfl
  | sockRecv n =>
    simp only [step] at h
    split at h
    · cases h
      exact (List.append_nil _).trans (List.take_append_drop n s.toBridge).symm
    · cases h
  | sshReads _ | recvFails | sshCloses | connectionLost =>
    cases h
    exact List.append_nil _

/-- The direction that is read in a loop loses nothing. -/
theorem upstream_lossless {ls : List Lbl} {t : Bridge} (hr : lts.Run connectionMade ls t) :
    LTS.gather step forwarded connectionMade ls ++ t.toBridge =
      LTS.gather step (fun _ => writtenBySsh) connectionMade ls := by
  have hfifo := LTS.Run.fifo (P := fun _ => True) (fun _ _ _ _ _ _ => trivial)
    (fun _ _ _ _ hst _ => step_toBridge hst) hr.restrict_true trivial
  exact hfifo.symm

/-! ## Two runs -/

/-- The SSH side reads as fast as data comes in. -/
def keepsUp : List Lbl :=
  [.dataReceived [83, 83, 72] 3, .sshReads 2, .dataReceived [45, 50] 2, .sshReads 3]

theorem keepsUp_lossless :
    readable keepsUp (LTS.after step connectionMade keepsUp) = received keepsUp := by
  have hrun : (lts.restrict TakenWhole).Run connectionMade keepsUp
      (LTS.after step connectionMade keepsUp) := LTS.restrict_run_of_decide rfl
  exact (bridge_lossless_iff _ _ hrun.of_restrict rfl).mpr hrun

/-- The kernel has room for two bytes of the first chunk, none of the second, and for
the third. -/
def fallsBehind : List Lbl :=
  [.dataReceived [83, 83, 72] 2, .dataReceived [45, 50] 0, .sshReads 2, .dataReceived [46] 1]

/-- **Bytes are lost in the middle.** -/
theorem partial_send_loses : ¬ ∀ ls t, lts.Run connectionMade ls t → t.closed = false →
    readable ls t = received ls := by
  intro h
  have hrun : lts.Run connectionMade fallsBehind (LTS.after step connectionMade fallsBehind) :=
    LTS.run_of_exec rfl
  have := h _ _ hrun rfl
  exact absurd this (by decide)

end Wormhole.L5.SshBridge
