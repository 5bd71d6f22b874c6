import Wormhole.Core.LTS
import Wormhole.L1Encoding.PyBytes

/-!
# The port forwarder

One connection of `PortForwarder` (`src/wh/core/forwarder.py`): `connectionMade`
starts `_connect_local`, which awaits `open_connection`, and `dataReceived` writes
to the local writer if there is one. Chunks come in and the local end opens, fails
and closes at any time.

* `written_iff`: the local socket has been written what came in if and only if every
  chunk found it open.
-/
namespace Wormhole.L5.PortForward
open Wormhole.L1

/-! ## State -/

/-- A `StreamWriter`: what it was given, and `is_closing()`. -/
structure Writer where
  written : Bytes
  closing : Bool
  deriving DecidableEq, Repr

namespace Writer

/-- A transport that is closing drops what it is given. -/
def write (w : Writer) (data : Bytes) : Writer :=
  if w.closing then w else { w with written := w.written ++ data }

def close (w : Writer) : Writer := { w with closing := true }

@[simp] theorem write_closing (w : Writer) (data : Bytes) :
    (w.write data).closing = w.closing := by
  unfold write
  split
  · rfl
  · rfl

theorem write_written {w : Writer} (h : w.closing = false) (data : Bytes) :
    (w.write data).written = w.written ++ data := by
  rw [write, h]
  rfl

end Writer

/-- Where `_connect_local` is: in `open_connection`, through, in its `except`. -/
inductive Phase
  | connecting
  | connected
  | failed
  deriving DecidableEq, Repr

/-- The protocol object. `forwarding` is `_forward_task` under way, `lost` is that the
connection to the peer is. -/
structure ForwarderProtocol where
  phase : Phase
  localWriter : Option Writer
  forwarding : Bool
  lost : Bool
  deriving DecidableEq, Repr

/-- mirrors src/wh/core/forwarder.py:59-67 -/
def connectionMade : ForwarderProtocol := ⟨.connecting, none, false, false⟩

inductive Lbl
  | dataReceived (data : Bytes)
  /-- `open_connection` has returned; its transport may be closing by then -/
  | opens (closing : Bool)
  | openFails
  | localData (data : Bytes)
  | localEof
  | localCloses
  | connectionLost
  deriving DecidableEq, Repr

/-! ## Steps -/

/-- mirrors src/wh/core/forwarder.py:96-100 -/
def dataReceived (s : ForwarderProtocol) (data : Bytes) : ForwarderProtocol :=
  match s.localWriter with
  | none => s
  | some w => { s with localWriter := some (w.write data) }

/-- mirrors src/wh/core/forwarder.py:69-107 -/
def step (s : ForwarderProtocol) : Lbl → Option ForwarderProtocol
  | .dataReceived data => if s.lost then none else some (dataReceived s data)
  | .opens closing =>
    match s.phase with
    | .connecting =>
      some { s with phase := .connected, localWriter := some ⟨[], closing⟩, forwarding := true }
    | _ => none
  | .openFails =>
    match s.phase with
    | .connecting => some { s with phase := .failed }
    | _ => none
  | .localData _ => if s.forwarding then some s else none
  | .localEof => if s.forwarding then some { s with forwarding := false } else none
  | .localCloses => some { s with localWriter := s.localWriter.map Writer.close }
  | .connectionLost =>
    if s.lost then none
    else some { s with
      localWriter := s.localWriter.map Writer.close, forwarding := false, lost := true }

def lts : LTS ForwarderProtocol Lbl := .ofStep (· = connectionMade) step

/-! ## What is written -/

/-- What the peer sent. -/
def chunk : Lbl → Bytes
  | .dataReceived data => data
  | _ => []

def received (ls : List Lbl) : Bytes := LTS.gather step (fun _ => chunk) connectionMade ls

/-- What the local socket was written. -/
def written (s : ForwarderProtocol) : Bytes := (s.localWriter.map Writer.written).getD []

/-- The writer is there and open. -/
def Ready (s : ForwarderProtocol) : Prop := s.localWriter.map Writer.closing = some false

instance (s : ForwarderProtocol) : Decidable (Ready s) :=
  inferInstanceAs (Decidable (s.localWriter.map Writer.closing = some false))

/-- What a step writes. -/
def kept (s : ForwarderProtocol) (l : Lbl) : Bytes := if Ready s then chunk l else []

/-- A chunk that is not empty finds the local connection. -/
def Heard (s : ForwarderProtocol) (l : Lbl) : Prop := chunk l ≠ [] → Ready s

instance (s : ForwarderProtocol) (l : Lbl) : Decidable (Heard s l) :=
  inferInstanceAs (Decidable (chunk l ≠ [] → Ready s))

theorem kept_sublist (s : ForwarderProtocol) (l : Lbl) : (kept s l).Sublist (chunk l) := by
  unfold kept
  split
  · exact List.Sublist.refl _
  · exact List.nil_sublist _

theorem kept_eq_iff (s : ForwarderProtocol) (l : Lbl) : kept s l = chunk l ↔ Heard s l := by
  unfold kept Heard
  split
  · rename_i h
    exact iff_of_true rfl fun _ => h
  · rename_i h
    exact ⟨fun he hne => absurd he.symm hne, fun hn => (not_not.mp (mt hn h)).symm⟩

theorem kept_nil {l : Lbl} (h : chunk l = []) (s : ForwarderProtocol) : kept s l = [] := by
  unfold kept
  rw [h, ite_self]

/-- There is no writer before `open_connection` has returned. -/
def Fresh (s : ForwarderProtocol) : Prop := s.phase = .connecting → s.localWriter = none

theorem written_close (s : ForwarderProtocol) {t : ForwarderProtocol}
    (h : t.localWriter = s.localWriter.map Writer.close) : written t = written s := by
  unfold written
  rw [h]
  cases s.localWriter <;> rfl

theorem step_written {s t : ForwarderProtocol} {l : Lbl} (hf : Fresh s) (h : step s l = some t) :
    written t = written s ++ kept s l ∧ Fresh t := by
  cases l with
  | dataReceived data =>
    simp only [step] at h
    split at h
    · cases h
    · cases h
      unfold dataReceived
      cases hw : s.localWriter with
      | none =>
        refine ⟨?_, hf⟩
        rw [kept, if_neg (by simp [Ready, hw]), List.append_nil]
      | some w =>
        refine ⟨?_, fun hp => absurd (hf hp) (by simp [hw])⟩
        cases hc : w.closing with
        | true => simp [kept, Ready, written, Writer.write, hw, hc]
        | false => simp [kept, Ready, written, Writer.write, chunk, hw, hc]
  | opens closing =>
    simp only [step] at h
    split at h
    · rename_i hp
      cases h
      rw [kept_nil rfl]
      simp [written, Fresh, hf hp]
    · cases h
  | openFails =>
    simp only [step] at h
    split at h
    · cases h
      rw [kept_nil rfl, List.append_nil]
      exact ⟨rfl, nofun⟩
    · cases h
  | localData data | localEof =>
    simp only [step] at h
    split at h
    · cases h
      rw [kept_nil rfl, List.append_nil]
      exact ⟨rfl, hf⟩
    · cases h
  | localCloses =>
    cases h
    rw [kept_nil rfl, List.append_nil]
    exact ⟨written_close s rfl, fun hp => by simp [hf hp]⟩
  | connectionLost =>
    simp only [step] at h
    split at h
    · cases h
    · cases h
      rw [kept_nil rfl, List.append_nil]
      exact ⟨written_close s rfl, fun hp => by simp [hf hp]⟩

theorem written_eq {ls : List Lbl} {t : ForwarderProtocol} (hr : lts.Run connectionMade ls t) :
    written t = LTS.gather step kept connectionMade ls := by
  have hstep : ∀ s l t got, True → step s l = some t → written s = got ∧ Fresh s →
      written t = got ++ kept s l ∧ Fresh t := by
    intro s l t got _ hst hI
    rw [← hI.1]
    exact step_written hI.2 hst
  exact (LTS.Run.gather [] hstep hr.restrict_true ⟨rfl, fun _ => rfl⟩).1

/-- **When the forwarder keeps the stream.** In every run the local socket has been
written the chunks of the peer, in order, if and only if every chunk found it open: what
came before it was there is not kept for it. -/
theorem written_iff (ls : List Lbl) (t : ForwarderProtocol) (hr : lts.Run connectionMade ls t) :
    written t = received ls ↔ (lts.restrict Heard).Run connectionMade ls t := by
  have hsub : ∀ s l, (kept s l).Sublist ((fun _ => chunk) s l) := kept_sublist
  have hkept := LTS.Run.gather_kept_iff hsub kept_eq_iff hr
  rw [written_eq hr]
  exact hkept.2

/-- The local connection first. -/
def inTime : List Lbl :=
  [.opens false, .dataReceived [71, 69], .dataReceived [84], .localData [50]]

theorem inTime_written : written (LTS.after step connectionMade inTime) = received inTime := by
  have hrun : (lts.restrict Heard).Run connectionMade inTime
      (LTS.after step connectionMade inTime) := LTS.restrict_run_of_decide rfl
  exact (written_iff _ _ hrun.of_restrict).mpr hrun

/-- The peer does not wait. -/
def early : List Lbl := [.dataReceived [71, 69], .opens false, .dataReceived [84]]

/-- **The first chunk is dropped.** -/
theorem early_chunk_dropped : ¬ ∀ ls t, lts.Run connectionMade ls t → t.phase = .connected →
    written t = received ls := by
  intro h
  have hrun : lts.Run connectionMade early (LTS.after step connectionMade early) :=
    LTS.run_of_exec rfl
  exact absurd (h _ _ hrun rfl) (by decide)

end Wormhole.L5.PortForward
