import Wormhole.L5Concurrency.PortForward

/-!
# The SSH server's forwarder

One connection of `SSHServerHandler.run` (`src/wh/ssh/server.py`), a
`ForwardProtocol`: as the port forwarder, but what comes in before the local
connection is there is put by in `_pending_data` and written when it is. The writes
are made in the step in which `open_connection` returns; the list is emptied after the
`await` behind them (`flushing`), while more may come in.

* `stream_kept`: as long as the local writer is open it has been written exactly what
  came in, in order.
-/
namespace Wormhole.L5.SshForward
open Wormhole.L1
open Wormhole.L5.PortForward (Writer)

/-! ## State -/

/-- Where `_connect_local` is: in `open_connection`, in `drain`, through, in its
`except`. -/
inductive Phase
  | connecting
  | flushing
  | connected
  | failed
  deriving DecidableEq, Repr

/-- The protocol object. `drains` is the number of `_drain_local` tasks under way. -/
structure ForwardProtocol where
  phase : Phase
  localWriter : Option Writer
  pendingData : List Bytes
  drains : Nat
  forwarding : Bool
  lost : Bool
  deriving DecidableEq, Repr

/-- mirrors src/wh/ssh/server.py:106-113 -/
def connectionMade : ForwardProtocol := ⟨.connecting, none, [], 0, false, false⟩

inductive Lbl
  | dataReceived (data : Bytes)
  /-- `open_connection` has returned; its transport may be closing by then -/
  | opens (closing : Bool)
  | openFails
  | flushed
  | flushFails
  /-- of one `_drain_local`, whether it raises or not -/
  | drained
  | localData (data : Bytes)
  | localEof
  | localCloses
  | connectionLost
  deriving DecidableEq, Repr

/-! ## Steps -/

/-- mirrors src/wh/ssh/server.py:135-142 -/
def dataReceived (s : ForwardProtocol) (data : Bytes) : ForwardProtocol :=
  match s.localWriter with
  | some w =>
    if w.closing then { s with pendingData := s.pendingData ++ [data] }
    else { s with localWriter := some (w.write data), drains := s.drains + 1 }
  | none => { s with pendingData := s.pendingData ++ [data] }

/-- The loop over `_pending_data`. -/
def flush (w : Writer) (pending : List Bytes) : Writer := pending.foldl Writer.write w

/-- `_connect_local` after `open_connection`, up to its next `await`.
mirrors src/wh/ssh/server.py:118-131 -/
def opened (s : ForwardProtocol) (closing : Bool) : ForwardProtocol :=
  if s.pendingData = [] then
    { s with phase := .connected, localWriter := some ⟨[], closing⟩, forwarding := true }
  else
    { s with phase := .flushing, localWriter := some (flush ⟨[], closing⟩ s.pendingData) }

/-- mirrors src/wh/ssh/server.py:115-169 -/
def step (s : ForwardProtocol) : Lbl → Option ForwardProtocol
  | .dataReceived data => if s.lost then none else some (dataReceived s data)
  | .opens closing => if s.phase = .connecting then some (opened s closing) else none
  | .openFails => if s.phase = .connecting then some { s with phase := .failed } else none
  | .flushed =>
    if s.phase = .flushing then
      some { s with phase := .connected, pendingData := [], forwarding := true }
    else none
  | .flushFails => if s.phase = .flushing then some { s with phase := .failed } else none
  | .drained => if s.drains = 0 then none else some { s with drains := s.drains - 1 }
  | .localData _ => if s.forwarding then some s else none
  | .localEof => if s.forwarding then some { s with forwarding := false } else none
  | .localCloses => some { s with localWriter := s.localWriter.map Writer.close }
  | .connectionLost =>
    if s.lost then none
    else some { s with
      localWriter := s.localWriter.map Writer.close, forwarding := false, lost := true }

def lts : LTS ForwardProtocol Lbl := .ofStep (· = connectionMade) step

/-! ## Every chunk, once and in order -/

/-- What the peer sent. -/
def chunk : Lbl → Bytes
  | .dataReceived data => data
  | _ => []

def received (ls : List Lbl) : Bytes := LTS.gather step (fun _ => chunk) connectionMade ls

/-- An open writer was given all that came in; before there is one, all that came in is
pending. -/
structure Kept (s : ForwardProtocol) (got : Bytes) : Prop where
  fresh : s.phase = .connecting → s.localWriter = none
  flushing : s.phase = .flushing → s.localWriter ≠ none
  pending : s.localWriter = none → s.pendingData.flatten = got
  written : ∀ w, s.localWriter = some w → w.closing = false → w.written = got

theorem flush_closing (w : Writer) (pending : List Bytes) :
    (flush w pending).closing = w.closing := by
  induction pending generalizing w with
  | nil => rfl
  | cons data pending ih => exact (ih _).trans (w.write_closing data)

theorem flush_written {w : Writer} (h : w.closing = false) (pending : List Bytes) :
    (flush w pending).written = w.written ++ pending.flatten := by
  induction pending generalizing w with
  | nil => exact (List.append_nil _).symm
  | cons data pending ih =>
    rw [List.flatten_cons, ← List.append_assoc, ← w.write_written h]
    exact ih ((w.write_closing data).trans h)

theorem kept_opened {s : ForwardProtocol} {got : Bytes} (hk : Kept s got)
    (hp : s.phase = .connecting) (closing : Bool) : Kept (opened s closing) got := by
  have hpending := hk.pending (hk.fresh hp)
  unfold opened
  split
  · rename_i he
    rw [he] at hpending
    refine ⟨nofun, nofun, nofun, fun w hw hc => ?_⟩
    cases hw
    exact hpending
  · refine ⟨nofun, nofun, nofun, fun w hw hc => ?_⟩
    cases hw
    rw [flush_closing] at hc
    rw [flush_written hc, hpending]
    rfl

theorem kept_dataReceived {s : ForwardProtocol} {got : Bytes} (hk : Kept s got) (data : Bytes) :
    Kept (dataReceived s data) (got ++ data) := by
  unfold dataReceived
  split
  · rename_i w hw
    have hne : s.phase ≠ .connecting := fun hp => by simp [hk.fresh hp] at hw
    split
    · rename_i hc
      refine ⟨fun hp => absurd hp hne, hk.flushing, fun hn => ?_, fun w' hw' hc' => ?_⟩
      · rw [hw] at hn
        cases hn
      · rw [hw] at hw'
        cases hw'
        rw [hc] at hc'
        cases hc'
    · rename_i hc
      have hopen : w.closing = false := Bool.eq_false_iff.mpr hc
      refine ⟨fun hp => absurd hp hne, nofun, nofun, fun w' hw' _ => ?_⟩
      cases hw'
      rw [Writer.write_written hopen, hk.written w hw hopen]
  · rename_i hw
    refine ⟨fun _ => hw, hk.flushing, fun _ => ?_, fun w hw' => ?_⟩
    · show (s.pendingData ++ [data]).flatten = got ++ data
      rw [List.flatten_append, hk.pending hw, List.flatten_singleton]
    · rw [hw] at hw'
      cases hw'

/-- Closing the writer, if there is one. -/
theorem Kept.close {s t : ForwardProtocol} {got : Bytes} (hk : Kept s got)
    (hp : t.phase = s.phase) (hd : t.pendingData = s.pendingData)
    (hw : t.localWriter = s.localWriter.map Writer.close) : Kept t got := by
  refine ⟨fun h => ?_, fun h => ?_, fun h => ?_, fun w h hc => ?_⟩
  · rw [hw, hk.fresh (hp ▸ h)]
    rfl
  · rw [hw]
    exact fun hn => hk.flushing (hp ▸ h) (Option.map_eq_none_iff.mp hn)
  · rw [hd]
    exact hk.pending (Option.map_eq_none_iff.mp (hw ▸ h))
  · obtain ⟨w', -, rfl⟩ := Option.map_eq_some_iff.mp (hw ▸ h)
    cases hc

/-- A step that leaves the writer alone, and the list where there is none. -/
theorem Kept.goOn {s t : ForwardProtocol} {got : Bytes} (hk : Kept s got)
    (hp : t.phase = .connecting → s.phase = .connecting)
    (hp' : t.phase = .flushing → s.phase = .flushing) (hw : t.localWriter = s.localWriter)
    (hd : s.localWriter = none → t.pendingData = s.pendingData) : Kept t got := by
  refine ⟨fun h => hw.trans (hk.fresh (hp h)), fun h => hw ▸ hk.flushing (hp' h), fun h => ?_,
    fun w h => hk.written w (hw ▸ h)⟩
  rw [hw] at h
  rw [hd h]
  exact hk.pending h

theorem Kept.silent {t : ForwardProtocol} {l : Lbl} {got : Bytes} (h : chunk l = [])
    (hk : Kept t got) : Kept t (got ++ chunk l) := by
  rwa [h, List.append_nil]

/-- A step adds to what came in, and everything is still there. -/
theorem kept_step {s t : ForwardProtocol} {l : Lbl} {got : Bytes} (hk : Kept s got)
    (h : step s l = some t) : Kept t (got ++ chunk l) := by
  cases l with
  | dataReceived data =>
    simp only [step] at h
    split at h
    · cases h
    · cases h
      exact kept_dataReceived hk data
  | opens closing =>
    simp only [step] at h
    split at h
    · rename_i hp
      cases h
      refine Kept.silent rfl ?_
      exact kept_opened hk hp closing
    · cases h
  | openFails =>
    simp only [step] at h
    split at h
    · cases h
      refine Kept.silent rfl ?_
      exact hk.goOn nofun nofun rfl fun _ => rfl
    · cases h
  | flushed =>
    simp only [step] at h
    split at h
    · rename_i hp
      cases h
      refine Kept.silent rfl ?_
      exact hk.goOn nofun nofun rfl fun hn => absurd hn (hk.flushing hp)
    · cases h
  | flushFails =>
    simp only [step] at h
    split at h
    · cases h
      refine Kept.silent rfl ?_
      exact hk.goOn nofun nofun rfl fun _ => rfl
    · cases h
  | drained =>
    simp only [step] at h
    split at h
    · cases h
    · cases h
      refine Kept.silent rfl ?_
      exact hk.goOn id id rfl fun _ => rfl
  | localData data | localEof =>
    simp only [step] at h
    split at h
    · cases h
      refine Kept.silent rfl ?_
      exact hk.goOn id id rfl fun _ => rfl
    · cases h
  | localCloses =>
    cases h
    refine Kept.silent rfl ?_
    exact hk.close rfl rfl rfl
  | connectionLost =>
    simp only [step] at h
    split at h
    · cases h
    · cases h
      refine Kept.silent rfl ?_
      exact hk.close rfl rfl rfl

theorem kept_run {ls : List Lbl} {t : ForwardProtocol} (hr : lts.Run connectionMade ls t) :
    Kept t (received ls) :=
  LTS.Run.gather [] (fun _ _ _ _ _ hst hk => kept_step hk hst) hr.restrict_true
    ⟨fun _ => rfl, nofun, fun _ => rfl, nofun⟩

/-- **The forwarder keeps the stream.** In every run, for every order of the arrivals,
the steps of `_connect_local` and the drain tasks: while the local writer is open it has
been written exactly the chunks received so far, in order. -/
theorem stream_kept (ls : List Lbl) (t : ForwardProtocol) (hr : lts.Run connectionMade ls t)
    (w : Writer) (hw : t.localWriter = some w) (hc : w.closing = false) :
    w.written = received ls :=
  (kept_run hr).written w hw hc

/-- Chunks before the connection, while the list is flushed and after it. -/
def threeTimes : List Lbl :=
  [.dataReceived [83, 83], .dataReceived [72], .opens false, .dataReceived [45], .flushed,
    .drained, .dataReceived [50]]

theorem threeTimes_kept :
    (⟨[83, 83, 72, 45, 50], false⟩ : Writer).written = received threeTimes :=
  stream_kept threeTimes (LTS.after step connectionMade threeTimes) (LTS.run_of_exec rfl)
    ⟨[83, 83, 72, 45, 50], false⟩ rfl rfl

end Wormhole.L5.SshForward
