import Wormhole.Core.LTS
import Wormhole.L1Encoding.PyBytes

/-!
# The netcat pipe

`BidirectionalPipe` of `src/wh/core/protocol.py`: `_pump_stdin` reads stdin and
sends to the peer, `_on_data` writes what the peer sends to stdout, and `_done`
ends `run_as_initiator` and `run_as_listener`. `_pump_stdin` reads in one of
two ways, both under a time-out of half a second:

* `reader`: `StreamReader.read(4096)`, which takes bytes in the step in which
  it returns them, so a time-out takes none;
* `executor`: `stdin.read(4096)` in a thread. The thread takes the bytes first
  (`take`), the coroutine gets them later (`resume`). A time-out, or the
  cancellation when the run ends, abandons the thread and not its read
  (`abandonedTake`).

`run_as_listener` never assigns `self._protocol`, `run_as_initiator` does
(`attached`). The peer's bytes and the end of its side arrive in order; stdout
accepts everything.

* `sent_iff`: what the pump took has been sent, in order, if and only if every
  read came back to the pump and was sent on a connection the pipe knows of.
* `pipe_lossless`: with it, what the peer sent is on stdout when the run
  returns, provided that only the end of the connection ends it early.
-/
namespace Wormhole.L5.NetcatPipe
open Wormhole.L1

/-! ## State -/

inductive Role
  | initiator
  | listener
  deriving DecidableEq, Repr

inductive Path
  | reader
  | executor
  deriving DecidableEq, Repr

structure Cfg where
  role : Role
  path : Path
  deriving DecidableEq, Repr

/-- `_pump_stdin`: at the head of its loop; in a read, with what the thread has
taken for it; over. -/
inductive Pump
  | loop
  | reading (result : Option Bytes)
  | stopped
  deriving DecidableEq, Repr

/-- The pipe and its `StreamingProtocol`. `abandoned` threads still read for
nobody. -/
structure Pipe where
  attached : Bool
  connected : Bool
  done : Bool
  writeClosed : Bool
  pump : Pump
  abandoned : Nat
  deriving DecidableEq, Repr

/-- The pipe between stdin and the connection. `inflight` is what the peer sent
and the transport has not delivered. -/
structure St where
  pipe : Pipe
  stdin : Bytes
  stdinEof : Bool
  inflight : Bytes
  peerClosed : Bool
  returned : Bool
  deriving DecidableEq, Repr

/-- The connection is made, the pump is started.
mirrors src/wh/core/protocol.py:301-319,385-405 -/
def init (cfg : Cfg) : St :=
  ⟨⟨cfg.role = .initiator, true, false, false, .loop, 0⟩, [], false, [], false, false⟩

/-! ## Steps -/

inductive Lbl
  | typed (data : Bytes)
  | stdinCloses
  | check
  | take (n : Nat)
  | resume
  | timeout
  | fails
  | abandonedTake (n : Nat)
  | peerSends (data : Bytes)
  | peerCloses
  | deliver (n : Nat)
  | connectionLost
  | shutdown
  | finish
  deriving DecidableEq, Repr

/-- `self._protocol` is set and `_connected`: what is sent is written. -/
def Pipe.canSend (p : Pipe) : Bool := p.attached && p.connected

/-- What `self._protocol.send(data)` writes to the transport, if there is one.
mirrors src/wh/core/protocol.py:62-65,182-183,218-219 -/
def Pipe.send (p : Pipe) (data : Bytes) : Bytes := if p.canSend then data else []

/-- The pump after a read has come back to it: on EOF it closes the write side
and ends, in `finally: self._done.set()`.
mirrors src/wh/core/protocol.py:177-183,213-225 -/
def Pipe.gotData (p : Pipe) (data : Bytes) : Pipe :=
  if data = [] then
    { p with writeClosed := p.writeClosed || p.attached, pump := .stopped, done := true }
  else { p with pump := .loop }

/-- What the thread has taken and the coroutine has not got. -/
def held (s : St) : Bytes :=
  match s.pipe.pump with
  | .reading (some data) => data
  | _ => []

/-- A read of at most 4096 bytes can return: there are bytes, or EOF. -/
def canTake (s : St) (n : Nat) : Bool :=
  if s.stdin = [] then s.stdinEof else 0 < n && n ≤ 4096

/-- mirrors src/wh/core/protocol.py:157-239,319-339 -/
def step (cfg : Cfg) (s : St) : Lbl → Option St
  | .typed data => if s.stdinEof then none else some { s with stdin := s.stdin ++ data }
  | .stdinCloses => some { s with stdinEof := true }
  | .check =>
    match s.pipe.pump with
    | .loop =>
      if s.pipe.done then some { s with pipe := { s.pipe with pump := .stopped } }
      else some { s with pipe := { s.pipe with pump := .reading none } }
    | _ => none
  | .take n =>
    match s.pipe.pump with
    | .reading none =>
      if canTake s n then
        match cfg.path with
        | .reader => some { s with
            stdin := s.stdin.drop n, pipe := s.pipe.gotData (s.stdin.take n) }
        | .executor => some { s with
            stdin := s.stdin.drop n
            pipe := { s.pipe with pump := .reading (some (s.stdin.take n)) } }
      else none
    | _ => none
  | .resume =>
    match s.pipe.pump with
    | .reading (some data) => some { s with pipe := s.pipe.gotData data }
    | _ => none
  | .timeout =>
    match s.pipe.pump with
    | .reading r => some { s with
        pipe := { s.pipe with
          pump := .loop
          abandoned := if cfg.path = .executor ∧ r = none then s.pipe.abandoned + 1
            else s.pipe.abandoned } }
    | _ => none
  | .fails =>
    match s.pipe.pump with
    | .reading none => some { s with pipe := { s.pipe with pump := .stopped, done := true } }
    | _ => none
  | .abandonedTake n =>
    if 0 < s.pipe.abandoned ∧ canTake s n = true then
      some { s with
        stdin := s.stdin.drop n, pipe := { s.pipe with abandoned := s.pipe.abandoned - 1 } }
    else none
  | .peerSends data =>
    if s.peerClosed then none else some { s with inflight := s.inflight ++ data }
  | .peerCloses => some { s with peerClosed := true }
  | .deliver n => some { s with inflight := s.inflight.drop n }
  | .connectionLost =>
    -- the end of the peer's side is behind everything it sent
    if s.peerClosed = true ∧ s.inflight = [] then
      some { s with pipe := { s.pipe with connected := false, done := true } }
    else none
  | .shutdown => some { s with pipe := { s.pipe with done := true } }
  | .finish =>
    if s.pipe.done = true ∧ s.returned = false then
      some { s with
        returned := true
        pipe := { s.pipe with
          pump := .stopped
          abandoned := if cfg.path = .executor ∧ s.pipe.pump = .reading none
            then s.pipe.abandoned + 1 else s.pipe.abandoned } }
    else none

def lts (cfg : Cfg) : LTS St Lbl := .ofStep (· = init cfg) (step cfg)

/-! ## From stdin to the peer -/

/-- What a step takes from stdin. -/
def taken (s : St) : Lbl → Bytes
  | .take n => s.stdin.take n
  | .abandonedTake n => s.stdin.take n
  | _ => []

/-- What a step sends to the peer. -/
def sent (cfg : Cfg) (s : St) : Lbl → Bytes
  | .take n => if cfg.path = .reader then s.pipe.send (s.stdin.take n) else []
  | .resume => s.pipe.send (held s)
  | _ => []

/-- What the read that a step ends had taken. -/
def ended (cfg : Cfg) (s : St) : Lbl → Bytes
  | .take n => if cfg.path = .reader then s.stdin.take n else []
  | .resume | .timeout | .finish => held s
  | .abandonedTake n => s.stdin.take n
  | _ => []

/-- A read that took bytes ends in the pump, on a connection it can send on. -/
def KeepsStdin (cfg : Cfg) (s : St) : Lbl → Prop
  | .take n => cfg.path = .reader → s.stdin.take n ≠ [] → s.pipe.canSend = true
  | .resume => held s ≠ [] → s.pipe.canSend = true
  | .timeout | .finish => held s = []
  | .abandonedTake n => s.stdin.take n = []
  | _ => True

theorem send_sublist (p : Pipe) (data : Bytes) : (p.send data).Sublist data := by
  unfold Pipe.send
  split
  · exact List.Sublist.refl _
  · exact List.nil_sublist _

theorem send_eq_iff {p : Pipe} {data : Bytes} :
    p.send data = data ↔ (data ≠ [] → p.canSend = true) := by
  unfold Pipe.send
  cases p.canSend with
  | true => simp
  | false => simp [eq_comm]

theorem sent_sublist (cfg : Cfg) (s : St) (l : Lbl) : (sent cfg s l).Sublist (ended cfg s l) := by
  cases l with
  | take n =>
    simp only [sent, ended]
    split
    · exact send_sublist _ _
    · exact List.Sublist.refl _
  | resume => exact send_sublist _ _
  | _ => exact List.nil_sublist _

theorem sent_eq_iff (cfg : Cfg) (s : St) (l : Lbl) :
    sent cfg s l = ended cfg s l ↔ KeepsStdin cfg s l := by
  cases l with
  | take n =>
    simp only [sent, ended, KeepsStdin]
    split
    · rename_i hp
      rw [send_eq_iff]
      exact ⟨fun h _ => h, fun h => h hp⟩
    · rename_i hp
      exact ⟨fun _ h => absurd h hp, fun _ => rfl⟩
  | resume => exact send_eq_iff
  | timeout | finish | abandonedTake => simp only [sent, ended, KeepsStdin, eq_comm]
  | _ => simp [sent, ended, KeepsStdin]

@[simp] theorem held_loop {s : St} (h : s.pipe.pump = .loop) : held s = [] := by
  unfold held; rw [h]

theorem held_reading {s : St} {r : Option Bytes} (h : s.pipe.pump = .reading r) :
    held s = r.getD [] := by
  unfold held; rw [h]
  cases r <;> rfl

theorem held_gotData (s : St) (data stdin : Bytes) :
    held { s with stdin := stdin, pipe := s.pipe.gotData data } = [] := by
  unfold held Pipe.gotData
  split
  · rename_i h
    split at h <;> cases h
  · rfl

/-- A step that takes bytes puts them where it or a later step ends the read;
the order is kept unless an abandoned thread reads. -/
theorem step_held {cfg : Cfg} {s t : St} {l : Lbl} (h : step cfg s l = some t) :
    held s ++ taken s l = ended cfg s l ++ held t ∨
      ∃ n, l = .abandonedTake n ∧ held t = held s := by
  cases l with
  | typed data =>
    simp only [step] at h
    split at h
    · cases h
    · cases h; exact .inl (by simp [taken, ended, held])
  | stdinCloses => cases h; exact .inl (by simp [taken, ended, held])
  | check =>
    simp only [step] at h
    split at h
    · rename_i hp
      split at h <;> cases h <;> exact .inl (by simp [taken, ended, held, hp])
    · cases h
  | take n =>
    simp only [step] at h
    split at h
    · rename_i hp
      rw [held_reading hp]
      split at h
      · split at h
        · rename_i hpath
          cases h
          left
          rw [held_gotData]
          simp [taken, ended, hpath]
        · rename_i hpath
          cases h
          exact .inl (by simp [taken, ended, hpath, held])
      · cases h
    · cases h
  | resume =>
    simp only [step] at h
    split at h
    · rename_i data hp
      cases h
      left
      rw [held_gotData s data s.stdin]
      simp [taken, ended]
    · cases h
  | timeout =>
    simp only [step] at h
    split at h
    · cases h; exact .inl (by simp [taken, ended, held])
    · cases h
  | fails =>
    simp only [step] at h
    split at h
    · rename_i hp; cases h; exact .inl (by simp [taken, ended, held, hp])
    · cases h
  | abandonedTake n =>
    simp only [step] at h
    split at h
    · cases h; exact .inr ⟨n, rfl, rfl⟩
    · cases h
  | peerSends data =>
    simp only [step] at h
    split at h
    · cases h
    · cases h; exact .inl (by simp [taken, ended, held])
  | peerCloses | deliver | shutdown => cases h; exact .inl (by simp [taken, ended, held])
  | connectionLost =>
    simp only [step] at h
    split at h
    · cases h; exact .inl (by simp [taken, ended, held])
    · cases h
  | finish =>
    simp only [step] at h
    split at h
    · cases h; exact .inl (by simp [taken, ended, held])
    · cases h

/-- **Stdin is sent if no read goes astray.** In every run, what was sent to
the peer and what a finished read still holds is what was taken from stdin, in
order, if and only if every step meets `KeepsStdin`. -/
theorem sent_iff {cfg : Cfg} {t : St} {ls : List Lbl} (hr : (lts cfg).Run (init cfg) ls t) :
    LTS.gather (step cfg) (sent cfg) (init cfg) ls ++ held t =
        LTS.gather (step cfg) taken (init cfg) ls ↔
      ((lts cfg).restrict (KeepsStdin cfg)).Run (init cfg) ls t := by
  have h := LTS.Run.lossless_iff_of_flow held taken (ended cfg) (sent cfg) (KeepsStdin cfg)
    (P := fun _ => True) (fun _ _ _ _ _ => trivial) ?_ ?_ (sent_sublist cfg) (sent_eq_iff cfg)
    hr trivial
  · exact h
  · intro s l t hst _
    obtain hh | ⟨n, rfl, hh⟩ := step_held hst
    · simp only [Multiset.coe_add, hh]
    · rw [hh, add_comm]
      rfl
  · intro s l t hst _ hk
    obtain hh | ⟨n, rfl, hh⟩ := step_held hst
    · exact hh
    · have hn : s.stdin.take n = [] := hk
      simp [hh, taken, ended, hn]

/-! ## From the peer to stdout -/

/-- What the peer sends in a step. -/
def peerSent (_ : St) : Lbl → Bytes
  | .peerSends data => data
  | _ => []

/-- What a step writes to stdout before the run has returned.
mirrors src/wh/core/protocol.py:227-234 (`_on_data`) -/
def written (s : St) : Lbl → Bytes
  | .deliver n => if s.returned then [] else s.inflight.take n
  | _ => []

/-- The peer has closed its side and everything it sent was delivered. -/
def Drained (s : St) : Prop := s.peerClosed = true ∧ s.inflight = []

/-- Stdin does not end, and the run is not shut down, before the peer's side
is drained. -/
def OutlivesPeer (cfg : Cfg) (s : St) : Lbl → Prop
  | .take n => cfg.path = .reader → s.stdin.take n = [] → Drained s
  | .resume => held s = [] → Drained s
  | .fails | .shutdown => Drained s
  | _ => True

/-- A run that is done, and one that has returned, has drained its peer. -/
structure Inv (s : St) : Prop where
  drained : s.pipe.done = true → Drained s
  returned : s.returned = true → s.pipe.done = true

theorem gotData_done {p : Pipe} {data : Bytes} (h : (p.gotData data).done = true) :
    p.done = true ∨ data = [] := by
  unfold Pipe.gotData at h
  split at h
  · exact .inr ‹_›
  · exact .inl h

theorem done_gotData {p : Pipe} (data : Bytes) (h : p.done = true) :
    (p.gotData data).done = true := by
  unfold Pipe.gotData
  split
  · rfl
  · exact h

theorem inv_step {cfg : Cfg} {s t : St} {l : Lbl} (ho : OutlivesPeer cfg s l)
    (h : step cfg s l = some t) (hi : Inv s) : Inv t := by
  obtain ⟨h1, h2⟩ := hi
  cases l with
  | typed data =>
    simp only [step] at h
    split at h
    · cases h
    · cases h; exact ⟨h1, h2⟩
  | stdinCloses => cases h; exact ⟨h1, h2⟩
  | check =>
    simp only [step] at h
    split at h
    · split at h <;> cases h <;> exact ⟨h1, h2⟩
    · cases h
  | take n =>
    simp only [step] at h
    split at h
    · split at h
      · split at h
        · rename_i hpath
          cases h
          refine ⟨fun hd => ?_, fun hr => done_gotData _ (h2 hr)⟩
          obtain hd | hd := gotData_done hd
          · exact h1 hd
          · exact ho hpath hd
        · cases h; exact ⟨h1, h2⟩
      · cases h
    · cases h
  | resume =>
    simp only [step] at h
    split at h
    · rename_i data hp
      cases h
      refine ⟨fun hd => ?_, fun hr => done_gotData _ (h2 hr)⟩
      obtain hd | hd := gotData_done hd
      · exact h1 hd
      · exact ho (by rw [held_reading hp]; exact hd)
    · cases h
  | timeout =>
    simp only [step] at h
    split at h
    · cases h; exact ⟨h1, h2⟩
    · cases h
  | fails =>
    simp only [step] at h
    split at h
    · cases h; exact ⟨fun _ => ho, fun _ => rfl⟩
    · cases h
  | abandonedTake n =>
    simp only [step] at h
    split at h
    · cases h; exact ⟨h1, h2⟩
    · cases h
  | peerSends data =>
    simp only [step] at h
    split at h
    · cases h
    · rename_i hc
      cases h
      exact ⟨fun hd => absurd (h1 hd).1 hc, h2⟩
  | peerCloses => cases h; exact ⟨fun hd => ⟨rfl, (h1 hd).2⟩, h2⟩
  | deliver n =>
    cases h
    refine ⟨fun hd => ⟨(h1 hd).1, ?_⟩, h2⟩
    simp [(h1 hd).2]
  | connectionLost =>
    simp only [step] at h
    split at h
    · rename_i hd; cases h; exact ⟨fun _ => hd, fun _ => rfl⟩
    · cases h
  | shutdown => cases h; exact ⟨fun _ => ho, fun _ => rfl⟩
  | finish =>
    simp only [step] at h
    split at h
    · rename_i hd; cases h; exact ⟨h1, fun _ => hd.1⟩
    · cases h

/-- What the peer sent is written before the run has returned or in flight. -/
theorem step_inflight {cfg : Cfg} {s t : St} {l : Lbl} (h : step cfg s l = some t) (hi : Inv s) :
    s.inflight ++ peerSent s l = written s l ++ t.inflight := by
  cases l with
  | deliver n =>
    cases h
    cases hr : s.returned with
    | false => simp [peerSent, written, hr]
    | true => simp [peerSent, written, hr, (hi.drained (hi.returned hr)).2]
  | peerSends data =>
    simp only [step] at h
    split at h
    · cases h
    · cases h; rfl
  | _ =>
    have ht : t.inflight = s.inflight := by
      simp only [step] at h
      repeat' split at h
      all_goals
        cases h
        try rfl
    simp [peerSent, written, ht]

/-- **The pipe is lossless up to two conditions.** In every run the bytes taken
from stdin are sent, in order, exactly when each step meets `KeepsStdin`; and
when stdin and the user do not end the run before the peer's side is drained,
everything the peer sent is on stdout, in order, when the run returns. -/
theorem pipe_lossless {cfg : Cfg} {t : St} {ls : List Lbl}
    (hr : (lts cfg).Run (init cfg) ls t) :
    (LTS.gather (step cfg) (sent cfg) (init cfg) ls ++ held t =
        LTS.gather (step cfg) taken (init cfg) ls ↔
      ((lts cfg).restrict (KeepsStdin cfg)).Run (init cfg) ls t) ∧
    (((lts cfg).restrict (OutlivesPeer cfg)).Run (init cfg) ls t → t.returned = true →
      LTS.gather (step cfg) written (init cfg) ls =
        LTS.gather (step cfg) peerSent (init cfg) ls) := by
  refine ⟨sent_iff hr, fun ho hret => ?_⟩
  have hi : Inv (init cfg) := ⟨nofun, nofun⟩
  have hstep : ∀ s l t, Inv s → ((lts cfg).restrict (OutlivesPeer cfg)).step s l t → Inv t :=
    fun s l t hi hs => inv_step hs.1 hs.2 hi
  have ht : Inv t := ho.invariant hstep hi
  have hf := LTS.Run.fifo (fun s l t hc hst hi => inv_step hc hst hi)
    (fun s l t _ hst hi => step_inflight hst hi) ho hi
  rw [(ht.drained (ht.returned hret)).2, List.append_nil] at hf
  exact hf.symm

/-! ## Runs on fixed inputs -/

def initiator : Cfg := ⟨.initiator, .reader⟩

/-- Both sides send, the peer closes first. -/
def wholeRun : List Lbl :=
  [.typed [104, 105], .check, .timeout, .check, .take 1, .peerSends [33], .check, .take 4096,
   .deliver 1, .peerCloses, .connectionLost, .finish]

/-- A listener reads two bytes. -/
def listenerRun : List Lbl := [.typed [104, 105], .check, .take 2]

/-- A time-out while a thread waits for stdin, which then takes two bytes. -/
def abandonedRun : List Lbl := [.check, .timeout, .typed [104, 105], .abandonedTake 2]

/-- Stdin is at its end before the peer has sent. -/
def halfClosedRun : List Lbl := [.stdinCloses, .check, .take 0, .peerSends [33], .finish, .deliver 1]

/-- `KeepsStdin` and `OutlivesPeer` as a check. -/
def checks (cfg : Cfg) (s : St) : Lbl → Bool
  | .take n => cfg.path = .executor || (s.pipe.canSend && !(s.stdin.take n).isEmpty)
  | .resume => s.pipe.canSend && !(held s).isEmpty
  | .timeout | .finish => (held s).isEmpty
  | .abandonedTake n => (s.stdin.take n).isEmpty
  | .fails | .shutdown => false
  | _ => true

theorem of_checks {cfg : Cfg} {s : St} {l : Lbl} (h : checks cfg s l = true) :
    KeepsStdin cfg s l ∧ OutlivesPeer cfg s l := by
  cases l with
  | take n =>
    simp only [checks, Bool.or_eq_true, decide_eq_true_eq, Bool.and_eq_true,
      Bool.not_eq_true', List.isEmpty_eq_false_iff] at h
    refine ⟨fun hp _ => ?_, fun hp he => ?_⟩
    · obtain h | h := h
      · rw [hp] at h; cases h
      · exact h.1
    · obtain h | h := h
      · rw [hp] at h; cases h
      · exact absurd he h.2
  | resume =>
    simp only [checks, Bool.and_eq_true, Bool.not_eq_true', List.isEmpty_eq_false_iff] at h
    exact ⟨fun _ => h.1, fun he => absurd he h.2⟩
  | timeout | finish | abandonedTake => exact ⟨List.isEmpty_iff.mp h, trivial⟩
  | fails | shutdown => cases h
  | _ => exact ⟨trivial, trivial⟩

theorem whole_run :
    (LTS.gather (step initiator) (sent initiator) (init initiator) wholeRun ++
          held (LTS.after (step initiator) (init initiator) wholeRun) =
        LTS.gather (step initiator) taken (init initiator) wholeRun ↔
      ((lts initiator).restrict (KeepsStdin initiator)).Run (init initiator) wholeRun
        (LTS.after (step initiator) (init initiator) wholeRun)) ∧
    LTS.gather (step initiator) written (init initiator) wholeRun =
      LTS.gather (step initiator) peerSent (init initiator) wholeRun := by
  have he : LTS.exec (LTS.checked (checks initiator) (step initiator)) (init initiator) wholeRun =
      some (LTS.after (step initiator) (init initiator) wholeRun) := by decide +kernel
  have ho : ((lts initiator).restrict (OutlivesPeer initiator)).Run (init initiator) wholeRun
      (LTS.after (step initiator) (init initiator) wholeRun) :=
    LTS.restrict_run_of_exec (fun _ _ h => (of_checks h).2) he
  obtain ⟨h1, h2⟩ := pipe_lossless ho.of_restrict
  exact ⟨h1, h2 ho (by decide +kernel)⟩

/-- **The pipe loses bytes both ways.** A listener sends nothing of what it
reads; a thread that outlives its time-out takes bytes that are never sent; and
when stdin ends first, the run returns while the peer's bytes are in flight. -/
theorem pipe_loses :
    (∃ t, (lts ⟨.listener, .reader⟩).Run (init ⟨.listener, .reader⟩) listenerRun t ∧
      held t = [] ∧
      LTS.gather (step ⟨.listener, .reader⟩) taken (init ⟨.listener, .reader⟩) listenerRun =
        [104, 105] ∧
      LTS.gather (step ⟨.listener, .reader⟩) (sent ⟨.listener, .reader⟩)
        (init ⟨.listener, .reader⟩) listenerRun = []) ∧
    (∃ t, (lts ⟨.initiator, .executor⟩).Run (init ⟨.initiator, .executor⟩) abandonedRun t ∧
      held t = [] ∧
      LTS.gather (step ⟨.initiator, .executor⟩) taken (init ⟨.initiator, .executor⟩)
        abandonedRun = [104, 105] ∧
      LTS.gather (step ⟨.initiator, .executor⟩) (sent ⟨.initiator, .executor⟩)
        (init ⟨.initiator, .executor⟩) abandonedRun = []) ∧
    ∃ t, (lts initiator).Run (init initiator) halfClosedRun t ∧ t.returned = true ∧
      LTS.gather (step initiator) peerSent (init initiator) halfClosedRun = [33] ∧
      LTS.gather (step initiator) written (init initiator) halfClosedRun = [] :=
  ⟨⟨_, LTS.run_of_exec (LTS.exec_after (by decide +kernel)), by decide +kernel, by decide +kernel,
      by decide +kernel⟩,
    ⟨_, LTS.run_of_exec (LTS.exec_after (by decide +kernel)), by decide +kernel, by decide +kernel,
      by decide +kernel⟩,
    ⟨_, LTS.run_of_exec (LTS.exec_after (by decide +kernel)), by decide +kernel, by decide +kernel,
      by decide +kernel⟩⟩

end Wormhole.L5.NetcatPipe
