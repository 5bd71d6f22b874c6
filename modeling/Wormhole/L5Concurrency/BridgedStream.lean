import Wormhole.Core.LTS
import Wormhole.L4App.Daemon

/-!
# Reading a bridged connection to its end

One bridged connection (`Wormhole.L4.Daemon`) and one client that calls
`/recv` again and again, with any `max_bytes`, until it is told the stream has
ended. The chunks, the end of the connection, the scheduled `put_nowait`s, the
calls and their time-outs come in any order; a call is three steps (`recv`,
then `get` or `timeout`), so anything may happen while it waits.

* `conserved`: while no remainder is put behind other bytes (`KeepsPlace`),
  the bodies so far followed by what is unread are the bytes received.
* `recv_faithful_iff`: such a run then reads the whole stream exactly when no
  call met a closed connection with bytes unread (`DrainsFirst`): `closed` is
  set before the queue is empty and `handle_recv` looks at it first.
* `recv_loses`: both happen.
-/
namespace Wormhole.L5.BridgedStream
open Wormhole.L1 Wormhole.L4.Daemon

/-! ## State and steps -/

/-- The client between two calls, in a call, and told that the stream ended. -/
inductive Poller
  | idle
  | waiting (maxBytes : Nat)
  | ended
  deriving DecidableEq, Repr

structure St where
  bridge : Bridge
  poller : Poller
  deriving DecidableEq, Repr

def init : St := ⟨.init, .idle⟩

inductive Lbl
  | connectionMade
  | dataReceived (data : Bytes)
  | connectionLost
  | runScheduled
  | recv (maxBytes : Nat)
  | get
  | timeout
  deriving DecidableEq, Repr

def closed (s : St) : Bool := s.bridge.connState.any (·.closed)

/-- The transport delivers to a connection that was made and is not lost. -/
def live (s : St) : Bool := s.bridge.connState.any (!·.closed)

/-- The client after an answer. -/
def settle (r : Response) : Poller := if r.isEof then .ended else .idle

/-- The step of a label, with the answer it gives. -/
def stepAnswer (s : St) : Lbl → Option (St × Option Response)
  | .connectionMade =>
    if s.bridge.connState = none then some ({ s with bridge := s.bridge.connectionMade }, none)
    else none
  | .dataReceived data =>
    if live s then some ({ s with bridge := s.bridge.dataReceived data }, none) else none
  | .connectionLost =>
    if live s then some ({ s with bridge := s.bridge.connectionLost }, none) else none
  | .runScheduled => s.bridge.runScheduled.map fun b => ({ s with bridge := b }, none)
  | .recv maxBytes =>
    if s.poller = .idle ∧ 0 < maxBytes then
      match handleRecv s.bridge.connState with
      | some r => some ({ s with poller := settle r }, some r)
      | none => some ({ s with poller := .waiting maxBytes }, none)
    else none
  | .get =>
    match s.poller, s.bridge.connState with
    | .waiting maxBytes, some c =>
      match c.readQueue with
      | [] => none
      | x :: q =>
        let (r, back) := handleGot maxBytes x
        some (⟨{ s.bridge with connState := some { c with readQueue := q ++ back } }, settle r⟩,
          some r)
    | _, _ => none
  | .timeout =>
    match s.poller with
    | .waiting _ => some ({ s with poller := .idle }, some handleTimeout)
    | _ => none

def step (s : St) (l : Lbl) : Option St := (stepAnswer s l).map (·.1)

/-- One connection with one client. -/
def lts : LTS St Lbl := .ofStep (· = init) step

/-- The bytes that a step brings from the peer. -/
def received (_ : St) : Lbl → Bytes
  | .dataReceived data => data
  | _ => []

/-- The body that a step returns to the client. -/
def body (s : St) (l : Lbl) : Bytes :=
  match stepAnswer s l with
  | some (_, some r) => r.body
  | _ => []

/-- The queue as it will be once the scheduled callbacks have run. -/
def queued (s : St) : List (Option Bytes) :=
  (match s.bridge.connState with | none => [] | some c => c.readQueue) ++ s.bridge.scheduled

/-- The bytes received and not yet returned, in the order they will be taken. -/
def unread (s : St) : Bytes := chunkBytes (queued s)

/-! ## The two conditions -/

/-- A chunk longer than `max_bytes` is taken only with nothing but empty chunks
queued behind it. -/
def KeepsPlace (s : St) : Lbl → Prop
  | .get => ∀ maxBytes c data q, s.poller = .waiting maxBytes → s.bridge.connState = some c →
      c.readQueue = some data :: q → maxBytes < data.length → ∀ x ∈ q, x = some []
  | _ => True

/-- No call begins on a closed connection with bytes unread. -/
def DrainsFirst (s : St) : Lbl → Prop
  | .recv _ => closed s = true → unread s = []
  | _ => True

/-! ## What a step can do -/

/-- The step of each label. -/
inductive Step (s : St) : Lbl → St → Option Response → Prop
  | connectionMade : s.bridge.connState = none →
      Step s .connectionMade ⟨⟨some ⟨[], false⟩, s.bridge.scheduled⟩, s.poller⟩ none
  | dataReceived (data : Bytes) (q : List (Option Bytes)) : s.bridge.connState = some ⟨q, false⟩ →
      Step s (.dataReceived data)
        ⟨⟨some ⟨q, false⟩, s.bridge.scheduled ++ [some data]⟩, s.poller⟩ none
  | connectionLost (q : List (Option Bytes)) : s.bridge.connState = some ⟨q, false⟩ →
      Step s .connectionLost ⟨⟨some ⟨q, true⟩, s.bridge.scheduled ++ [none]⟩, s.poller⟩ none
  | runScheduled (x : Option Bytes) (rest q : List (Option Bytes)) (b : Bool) :
      s.bridge.connState = some ⟨q, b⟩ → s.bridge.scheduled = x :: rest →
      Step s .runScheduled ⟨⟨some ⟨q ++ [x], b⟩, rest⟩, s.poller⟩ none
  | notFound (maxBytes : Nat) (r : Response) : s.poller = .idle → s.bridge.connState = none →
      r.body = [] → Step s (.recv maxBytes) ⟨s.bridge, .idle⟩ (some r)
  | gone (maxBytes : Nat) (r : Response) : s.poller = .idle → closed s = true → r.body = [] →
      Step s (.recv maxBytes) ⟨s.bridge, .ended⟩ (some r)
  | waits (maxBytes : Nat) : s.poller = .idle → closed s = false →
      Step s (.recv maxBytes) ⟨s.bridge, .waiting maxBytes⟩ none
  | got (maxBytes : Nat) (x : Option Bytes) (q : List (Option Bytes)) (b : Bool) :
      s.poller = .waiting maxBytes → s.bridge.connState = some ⟨x :: q, b⟩ →
      Step s .get ⟨⟨some ⟨q ++ (handleGot maxBytes x).2, b⟩, s.bridge.scheduled⟩,
        settle (handleGot maxBytes x).1⟩ (some (handleGot maxBytes x).1)
  | timeout (maxBytes : Nat) (r : Response) : s.poller = .waiting maxBytes → r.body = [] →
      Step s .timeout ⟨s.bridge, .idle⟩ (some r)

theorem live_iff {s : St} : live s = true ↔ ∃ q, s.bridge.connState = some ⟨q, false⟩ := by
  unfold live
  cases s.bridge.connState with
  | none => simp
  | some c => cases c; simp

theorem stepAnswer_cases {s t : St} {l : Lbl} {r : Option Response}
    (h : stepAnswer s l = some (t, r)) : Step s l t r := by
  cases l with
  | connectionMade =>
    simp only [stepAnswer] at h
    split at h
    · rename_i hc; cases h; exact .connectionMade hc
    · cases h
  | dataReceived data =>
    simp only [stepAnswer] at h
    split at h
    · rename_i hl
      obtain ⟨q, hq⟩ := live_iff.mp hl
      simp only [Bridge.dataReceived, hq] at h
      cases h
      exact hq ▸ .dataReceived data q hq
    · cases h
  | connectionLost =>
    simp only [stepAnswer] at h
    split at h
    · rename_i hl
      obtain ⟨q, hq⟩ := live_iff.mp hl
      simp only [Bridge.connectionLost, hq] at h
      cases h
      exact .connectionLost q hq
    · cases h
  | runScheduled =>
    simp only [stepAnswer, Bridge.runScheduled] at h
    split at h
    · rename_i x rest c hs hc
      cases h
      exact .runScheduled x rest c.readQueue c.closed hc hs
    · cases h
  | recv maxBytes =>
    simp only [stepAnswer] at h
    split at h
    · rename_i hp
      unfold handleRecv at h
      cases hc : s.bridge.connState with
      | none =>
        rw [hc] at h
        cases h
        exact .notFound maxBytes _ hp.1 hc rfl
      | some c =>
        rw [hc] at h
        cases hcl : c.closed with
        | true =>
          simp only [hcl] at h
          cases h
          exact .gone maxBytes _ hp.1 (by simp [closed, hc, hcl]) rfl
        | false =>
          simp only [hcl] at h
          cases h
          exact .waits maxBytes hp.1 (by simp [closed, hc, hcl])
    · cases h
  | get =>
    simp only [stepAnswer] at h
    split at h
    · rename_i maxBytes c hp hc
      split at h
      · cases h
      · rename_i x q hq
        cases h
        exact .got maxBytes x q c.closed hp (by rw [hc, ← hq])
    · cases h
  | timeout =>
    simp only [stepAnswer] at h
    split at h
    · rename_i maxBytes hp
      cases h
      exact .timeout maxBytes _ hp rfl
    · cases h

theorem step_cases {s t : St} {l : Lbl} (h : step s l = some t) :
    ∃ r, Step s l t r ∧ body s l = (match r with | some r => r.body | none => []) := by
  obtain ⟨⟨t', r⟩, hs, rfl⟩ := Option.map_eq_some_iff.mp h
  refine ⟨r, stepAnswer_cases hs, ?_⟩
  unfold body
  rw [hs]
  cases r with
  | none => rfl
  | some r => rfl

/-! ## Where the end of the stream stands in the queue -/

/-- Nothing is queued behind the end of the stream. -/
def EndLast : List (Option Bytes) → Prop
  | [] => True
  | none :: q => q = []
  | some _ :: q => EndLast q

theorem endLast_append {p q : List (Option Bytes)} (h : none ∉ p) :
    EndLast (p ++ q) ↔ EndLast q := by
  induction p with
  | nil => rfl
  | cons x p ih =>
    simp only [List.mem_cons, not_or] at h
    cases x with
    | none => exact absurd rfl h.1
    | some data => exact ih h.2

theorem endLast_snoc {q : List (Option Bytes)} (x : Option Bytes) (h : none ∉ q) :
    EndLast (q ++ [x]) := by
  rw [endLast_append h]
  cases x with
  | none => rfl
  | some data => trivial

theorem handleGot_back (maxBytes : Nat) (x : Option Bytes) :
    none ∉ (handleGot maxBytes x).2 := by
  cases x with
  | none => simp [handleGot]
  | some data => simp only [handleGot]; split <;> simp

/-- What every run keeps: an end of the stream that is queued is the end of a
closed connection, and a client told of the end was so. -/
structure Inv (s : St) : Prop where
  endClosed : none ∈ queued s → closed s = true
  endedClosed : s.poller = .ended → closed s = true

theorem queued_of {s : St} {c : ConnectionState} (h : s.bridge.connState = some c) :
    queued s = c.readQueue ++ s.bridge.scheduled := by
  unfold queued; rw [h]

theorem closed_of {s : St} {q : List (Option Bytes)} {b : Bool}
    (h : s.bridge.connState = some ⟨q, b⟩) : closed s = b := by
  unfold closed; rw [h]; rfl

theorem settle_eq_ended {r : Response} : settle r = .ended ↔ r.isEof = true := by
  unfold settle
  split
  · rename_i h; simp [h]
  · rename_i h; simp [h]

theorem inv_step {s t : St} {l : Lbl} (hi : Inv s) (h : step s l = some t) : Inv t := by
  obtain ⟨r, hs, -⟩ := step_cases h
  obtain ⟨h1, h2⟩ := hi
  cases hs with
  | connectionMade hc =>
    refine ⟨fun hn => ?_, fun he => ?_⟩
    · have := h1 (by simpa [queued, hc] using hn)
      simp [closed, hc] at this
    · have := h2 he
      simp [closed, hc] at this
  | dataReceived data q hq =>
    rw [queued_of hq, closed_of hq] at h1
    rw [closed_of hq] at h2
    exact ⟨fun hn => h1 (by simpa [queued] using hn), h2⟩
  | connectionLost q hq => exact ⟨fun _ => rfl, fun _ => rfl⟩
  | runScheduled x rest q b hq hx =>
    rw [queued_of hq, closed_of hq, hx] at h1
    rw [closed_of hq] at h2
    exact ⟨fun hn => h1 (by simpa [queued] using hn), h2⟩
  | notFound maxBytes r hp hc hb => exact ⟨h1, nofun⟩
  | gone maxBytes r hp hc hb => exact ⟨h1, fun _ => hc⟩
  | waits maxBytes hp hc => exact ⟨h1, nofun⟩
  | got maxBytes x q b hp hq =>
    rw [queued_of hq, closed_of hq] at h1
    refine ⟨fun hn => h1 ?_, fun he => ?_⟩
    · simp only [queued, List.mem_append] at hn
      obtain (hn | hn) | hn := hn
      · simp [hn]
      · exact absurd hn (handleGot_back maxBytes x)
      · simp [hn]
    · rw [settle_eq_ended, isEof_handleGot] at he
      exact h1 (by simp [he])
  | timeout maxBytes r hp hb => exact ⟨h1, nofun⟩

/-! ## Runs that keep the chunks in their place -/

/-- **A step that keeps the place** takes the body from the front of what is
unread and adds what it receives behind. -/
theorem step_conserves {s t : St} {l : Lbl} (hk : KeepsPlace s l) (h : step s l = some t) :
    unread s ++ received s l = body s l ++ unread t := by
  obtain ⟨r, hs, hb⟩ := step_cases h
  rw [hb]
  unfold unread received
  cases hs with
  | connectionMade hc => simp [queued, hc]
  | dataReceived data q hq => simp [queued, hq]
  | connectionLost q hq => simp [queued, hq]
  | runScheduled x rest q b hq hx => cases x <;> simp [queued, hq, hx]
  | notFound maxBytes r hp hc hr => simp [queued, hr]
  | gone maxBytes r hp hc hr => simp [queued, hr]
  | waits maxBytes hp hc => simp [queued]
  | timeout maxBytes r hp hr => simp [queued, hr]
  | got maxBytes x q b hp hq =>
    have hg := handleGot_bytes maxBytes x
    rw [queued_of hq]
    simp only [queued, List.append_nil, List.cons_append, chunkBytes_append]
    cases x with
    | none => simp [handleGot]
    | some data =>
      by_cases hlt : maxBytes < data.length
      · -- the remainder passes only empty chunks
        have hq0 : chunkBytes q = [] := by
          have := hk maxBytes _ data q hp hq rfl hlt
          simp only [chunkBytes, List.flatten_eq_nil_iff, List.mem_filterMap, id]
          rintro d ⟨x, hx, rfl⟩
          exact Option.some.inj (this _ hx)
        rw [chunkBytes_some, hq0, List.nil_append, ← List.append_assoc, hg]
        simp [hq0]
      · simp [handleGot, hlt]

/-- **The bodies are a prefix of the stream**, and what is missing is unread. -/
theorem conserved {s t : St} {ls : List Lbl} (hr : (lts.restrict KeepsPlace).Run s ls t) :
    unread s ++ LTS.gather step received s ls = LTS.gather step body s ls ++ unread t :=
  LTS.Run.fifo (P := fun _ => True) (fun _ _ _ _ _ _ => trivial)
    (fun _ _ _ hk h _ => step_conserves hk h) hr trivial

theorem endLast_step {s t : St} {l : Lbl} (hi : Inv s) (hk : KeepsPlace s l)
    (he : EndLast (queued s)) (h : step s l = some t) : EndLast (queued t) := by
  obtain ⟨r, hs, -⟩ := step_cases h
  have hopen : ∀ {q}, s.bridge.connState = some ⟨q, false⟩ → none ∉ queued s := by
    intro q hq hn
    have := hi.endClosed hn
    rw [closed_of hq] at this
    cases this
  cases hs with
  | connectionMade hc => simpa [queued, hc] using he
  | dataReceived data q hq =>
    have := endLast_snoc (some data) (hopen hq)
    simpa [queued, hq] using this
  | connectionLost q hq =>
    have := endLast_snoc none (hopen hq)
    simpa [queued, hq] using this
  | runScheduled x rest q b hq hx => simpa [queued, hq, hx] using he
  | notFound | gone | waits | timeout => exact he
  | got maxBytes x q b hp hq =>
    rw [queued_of hq] at he
    simp only [queued]
    cases x with
    | none =>
      obtain ⟨rfl, hs⟩ := List.append_eq_nil_iff.mp (he : q ++ s.bridge.scheduled = [])
      rw [hs]
      trivial
    | some data =>
      by_cases hlt : maxBytes < data.length
      · have hq0 : none ∉ q := fun hn => by
          cases hk maxBytes _ data q hp hq rfl hlt _ hn
        have he' : EndLast (q ++ s.bridge.scheduled) := he
        rw [endLast_append hq0] at he'
        have hn : none ∉ q ++ (handleGot maxBytes (some data)).2 := by
          simp only [List.mem_append, not_or]
          exact ⟨hq0, handleGot_back maxBytes _⟩
        rwa [endLast_append hn]
      · have he' : EndLast (q ++ s.bridge.scheduled) := he
        simpa [handleGot, hlt] using he'

/-! ## Reading to the end -/

/-- Once the client was told of the end, nothing changes what is unread. -/
theorem ended_step {s t : St} {l : Lbl} (hi : Inv s) (hp : s.poller = .ended)
    (h : step s l = some t) : t.poller = .ended ∧ unread t = unread s := by
  obtain ⟨r, hs, -⟩ := step_cases h
  have hc := hi.endedClosed hp
  cases hs with
  | connectionMade hn => simp [closed, hn] at hc
  | dataReceived data q hq => rw [closed_of hq] at hc; cases hc
  | connectionLost q hq => rw [closed_of hq] at hc; cases hc
  | runScheduled x rest q b hq hx => exact ⟨hp, by simp [unread, queued, hq, hx]⟩
  | notFound maxBytes r hi _ _ => rw [hp] at hi; cases hi
  | gone maxBytes r hi _ _ => rw [hp] at hi; cases hi
  | waits maxBytes hi _ => rw [hp] at hi; cases hi
  | got maxBytes x q b hw _ => rw [hp] at hw; cases hw
  | timeout maxBytes r hw _ => rw [hp] at hw; cases hw

/-- What is unread when the client is told of the end stays unread. -/
theorem ended_run {s t : St} {ls : List Lbl} {C : St → Lbl → Prop} (hi : Inv s)
    (hp : s.poller = .ended) (hr : (lts.restrict C).Run s ls t) : unread t = unread s := by
  induction hr with
  | nil s => rfl
  | cons hst _ ih =>
    obtain ⟨hp', hu⟩ := ended_step hi hp hst.2
    rw [ih (inv_step hi hst.2) hp', hu]

/-- A step that ends the stream: the end was in the queue and nothing is
behind it, or the call met a closed connection. -/
theorem step_ends {s t : St} {l : Lbl} (he : EndLast (queued s)) (hd : DrainsFirst s l)
    (hn : s.poller ≠ .ended) (h : step s l = some t) (hp : t.poller = .ended) :
    unread t = [] := by
  obtain ⟨r, hs, -⟩ := step_cases h
  cases hs with
  | connectionMade | dataReceived | connectionLost | runScheduled => exact absurd hp hn
  | notFound | waits | timeout => cases hp
  | gone maxBytes r hp hc hb => exact hd hc
  | got maxBytes x q b hw hq =>
    rw [settle_eq_ended, isEof_handleGot] at hp
    subst hp
    rw [queued_of hq] at he
    obtain ⟨rfl, hs⟩ := List.append_eq_nil_iff.mp (he : q ++ s.bridge.scheduled = [])
    simp [unread, queued, hs, handleGot]

/-- When every call drains first, nothing is unread at the end. -/
theorem drained_run {s t : St} {ls : List Lbl} (hi : Inv s) (he : EndLast (queued s))
    (hs : s.poller = .ended → unread s = [])
    (hr : (lts.restrict fun s l => KeepsPlace s l ∧ DrainsFirst s l).Run s ls t)
    (hp : t.poller = .ended) : unread t = [] := by
  induction hr with
  | nil s => exact hs hp
  | @cons s t r l ls hst _ ih =>
    obtain ⟨⟨hk, hd⟩, hst⟩ := hst
    refine ih (inv_step hi hst) (endLast_step hi hk he hst) (fun hp' => ?_) hp
    by_cases hn : s.poller = .ended
    · rw [(ended_step hi hn hst).2, hs hn]
    · exact step_ends he hd hn hst hp'

/-- When nothing is unread at the end, every call drained first. -/
theorem run_drains {s t : St} {ls : List Lbl} (hi : Inv s)
    (hr : (lts.restrict KeepsPlace).Run s ls t) (hu : unread t = []) :
    (lts.restrict fun s l => KeepsPlace s l ∧ DrainsFirst s l).Run s ls t := by
  induction hr with
  | nil s => exact .nil s
  | @cons s t r l ls hst hrest ih =>
    refine .cons ⟨⟨hst.1, ?_⟩, hst.2⟩ (ih (inv_step hi hst.2) hu)
    obtain ⟨ans, hs, -⟩ := step_cases hst.2
    cases hs with
    | connectionMade | dataReceived | connectionLost | runScheduled | got | timeout => trivial
    | notFound maxBytes r hp hn hb => intro hc; simp [closed, hn] at hc
    | gone maxBytes r hp hc hb =>
      -- the answer is the end of the stream, so what is unread stays so
      intro _
      have := ended_run (inv_step hi hst.2) rfl hrest
      rw [hu] at this
      exact this.symm
    | waits maxBytes hp hc => intro hc'; rw [hc] at hc'; cases hc'

theorem inv_init : Inv init := ⟨nofun, nofun⟩

/-- **The endpoint is a byte stream up to two conditions.** In every run that
keeps the chunks in their place the bodies are a prefix of the stream. Told of
the end, the client has all of it exactly when no call of the run began on a
closed connection with bytes unread. -/
theorem recv_faithful_iff {t : St} {ls : List Lbl}
    (hr : (lts.restrict KeepsPlace).Run init ls t) :
    LTS.gather step body init ls <+: LTS.gather step received init ls ∧
      (t.poller = .ended →
        (LTS.gather step body init ls = LTS.gather step received init ls ↔
          (lts.restrict fun s l => KeepsPlace s l ∧ DrainsFirst s l).Run init ls t)) := by
  have hc : LTS.gather step received init ls = LTS.gather step body init ls ++ unread t :=
    conserved hr
  refine ⟨⟨unread t, hc.symm⟩, fun hp => ⟨fun h => run_drains inv_init hr ?_, fun h => ?_⟩⟩
  · rw [← h] at hc
    exact List.self_eq_append_right.mp hc
  · rw [hc, drained_run inv_init trivial nofun h hp, List.append_nil]

/-! ## Runs on fixed inputs -/

/-- A chunk arrives, is read and the connection is lost while a call waits. -/
def wholeRun : List Lbl :=
  [.connectionMade, .dataReceived [104, 105], .runScheduled, .recv 1, .get, .recv defaultMaxBytes,
   .get, .recv defaultMaxBytes, .connectionLost, .runScheduled, .get]

/-- The connection is lost before the first call. -/
def goneRun : List Lbl :=
  [.connectionMade, .dataReceived [104, 105], .runScheduled, .connectionLost, .recv defaultMaxBytes]

/-- A second chunk is queued while the first is read in two parts. -/
def reorderedRun : List Lbl :=
  [.connectionMade, .dataReceived [104, 105], .dataReceived [33], .runScheduled, .runScheduled,
   .recv 1, .get, .recv 1, .get, .recv 1, .get, .recv 1, .connectionLost, .runScheduled, .get]

/-- `KeepsPlace` as a check. -/
def keepsPlace (s : St) : Lbl → Bool
  | .get =>
    match s.poller, s.bridge.connState with
    | .waiting maxBytes, some ⟨some data :: q, _⟩ =>
      decide (data.length ≤ maxBytes) || q.all (· == some [])
    | _, _ => true
  | _ => true

theorem keepsPlace_iff {s : St} {l : Lbl} (h : keepsPlace s l = true) : KeepsPlace s l := by
  cases l with
  | get =>
    intro maxBytes c data q hp hc hq hlt x hx
    obtain ⟨rq, b⟩ := c
    simp only at hq
    subst hq
    simp only [keepsPlace, hp, hc, Bool.or_eq_true, decide_eq_true_eq, List.all_eq_true] at h
    obtain h | h := h
    · omega
    · exact beq_iff_eq.mp (h x hx)
  | _ => trivial

/-- A run that keeps the place of a chunk it takes in two parts, to the end. -/
theorem whole_read :
    LTS.gather step body init wholeRun = LTS.gather step received init wholeRun ↔
      (lts.restrict fun s l => KeepsPlace s l ∧ DrainsFirst s l).Run init wholeRun
        (LTS.after step init wholeRun) := by
  have hr : (lts.restrict KeepsPlace).Run init wholeRun (LTS.after step init wholeRun) := by
    have he : LTS.exec (LTS.checked keepsPlace step) init wholeRun =
        some (LTS.after step init wholeRun) := by decide +kernel
    exact LTS.restrict_run_of_exec (fun _ _ => keepsPlace_iff) he
  exact (recv_faithful_iff hr).2 (by decide +kernel)

/-- **The stream loses bytes and changes their order.** After `goneRun` the
client was told of the end with nothing read; after `reorderedRun` it was with
the last byte of the first chunk behind the second chunk. -/
theorem recv_loses :
    (∃ t, lts.Run init goneRun t ∧ t.poller = .ended ∧
      LTS.gather step received init goneRun = [104, 105] ∧
      LTS.gather step body init goneRun = []) ∧
    ∃ t, lts.Run init reorderedRun t ∧ t.poller = .ended ∧
      LTS.gather step received init reorderedRun = [104, 105, 33] ∧
      LTS.gather step body init reorderedRun = [104, 33, 105] :=
  ⟨⟨LTS.after step init goneRun, LTS.run_of_exec (LTS.exec_after (by decide +kernel)),
      by decide +kernel, by decide +kernel, by decide +kernel⟩,
    ⟨LTS.after step init reorderedRun, LTS.run_of_exec (LTS.exec_after (by decide +kernel)),
      by decide +kernel, by decide +kernel, by decide +kernel⟩⟩

end Wormhole.L5.BridgedStream
