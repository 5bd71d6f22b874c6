import Wormhole.L4App.MountClient
import Wormhole.L5Concurrency.MountAnswers

/-!
# The calls of a mount client

A `MountProtocol` that `run_client` has started (`src/wh/cli/mount.py`): any number of
`_send_request` calls side by side, and a peer that sends any bytes in any chunks. The steps:

* `connect`, `callback`: the connection is made; `_protocol` is assigned;
* `call`: an operation, up to its `await`;
* `data`: a chunk arrives; `run`: the next task of a request from the peer;
* `timeout`, `cancel`, `resume`: `wait_for` gives up; the caller is cancelled; the coroutine goes
  on;
* `lost`: the connection is lost.

`first` is the first answer to a request since it was sent, of the frames that all chunks together
make.

* `call_settled`: what a call returns or raises is decided by `first`, by the end of the connection
  or by its own time, and nothing else.
-/
namespace Wormhole.L5.MountCalls
open Wormhole.L1 Wormhole.L4.Mount Wormhole.Decoder
open Wormhole.L5.MountAnswers (buildProtocol connectionMade connectionLost)

variable {φ : Type}

/-! ## Steps -/

/-- A frame that the loop of `_process_buffer` has taken off the buffer.
mirrors src/wh/cli/mount.py:105-108 -/
def dispatch (os : Os φ) (c : Client φ) (f : Frame) : Client φ × Option Empty :=
  (if f.isRequest then { c with node := (MountAnswers.dispatch c.node f).1 }
    else handleResponse os c f, none)

/-- mirrors src/wh/cli/mount.py:60-74 -/
def init (root : L4.ServedPaths.Root) (files : φ) : Rx (Client φ) UInt8 where
  st :=
    { node := (MountAnswers.init root files).st
      requestId := 0
      pendingRequests := .empty
      calls := [] }
  buf := []

inductive Lbl
  | connect
  | callback
  | call (op : Op)
  | data (chunk : Bytes)
  | run
  | timeout (j : Nat)
  | cancel (j : Nat)
  | resume (j : Nat)
  | lost
  deriving DecidableEq, Repr

/-- Whether the connection, once there is one, is still there. -/
def link (n : Server φ) : Option Bool := n.conns.head?.map StreamingProtocol.connected

/-- A chunk in the history of what has been received. -/
def heard (c : Client φ) (chunk : Bytes) : Client φ :=
  { c with node := { c.node with received := c.node.received ++ chunk } }

/-- A call goes on. -/
def setCall (r : Rx (Client φ) UInt8) (j : Nat) (call : Call) : Rx (Client φ) UInt8 :=
  ⟨{ r.st with calls := r.st.calls.set j call }, r.buf⟩

/-- `self._pending_requests.pop(request_id, None)`, in the `except` that a `TimeoutError` gets
to. -/
def forget (r : Rx (Client φ) UInt8) (id : Nat) (caught : Bool) : Rx (Client φ) UInt8 :=
  ⟨{ r.st with
    pendingRequests :=
      if caught then r.st.pendingRequests.del id else r.st.pendingRequests }, r.buf⟩

/-- The coroutine of `_send_request`, and of the operation, after its `await`.
mirrors src/wh/cli/mount.py:328-332 -/
def resume (os : Os φ) (r : Rx (Client φ) UInt8) (j : Nat) : Option (Rx (Client φ) UInt8) :=
  match r.st.calls[j]? with
  | some ⟨op, id, .done x, .waiting⟩ =>
    some (setCall (forget r id (timesOut x)) j
      ⟨op, id, .done x, .returned (op.outcome os (awaited x))⟩)
  | some ⟨op, id, .cancelled, .waiting⟩ => some (setCall r j ⟨op, id, .cancelled, .cancelled⟩)
  | some ⟨op, id, future, .expired⟩ =>
    some (setCall (forget r id true) j ⟨op, id, future, .returned (.error timedOutError)⟩)
  | _ => none

def step (os : Os φ) (r : Rx (Client φ) UInt8) : Lbl → Option (Rx (Client φ) UInt8)
  | .connect =>
    match r.st.node.conns with
    | [] => some ⟨{ r.st with
        node := { r.st.node with
          conns := [connectionMade buildProtocol]
          connected := true } }, r.buf⟩
    | _ => none
  | .callback =>
    match r.st.node.conns, r.st.node.protocol with
    | _ :: _, none => some ⟨{ r.st with node := { r.st.node with protocol := some 0 } }, r.buf⟩
    | _, _ => none
  | .call op =>
    match r.st.node.protocol with
    | some _ => some ⟨sendRequest os r.st op, r.buf⟩
    | none => none
  | .data chunk =>
    if link r.st.node = some true then
      some (onData decoder (dispatch os) ⟨heard r.st chunk, r.buf⟩ chunk).1
    else none
  | .run =>
    match r.st.node.tasks with
    | [] => none
    -- what a task raises stays in the task
    | f :: tasks => some ⟨{ r.st with
        node := (handleRequest os { r.st.node with tasks := tasks } f).1 }, r.buf⟩
  | .timeout j =>
    match r.st.calls[j]? with
    -- the answer may be there, with the coroutine still to run
    | some ⟨op, id, future, .waiting⟩ => some (setCall r j ⟨op, id, future.cancel, .expired⟩)
    | _ => none
  | .cancel j =>
    match r.st.calls[j]? with
    | some ⟨op, id, future, .waiting⟩ => some (setCall r j ⟨op, id, future.cancel, .cancelled⟩)
    | some ⟨op, id, future, .expired⟩ => some (setCall r j ⟨op, id, future.cancel, .cancelled⟩)
    | _ => none
  | .resume j => resume os r j
  | .lost =>
    if link r.st.node = some true then
      let c := onConnectionLost r.st
      some ⟨{ c with node := { c.node with conns := c.node.conns.modify 0 connectionLost } }, r.buf⟩
    else none

def lts (os : Os φ) (root : L4.ServedPaths.Root) (files : φ) : LTS (Rx (Client φ) UInt8) Lbl :=
  .ofStep (· = init root files) (step os)

variable {os : Os φ} {root : L4.ServedPaths.Root} {files : φ}

/-! ## The common half -/

/-- The steps of a call, and of a task, leave the common half as it was, but for the files and what
has been written. -/
structure Kept (n m : Server φ) : Prop where
  protocol : m.protocol = n.protocol
  tasks : m.tasks = n.tasks
  received : m.received = n.received
  requests : m.requests = n.requests
  link : link m = link n

theorem Kept.refl (n : Server φ) : Kept n n := ⟨rfl, rfl, rfl, rfl, rfl⟩

theorem link_send (i : Nat) (data : Bytes) (n : Server φ) :
    link { n with conns := n.conns.modify i (·.send data) } = link n := by
  unfold link
  cases hc : n.conns with
  | nil => simp
  | cons c cs =>
    cases i with
    | zero =>
      simp only [List.modify_zero_cons, List.head?_cons, Option.map_some]
      unfold StreamingProtocol.send
      split <;> rfl
    | succ i => rfl

theorem kept_sendMessage (n : Server φ) (f : Frame) : Kept n (sendMessage n f).1 := by
  unfold sendMessage
  split
  · exact .refl n
  · split
    · exact ⟨rfl, rfl, rfl, rfl, link_send _ _ n⟩
    · exact .refl n

theorem kept_handleRequest (os : Os φ) (n : Server φ) (f : Frame) :
    Kept n (handleRequest os n f).1 := by
  obtain ⟨files, ⟨-, g, -, hg⟩ | ⟨e, he⟩⟩ := handleRequest_one os n f
  · rw [hg]
    have h := kept_sendMessage { n with files := files } g
    exact ⟨h.protocol, h.tasks, h.received, h.requests, h.link⟩
  · rw [he]
    exact ⟨rfl, rfl, rfl, rfl, rfl⟩

/-- What a client's loop does to the common half is what a server's does. -/
theorem handled_node (c : Client φ) (fs : List Frame) :
    (handled (dispatch os) c fs).node = handled MountAnswers.dispatch c.node fs := by
  induction fs generalizing c with
  | nil => rfl
  | cons f fs ih =>
    rw [handled, handled, ih]
    congr 1
    by_cases hf : f.isRequest = true
    · simp [dispatch, hf]
    · simp only [dispatch, hf, MountAnswers.dispatch, Bool.false_eq_true, if_false]
      unfold handleResponse
      split <;> rfl

/-! ## The invariant -/

/-- The requests are numbered, and what has been received is the frames decoded and an incomplete
rest. -/
structure Inv (r : Rx (Client φ) UInt8) : Prop where
  numbered : Numbered r.st
  decoded : ∃ fs, decoder.Decodes r.st.node.received fs r.buf
  more : decoder.look r.buf = .more

/-- The frames that what has been received begins with. -/
def frames (r : Rx (Client φ) UInt8) : List Frame := decoder.items r.st.node.received

theorem Inv.frames_decoded {r : Rx (Client φ) UInt8} (h : Inv r) :
    decoder.Decodes r.st.node.received (frames r) r.buf := by
  obtain ⟨fs, hfs⟩ := h.decoded
  have hitems := hfs.items h.more
  unfold frames
  rwa [hitems]

theorem inv_init (root : L4.ServedPaths.Root) (files : φ) : Inv (init root files) where
  numbered := ⟨rfl, fun j call h => (by cases h), fun id j h => (by cases h)⟩
  decoded := ⟨[], .nil []⟩
  more := decoder.look_nil

theorem numbered_dispatch {c : Client φ} (h : Numbered c) (f : Frame) :
    Numbered (dispatch os c f).1 := by
  unfold dispatch
  dsimp only
  split
  · exact ⟨h.count, h.ids, h.table⟩
  · exact numbered_handleResponse h f

theorem numbered_handled {c : Client φ} (h : Numbered c) (fs : List Frame) :
    Numbered (handled (dispatch os) c fs) := by
  induction fs generalizing c with
  | nil => exact h
  | cons f fs ih => exact ih (numbered_dispatch h f)

/-- A call is replaced by one of its number. -/
theorem numbered_set {c : Client φ} (h : Numbered c) {j : Nat} {old call : Call}
    (hj : c.calls[j]? = some old) (hid : call.requestId = old.requestId) :
    Numbered { c with calls := c.calls.set j call } where
  count := by rw [List.length_set]; exact h.count
  ids := by
    intro i other hi
    rw [List.getElem?_set] at hi
    split at hi
    · rename_i hji
      split at hi
      · cases hi
        rw [hid, h.ids j old hj, hji]
      · cases hi
    · exact h.ids i other hi
  table := by
    intro id i hi
    rw [List.length_set]
    exact h.table id i hi

/-- A request is taken out of the table, or not. -/
theorem numbered_forget {r : Rx (Client φ) UInt8} (h : Numbered r.st) (id : Nat) (caught : Bool) :
    Numbered (forget r id caught).st where
  count := h.count
  ids := h.ids
  table := by
    intro id' i hi
    cases caught with
    | false => exact h.table id' i hi
    | true =>
      have hdel : (r.st.pendingRequests.del id).get? id' = some i := hi
      rw [Dict.get?_del] at hdel
      split at hdel
      · cases hdel
      · exact h.table id' i hdel

theorem forget_get? {id id' : Nat} (r : Rx (Client φ) UInt8) (h : id ≠ id') (caught : Bool) :
    (forget r id caught).st.pendingRequests.get? id' = r.st.pendingRequests.get? id' := by
  cases caught with
  | false => rfl
  | true => exact Dict.get?_del_ne _ h

/-- The arrival of a chunk hands over frames, which all chunks together decide. -/
theorem data_step {r t : Rx (Client φ) UInt8} {chunk : Bytes} (h : Inv r)
    (hst : step os r (.data chunk) = some t) : link r.st.node = some true ∧ Inv t ∧
      ∃ gs, frames t = frames r ++ gs ∧ t.st = handled (dispatch os) (heard r.st chunk) gs := by
  simp only [step] at hst
  split at hst
  · rename_i hup
    cases hst
    obtain ⟨htaken, hhandled⟩ := onData_taken (D := decoder) (H := dispatch os)
      ⟨heard r.st chunk, r.buf⟩ chunk
    have hmore := onData_more (fun _ _ => rfl) (fun _ e => e.elim)
      ⟨heard r.st chunk, r.buf⟩ chunk (D := decoder) (H := dispatch os)
    generalize taken decoder (dispatch os) _ chunk = gs at htaken hhandled
    have hnode : (handled (dispatch os) (heard r.st chunk) gs).node.received =
        r.st.node.received ++ chunk := by
      rw [handled_node, MountAnswers.handled_dispatch]
      rfl
    have hdec : decoder.Decodes (r.st.node.received ++ chunk) (frames r ++ gs) _ :=
      (h.frames_decoded.append chunk).trans htaken
    have hnum : Numbered (heard r.st chunk) :=
      ⟨h.numbered.count, h.numbered.ids, h.numbered.table⟩
    refine ⟨hup, ⟨?_, ⟨frames r ++ gs, ?_⟩, hmore⟩, gs, ?_, hhandled⟩
    · rw [hhandled]
      exact numbered_handled hnum gs
    · rw [hhandled, hnode]
      exact hdec
    · unfold frames
      rw [hhandled, hnode]
      exact hdec.items hmore
  · cases hst

/-- No step but `data` receives anything. -/
theorem other_step {r t : Rx (Client φ) UInt8} {l : Lbl} (hn : Numbered r.st)
    (hst : step os r l = some t) (hl : ∀ chunk, l ≠ .data chunk) :
    Numbered t.st ∧ t.st.node.received = r.st.node.received ∧ t.buf = r.buf := by
  have hnode : ∀ n : Server φ, Numbered { r.st with node := n } :=
    fun _ => ⟨hn.count, hn.ids, hn.table⟩
  cases l with
  | connect =>
    simp only [step] at hst
    split at hst
    · cases hst
      exact ⟨hnode _, rfl, rfl⟩
    · cases hst
  | callback =>
    simp only [step] at hst
    split at hst
    · cases hst
      exact ⟨hnode _, rfl, rfl⟩
    · cases hst
  | call op =>
    simp only [step] at hst
    split at hst
    · cases hst
      exact ⟨numbered_sendRequest hn op, (kept_sendMessage _ _).received, rfl⟩
    · cases hst
  | data chunk => exact absurd rfl (hl chunk)
  | run =>
    simp only [step] at hst
    split at hst
    · cases hst
    · rename_i f tasks _
      cases hst
      exact ⟨hnode _, (kept_handleRequest os { r.st.node with tasks := tasks } f).received, rfl⟩
  | timeout j =>
    simp only [step] at hst
    split at hst
    · rename_i hj
      cases hst
      exact ⟨numbered_set hn hj rfl, rfl, rfl⟩
    · cases hst
  | cancel j =>
    simp only [step] at hst
    split at hst
    · rename_i hj
      cases hst
      exact ⟨numbered_set hn hj rfl, rfl, rfl⟩
    · rename_i hj
      cases hst
      exact ⟨numbered_set hn hj rfl, rfl, rfl⟩
    · cases hst
  | resume j =>
    simp only [step, resume] at hst
    split at hst
    · rename_i id x hj
      cases hst
      exact ⟨numbered_set (numbered_forget hn id (timesOut x)) hj rfl, rfl, rfl⟩
    · rename_i hj
      cases hst
      exact ⟨numbered_set hn hj rfl, rfl, rfl⟩
    · rename_i id _ hj
      cases hst
      exact ⟨numbered_set (numbered_forget hn id true) hj rfl, rfl, rfl⟩
    · cases hst
  | lost =>
    simp only [step] at hst
    split at hst
    · cases hst
      have hlost := numbered_onConnectionLost hn
      exact ⟨⟨hlost.count, hlost.ids, hlost.table⟩, rfl, rfl⟩
    · cases hst

theorem frames_step {r t : Rx (Client φ) UInt8} {l : Lbl} (hn : Numbered r.st)
    (hst : step os r l = some t) (hl : ∀ chunk, l ≠ .data chunk) : frames t = frames r := by
  unfold frames
  rw [(other_step hn hst hl).2.1]

theorem inv_step {r t : Rx (Client φ) UInt8} {l : Lbl} (h : Inv r) (hst : step os r l = some t) :
    Inv t := by
  by_cases hl : ∃ chunk, l = .data chunk
  · obtain ⟨chunk, rfl⟩ := hl
    exact (data_step h hst).2.1
  · obtain ⟨hn, hr, hb⟩ := other_step h.numbered hst fun chunk hc => hl ⟨chunk, hc⟩
    exact ⟨hn, by rw [hr, hb]; exact h.decoded, by rw [hb]; exact h.more⟩

theorem inv (os : Os φ) (root : L4.ServedPaths.Root) (files : φ) :
    (lts os root files).Inductive Inv where
  init := by
    intro r hr
    rw [hr]
    exact inv_init root files
  step := by
    intro r l t hi h
    exact inv_step hi h

/-! ## The connection -/

theorem link_step {r t : Rx (Client φ) UInt8} {l : Lbl} (h : Inv r) (hst : step os r l = some t)
    (hl : l = .lost ∨ link r.st.node = some false) : link t.st.node = some false := by
  have hold : l ≠ .lost → link r.st.node = some false := fun hne => hl.resolve_left hne
  cases l with
  | connect =>
    have hdown := hold (by simp)
    simp only [step] at hst
    split at hst
    · rename_i hc
      unfold link at hdown
      rw [hc] at hdown
      cases hdown
    · cases hst
  | call op =>
    simp only [step] at hst
    split at hst
    · cases hst
      exact (kept_sendMessage _ _).link.trans (hold (by simp))
    · cases hst
  | data chunk =>
    have hup := (data_step h hst).1
    rw [hold (by simp)] at hup
    cases hup
  | run =>
    simp only [step] at hst
    split at hst
    · cases hst
    · rename_i f tasks _
      cases hst
      exact (kept_handleRequest os { r.st.node with tasks := tasks } f).link.trans (hold (by simp))
  | lost =>
    simp only [step] at hst
    split at hst
    · rename_i hup
      cases hst
      unfold link at hup ⊢
      show (List.modify r.st.node.conns 0 connectionLost).head?.map _ = _
      cases hc : r.st.node.conns with
      | nil => rw [hc] at hup; cases hup
      | cons c cs => rfl
    · cases hst
  | _ =>
    have hdown := hold (by simp)
    simp only [step, resume] at hst
    split at hst <;> cases hst <;> exact hdown

/-! ## One call -/

/-- The first answer to a request. -/
def first (id : Nat) (fs : List Frame) : Option Frame :=
  fs.find? fun f => !f.isRequest && f.requestId = id

/-- What the future of a call holds when `a` was its first answer, in the steps `ls`. -/
inductive Decided (os : Os φ) (j : Nat) (a : Option Frame) (ls : List Lbl) : Future → Prop
  | pending (ha : a = none) (hl : .lost ∉ ls) : Decided os j a ls .pending
  | answered (f) (ha : a = some f) : Decided os j a ls (.done (answerOf os f))
  | lost (ha : a = none) (hl : .lost ∈ ls) :
    Decided os j a ls (.done (.error connectionLostError))
  | cancelled (hl : .timeout j ∈ ls ∨ .cancel j ∈ ls) : Decided os j a ls .cancelled

/-- Where a call is, with its future. -/
inductive At (os : Os φ) (op : Op) (j : Nat) (ls : List Lbl) : Future → Stage → Prop
  | waiting {future} (hf : future ≠ .cancelled) : At os op j ls future .waiting
  | expired {future} (hf : future ≠ .pending) (hl : .timeout j ∈ ls) : At os op j ls future .expired
  | returned (x) : At os op j ls (.done x) (.returned (op.outcome os (awaited x)))
  | timedOut {future} (hl : .timeout j ∈ ls) :
    At os op j ls future (.returned (.error timedOutError))
  | cancelled {future} (hl : .cancel j ∈ ls) : At os op j ls future .cancelled
  | unsent {future} (hf : (op.frame os (j + 1)).fits = false) :
    At os op j ls future (.returned (.error (.exn structError)))

/-- The call of number `j`, which was made when the frames were still to come that are `fs`. -/
structure Follows (os : Os φ) (op : Op) (j : Nat) (fs : List Frame) (ls : List Lbl)
    (c : Client φ) (call : Call) : Prop where
  get : c.calls[j]? = some call
  made : call.op = op
  future : Decided os j (first (j + 1) fs) ls call.future
  stage : At os op j ls call.future call.stage
  table : call.future = .pending → c.pendingRequests.get? (j + 1) = some j

theorem first_append (id : Nat) (fs gs : List Frame) :
    first id (fs ++ gs) = (first id fs).or (first id gs) := List.find?_append

theorem first_single (id : Nat) (f : Frame) :
    first id [f] = if f.isRequest = false ∧ f.requestId = id then some f else none := by
  unfold first
  by_cases hf : f.isRequest = true
  · simp [hf]
  · by_cases hid : f.requestId = id
    · simp [hf, hid]
    · simp [hf, hid]

theorem Decided.append {j : Nat} {a : Option Frame} {ls : List Lbl} {future : Future}
    (h : Decided os j a ls future) {l : Lbl} (hl : future = .pending → l ≠ .lost) :
    Decided os j a (ls ++ [l]) future := by
  cases h with
  | pending ha hno =>
    refine .pending ha ?_
    have := hl rfl
    simp [hno, Ne.symm this]
  | answered f ha => exact .answered f ha
  | lost ha hin => exact .lost ha (List.mem_append_left _ hin)
  | cancelled hin => exact .cancelled (hin.imp (List.mem_append_left _) (List.mem_append_left _))

theorem At.append {op : Op} {j : Nat} {ls : List Lbl} {future : Future} {stage : Stage}
    (h : At os op j ls future stage) (l : Lbl) : At os op j (ls ++ [l]) future stage := by
  cases h with
  | waiting hf => exact .waiting hf
  | expired hf hl => exact .expired hf (List.mem_append_left _ hl)
  | returned x => exact .returned x
  | timedOut hl => exact .timedOut (List.mem_append_left _ hl)
  | cancelled hl => exact .cancelled (List.mem_append_left _ hl)
  | unsent hf => exact .unsent hf

/-- A future that is set under way. -/
theorem At.resolve {op : Op} {j : Nat} {ls : List Lbl} {stage : Stage}
    (h : At os op j ls .pending stage) (x : Except Raised Json) :
    At os op j ls (.done x) stage := by
  cases h with
  | waiting _ => exact .waiting (by simp)
  | expired hf _ => exact absurd rfl hf
  | timedOut hl => exact .timedOut hl
  | cancelled hl => exact .cancelled hl
  | unsent hf => exact .unsent hf

theorem resolve_done {call : Call} (h : call.future ≠ .pending) (x : Except Raised Json) :
    call.resolve x = call := by
  obtain ⟨op, id, future, stage⟩ := call
  cases future with
  | pending => exact absurd rfl h
  | done y => rfl
  | cancelled => rfl

theorem cancel_ne_pending (future : Future) : future.cancel ≠ .pending := by
  cases future <;> simp [Future.cancel]

/-! ## Answers -/

/-- An answer leaves every other request in the table. -/
theorem handleResponse_table {c : Client φ} {f : Frame} {id : Nat} (hid : f.requestId ≠ id) :
    (handleResponse os c f).pendingRequests.get? id = c.pendingRequests.get? id := by
  unfold handleResponse
  split
  · rfl
  · exact Dict.get?_del_ne _ hid

theorem Follows.dispatch {op : Op} {j : Nat} {fs : List Frame} {ls : List Lbl} {c : Client φ}
    {call : Call} (h : Follows os op j fs ls c call) (hn : Numbered c) (hl : .lost ∉ ls)
    (f : Frame) : ∃ call', Follows os op j (fs ++ [f]) ls (dispatch os c f).1 call' := by
  by_cases hf : f.isRequest = true
  · have hfirst : first (j + 1) (fs ++ [f]) = first (j + 1) fs := by
      rw [first_append, first_single]
      simp [hf]
    refine ⟨call, ?_, h.made, hfirst ▸ h.future, h.stage, ?_⟩
    · simp only [MountCalls.dispatch, hf, if_true]
      exact h.get
    · simp only [MountCalls.dispatch, hf, if_true]
      exact h.table
  · have hdisp : (MountCalls.dispatch os c f).1 = handleResponse os c f := by
      simp [MountCalls.dispatch, hf]
    rw [hdisp]
    obtain ⟨op', id, future, stage⟩ := call
    obtain ⟨hold, hmade, hfut, hstage, htable⟩ := h
    have hget := handleResponse_call os hn hold f
    cases hfut with
    | pending ha hno =>
      have htab : c.pendingRequests.get? (j + 1) = some j := htable rfl
      by_cases hid : f.requestId = j + 1
      · rw [if_pos ⟨hid, htab⟩] at hget
        refine ⟨_, hget, hmade, .answered f ?_, hstage.resolve _, fun hp => (by cases hp)⟩
        rw [first_append, first_single, ha, if_pos ⟨by simpa using hf, hid⟩]
        rfl
      · rw [if_neg (fun hc => hid hc.1)] at hget
        refine ⟨_, hget, hmade, .pending ?_ hno, hstage, fun _ => ?_⟩
        · rw [first_append, first_single, ha, if_neg (fun hc => hid hc.2)]
          rfl
        · rw [handleResponse_table hid]
          exact htab
    | answered g ha =>
      rw [resolve_done (by simp), ite_self] at hget
      refine ⟨_, hget, hmade, .answered g ?_, hstage, fun hp => (by cases hp)⟩
      rw [first_append, ha]
      rfl
    | lost ha hin => exact absurd hin hl
    | cancelled hin =>
      rw [resolve_done (by simp), ite_self] at hget
      exact ⟨_, hget, hmade, .cancelled hin, hstage, fun hp => (by cases hp)⟩

theorem Follows.handled {op : Op} {j : Nat} {ls : List Lbl} (hl : .lost ∉ ls) (gs : List Frame)
    {fs : List Frame} {c : Client φ} {call : Call} (h : Follows os op j fs ls c call)
    (hn : Numbered c) :
    ∃ call', Follows os op j (fs ++ gs) ls (Decoder.handled (MountCalls.dispatch os) c gs)
      call' := by
  induction gs generalizing fs c call with
  | nil =>
    rw [List.append_nil]
    exact ⟨call, h⟩
  | cons g gs ih =>
    obtain ⟨call', h'⟩ := h.dispatch hn hl g
    have := ih h' (numbered_dispatch hn g)
    rwa [List.append_assoc] at this

/-! ## The other steps -/

section
variable {op : Op} {j : Nat} {fs : List Frame} {ls : List Lbl} {r t : Rx (Client φ) UInt8}
  {call : Call}

/-- A step that is not about this call. -/
theorem Follows.aside {c c' : Client φ} (h : Follows os op j fs ls c call) {l : Lbl}
    (hl : l ≠ .lost) (hcalls : c'.calls[j]? = c.calls[j]?)
    (htable : c'.pendingRequests.get? (j + 1) = c.pendingRequests.get? (j + 1)) :
    Follows os op j fs (ls ++ [l]) c' call where
  get := hcalls.trans h.get
  made := h.made
  future := h.future.append fun _ => hl
  stage := h.stage.append l
  table := fun hp => htable.trans (h.table hp)

/-- A step of another call. -/
theorem Follows.beside (h : Follows os op j fs ls r.st call) {l : Lbl} (hl : l ≠ .lost) {i : Nat}
    (hi : i ≠ j) (new : Call) : Follows os op j fs (ls ++ [l]) (setCall r i new).st call := by
  refine h.aside hl ?_ rfl
  show (r.st.calls.set i new)[j]? = _
  rw [List.getElem?_set_ne hi]

/-- A step of this call. -/
theorem Follows.set (h : Follows os op j fs ls r.st call) (new : Call) {l : Lbl}
    (hmade : new.op = op)
    (hfut : Decided os j (first (j + 1) fs) (ls ++ [l]) new.future)
    (hstage : At os op j (ls ++ [l]) new.future new.stage) (hp : new.future ≠ .pending) :
    Follows os op j fs (ls ++ [l]) (setCall r j new).st new where
  get := by
    have hlt := (List.getElem?_eq_some_iff.mp h.get).1
    show (r.st.calls.set j new)[j]? = _
    rw [List.getElem?_set_self hlt]
  made := hmade
  future := hfut
  stage := hstage
  table := fun hpend => absurd hpend hp

/-- A request whose future is done is no longer needed in the table. -/
theorem Follows.forgotten (h : Follows os op j fs ls r.st call) (hp : call.future ≠ .pending)
    (id : Nat) (caught : Bool) : Follows os op j fs ls (forget r id caught).st call :=
  ⟨h.get, h.made, h.future, h.stage, fun hpend => absurd hpend hp⟩

/-- A future that is cancelled, if it is not done, by the step `l`. -/
theorem Decided.cancel {future : Future} {a : Option Frame} (h : Decided os j a ls future) {l : Lbl}
    (hl : l = .timeout j ∨ l = .cancel j) : Decided os j a (ls ++ [l]) future.cancel := by
  have hlost : l ≠ .lost := by
    intro hc
    rw [hc] at hl
    simp at hl
  cases h with
  | pending ha hno =>
    refine .cancelled ?_
    rcases hl with rfl | rfl
    · exact .inl (by simp)
    · exact .inr (by simp)
  | answered f ha => exact .answered f ha
  | lost ha hin => exact .lost ha (List.mem_append_left _ hin)
  | cancelled hin => exact .cancelled (hin.imp (List.mem_append_left _) (List.mem_append_left _))

theorem Follows.lost (h : Follows os op j fs ls r.st call) (hn : Numbered r.st) :
    ∃ call', Follows os op j fs (ls ++ [.lost]) (onConnectionLost r.st) call' := by
  obtain ⟨op', id, future, stage⟩ := call
  obtain ⟨hold, hmade, hfut, hstage, htable⟩ := h
  have hget := connectionLost_call hn hold
  cases hfut with
  | pending ha hno =>
    rw [if_pos (htable rfl)] at hget
    exact ⟨_, hget, hmade, .lost ha (by simp), (hstage.resolve _).append _, fun hp => (by cases hp)⟩
  | answered f ha =>
    rw [resolve_done (by simp), ite_self] at hget
    exact ⟨_, hget, hmade, .answered f ha, hstage.append _, fun hp => (by cases hp)⟩
  | lost ha hin =>
    rw [resolve_done (by simp), ite_self] at hget
    exact ⟨_, hget, hmade, .lost ha (by simp), hstage.append _, fun hp => (by cases hp)⟩
  | cancelled hin =>
    rw [resolve_done (by simp), ite_self] at hget
    exact ⟨_, hget, hmade, .cancelled (hin.imp (List.mem_append_left _) (List.mem_append_left _)),
      hstage.append _, fun hp => (by cases hp)⟩

theorem Follows.resume (h : Follows os op j fs ls r.st call) (hn : Numbered r.st) {i : Nat}
    (hst : MountCalls.resume os r i = some t) :
    ∃ call', Follows os op j fs (ls ++ [.resume i]) t.st call' := by
  by_cases hi : i = j
  · subst hi
    unfold MountCalls.resume at hst
    rw [h.get] at hst
    obtain ⟨op', id, future, stage⟩ := call
    obtain ⟨hold, hmade, hfut, hstage, htable⟩ := h
    have hfollows : Follows os op i fs ls r.st ⟨op', id, future, stage⟩ :=
      ⟨hold, hmade, hfut, hstage, htable⟩
    have hfut' := hfut.append (l := .resume i) fun _ => by simp
    cases hstage with
    | waiting hnc =>
      cases future with
      | pending => cases hst
      | done x =>
        cases hst
        have hop : op' = op := hmade
        subst hop
        have hdone := hfollows.forgotten (by simp) id (timesOut x)
        exact ⟨_, hdone.set _ rfl hfut' (.returned x) (by simp)⟩
      | cancelled => exact absurd rfl hnc
    | expired hnp hl =>
      have hset := (hfollows.forgotten hnp id true).set
        ⟨op', id, future, .returned (.error timedOutError)⟩ hmade hfut'
        (.timedOut (List.mem_append_left _ hl)) hnp
      cases future with
      | pending => exact absurd rfl hnp
      | done x => cases hst; exact ⟨_, hset⟩
      | cancelled => cases hst; exact ⟨_, hset⟩
    | returned x => cases hst
    | timedOut hl => cases future <;> cases hst
    | cancelled hl => cases future <;> cases hst
    | unsent hf => cases future <;> cases hst
  · have hother : ∀ {old : Call}, r.st.calls[i]? = some old → ∀ caught (new : Call),
        Follows os op j fs (ls ++ [.resume i])
          (setCall (forget r old.requestId caught) i new).st call := by
      intro old hget caught new
      have hid : old.requestId = i + 1 := hn.ids i _ hget
      refine h.aside (by simp) ?_ (forget_get? r (by omega) caught)
      show (r.st.calls.set i new)[j]? = _
      rw [List.getElem?_set_ne hi]
    unfold MountCalls.resume at hst
    split at hst
    · rename_i hget
      cases hst
      exact ⟨call, hother hget _ _⟩
    · cases hst
      exact ⟨call, h.beside (by simp) hi _⟩
    · rename_i hget
      cases hst
      exact ⟨call, hother hget _ _⟩
    · cases hst

/-- A call that `wait_for` gives up, or whose caller is cancelled. -/
theorem Follows.stopped (h : Follows os op j fs ls r.st call) {i : Nat} {old : Call}
    (hget : r.st.calls[i]? = some old) {l : Lbl} {stage : Stage}
    (hl : (l = .timeout i ∧ stage = .expired) ∨ (l = .cancel i ∧ stage = .cancelled)) :
    ∃ call', Follows os op j fs (ls ++ [l])
      (setCall r i ⟨old.op, old.requestId, old.future.cancel, stage⟩).st call' := by
  by_cases hi : i = j
  · subst hi
    have hold : old = call := Option.some.inj (hget.symm.trans h.get)
    subst hold
    refine ⟨_, h.set _ h.made (h.future.cancel (hl.imp And.left And.left)) ?_ (cancel_ne_pending _)⟩
    rcases hl with ⟨rfl, rfl⟩ | ⟨rfl, rfl⟩
    · exact .expired (cancel_ne_pending _) (by simp)
    · exact .cancelled (by simp)
  · refine ⟨call, h.beside ?_ hi _⟩
    rcases hl with ⟨rfl, -⟩ | ⟨rfl, -⟩ <;> simp

theorem Follows.step (h : Follows os op j fs ls r.st call) (hi : Inv r) {l : Lbl}
    (hst : step os r l = some t) (hlost : .lost ∈ ls → link r.st.node = some false) :
    ∃ fs' call', frames t = frames r ++ fs' ∧
      Follows os op j (fs ++ fs') (ls ++ [l]) t.st call' := by
  have hn := hi.numbered
  suffices hother : (∀ chunk, l ≠ .data chunk) →
      ∃ call', Follows os op j fs (ls ++ [l]) t.st call' by
    by_cases hl : ∃ chunk, l = .data chunk
    · obtain ⟨chunk, rfl⟩ := hl
      obtain ⟨hup, -, gs, hframes, hhandled⟩ := data_step hi hst
      have hno : .lost ∉ ls := by
        intro hin
        rw [hlost hin] at hup
        cases hup
      have hheard : Follows os op j fs (ls ++ [.data chunk]) (heard r.st chunk) call :=
        h.aside (by simp) rfl rfl
      obtain ⟨call', h'⟩ := hheard.handled (by simp [hno]) gs ⟨hn.count, hn.ids, hn.table⟩
      refine ⟨gs, call', hframes, ?_⟩
      rw [hhandled]
      exact h'
    · have hl' : ∀ chunk, l ≠ .data chunk := fun chunk hc => hl ⟨chunk, hc⟩
      obtain ⟨call', h'⟩ := hother hl'
      refine ⟨[], call', by rw [frames_step hn hst hl', List.append_nil], ?_⟩
      rwa [List.append_nil]
  intro hl
  cases l with
  | data chunk => exact absurd rfl (hl chunk)
  | call op' =>
    simp only [MountCalls.step] at hst
    split at hst
    · cases hst
      have hlt := (List.getElem?_eq_some_iff.mp h.get).1
      refine ⟨call, h.aside (by simp) ?_ ?_⟩
      · show (r.st.calls ++ [_])[j]? = _
        rw [List.getElem?_append_left hlt]
      · show (r.st.pendingRequests.set (r.st.requestId + 1) _).get? (j + 1) = _
        have hne : r.st.requestId + 1 ≠ j + 1 := by
          have := hn.count
          omega
        rw [Dict.get?_set_ne _ _ hne]
    · cases hst
  | timeout i =>
    simp only [MountCalls.step] at hst
    split at hst
    · rename_i hget
      cases hst
      exact h.stopped hget (.inl ⟨rfl, rfl⟩)
    · cases hst
  | cancel i =>
    simp only [MountCalls.step] at hst
    split at hst
    · rename_i hget
      cases hst
      exact h.stopped hget (.inr ⟨rfl, rfl⟩)
    · rename_i hget
      cases hst
      exact h.stopped hget (.inr ⟨rfl, rfl⟩)
    · cases hst
  | resume i => exact h.resume hn hst
  | lost =>
    simp only [MountCalls.step] at hst
    split at hst
    · cases hst
      obtain ⟨call', h'⟩ := h.lost hn
      exact ⟨call', h'.get, h'.made, h'.future, h'.stage, h'.table⟩
    · cases hst
  | _ =>
    simp only [MountCalls.step] at hst
    split at hst <;> cases hst
    exact ⟨call, h.aside (by simp) rfl rfl⟩

end

/-! ## Whole runs -/

theorem sendMessage_raised {n : Server φ} {f : Frame} {e : Exn} (h : (sendMessage n f).2 = some e) :
    f.fits = false ∧ e = structError := by
  unfold sendMessage at h
  split at h
  · cases h
  · split at h
    · cases h
    · rename_i hf
      cases h
      exact ⟨by simpa using hf, rfl⟩

/-- A call that has just been made. -/
theorem follows_sent (os : Os φ) {c : Client φ} (hn : Numbered c) (op : Op) :
    ∃ call, Follows os op c.calls.length [] [] (sendRequest os c op) call := by
  refine ⟨_, List.getElem?_concat_length, rfl, .pending rfl List.not_mem_nil, ?_, fun _ => ?_⟩
  · cases hs : (sendMessage c.node (op.frame os (c.requestId + 1))).2 with
    | none => exact .waiting (by simp)
    | some e =>
      obtain ⟨hf, rfl⟩ := sendMessage_raised hs
      rw [hn.count] at hf
      exact .unsent hf
  · show (c.pendingRequests.set (c.requestId + 1) _).get? (c.calls.length + 1) = _
    rw [hn.count, Dict.get?_set_self]

/-- A call of number `j` in the state `r`, after the steps `ls` in which the frames `fs` came in. -/
structure Settled (os : Os φ) (op : Op) (j : Nat) (fs : List Frame) (ls : List Lbl)
    (r : Rx (Client φ) UInt8) (call : Call) : Prop where
  /-- It returns or raises nothing else. -/
  sound : ∀ x, call.stage = .returned x →
    (∃ f, first (j + 1) fs = some f ∧ x = op.outcome os (awaited (answerOf os f))) ∨
    (first (j + 1) fs = none ∧ .lost ∈ ls ∧ x = .error connectionLostError) ∨
    (.timeout j ∈ ls ∧ x = .error timedOutError) ∨
    ((op.frame os (j + 1)).fits = false ∧ x = .error (.exn structError))
  /-- Once its coroutine has run as far as it can, it has returned, or there was nothing to. -/
  complete : (op.frame os (j + 1)).fits = true → .timeout j ∉ ls → .cancel j ∉ ls →
    step os r (.resume j) = none → call.stage =
      match first (j + 1) fs with
      | some f => .returned (op.outcome os (awaited (answerOf os f)))
      | none => if .lost ∈ ls then .returned (.error connectionLostError) else .waiting

theorem Follows.settled {op : Op} {j : Nat} {fs : List Frame} {ls : List Lbl}
    {r : Rx (Client φ) UInt8} {call : Call} (h : Follows os op j fs ls r.st call) :
    Settled os op j fs ls r call := by
  obtain ⟨op', id, future, stage⟩ := call
  obtain ⟨hget, hmade, hfut, hstage, htable⟩ := h
  refine ⟨fun x hx => ?_, fun hfits hnt hnc hquiet => ?_⟩
  · have hat : At os op j ls future (.returned x) := hx ▸ hstage
    cases hat with
    | returned y =>
      cases hfut with
      | answered f ha => exact .inl ⟨f, ha, rfl⟩
      | lost ha hl => exact .inr (.inl ⟨ha, hl, rfl⟩)
    | timedOut hl => exact .inr (.inr (.inl ⟨hl, rfl⟩))
    | unsent hf => exact .inr (.inr (.inr ⟨hf, rfl⟩))
  · simp only [MountCalls.step, MountCalls.resume, hget] at hquiet
    cases hstage with
    | waiting hf =>
      cases hfut with
      | pending ha hl => rw [ha, if_neg hl]
      | answered f ha => cases hquiet
      | lost ha hl => cases hquiet
      | cancelled hl => exact absurd rfl hf
    | expired hf hl => exact absurd hl hnt
    | returned y =>
      cases hfut with
      | answered f ha => rw [ha]
      | lost ha hl =>
        rw [ha, if_pos hl]
        rfl
    | timedOut hl => exact absurd hl hnt
    | cancelled hl => exact absurd hl hnc
    | unsent hf => rw [hf] at hfits; cases hfits

theorem follows_run {s s1 t : Rx (Client φ) UInt8} {op : Op} {ls : List Lbl}
    (h : (lts os root files).Reachable s) (hst : step os s (.call op) = some s1)
    (hr : (lts os root files).Run s1 ls t) : ∃ fs call, frames t = frames s ++ fs ∧
      Follows os op s.st.calls.length fs ls t.st call := by
  have hi := (inv os root files).reachable s h
  have h1 : (lts os root files).Reachable s1 := h.step hst
  have hreach : ∀ {ks u}, (lts os root files).Run s1 ks u → Inv u :=
    fun hu => (inv os root files).reachable _ (h1.run hu)
  have hdown : ∀ {ks u}, (lts os root files).Run s1 ks u → .lost ∈ ks →
      link u.st.node = some false := by
    intro ks u hu
    refine LTS.Run.history (I := fun ks u => .lost ∈ ks → link u.st.node = some false) ?_
      (fun hin => absurd hin List.not_mem_nil) hu
    intro pre a l b ha hpre hab hin
    refine link_step (hreach ha) hab ?_
    rcases List.mem_append.mp hin with hin | hin
    · exact .inr (hpre hin)
    · exact .inl (List.mem_singleton.mp hin).symm
  refine LTS.Run.history (I := fun ks u => ∃ fs call, frames u = frames s ++ fs ∧
      Follows os op s.st.calls.length fs ks u.st call) ?_ ?_ hr
  · intro pre a l b ha ⟨fs, call, hfs, hfol⟩ hab
    obtain ⟨gs, call', hgs, hfol'⟩ := hfol.step (hreach ha) hab (hdown ha)
    exact ⟨fs ++ gs, call', by rw [hgs, hfs, List.append_assoc], hfol'⟩
  · have hframes := frames_step hi.numbered hst fun _ hc => by cases hc
    simp only [step] at hst
    split at hst
    · cases hst
      obtain ⟨call, hcall⟩ := follows_sent os hi.numbered op
      exact ⟨[], call, by rw [List.append_nil]; exact hframes, hcall⟩
    · cases hst

/-- **Headline.** Whatever the peer sends, in whatever chunks, and whichever calls are under way at
the same time: a call has an id that no other has; it returns what the first answer with that id
says of those that come after it was made (of an error that has the number of a time-out, that the
request timed out), or raises for the end of the connection, its own time or a request that is too
long; and the first answer is never missed. -/
theorem call_settled {s s1 t : Rx (Client φ) UInt8} {op : Op} {ls : List Lbl}
    (h : (lts os root files).Reachable s) (hst : step os s (.call op) = some s1)
    (hr : (lts os root files).Run s1 ls t) :
    ∃ call, t.st.calls[s.st.calls.length]? = some call ∧
      (∀ i other, t.st.calls[i]? = some other → other.requestId = call.requestId →
        i = s.st.calls.length) ∧
      Settled os op s.st.calls.length ((frames t).drop (frames s).length) ls t call := by
  obtain ⟨fs, call, hfs, hfol⟩ := follows_run h hst hr
  have hn := ((inv os root files).reachable t ((h.step hst).run hr)).numbered
  refine ⟨call, hfol.get, fun i other hi hid => ?_, ?_⟩
  · have hi' := hn.ids i other hi
    have hc := hn.ids _ call hfol.get
    omega
  · rw [hfs, List.drop_left]
    exact hfol.settled

/-! ## A directory is made -/

section
open Wormhole.L5.MountAnswers (emptyDir srv readdir)

/-- The answer to a `mkdir`. -/
def created : Frame := ⟨MSG_RESPONSE, 1, []⟩

def started : Rx (Client Unit) UInt8 :=
  LTS.after (step emptyDir) (init srv ()) [.connect, .callback]

theorem started_reachable : (lts emptyDir srv ()).Reachable started :=
  LTS.reachable_of_exec rfl (LTS.exec_after rfl)

def afterCall : Rx (Client Unit) UInt8 :=
  LTS.after (step emptyDir) started [.call (.mkdir "/d" 0o755)]

/-- The answer comes in two chunks, and behind it a request of the peer. -/
def answering : List Lbl :=
  [.data (created.pack.take 4), .data (created.pack.drop 4 ++ readdir.pack), .run, .resume 0]

def answered : Rx (Client Unit) UInt8 := LTS.after (step emptyDir) afterCall answering

theorem answered_run : (lts emptyDir srv ()).Run afterCall answering answered :=
  LTS.run_of_exec (LTS.exec_after rfl)

theorem call_afterCall : step emptyDir started (.call (.mkdir "/d" 0o755)) = some afterCall :=
  LTS.step_after rfl

theorem settled_mkdir : ∃ call, answered.st.calls[0]? = some call ∧
    call.stage = .returned (.ok .none) := by
  obtain ⟨call, hget, -, hs⟩ := call_settled started_reachable call_afterCall answered_run
  refine ⟨call, hget, ?_⟩
  rw [hs.complete (by decide) (by decide) (by decide) rfl]
  rfl

end

end Wormhole.L5.MountCalls
