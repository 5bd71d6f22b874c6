import Wormhole.Core.AsyncQueue
import Wormhole.Core.Dict
import Wormhole.Core.LTS

/-!
# The daemon's listeners and its accept endpoint

`src/wh/cli/daemon.py`: any number of listeners, the connections that Twisted makes on them, and
`GET .../accept` calls that wait for one. A connection is put in its listener's queue by a callback
of the event loop; a call waits on the queue with `wait_for`, until it is woken or its time is up.
A `ListenerState` lives on in the calls that wait on it after it left `listeners`. Identifiers
(`uuid4`) are drawn once.

* `accepted_in_order`: on every listener the connections go to the calls in the order they were
  made, each to one call, and what has not gone to a call yet is still there.
* `none_left_waiting`: when nothing is left to run and a call still waits on a listener, every
  connection that was made on it went to a call.
-/
namespace Wormhole.L5.DaemonAccepts

abbrev ListenerId := Nat
abbrev ConnId := Nat
abbrev CallId := Nat

/-! ## State -/

/-- mirrors src/wh/cli/daemon.py:30-39 -/
structure ListenerState where
  connections : AsyncQueue CallId ConnId
  closed : Bool

/-- mirrors src/wh/cli/daemon.py:42-51 -/
structure ConnectionState where
  listenerId : ListenerId
  closed : Bool

/-- A `json_response`: its status, and the texts and the id in it. -/
structure Response where
  status : Nat
  error : Option String
  connectionId : Option ConnId
  state : Option String
  deriving DecidableEq

def notFound : Response := ⟨404, some "Listener not found", none, none⟩
def gone : Response := ⟨410, some "Listener closed", none, none⟩
def connected (c : ConnId) : Response := ⟨200, none, some c, some "connected"⟩
def timedOut : Response := ⟨200, none, none, some "timeout"⟩

/-- Where a `handle_accept` is: in `wait_for`, cancelled there by the timeout, or through. -/
inductive Call
  | waiting (l : ListenerId)
  | cancelled (l : ListenerId)
  | answered (r : Response)

/-- mirrors src/wh/cli/daemon.py:97-103. `created` are the listeners there were, `scheduled` the
callbacks of the event loop, `closing` the `handle_close_listener` calls that wait for the wormhole
to close. -/
structure Daemon where
  created : List ListenerId
  listeners : List ListenerId
  listener : ListenerId → ListenerState
  activeConnections : Dict ConnId ConnectionState
  nextConn : ConnId
  scheduled : List (ListenerId × ConnId)
  closing : List ListenerId
  call : CallId → Option Call

def Daemon.init : Daemon :=
  ⟨[], [], fun _ => ⟨.empty, false⟩, .empty, 0, [], [], fun _ => none⟩

def queue (s : Daemon) (l : ListenerId) : AsyncQueue CallId ConnId := (s.listener l).connections

def setQueue (s : Daemon) (l : ListenerId) (q : AsyncQueue CallId ConnId) : Daemon :=
  { s with listener := fun k => if k = l then { s.listener k with connections := q } else s.listener k }

def setClosed (s : Daemon) (l : ListenerId) : Daemon :=
  { s with listener := fun k => if k = l then { s.listener k with closed := true } else s.listener k }

def setCall (s : Daemon) (i : CallId) (c : Call) : Daemon :=
  { s with call := fun j => if j = i then some c else s.call j }

@[simp] theorem setQueue_queue (s : Daemon) (l k : ListenerId) (q : AsyncQueue CallId ConnId) :
    queue (setQueue s l q) k = if k = l then q else queue s k := by
  simp only [queue, setQueue]
  split <;> rfl

@[simp] theorem setQueue_call (s : Daemon) (l : ListenerId) (q : AsyncQueue CallId ConnId) :
    (setQueue s l q).call = s.call := rfl
@[simp] theorem setQueue_scheduled (s : Daemon) (l : ListenerId) (q : AsyncQueue CallId ConnId) :
    (setQueue s l q).scheduled = s.scheduled := rfl
@[simp] theorem setQueue_nextConn (s : Daemon) (l : ListenerId) (q : AsyncQueue CallId ConnId) :
    (setQueue s l q).nextConn = s.nextConn := rfl

@[simp] theorem setClosed_queue (s : Daemon) (l k : ListenerId) :
    queue (setClosed s l) k = queue s k := by
  simp only [queue, setClosed]
  split <;> rfl

@[simp] theorem setClosed_call (s : Daemon) (l : ListenerId) : (setClosed s l).call = s.call := rfl
@[simp] theorem setClosed_scheduled (s : Daemon) (l : ListenerId) :
    (setClosed s l).scheduled = s.scheduled := rfl
@[simp] theorem setClosed_nextConn (s : Daemon) (l : ListenerId) :
    (setClosed s l).nextConn = s.nextConn := rfl

@[simp] theorem setCall_queue (s : Daemon) (i : CallId) (c : Call) (l : ListenerId) :
    queue (setCall s i c) l = queue s l := rfl
@[simp] theorem setCall_call (s : Daemon) (i j : CallId) (c : Call) :
    (setCall s i c).call j = if j = i then some c else s.call j := rfl
@[simp] theorem setCall_scheduled (s : Daemon) (i : CallId) (c : Call) :
    (setCall s i c).scheduled = s.scheduled := rfl
@[simp] theorem setCall_nextConn (s : Daemon) (i : CallId) (c : Call) :
    (setCall s i c).nextConn = s.nextConn := rfl

/-! ## Steps -/

inductive Lbl
  | listen (l : ListenerId)
  | connectionMade (l : ListenerId)
  | connectionLost (c : ConnId)
  | runScheduled
  | accept (i : CallId) (l : ListenerId) (timeout : Int)
  | timeout (i : CallId)
  | resume (i : CallId)
  | listenFailed (l : ListenerId)
  | closeListener (l : ListenerId)
  | wormholeClosed (l : ListenerId)
  | closeConnection (c : ConnId)

/-- What an asking call gets, or that it waits. -/
def settle (s : Daemon) (i : CallId) (l : ListenerId)
    (r : AsyncQueue CallId ConnId × Option ConnId) : Daemon :=
  match r.2 with
  | some c => setCall (setQueue s l r.1) i (.answered (connected c))
  | none => setCall (setQueue s l r.1) i (.waiting l)

/-- Up to the `await`. With a timeout that is not positive `wait_for` cancels the `get` before it
begins.
mirrors src/wh/cli/daemon.py:544-591 -/
def handleAccept (s : Daemon) (i : CallId) (l : ListenerId) (timeout : Int) : Daemon :=
  if l ∉ s.listeners then setCall s i (.answered notFound)
  else if (s.listener l).closed then setCall s i (.answered gone)
  else if timeout ≤ 0 then setCall s i (.answered timedOut)
  else settle s i l ((queue s l).get i)

/-- mirrors src/wh/cli/daemon.py:485-498 -/
def connectionMade (s : Daemon) (l : ListenerId) : Daemon :=
  { s with
    activeConnections := s.activeConnections.set s.nextConn ⟨l, false⟩
    nextConn := s.nextConn + 1
    scheduled := s.scheduled ++ [(l, s.nextConn)] }

/-- The listener goes, and its connections with it; `del` raises where another call was first.
mirrors src/wh/cli/daemon.py:717-731 -/
def dropListener (s : Daemon) (l : ListenerId) : Daemon :=
  if l ∈ s.listeners then
    { s with
      listeners := s.listeners.erase l
      activeConnections := s.activeConnections.delAll
        ((s.activeConnections.entries.filter fun e => e.2.listenerId = l).map Prod.fst) }
  else s

def step (s : Daemon) : Lbl → Option Daemon
  | .listen l =>
    if l ∈ s.created then none
    else some { s with created := l :: s.created, listeners := s.listeners ++ [l] }
  | .connectionMade l => if l ∈ s.created then some (connectionMade s l) else none
  | .connectionLost c =>
    match s.activeConnections.get? c with
    | some st => some { s with activeConnections := s.activeConnections.set c { st with closed := true } }
    | none => some s
  | .runScheduled =>
    match s.scheduled with
    | [] => none
    | (l, c) :: rest => some { setQueue s l ((queue s l).put c) with scheduled := rest }
  | .accept i l timeout =>
    match s.call i with
    | none => some (handleAccept s i l timeout)
    | some _ => none
  | .timeout i =>
    match s.call i with
    | some (.waiting l) => some (setCall (setQueue s l ((queue s l).cancel i)) i (.cancelled l))
    | _ => none
  | .resume i =>
    match s.call i with
    | some (.waiting l) =>
      if i ∈ (queue s l).woken then some (settle s i l ((queue s l).resume i)) else none
    | some (.cancelled l) =>
      some (setCall (setQueue s l ((queue s l).leave i)) i (.answered timedOut))
    | _ => none
  | .listenFailed l => some (setClosed s l)
  | .closeListener l =>
    if l ∈ s.listeners then some { setClosed s l with closing := s.closing ++ [l] } else some s
  | .wormholeClosed l =>
    if l ∈ s.closing then some { dropListener s l with closing := s.closing.erase l } else none
  | .closeConnection c => some { s with activeConnections := s.activeConnections.del c }

def lts : LTS Daemon Lbl := .ofStep (· = .init) step

/-! ## What a call is told -/

/-- The id that a step answers a call with. -/
def toldId (s : Daemon) (i : CallId) (lbl : Lbl) : List ConnId :=
  match (step s lbl).bind fun t => t.call i with
  | some (.answered r) => r.connectionId.toList
  | _ => []

/-- The connections on a listener that calls are told of. -/
def accepted (l : ListenerId) (s : Daemon) : Lbl → List ConnId
  | .accept i k timeout => if k = l then toldId s i (.accept i k timeout) else []
  | .resume i =>
    match s.call i with
    | some (.waiting k) => if k = l then toldId s i (.resume i) else []
    | _ => []
  | _ => []

/-- The connections that are made on a listener. -/
def made (l : ListenerId) (s : Daemon) : Lbl → List ConnId
  | .connectionMade k => if k = l ∧ k ∈ s.created then [s.nextConn] else []
  | _ => []

/-- Those in the queue, and those whose callback has not run. -/
def unclaimed (l : ListenerId) (s : Daemon) : List ConnId :=
  (queue s l).items ++ (s.scheduled.filter fun e => e.1 = l).map Prod.snd

@[simp] theorem settle_queue (s : Daemon) (i : CallId) (l k : ListenerId)
    (r : AsyncQueue CallId ConnId × Option ConnId) :
    queue (settle s i l r) k = if k = l then r.1 else queue s k := by
  unfold settle
  split <;> simp

@[simp] theorem settle_scheduled (s : Daemon) (i : CallId) (l : ListenerId)
    (r : AsyncQueue CallId ConnId × Option ConnId) :
    (settle s i l r).scheduled = s.scheduled := by
  unfold settle
  split <;> rfl

@[simp] theorem settle_nextConn (s : Daemon) (i : CallId) (l : ListenerId)
    (r : AsyncQueue CallId ConnId × Option ConnId) :
    (settle s i l r).nextConn = s.nextConn := by
  unfold settle
  split <;> rfl

theorem settle_call (s : Daemon) (i j : CallId) (l : ListenerId)
    (r : AsyncQueue CallId ConnId × Option ConnId) : (settle s i l r).call j =
      if j = i then some (match r.2 with
        | some c => .answered (connected c)
        | none => .waiting l)
      else s.call j := by
  unfold settle
  split <;> rfl

theorem toldId_settle {s : Daemon} {i : CallId} {l : ListenerId} {lbl : Lbl}
    {r : AsyncQueue CallId ConnId × Option ConnId} (h : step s lbl = some (settle s i l r)) :
    toldId s i lbl = r.2.toList := by
  rw [toldId, h, Option.bind_some, settle_call, if_pos rfl]
  cases r.2 <;> rfl

/-- A step that tells nothing of a connection. -/
theorem toldId_none {s t : Daemon} {i : CallId} {lbl : Lbl} {r : Response} (h : step s lbl = some t)
    (hc : t.call i = some (.answered r)) (hr : r.connectionId = none) : toldId s i lbl = [] := by
  rw [toldId, h, Option.bind_some, hc]
  exact congrArg Option.toList hr

theorem unclaimed_of_eq {s t : Daemon} {l : ListenerId} (hq : queue t l = queue s l)
    (hs : t.scheduled = s.scheduled) : unclaimed l t = unclaimed l s := by
  rw [unclaimed, unclaimed, hq, hs]

/-- A call takes from the front of its listener's queue. -/
theorem settle_flow {s : Daemon} {i : CallId} {k l : ListenerId} {lbl : Lbl}
    {r : AsyncQueue CallId ConnId × Option ConnId} (h : step s lbl = some (settle s i k r))
    (hr : (queue s k).items = r.2.toList ++ r.1.items) :
    unclaimed l s = (if k = l then toldId s i lbl else []) ++ unclaimed l (settle s i k r) := by
  rw [toldId_settle h, unclaimed, unclaimed, settle_queue, settle_scheduled]
  by_cases hk : k = l
  · subst hk
    rw [if_pos rfl, if_pos rfl, hr, List.append_assoc]
  · rw [if_neg hk, if_neg (Ne.symm hk), List.nil_append]

theorem dropListener_queue (s : Daemon) (l k : ListenerId) :
    queue (dropListener s l) k = queue s k := by
  unfold dropListener
  split <;> rfl

theorem dropListener_scheduled (s : Daemon) (l : ListenerId) :
    (dropListener s l).scheduled = s.scheduled := by
  unfold dropListener
  split <;> rfl

/-- A call is answered at once without a connection, or asks the queue. -/
theorem handleAccept_cases (s : Daemon) (i : CallId) (l : ListenerId) (timeout : Int) :
    (∃ r, r.connectionId = none ∧ handleAccept s i l timeout = setCall s i (.answered r)) ∨
      handleAccept s i l timeout = settle s i l ((queue s l).get i) := by
  unfold handleAccept
  split
  · exact .inl ⟨notFound, rfl, rfl⟩
  · split
    · exact .inl ⟨gone, rfl, rfl⟩
    · split
      · exact .inl ⟨timedOut, rfl, rfl⟩
      · exact .inr rfl

/-- **One step.** What is unclaimed and what comes in is what a call is told and what is unclaimed
then. -/
theorem step_flow {s t : Daemon} {lbl : Lbl} (hst : step s lbl = some t) (l : ListenerId) :
    unclaimed l s ++ made l s lbl = accepted l s lbl ++ unclaimed l t := by
  cases lbl with
  | listen k =>
    simp only [step] at hst
    split at hst
    · cases hst
    · cases hst
      exact List.append_nil _
  | connectionMade k =>
    simp only [step] at hst
    split at hst
    · rename_i hk
      cases hst
      simp only [made, accepted, unclaimed, connectionMade, hk, and_true, List.filter_append,
        List.map_append, List.nil_append, List.append_assoc]
      by_cases hl : k = l
      · simp [hl, queue]
      · simp [hl, queue]
    · cases hst
  | connectionLost c =>
    simp only [step] at hst
    split at hst <;> cases hst <;> exact List.append_nil _
  | runScheduled =>
    simp only [step] at hst
    split at hst
    · cases hst
    · rename_i k c rest hrest
      cases hst
      have hq : queue { setQueue s k ((queue s k).put c) with scheduled := rest } l =
          if l = k then (queue s k).put c else queue s l := setQueue_queue s k l _
      simp only [made, accepted, unclaimed, hq, hrest, List.append_nil, List.nil_append]
      by_cases hl : k = l
      · subst hl
        simp
      · simp [hl, Ne.symm hl]
  | accept i k timeout =>
    have hst' := hst
    simp only [step] at hst
    split at hst
    · cases hst
      simp only [made, accepted, List.append_nil]
      obtain ⟨r, hr, he⟩ | he := handleAccept_cases s i k timeout
      · have hnone : toldId s i (.accept i k timeout) = [] := by
          refine toldId_none hst' ?_ hr
          rw [he]
          exact if_pos rfl
        rw [hnone, ite_self, List.nil_append, he]
        exact (unclaimed_of_eq rfl rfl).symm
      · rw [he] at hst' ⊢
        exact settle_flow hst' (AsyncQueue.get_items _ i)
    · cases hst
  | timeout i =>
    simp only [step] at hst
    split at hst
    · rename_i k hcall
      cases hst
      simp only [made, accepted, List.append_nil, List.nil_append, unclaimed, setCall_queue,
        setQueue_queue, setCall_scheduled, setQueue_scheduled]
      by_cases hl : l = k
      · rw [if_pos hl, AsyncQueue.cancel_items, hl]
      · rw [if_neg hl]
    · cases hst
  | resume i =>
    have hst' := hst
    simp only [step] at hst
    split at hst
    · rename_i k hcall
      split at hst
      · cases hst
        simp only [made, accepted, hcall, List.append_nil]
        exact settle_flow hst' (AsyncQueue.resume_items _ i)
      · cases hst
    · rename_i k hcall
      cases hst
      simp only [made, accepted, hcall, List.append_nil, List.nil_append, unclaimed, setCall_queue,
        setQueue_queue, setCall_scheduled, setQueue_scheduled]
      by_cases hl : l = k
      · rw [if_pos hl, AsyncQueue.leave_items, hl]
      · rw [if_neg hl]
    · cases hst
  | listenFailed k =>
    cases hst
    simp only [made, accepted, List.append_nil, List.nil_append]
    exact (unclaimed_of_eq (setClosed_queue s k l) rfl).symm
  | closeListener k =>
    simp only [step] at hst
    simp only [made, accepted, List.append_nil, List.nil_append]
    split at hst
    · cases hst
      exact (unclaimed_of_eq (setClosed_queue s k l) rfl).symm
    · cases hst
      rfl
  | wormholeClosed k =>
    simp only [step] at hst
    simp only [made, accepted, List.append_nil, List.nil_append]
    split at hst
    · cases hst
      exact (unclaimed_of_eq (dropListener_queue s k l) (dropListener_scheduled s k)).symm
    · cases hst
  | closeConnection c =>
    cases hst
    exact List.append_nil _

/-! ## The calls and the queues -/

/-- The queues are sound, and have the calls in them that wait. -/
structure Inv (s : Daemon) : Prop where
  sound : ∀ l, (queue s l).Sound
  waiting : ∀ l i, i ∈ (queue s l).waiting ↔ s.call i = some (.waiting l)
  leaving : ∀ l i, i ∈ (queue s l).leaving → s.call i = some (.cancelled l)

theorem inv_init : Inv .init :=
  ⟨fun _ => AsyncQueue.sound_empty, fun _ _ => ⟨fun h => (by cases h), fun h => (by cases h)⟩,
    fun _ _ h => (by cases h)⟩

theorem Inv.of_eq {s t : Daemon} (h : Inv s) (hq : ∀ l, queue t l = queue s l)
    (hc : t.call = s.call) : Inv t :=
  ⟨fun l => (hq l).symm ▸ h.sound l, fun l i => by rw [hq, hc, h.waiting],
    fun l i hi => by rw [hq] at hi; rw [hc, h.leaving l i hi]⟩

/-- A call that is in no queue. -/
theorem Inv.notMem {s : Daemon} (h : Inv s) {i : CallId} (hc : s.call i = none) (l : ListenerId) :
    i ∉ (queue s l).tasks := by
  intro hi
  rcases List.mem_append.mp hi with hi | hi
  · rw [(h.waiting l i).mp hi] at hc
    cases hc
  · rw [h.leaving l i hi] at hc
    cases hc

/-- One call and the queue of one listener change. -/
theorem Inv.changed {s : Daemon} (h : Inv s) {i : CallId} {l : ListenerId} {c : Call}
    {q : AsyncQueue CallId ConnId} (hq : q.Sound)
    (hw : ∀ j, j ∈ q.waiting ↔ if j = i then c = .waiting l else j ∈ (queue s l).waiting)
    (hl : ∀ j, j ∈ q.leaving → if j = i then c = .cancelled l else j ∈ (queue s l).leaving)
    (hi : ∀ k, k ≠ l → i ∉ (queue s k).tasks) (hc : ∀ k, k ≠ l → c ≠ .waiting k) :
    Inv (setCall (setQueue s l q) i c) := by
  refine ⟨fun k => ?_, fun k j => ?_, fun k j hj => ?_⟩
  · rw [setCall_queue, setQueue_queue]
    split
    · exact hq
    · exact h.sound k
  · rw [setCall_queue, setQueue_queue, setCall_call, setQueue_call]
    by_cases hk : k = l
    · subst hk
      rw [if_pos rfl, hw]
      split
      · rw [Option.some.injEq]
      · exact h.waiting k j
    · rw [if_neg hk]
      split
      · rename_i hj
        subst hj
        constructor
        · intro hin
          exact absurd (List.mem_append_left _ hin) (hi k hk)
        · intro he
          exact absurd (Option.some.inj he) (hc k hk)
      · exact h.waiting k j
  · rw [setCall_queue, setQueue_queue] at hj
    rw [setCall_call, setQueue_call]
    by_cases hk : k = l
    · subst hk
      rw [if_pos rfl] at hj
      have hj' := hl j hj
      split at hj'
      · rename_i he
        rw [if_pos he, hj']
      · rename_i he
        rw [if_neg he]
        exact h.leaving k j hj'
    · rw [if_neg hk] at hj
      split
      · rename_i he
        subst he
        exact absurd (List.mem_append_right _ hj) (hi k hk)
      · exact h.leaving k j hj

/-- A call is in no other queue than that of its listener. -/
theorem Inv.notMem_other {s : Daemon} (h : Inv s) {i : CallId} {l k : ListenerId}
    (hc : s.call i = some (.waiting l) ∨ s.call i = some (.cancelled l)) (hk : k ≠ l) :
    i ∉ (queue s k).tasks := by
  intro hi
  rcases List.mem_append.mp hi with hi | hi
  · rw [(h.waiting k i).mp hi] at hc
    obtain hc | hc := hc
    · cases hc
      exact hk rfl
    · cases hc
  · rw [h.leaving k i hi] at hc
    obtain hc | hc := hc
    · cases hc
    · cases hc
      exact hk rfl

theorem Inv.settled {s : Daemon} (h : Inv s) {i : CallId} {l : ListenerId}
    {r : AsyncQueue CallId ConnId × Option ConnId} (hq : r.1.Sound)
    (hw : ∀ j, j ∈ r.1.waiting ↔ if j = i then r.2 = none else j ∈ (queue s l).waiting)
    (hl : r.1.leaving = (queue s l).leaving) (hout : i ∉ (queue s l).leaving)
    (hi : ∀ k, k ≠ l → i ∉ (queue s k).tasks) : Inv (settle s i l r) := by
  have hleave : ∀ c : Call, ∀ j, j ∈ r.1.leaving →
      if j = i then c = .cancelled l else j ∈ (queue s l).leaving := by
    intro c j hj
    rw [hl] at hj
    split
    · rename_i he
      exact absurd (he ▸ hj) hout
    · exact hj
  unfold settle
  split
  · rename_i c hr
    refine h.changed hq (fun j => ?_) (hleave _) hi (fun k _ => by simp)
    rw [hw j, hr]
    simp
  · rename_i hr
    refine h.changed hq (fun j => ?_) (hleave _) hi (fun k hk he => hk ?_)
    · rw [hw j, hr]
      simp
    · cases he
      rfl

/-- A scheduled connection is put in its queue. -/
theorem inv_runScheduled {s t : Daemon} (h : Inv s)
    (hst : step s .runScheduled = some t) : Inv t := by
  simp only [step] at hst
  split at hst
  · cases hst
  · rename_i k c rest hrest
    cases hst
    have hq : ∀ l, queue { setQueue s k ((queue s k).put c) with scheduled := rest } l =
        if l = k then (queue s k).put c else queue s l := fun l => setQueue_queue s k l _
    refine ⟨fun l => ?_, fun l i => ?_, fun l i hi => ?_⟩
    · rw [hq]
      split
      · exact AsyncQueue.sound_put (h.sound k) c
      · exact h.sound l
    · rw [hq]
      split
      · rename_i hl
        rw [AsyncQueue.put_waiting, hl]
        exact h.waiting k i
      · exact h.waiting l i
    · rw [hq] at hi
      split at hi
      · rename_i hl
        rw [AsyncQueue.put_leaving] at hi
        rw [hl]
        exact h.leaving k i hi
      · exact h.leaving l i hi

/-- A call is new to every queue. -/
theorem inv_accept {s t : Daemon} {i : CallId} {k : ListenerId} {timeout : Int} (h : Inv s)
    (hst : step s (.accept i k timeout) = some t) : Inv t := by
  simp only [step] at hst
  split at hst
  · rename_i hcall
    cases hst
    have hno := h.notMem hcall
    obtain ⟨r, -, he⟩ | he := handleAccept_cases s i k timeout
    · rw [he]
      refine ⟨h.sound, fun l j => ?_, fun l j hj => ?_⟩
      · rw [setCall_queue, setCall_call, h.waiting]
        split
        · rename_i hj
          rw [hj, hcall]
          simp
        · exact Iff.rfl
      · rw [setCall_queue] at hj
        rw [setCall_call, if_neg]
        · exact h.leaving l j hj
        · intro he
          exact hno l (List.mem_append_right _ (he ▸ hj))
    · rw [he]
      refine h.settled (AsyncQueue.sound_get (h.sound k) (hno k)) (fun j => ?_)
        (AsyncQueue.get_leaving _ i) (fun hl => hno k (List.mem_append_right _ hl))
        (fun l _ => hno l)
      rw [AsyncQueue.get_waiting]
      split
      · rename_i hj
        subst hj
        constructor
        · intro hor
          obtain hin | hor := hor
          · exact absurd (List.mem_append_left _ hin) (hno k)
          · exact hor.1
        · exact fun hn => .inr ⟨hn, rfl⟩
      · rename_i hj
        exact ⟨fun hor => hor.resolve_right fun he => hj he.2, .inl⟩
  · cases hst

theorem inv_timeout {s t : Daemon} {i : CallId} (h : Inv s)
    (hst : step s (.timeout i) = some t) : Inv t := by
  simp only [step] at hst
  split at hst
  · rename_i k hcall
    cases hst
    refine h.changed (AsyncQueue.sound_cancel (h.sound k) i) (fun j => ?_) (fun j hj => ?_)
      (fun l hl => h.notMem_other (.inl hcall) hl) (fun l _ => by simp)
    · rw [AsyncQueue.cancel_waiting (h.sound k)]
      split
      · rename_i hj
        simp [hj]
      · rename_i hj
        simp [hj]
    · split
      · rfl
      · rename_i hne
        exact (AsyncQueue.cancel_leaving _ i hj).resolve_right hne
  · cases hst

/-- A call that was woken takes its connection; one that was cancelled leaves the queue. -/
theorem inv_resume {s t : Daemon} {i : CallId} (h : Inv s)
    (hst : step s (.resume i) = some t) : Inv t := by
  simp only [step] at hst
  split at hst
  · rename_i k hcall
    split at hst
    · rename_i hw
      cases hst
      have hin : i ∉ (queue s k).leaving := by
        intro hl
        rw [h.leaving k i hl] at hcall
        cases hcall
      refine h.settled (AsyncQueue.sound_resume (h.sound k) hw) (fun j => ?_)
        (AsyncQueue.resume_leaving _ i) hin (fun l hl => h.notMem_other (.inl hcall) hl)
      rw [AsyncQueue.resume_waiting (h.sound k) hw]
      split
      · rename_i hj
        have hmem : j ∈ (queue s k).waiting := by
          rw [hj]
          exact List.mem_append_right _ hw
        simp [hj, hj ▸ hmem]
      · rename_i hj
        simp [hj]
    · cases hst
  · rename_i k hcall
    cases hst
    refine h.changed (AsyncQueue.sound_leave (h.sound k) i) (fun j => ?_) (fun j hj => ?_)
      (fun l hl => h.notMem_other (.inr hcall) hl) (fun l _ => by simp)
    · rw [AsyncQueue.leave_waiting]
      split
      · rename_i hj
        rw [hj, h.waiting, hcall]
        simp
      · exact Iff.rfl
    · obtain ⟨hj, hne⟩ := (AsyncQueue.leave_leaving (h.sound k) i).mp hj
      rw [if_neg hne]
      exact hj
  · cases hst

theorem inv_step {s t : Daemon} {lbl : Lbl} (h : Inv s) (hst : step s lbl = some t) : Inv t := by
  cases lbl with
  | runScheduled => exact inv_runScheduled h hst
  | accept i k timeout => exact inv_accept h hst
  | timeout i => exact inv_timeout h hst
  | resume i => exact inv_resume h hst
  | listen k =>
    simp only [step] at hst
    split at hst
    · cases hst
    · cases hst
      exact h.of_eq (fun _ => rfl) rfl
  | connectionMade k =>
    simp only [step] at hst
    split at hst
    · cases hst
      exact h.of_eq (fun _ => rfl) rfl
    · cases hst
  | connectionLost c =>
    simp only [step] at hst
    split at hst <;> cases hst <;> exact h.of_eq (fun _ => rfl) rfl
  | listenFailed k =>
    cases hst
    exact h.of_eq (setClosed_queue s k) rfl
  | closeListener k =>
    simp only [step] at hst
    split at hst
    · cases hst
      exact h.of_eq (setClosed_queue s k) rfl
    · cases hst
      exact h
  | wormholeClosed k =>
    simp only [step] at hst
    split at hst
    · cases hst
      refine h.of_eq (dropListener_queue s k) ?_
      unfold dropListener
      split <;> rfl
    · cases hst
  | closeConnection c =>
    cases hst
    exact h.of_eq (fun _ => rfl) rfl

/-! ## Ids -/

theorem mem_made {s : Daemon} {lbl : Lbl} {l : ListenerId} {c : ConnId} (h : c ∈ made l s lbl) :
    lbl = .connectionMade l ∧ c = s.nextConn := by
  cases lbl with
  | connectionMade k =>
    rw [made] at h
    split at h
    · rename_i hk
      exact ⟨by rw [hk.1], List.mem_singleton.mp h⟩
    · cases h
  | listen | connectionLost | runScheduled | accept | timeout | resume | listenFailed
  | closeListener | wormholeClosed | closeConnection => cases h

theorem step_nextConn {s t : Daemon} {lbl : Lbl} (hst : step s lbl = some t) :
    (t.nextConn = s.nextConn ∧ ∀ l, made l s lbl = []) ∨
      ∃ l, lbl = .connectionMade l ∧ t.nextConn = s.nextConn + 1 := by
  cases lbl with
  | listen k =>
    simp only [step] at hst
    split at hst <;> cases hst
    exact .inl ⟨rfl, fun _ => rfl⟩
  | connectionMade k =>
    simp only [step] at hst
    split at hst
    · cases hst
      exact .inr ⟨k, rfl, rfl⟩
    · cases hst
  | connectionLost c =>
    simp only [step] at hst
    split at hst <;> cases hst <;> exact .inl ⟨rfl, fun _ => rfl⟩
  | runScheduled =>
    simp only [step] at hst
    split at hst <;> cases hst
    exact .inl ⟨rfl, fun _ => rfl⟩
  | accept i k timeout =>
    simp only [step] at hst
    split at hst
    · cases hst
      obtain ⟨r, -, he⟩ | he := handleAccept_cases s i k timeout
      · exact .inl ⟨by rw [he]; rfl, fun _ => rfl⟩
      · exact .inl ⟨by rw [he, settle_nextConn], fun _ => rfl⟩
    · cases hst
  | timeout i =>
    simp only [step] at hst
    split at hst <;> cases hst
    exact .inl ⟨rfl, fun _ => rfl⟩
  | resume i =>
    simp only [step] at hst
    split at hst
    · split at hst
      · cases hst
        exact .inl ⟨settle_nextConn .., fun _ => rfl⟩
      · cases hst
    · cases hst
      exact .inl ⟨rfl, fun _ => rfl⟩
    · cases hst
  | listenFailed k =>
    cases hst
    exact .inl ⟨rfl, fun _ => rfl⟩
  | closeListener k =>
    simp only [step] at hst
    split at hst <;> cases hst <;> exact .inl ⟨rfl, fun _ => rfl⟩
  | wormholeClosed k =>
    simp only [step] at hst
    split at hst
    · cases hst
      refine .inl ⟨?_, fun _ => rfl⟩
      unfold dropListener
      split <;> rfl
    · cases hst
  | closeConnection c =>
    cases hst
    exact .inl ⟨rfl, fun _ => rfl⟩

/-- The connections made on a listener in a run. -/
def madeIn (l : ListenerId) (s : Daemon) (ls : List Lbl) : List ConnId :=
  LTS.gather step (made l) s ls

/-- The connections on it that calls were told of. -/
def acceptedIn (l : ListenerId) (s : Daemon) (ls : List Lbl) : List ConnId :=
  LTS.gather step (accepted l) s ls

theorem madeIn_cons {s t : Daemon} {lbl : Lbl} (hst : step s lbl = some t) (l : ListenerId)
    (ls : List Lbl) : madeIn l s (lbl :: ls) = made l s lbl ++ madeIn l t ls := by
  simp only [madeIn, LTS.gather, hst]

theorem madeIn_ge {s t : Daemon} {ls : List Lbl} (hr : lts.Run s ls t) (l : ListenerId) :
    ∀ c ∈ madeIn l s ls, s.nextConn ≤ c := by
  induction hr with
  | nil s => exact fun c hc => (by cases hc)
  | @cons s u t lbl ls hst _ ih =>
    intro c hc
    rw [madeIn_cons hst] at hc
    rcases List.mem_append.mp hc with hc | hc
    · exact Nat.le_of_eq (mem_made hc).2.symm
    · have hle := ih c hc
      obtain ⟨hn, -⟩ | ⟨k, -, hn⟩ := step_nextConn hst
      · exact Nat.le_trans (Nat.le_of_eq hn.symm) hle
      · exact Nat.le_trans (Nat.le_trans (Nat.le_succ _) (Nat.le_of_eq hn.symm)) hle

/-- No connection is made twice. -/
theorem madeIn_nodup {s t : Daemon} {ls : List Lbl} (hr : lts.Run s ls t) :
    (∀ l, (madeIn l s ls).Nodup) ∧
      ∀ l k c, c ∈ madeIn l s ls → c ∈ madeIn k s ls → l = k := by
  induction hr with
  | nil s => exact ⟨fun _ => List.nodup_nil, fun _ _ _ h => (by cases h)⟩
  | @cons s u t lbl ls hst hrest ih =>
    obtain ⟨hnodup, hone⟩ := ih
    obtain ⟨-, hnone⟩ | ⟨m, rfl, hn⟩ := step_nextConn hst
    · have hsame : ∀ l, madeIn l s (lbl :: ls) = madeIn l u ls := by
        intro l
        rw [madeIn_cons hst, hnone, List.nil_append]
      exact ⟨fun l => by rw [hsame]; exact hnodup l,
        fun l k c hl hk => hone l k c (by rwa [hsame] at hl) (by rwa [hsame] at hk)⟩
    · have hnew : ∀ l, s.nextConn ∉ madeIn l u ls := by
        intro l hc
        have hle := madeIn_ge hrest l _ hc
        rw [hn] at hle
        exact Nat.not_succ_le_self _ hle
      have hcases : ∀ l c, c ∈ madeIn l s (.connectionMade m :: ls) →
          (l = m ∧ c = s.nextConn) ∨ c ∈ madeIn l u ls := by
        intro l c hc
        rw [madeIn_cons hst] at hc
        rcases List.mem_append.mp hc with hc | hc
        · obtain ⟨he, hnext⟩ := mem_made hc
          cases he
          exact .inl ⟨rfl, hnext⟩
        · exact .inr hc
      refine ⟨fun l => ?_, fun l k c hl hk => ?_⟩
      · rw [madeIn_cons hst, List.nodup_append]
        refine ⟨?_, hnodup l, fun a ha b hb hab => ?_⟩
        · rw [made]
          split
          · exact List.nodup_singleton _
          · exact List.nodup_nil
        · rw [(mem_made ha).2] at hab
          exact hnew l (hab ▸ hb)
      · obtain ⟨hlm, hc⟩ | hl' := hcases l c hl
        · obtain ⟨hkm, -⟩ | hk' := hcases k c hk
          · rw [hlm, hkm]
          · exact absurd (hc ▸ hk') (hnew k)
        · obtain ⟨-, hc⟩ | hk' := hcases k c hk
          · exact absurd (hc ▸ hl') (hnew l)
          · exact hone l k c hl' hk'

/-! ## Runs -/

theorem unclaimed_run {ls : List Lbl} {t : Daemon} (hr : lts.Run .init ls t) (l : ListenerId) :
    madeIn l .init ls = acceptedIn l .init ls ++ unclaimed l t := by
  have hstep : ∀ s k s', True → step s k = some s' → True →
      unclaimed l s ++ made l s k = accepted l s k ++ unclaimed l s' :=
    fun _ _ _ _ hst _ => step_flow hst l
  exact LTS.Run.fifo (P := fun _ => True) (C := fun _ _ => True) (fun _ _ _ _ _ _ => trivial) hstep
    hr.restrict_true trivial

/-- **Headline.** On every listener, whatever happens on the others and whichever calls time out or
listeners close, the calls are told of the connections in the order they were made; those no call
was told of are in the queue or on their way to it; and no connection is told of twice. -/
theorem accepted_in_order (ls : List Lbl) (t : Daemon) (hr : lts.Run .init ls t) :
    (∀ l, madeIn l .init ls = acceptedIn l .init ls ++ unclaimed l t) ∧
      (∀ l, (acceptedIn l .init ls).Nodup) ∧
      ∀ l k c, c ∈ acceptedIn l .init ls → c ∈ acceptedIn k .init ls → l = k := by
  obtain ⟨hnodup, hone⟩ := madeIn_nodup hr
  have hflow := unclaimed_run hr
  refine ⟨hflow, fun l => ?_, fun l k c hl hk => hone l k c ?_ ?_⟩
  · have hn := hnodup l
    rw [hflow l, List.nodup_append] at hn
    exact hn.1
  · rw [hflow l]
    exact List.mem_append_left _ hl
  · rw [hflow k]
    exact List.mem_append_left _ hk

/-! ## A wake-up handed on -/

/-- Two calls wait, a connection wakes the first one, whose time is up before it runs; a third call
comes after it. -/
def handover : List Lbl :=
  [.listen 0, .accept 0 0 30, .accept 1 0 30, .connectionMade 0, .runScheduled, .timeout 0,
    .resume 0, .resume 1, .accept 2 0 30]

def handedOver : Daemon := LTS.after step .init handover

theorem handover_run : lts.Run .init handover handedOver := LTS.run_of_exec (LTS.exec_after rfl)

theorem accepted_handover : handedOver.call 1 = some (.answered (connected 0)) ∧
    madeIn 0 .init handover = acceptedIn 0 .init handover ++ unclaimed 0 handedOver :=
  ⟨rfl, (accepted_in_order handover handedOver handover_run).1 0⟩

/-! ## Waking up -/

/-- No callback and no call is left to run. -/
def Quiet (s : Daemon) : Prop := s.scheduled = [] ∧ ∀ i, step s (.resume i) = none

theorem inv_run {ls : List Lbl} {t : Daemon} (hr : lts.Run .init ls t) : Inv t :=
  hr.invariant (I := Inv) (fun _ _ _ hs hst => inv_step hs hst) inv_init

theorem quiet_queue {s : Daemon} (h : Inv s) (hq : Quiet s) (l : ListenerId) :
    (queue s l).woken = [] ∧ (queue s l).leaving = [] := by
  constructor
  · refine List.eq_nil_iff_forall_not_mem.mpr fun i hi => ?_
    have hcall := (h.waiting l i).mp (List.mem_append_right _ hi)
    have hnone := hq.2 i
    simp only [step, hcall, hi, if_true] at hnone
    cases hnone
  · refine List.eq_nil_iff_forall_not_mem.mpr fun i hi => ?_
    have hnone := hq.2 i
    simp only [step, h.leaving l i hi] at hnone
    cases hnone

/-- **Headline.** No wake-up is lost: when nothing is left to run and some call still waits on a
listener, the calls were told of every connection that was made on it. -/
theorem none_left_waiting (ls : List Lbl) (t : Daemon) (hr : lts.Run .init ls t) (hq : Quiet t)
    (i : CallId) (l : ListenerId) (hi : t.call i = some (.waiting l)) :
    acceptedIn l .init ls = madeIn l .init ls := by
  have hinv := inv_run hr
  obtain ⟨hwoken, hleaving⟩ := quiet_queue hinv hq l
  have hmem := (hinv.waiting l i).mpr hi
  rw [AsyncQueue.waiting, hwoken, List.append_nil] at hmem
  have hle := (hinv.sound l).awake (List.ne_nil_of_mem hmem)
  rw [hwoken, hleaving] at hle
  have hitems : (queue t l).items = [] := List.length_eq_zero_iff.mp (Nat.le_zero.mp hle)
  rw [unclaimed_run hr l, unclaimed, hitems, hq.1]
  exact (List.append_nil _).symm

theorem quiet_handover : Quiet handedOver := by
  refine ⟨rfl, fun i => ?_⟩
  match i with
  | 0 | 1 | 2 => rfl
  | i + 3 =>
    have hnone : handedOver.call (i + 3) = none := by
      rfl
    simp only [step, hnone]

theorem none_left_handover : acceptedIn 0 .init handover = madeIn 0 .init handover :=
  none_left_waiting handover handedOver handover_run quiet_handover 2 0 rfl

end Wormhole.L5.DaemonAccepts
