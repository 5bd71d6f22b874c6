import Wormhole.L5Concurrency.TransitMatched

/-!
# Who is handed out as a peer

`step` is the relay while it serves. Here it may also be stopped, and a
handler may be cancelled, at any moment; `relayStep` adds to the steps of
`step`:

* `stop`: `_running` becomes false and the cleanup task is cancelled; from then
  on a wait ends where it tests `_running`. `sweepCancelled`: the cleanup
  releases the lock it held. `clear`: the last critical section of `stop`;
* `cancel`: `CancelledError` is raised where the handler waits. In the wait
  for a peer the `except` clause then asks for the lock (`cancelled`), and
  `abandon` is what it does under it.

`handouts` are the pairs of a run: a handler and the connection that its
`_find_or_wait_peer` returned. Along every run no connection is handed out
twice, none that was handed out was given a peer, and both sent the token they
were matched by (`handed_out_once`).
-/
namespace Wormhole.L5.Transit
open Wormhole.L1

/-! ## Stopping and cancelling -/

/-- `token` holds the local variable of every `_handle_client`. -/
structure Relay where
  st : St
  running : Bool
  cancelled : ConnId → Bool
  token : ConnId → Option String

inductive Event
  | go (l : Lbl)
  | stop
  | sweepCancelled
  | clear
  | cancel (i : ConnId)
  | abandon (i : ConnId)
  deriving DecidableEq, Repr

def Relay.init : Relay := ⟨Transit.init, true, fun _ => false, fun _ => none⟩

/-- A cancelled task makes no step of its own any more. -/
def blocked (r : Relay) : Lbl → Bool
  | .sweepWake => !r.running
  | .sweepEnter => !r.running
  | .sweepDrained _ => !r.running
  | l => (l.subject.map r.cancelled).getD false

/-- `token = handshake[13:]`.
mirrors src/wh/relay/transit.py:136-143 -/
def learnToken (token : ConnId → Option String) : Lbl → ConnId → Option String
  | .line i (.line bs), j =>
    match parseHandshake bs with
    | .token t => if j = i then some t else token j
    | _ => token j
  | _, j => token j

/-- The test of `while self._running`, which comes before each sleep.
mirrors src/wh/relay/transit.py:202,225 -/
def whileRunning (running : Bool) (i : ConnId) (s : St) : St :=
  match running, (s.conn i).task with
  | false, .sleep _ _ _ => finish s i
  | _, _ => s

def afterStep (running : Bool) (s : St) : Lbl → St
  | .enter i => whileRunning running i s
  | .poll i => whileRunning running i s
  | _ => s

def Relay.go (c : Cfg) (r : Relay) (l : Lbl) : Option Relay :=
  if blocked r l then none
  else (step c r.st l).map fun s =>
    { r with st := afterStep r.running s l, token := learnToken r.token l }

def setFlag (f : ConnId → Bool) (i : ConnId) (b : Bool) : ConnId → Bool :=
  fun j => if j = i then b else f j

/-- `CancelledError` in the handler of `i`.
mirrors src/wh/relay/transit.py:158-168,186-190,220-223,250-255 -/
def Relay.cancel (r : Relay) (i : ConnId) : Option Relay :=
  if r.cancelled i then
    -- a second time, while the `except` clause waits for the lock
    some { r with st := finish r.st i, cancelled := setFlag r.cancelled i false }
  else match (r.st.conn i).task with
    | .fresh => none
    | .done => none
    | .handshake _ => some { r with st := finish r.st i }
    | .rejected => some { r with st := finish r.st i }
    | .enter _ => some { r with st := finish r.st i }
    | .okSelf _ _ => some { r with st := { finish r.st i with lock := none } }
    | .okPeer _ _ => some { r with st := { finish r.st i with lock := none } }
    | .sleep _ _ _ => some { r with cancelled := setFlag r.cancelled i true }
    | .poll _ _ => some { r with cancelled := setFlag r.cancelled i true }
    | .expire _ => some { r with cancelled := setFlag r.cancelled i true }
    | .expired => some { r with cancelled := setFlag r.cancelled i true }
    | .relay peer _ _ => some { r with st := finish (r.st.upd peer .close) i }
    | .closing => some { r with st := r.st.upd i (.goto .done) }

/-- The critical section of the `except` clause.
mirrors src/wh/relay/transit.py:220-223 -/
def Relay.abandon (r : Relay) (i : ConnId) : Option Relay :=
  match r.cancelled i, r.st.lock, r.token i with
  | true, none, some token =>
    some { r with
      st := finish { r.st with pending := r.st.pending.del token } i
      cancelled := setFlag r.cancelled i false }
  | _, _, _ => none

/-- mirrors src/wh/relay/transit.py:93-97 -/
def closePending (s : St) : St :=
  { s with
    conn := fun j =>
      if s.pending.entries.any fun e => e.2.conn = j then (s.conn j).close else s.conn j
    pending := .empty }

/-- mirrors src/wh/relay/transit.py:76-97,110-290 -/
def relayStep (c : Cfg) (r : Relay) : Event → Option Relay
  | .go l => r.go c l
  | .stop => if r.running then some { r with running := false } else none
  | .sweepCancelled =>
    match r.running, r.st.sweep with
    | false, .draining _ _ => some { r with st := { r.st with lock := none, sweep := .sleeping 0 } }
    | _, _ => none
  | .clear =>
    match r.running, r.st.lock with
    | false, none => some { r with st := closePending r.st }
    | _, _ => none
  | .cancel i => r.cancel i
  | .abandon i => r.abandon i

def relayLts (c : Cfg) : LTS Relay Event := .ofStep (· = Relay.init) (relayStep c)

/-! ## Handing out -/

/-- `return (peer.reader, peer.writer)`: the handler and the connection it is given.
mirrors src/wh/relay/transit.py:192 -/
def handout (r : Relay) : Event → List (ConnId × ConnId)
  | .go (.drained i true) =>
    match (r.st.conn i).task with
    | .okPeer _ p => [(i, p)]
    | _ => []
  | _ => []

/-- The pairs of a run from the start, in order. -/
def handouts (c : Cfg) (es : List Event) : List (ConnId × ConnId) :=
  LTS.gather (relayStep c) handout Relay.init es

/-- The token and the peer that a handler holds between the two `ok`s. -/
def Task.takes : Task → Option (String × ConnId)
  | .okSelf token p => some (token, p)
  | .okPeer token p => some (token, p)
  | _ => none

/-- The handshake line is still to come. -/
def Task.arriving : Task → Bool
  | .fresh => true
  | .handshake _ => true
  | _ => false

/-- Where a connection is that is, or was, to be someone's peer. -/
inductive Place
  | entry (token : String)
  | taker (i : ConnId)
  | handedOut
  deriving DecidableEq, Repr

def At (r : Relay) (hs : List (ConnId × ConnId)) : Place → ConnId → Prop
  | .entry token, p => ∃ e, r.st.pending.get? token = some e ∧ e.conn = p
  | .taker i, p => ∃ token, (r.st.conn i).task.takes = some (token, p)
  | .handedOut, p => p ∈ hs.map Prod.snd

/-- A connection is in one place at most, and never takes a peer afterwards. -/
structure Paired (r : Relay) (hs : List (ConnId × ConnId)) : Prop where
  uniq : ∀ a b p, At r hs a p → At r hs b p → a = b
  offered : ∀ a p, At r hs a p → (r.st.conn p).task.past = true ∧ p ∉ hs.map Prod.fst
  served : ∀ i ∈ hs.map Prod.fst,
    (r.st.conn i).task.early = false ∧ (r.st.conn i).task.takes = none
  nodup : (hs.map Prod.snd).Nodup

/-- Who is matched by a token sent it. -/
structure SameToken (r : Relay) (hs : List (ConnId × ConnId)) : Prop where
  unasked : ∀ i, (r.st.conn i).task.arriving = true → r.token i = none
  asked : ∀ i token, (r.st.conn i).task = .enter token → r.token i = some token
  entry : ∀ token e, r.st.pending.get? token = some e → r.token e.conn = some token
  taker : ∀ i token p, (r.st.conn i).task.takes = some (token, p) →
    r.token i = some token ∧ r.token p = some token
  handed : ∀ h ∈ hs, ∃ token, r.token h.1 = some token ∧ r.token h.2 = some token

/-! ## Steps that offer nothing -/

/-- What becomes of the task of one handler that neither registers nor matches. -/
structure Onward (t t' : Task) : Prop where
  takes : ∀ x, t'.takes = some x → t.takes = some x
  past : t.past = true → t'.past = true
  early : t'.early = true → t.early = true
  enter : ∀ token, t' = .enter token → t = .enter token
  arriving : t'.arriving = true → t.arriving = true

theorem Onward.refl (t : Task) : Onward t t :=
  ⟨fun _ h => h, fun h => h, fun h => h, fun _ h => h, fun h => h⟩

/-- A task that is past everything, or never registers at all. -/
theorem Onward.of_settled {t t' : Task} (ht : t'.takes = none) (he : t'.early = false)
    (hp : t.past = true → t'.past = true) : Onward t t' := by
  refine ⟨fun x hx => ?_, hp, fun h => ?_, fun token h => ?_, fun h => ?_⟩
  · rw [ht] at hx; cases hx
  · rw [he] at h; cases h
  · rw [h] at he; cases he
  · cases t' <;> simp_all [Task.arriving, Task.early]

/-- No entry is added, and every handler goes on or ends. -/
structure Calm (r r' : Relay) : Prop where
  entries : ∀ token e, r'.st.pending.get? token = some e → r.st.pending.get? token = some e
  tasks : ∀ i, Onward (r.st.conn i).task (r'.st.conn i).task
  token : r'.token = r.token

/-- Offers only disappear, and nobody who was served comes back. -/
theorem Paired.mono {r r' : Relay} {hs : List (ConnId × ConnId)} (h : Paired r hs)
    (hat : ∀ a p, At r' hs a p → At r hs a p)
    (hpast : ∀ i, (r.st.conn i).task.past = true → (r'.st.conn i).task.past = true)
    (hearly : ∀ i, (r'.st.conn i).task.early = true → (r.st.conn i).task.early = true)
    (htakes : ∀ i x, (r'.st.conn i).task.takes = some x → (r.st.conn i).task.takes = some x) :
    Paired r' hs := by
  refine ⟨fun a b p ha hb => h.uniq a b p (hat a p ha) (hat b p hb), fun a p ha => ?_,
    fun i hi => ?_, h.nodup⟩
  · obtain ⟨hp, hf⟩ := h.offered a p (hat a p ha)
    exact ⟨hpast p hp, hf⟩
  · obtain ⟨he, ht⟩ := h.served i hi
    refine ⟨?_, ?_⟩
    · cases he' : (r'.st.conn i).task.early with
      | false => rfl
      | true => rw [hearly i he'] at he; cases he
    · cases ht' : (r'.st.conn i).task.takes with
      | none => rfl
      | some x => rw [htakes i x ht'] at ht; cases ht

theorem at_mono {r r' : Relay} {hs : List (ConnId × ConnId)}
    (he : ∀ token e, r'.st.pending.get? token = some e → r.st.pending.get? token = some e)
    (ht : ∀ i x, (r'.st.conn i).task.takes = some x → (r.st.conn i).task.takes = some x)
    (a : Place) (p : ConnId) (ha : At r' hs a p) : At r hs a p := by
  cases a with
  | entry token => obtain ⟨e, hg, hp⟩ := ha; exact ⟨e, he token e hg, hp⟩
  | taker i => obtain ⟨token, htk⟩ := ha; exact ⟨token, ht i _ htk⟩
  | handedOut => exact ha

theorem Calm.at {r r' : Relay} (h : Calm r r') {hs : List (ConnId × ConnId)} {a : Place}
    {p : ConnId} (ha : At r' hs a p) : At r hs a p :=
  at_mono h.entries (fun i => (h.tasks i).takes) a p ha

theorem Calm.keeps_paired {r r' : Relay} (h : Calm r r') {hs : List (ConnId × ConnId)}
    (hp : Paired r hs) : Paired r' hs :=
  hp.mono (fun _ _ => h.at) (fun i => (h.tasks i).past) (fun i => (h.tasks i).early)
    fun i => (h.tasks i).takes

theorem Calm.sameToken {r r' : Relay} (h : Calm r r') {hs : List (ConnId × ConnId)}
    (hp : SameToken r hs) : SameToken r' hs := by
  refine ⟨fun i hi => ?_, fun i token hi => ?_, fun token e he => ?_, fun i token p hi => ?_, ?_⟩
  · rw [h.token]; exact hp.unasked i ((h.tasks i).arriving hi)
  · rw [h.token]; exact hp.asked i token ((h.tasks i).enter token hi)
  · rw [h.token]; exact hp.entry token e (h.entries token e he)
  · rw [h.token]; exact hp.taker i token p ((h.tasks i).takes _ hi)
  · rw [h.token]; exact hp.handed

/-- One handler goes on, and no entry is added. -/
theorem calm_one {r r' : Relay} {i : ConnId} {t : Task}
    (ht : ∀ j, (r'.st.conn j).task = if j = i then t else (r.st.conn j).task)
    (ho : Onward (r.st.conn i).task t)
    (he : ∀ token e, r'.st.pending.get? token = some e → r.st.pending.get? token = some e)
    (hk : r'.token = r.token) : Calm r r' := by
  refine ⟨he, fun j => ?_, hk⟩
  rw [ht]
  split
  · rename_i e; rw [e]; exact ho
  · exact .refl _

theorem finish_task (s : St) (i j : ConnId) :
    ((finish s i).conn j).task = if j = i then .closing else (s.conn j).task := by
  simp only [finish, upd_conn]
  split <;> rfl

theorem onward_closing (t : Task) : Onward t .closing := .of_settled rfl rfl fun _ => rfl

/-! ## What a step can do -/

/-- What a step means for the pairing, and whom it hands out. -/
inductive Progress (r r' : Relay) : List (ConnId × ConnId) → Prop
  | calm (h : Calm r r') : Progress r r' []
  | ask (i since token) (ht : (r.st.conn i).task = .handshake since)
      (hs : r'.st = r.st.upd i (.goto (.enter token)))
      (hk : r'.token = fun j => if j = i then some token else r.token j) : Progress r r' []
  | take (i token e) (ht : (r.st.conn i).task = .enter token)
      (he : r.st.pending.get? token = some e) (hp : r'.st.pending = r.st.pending.del token)
      (hs : ∀ j, (r'.st.conn j).task =
        if j = i then .okSelf token e.conn else (r.st.conn j).task)
      (hk : r'.token = r.token) : Progress r r' []
  | register (i token start wake) (ht : (r.st.conn i).task = .enter token)
      (hp : r'.st.pending = r.st.pending.set token ⟨i, token, r.st.now⟩)
      (hs : ∀ j, (r'.st.conn j).task =
        if j = i then .sleep token start wake else (r.st.conn j).task)
      (hk : r'.token = r.token) : Progress r r' []
  | hand (i token p) (ht : (r.st.conn i).task = .okPeer token p) (h : Calm r r')
      (hn : (r'.st.conn i).task.takes = none) : Progress r r' [(i, p)]

theorem setDir_settled (p : ConnId) (f b : Dir) (fwd : Bool) (d : Dir) :
    (setDir p f b fwd d).takes = none ∧ (setDir p f b fwd d).early = false := by
  cases fwd <;> exact ⟨rfl, rfl⟩

theorem pending_sweepNext {s : St} {rest : List String} : ∀ token e,
    (sweepNext s rest).pending.get? token = some e → s.pending.get? token = some e := by
  intro token e he
  rcases sweepNext_cases s rest with hs | ⟨t, en, rest', -, -, hs⟩
  · rw [hs] at he; exact he
  · rw [hs] at he; exact pending_del token e he

/-- The handshake line. -/
theorem line_progress {c : Cfg} {r : Relay} {i : ConnId} {rd : Read} {s' : St}
    (h : step c r.st (.line i rd) = some s') :
    Progress r { r with st := s', token := learnToken r.token (.line i rd) } [] := by
  have settle : ∀ {t : Task} {since : Nat} {s1 : St} {tok : ConnId → Option String},
      (r.st.conn i).task = .handshake since → t.takes = none → t.early = false →
      s1.pending = r.st.pending →
      (∀ j, (s1.conn j).task = if j = i then t else (r.st.conn j).task) → tok = r.token →
      Progress r { r with st := s1, token := tok } [] := by
    intro t since s1 tok ht h1 h2 hp hs hk
    refine .calm (calm_one hs (.of_settled h1 h2 fun hq => ?_) (fun _ _ he => by rwa [hp] at he) hk)
    rw [ht] at hq
    cases hq
  simp only [step] at h
  split at h
  · rename_i since ht
    split at h
    · cases h
      exact settle ht rfl rfl rfl (fun j => finish_task r.st i j) rfl
    · cases h
  · rename_i since ht
    cases h
    exact settle ht rfl rfl rfl (fun j => finish_task r.st i j) rfl
  · rename_i since bs ht
    split at h
    · rename_i hb; cases h
      exact settle ht rfl rfl rfl (fun j => finish_task r.st i j)
        (by funext j; simp only [learnToken, hb])
    · rename_i hb; cases h
      exact settle ht rfl rfl rfl (fun j => finish_task r.st i j)
        (by funext j; simp only [learnToken, hb])
    · rename_i hb; cases h
      exact settle ht rfl rfl rfl (fun j => task_upd_goto r.st i j _ .rejected fun _ => rfl)
        (by funext j; simp only [learnToken, hb])
    · rename_i hb; cases h
      exact settle ht rfl rfl rfl (fun j => task_upd_goto r.st i j _ .rejected fun _ => rfl)
        (by funext j; simp only [learnToken, hb])
    · rename_i token hb; cases h
      refine .ask i since token ht rfl ?_
      funext j
      simp only [learnToken, hb]
  · cases h

theorem learnToken_eq (token : ConnId → Option String) {l : Lbl}
    (hl : ∀ i bs, l ≠ .line i bs) : learnToken token l = token := by
  cases l with
  | line i bs => exact absurd rfl (hl i bs)
  | _ => rfl

/-- The other steps of the serving relay. -/
theorem step_progress {c : Cfg} {r : Relay} {l : Lbl} {s' : St} (h : step c r.st l = some s') :
    Progress r { r with st := s', token := learnToken r.token l } (handout r (.go l)) := by
  by_cases hline : ∃ i rd, l = .line i rd
  · obtain ⟨i, rd, rfl⟩ := hline
    exact line_progress h
  have hk : learnToken r.token l = r.token :=
    learnToken_eq r.token fun i bs e => hline ⟨i, bs, e⟩
  rw [hk]
  have on : ∀ {i : ConnId} {t : Task} {s1 : St}, Onward (r.st.conn i).task t →
      (∀ j, (s1.conn j).task = if j = i then t else (r.st.conn j).task) →
      (∀ token e, s1.pending.get? token = some e → r.st.pending.get? token = some e) →
      Calm r { r with st := s1, token := r.token } :=
    fun ho ht he => calm_one ht ho he rfl
  have still : ∀ {s1 : St}, (∀ j, (s1.conn j).task = (r.st.conn j).task) →
      (∀ token e, s1.pending.get? token = some e → r.st.pending.get? token = some e) →
      Calm r { r with st := s1, token := r.token } :=
    fun ht he => ⟨he, fun j => by rw [ht]; exact .refl _, rfl⟩
  cases step_move h with
  | tick d => exact .calm (still (fun _ => rfl) fun _ _ he => he)
  | accept i ht =>
    refine .calm (on (i := i) (t := .handshake r.st.now) ?_
      (fun j => task_upd_goto r.st i j _ _ fun _ => rfl) fun _ _ he => he)
    rw [ht]
    exact ⟨fun _ hx => (by cases hx), fun hx => (by cases hx), fun _ => rfl,
      fun _ hx => (by cases hx), fun _ => rfl⟩
  | hello i rd since token ht => exact absurd ⟨i, rd, rfl⟩ hline
  | reject i rd since w ht hw => exact absurd ⟨i, rd, rfl⟩ hline
  | hangup i rd since ht => exact absurd ⟨i, rd, rfl⟩ hline
  | takePeer i token e ht hl he =>
    exact .take i token e ht he rfl (fun j => by simp only [upd_conn]; split <;> rfl) rfl
  | insertSelf i token ht hl he =>
    exact .register i token _ _ ht rfl (fun j => by simp only [upd_conn]; split <;> rfl) rfl
  | wake i token start w ht =>
    exact .calm (on (.of_settled rfl rfl fun _ => rfl)
      (fun j => task_upd_goto r.st i j _ _ fun _ => rfl) fun _ _ he => he)
  | leaveMatched i token start ht he =>
    exact .calm (on (onward_closing _) (finish_task r.st i) fun _ _ he => he)
  | pollOn i token start e t ht he hn =>
    have hs : t.takes = none ∧ t.early = false ∧ t.past = true := by
      rcases hn with rfl | rfl <;> exact ⟨rfl, rfl, rfl⟩
    exact .calm (on (.of_settled hs.1 hs.2.1 fun _ => hs.2.2)
      (fun j => task_upd_goto r.st i j _ _ fun _ => rfl) fun _ _ he => he)
  | expire i token ht hl =>
    exact .calm (on (i := i) (t := .expired) (.of_settled rfl rfl fun _ => rfl)
      (fun j => by simp only [upd_conn]; split <;> rfl) pending_del)
  | lastDrain i ok ht =>
    have hn : handout r (.go (.drained i ok)) = [] := by
      cases ok with
      | false => rfl
      | true => rcases ht with ht | ht <;> simp only [handout, ht]
    rw [hn]
    exact .calm (on (onward_closing _) (finish_task r.st i) fun _ _ he => he)
  | okSelf i token p ht =>
    simp only [handout, ht]
    refine .calm (on (i := i) (t := .okPeer token p) ?_
      (fun j => task_upd_upd r.st i j p _ _ fun _ => rfl) fun _ _ he => he)
    rw [ht]
    exact ⟨fun _ hx => hx, fun hx => (by cases hx), fun hx => (by cases hx),
      fun _ hx => (by cases hx), fun hx => (by cases hx)⟩
  | okPeer i token p ht =>
    simp only [handout, ht]
    refine .hand i token p ht (on (t := .relay p .reading .reading)
      (.of_settled rfl rfl fun hx => ?_) (fun j => task_upd_goto r.st i j _ _ fun _ => rfl)
      fun _ _ he => he) ?_
    · rw [ht] at hx; cases hx
    · simp only [upd_conn, if_true, goto_task, Task.takes]
  | okFails i token p ht =>
    exact .calm (on (onward_closing _) (finish_task r.st i) fun _ _ he => he)
  | relayWrite i fwd e p f b bs ht hd =>
    have hs := setDir_settled p f b fwd .draining
    exact .calm (on (.of_settled hs.1 hs.2 fun hx => by rw [ht] at hx; cases hx)
      (fun j => task_upd_upd r.st i j _ _ _ fun _ => rfl) fun _ _ he => he)
  | relayOn i fwd e p f b ht hd =>
    have hs := setDir_settled p f b fwd .reading
    exact .calm (on (.of_settled hs.1 hs.2 fun hx => by rw [ht] at hx; cases hx)
      (fun j => task_upd_goto r.st i j _ _ fun _ => rfl) fun _ _ he => he)
  | relayEnd i fwd e p f b ht hd he =>
    have hs := setDir_settled p f b fwd .ended
    exact .calm (on (.of_settled hs.1 hs.2 fun hx => by rw [ht] at hx; cases hx)
      (fun j => task_upd_upd r.st i j _ _ _ fun _ => rfl) fun _ _ he => he)
  | gathered i p ht =>
    exact .calm (on (onward_closing _) (finish_task r.st i) fun _ _ he => he)
  | closed i ht =>
    exact .calm (on (t := .done) (.of_settled rfl rfl fun _ => rfl)
      (fun j => task_upd_goto r.st i j _ _ fun _ => rfl) fun _ _ he => he)
  | sweepWake w hs => exact .calm (still (fun _ => rfl) fun _ _ he => he)
  | sweepEnter now hs hl =>
    exact .calm (still (sweepNext_task r.st _) pending_sweepNext)
  | sweepDrained q rest ok hs =>
    refine .calm (still (fun j => ?_) fun token e he => ?_)
    · rw [sweepNext_task]
      cases ok with
      | false => rfl
      | true => rw [if_pos rfl, upd_conn]; split <;> rfl
    · have := pending_sweepNext token e he
      cases ok <;> exact this

theorem whileRunning_calm (r : Relay) (b : Bool) (i : ConnId) :
    Calm r { r with st := whileRunning b i r.st } := by
  unfold whileRunning
  split
  · exact calm_one (finish_task r.st i) (onward_closing _) (fun _ _ he => he) rfl
  · exact ⟨fun _ _ he => he, fun _ => .refl _, rfl⟩

theorem afterStep_calm (r : Relay) (b : Bool) (l : Lbl) :
    Calm r { r with st := afterStep b r.st l } := by
  cases l with
  | enter i => exact whileRunning_calm r b i
  | poll i => exact whileRunning_calm r b i
  | _ => exact ⟨fun _ _ he => he, fun _ => .refl _, rfl⟩

/-- A step that leaves the tokens, ends the handler of `i` and adds no entry. -/
theorem finish_calm {r r' : Relay} {i : ConnId}
    (hs : ∀ j, (r'.st.conn j).task = if j = i then .closing else (r.st.conn j).task)
    (he : ∀ token e, r'.st.pending.get? token = some e → r.st.pending.get? token = some e)
    (hk : r'.token = r.token) : Calm r r' :=
  calm_one hs (onward_closing _) he hk

theorem cancel_calm {r r' : Relay} {i : ConnId} (h : r.cancel i = some r') : Calm r r' := by
  unfold Relay.cancel at h
  split at h
  · cases h
    exact finish_calm (finish_task r.st i) (fun _ _ he => he) rfl
  · split at h
    · cases h
    · cases h
    · cases h; exact finish_calm (finish_task r.st i) (fun _ _ he => he) rfl
    · cases h; exact finish_calm (finish_task r.st i) (fun _ _ he => he) rfl
    · cases h; exact finish_calm (finish_task r.st i) (fun _ _ he => he) rfl
    · cases h; exact finish_calm (finish_task r.st i) (fun _ _ he => he) rfl
    · cases h; exact finish_calm (finish_task r.st i) (fun _ _ he => he) rfl
    · cases h; exact ⟨fun _ _ he => he, fun _ => .refl _, rfl⟩
    · cases h; exact ⟨fun _ _ he => he, fun _ => .refl _, rfl⟩
    · cases h; exact ⟨fun _ _ he => he, fun _ => .refl _, rfl⟩
    · cases h; exact ⟨fun _ _ he => he, fun _ => .refl _, rfl⟩
    · rename_i p _ _ _
      cases h
      refine finish_calm (i := i) (fun j => ?_) (fun _ _ he => he) rfl
      rw [finish_task, upd_conn]
      split
      · rfl
      · split <;> rfl
    · cases h
      exact calm_one (t := .done) (fun j => task_upd_goto r.st i j _ _ fun _ => rfl)
        (.of_settled rfl rfl fun _ => rfl) (fun _ _ he => he) rfl

theorem abandon_calm {r r' : Relay} {i : ConnId} (h : r.abandon i = some r') : Calm r r' := by
  unfold Relay.abandon at h
  split at h
  · cases h
    exact finish_calm (finish_task _ i) pending_del rfl
  · cases h

theorem closePending_task (s : St) (j : ConnId) :
    ((closePending s).conn j).task = (s.conn j).task := by
  simp only [closePending]
  split <;> rfl

/-- Every step, and what it hands out. -/
theorem relayStep_progress {c : Cfg} {r r' : Relay} {e : Event} (h : relayStep c r e = some r') :
    ∃ r1, Progress r r1 (handout r e) ∧ Calm r1 r' := by
  have quiet : Calm r r' → handout r e = [] → ∃ r1, Progress r r1 (handout r e) ∧ Calm r1 r' :=
    fun hc hn => ⟨r', by rw [hn]; exact .calm hc, fun _ _ he => he, fun _ => .refl _, rfl⟩
  cases e with
  | go l =>
    simp only [relayStep, Relay.go] at h
    split at h
    · cases h
    · rw [Option.map_eq_some_iff] at h
      obtain ⟨s, hs, rfl⟩ := h
      exact ⟨_, step_progress hs,
        afterStep_calm { r with st := s, token := learnToken r.token l } _ l⟩
  | stop =>
    simp only [relayStep] at h
    split at h
    · cases h
      exact quiet ⟨fun _ _ he => he, fun _ => .refl _, rfl⟩ rfl
    · cases h
  | sweepCancelled =>
    simp only [relayStep] at h
    split at h
    · cases h
      exact quiet ⟨fun _ _ he => he, fun _ => .refl _, rfl⟩ rfl
    · cases h
  | clear =>
    simp only [relayStep] at h
    split at h
    · cases h
      refine quiet ⟨fun _ _ he => ?_, fun j => ?_, rfl⟩ rfl
      · simp [closePending] at he
      · rw [closePending_task]; exact .refl _
    · cases h
  | cancel i => exact quiet (cancel_calm h) rfl
  | abandon i => exact quiet (abandon_calm h) rfl

/-! ## The two invariants -/

theorem paired_init : Paired Relay.init [] := by
  have hno : ∀ a p, ¬ At Relay.init [] a p := by
    intro a p h
    cases a with
    | entry token => obtain ⟨e, he, -⟩ := h; cases he
    | taker i => obtain ⟨token, ht⟩ := h; cases ht
    | handedOut => cases h
  exact ⟨fun a b p ha => absurd ha (hno a p), fun a p ha => absurd ha (hno a p),
    fun i hi => (by cases hi), List.nodup_nil⟩

/-- A connection that has not registered is nowhere. -/
theorem Paired.not_at {r : Relay} {hs : List (ConnId × ConnId)} (h : Paired r hs) {p : ConnId}
    (hp : (r.st.conn p).task.past = false) (a : Place) : ¬ At r hs a p := by
  intro ha
  rw [(h.offered a p ha).1] at hp
  cases hp

/-- The handler of `i` takes the entry of its token. -/
theorem Paired.take {r r' : Relay} {hs : List (ConnId × ConnId)} (h : Paired r hs) {i : ConnId}
    {token : String} {e : PendingConnection} (ht : (r.st.conn i).task = .enter token)
    (he : r.st.pending.get? token = some e) (hp : r'.st.pending = r.st.pending.del token)
    (hst : ∀ j, (r'.st.conn j).task = if j = i then .okSelf token e.conn else (r.st.conn j).task) :
    Paired r' hs := by
  have hat : At r hs (.entry token) e.conn := ⟨e, he, rfl⟩
  have hne : e.conn ≠ i := by
    intro hi
    have := (h.offered _ _ hat).1
    rw [hi, ht] at this
    cases this
  -- the connection leaves the entry and is with the taker; the others stay
  have key : ∀ a p, At r' hs a p →
      (a = .taker i ∧ p = e.conn) ∨ (At r hs a p ∧ p ≠ e.conn) := by
    intro a p ha
    cases a with
    | entry t =>
      obtain ⟨e', he', hp'⟩ := ha
      rw [hp, Dict.get?_del] at he'
      split at he'
      · cases he'
      · rename_i hne'
        refine .inr ⟨⟨e', he', hp'⟩, fun heq => hne' ?_⟩
        have hat' : At r hs (.entry t) e.conn := ⟨e', he', hp'.trans heq⟩
        cases h.uniq _ _ _ hat hat'
        rfl
    | taker j =>
      obtain ⟨t, htk⟩ := ha
      rw [hst] at htk
      split at htk
      · rename_i hj
        cases htk
        exact .inl ⟨by rw [hj], rfl⟩
      · have hat' : At r hs (.taker j) p := ⟨t, htk⟩
        refine .inr ⟨hat', fun heq => ?_⟩
        rw [heq] at hat'
        cases h.uniq _ _ _ hat hat'
    | handedOut =>
      have hat' : At r hs .handedOut p := ha
      refine .inr ⟨hat', fun heq => ?_⟩
      rw [heq] at hat'
      cases h.uniq _ _ _ hat hat'
  refine ⟨fun a b p ha hb => ?_, fun a p ha => ?_, fun j hj => ?_, h.nodup⟩
  · rcases key a p ha with ⟨rfl, rfl⟩ | ⟨ha', hp'⟩ <;> rcases key b _ hb with ⟨rfl, hq⟩ | ⟨hb', hq⟩
    · rfl
    · exact absurd rfl hq
    · exact absurd hq hp'
    · exact h.uniq a b p ha' hb'
  · have hoff : (r.st.conn p).task.past = true ∧ p ∉ hs.map Prod.fst := by
      rcases key a p ha with ⟨-, rfl⟩ | ⟨ha', -⟩
      · exact h.offered _ _ hat
      · exact h.offered a p ha'
    refine ⟨?_, hoff.2⟩
    rw [hst]
    split
    · rename_i hpi
      rw [hpi, ht] at hoff
      cases hoff.1
    · exact hoff.1
  · have hserved := h.served j hj
    rw [hst]
    split
    · rename_i hji
      rw [hji, ht] at hserved
      cases hserved.1
    · exact hserved

/-- The handler of `i` leaves its own entry and begins to wait. -/
theorem Paired.register {r r' : Relay} {hs : List (ConnId × ConnId)} (h : Paired r hs)
    {i : ConnId} {token : String} {start wake : Nat} (ht : (r.st.conn i).task = .enter token)
    (hp : r'.st.pending = r.st.pending.set token ⟨i, token, r.st.now⟩)
    (hst : ∀ j, (r'.st.conn j).task =
      if j = i then .sleep token start wake else (r.st.conn j).task) : Paired r' hs := by
  have hi : ∀ a, ¬ At r hs a i := h.not_at (by rw [ht]; rfl)
  have key : ∀ a p, At r' hs a p → (a = .entry token ∧ p = i) ∨ At r hs a p := by
    intro a p ha
    cases a with
    | entry t =>
      obtain ⟨e', he', hp'⟩ := ha
      rw [hp, Dict.get?_set] at he'
      split at he'
      · rename_i heq
        cases he'
        exact .inl ⟨by rw [heq], hp'.symm⟩
      · exact .inr ⟨e', he', hp'⟩
    | taker j =>
      obtain ⟨t, htk⟩ := ha
      rw [hst] at htk
      split at htk
      · cases htk
      · exact .inr ⟨t, htk⟩
    | handedOut => exact .inr ha
  refine ⟨fun a b p ha hb => ?_, fun a p ha => ?_, fun j hj => ?_, h.nodup⟩
  · rcases key a p ha with ⟨rfl, rfl⟩ | ha' <;> rcases key b _ hb with ⟨rfl, hq⟩ | hb'
    · rfl
    · exact absurd hb' (hi b)
    · subst hq; exact absurd ha' (hi a)
    · exact h.uniq a b p ha' hb'
  · rw [hst]
    rcases key a p ha with ⟨-, rfl⟩ | ha'
    · refine ⟨by rw [if_pos rfl]; rfl, fun hf => ?_⟩
      have := (h.served p hf).1
      rw [ht] at this
      cases this
    · obtain ⟨hpast, hf⟩ := h.offered a p ha'
      refine ⟨?_, hf⟩
      split
      · rfl
      · exact hpast
  · rw [hst]
    split
    · exact ⟨rfl, rfl⟩
    · exact h.served j hj

/-- The handler of `i` returns the peer it took. -/
theorem Paired.hand {r r' : Relay} {hs : List (ConnId × ConnId)} (h : Paired r hs) {i p : ConnId}
    {token : String} (ht : (r.st.conn i).task = .okPeer token p) (hc : Calm r r')
    (hn : (r'.st.conn i).task.takes = none) : Paired r' (hs ++ [(i, p)]) := by
  have hat : At r hs (.taker i) p := ⟨token, by rw [ht]; rfl⟩
  have hi : ∀ a, ¬ At r hs a i := h.not_at (by rw [ht]; rfl)
  have hfst : ∀ q, q ∈ (hs ++ [(i, p)]).map Prod.fst ↔ q ∈ hs.map Prod.fst ∨ q = i := by
    simp
  have key : ∀ a q, At r' (hs ++ [(i, p)]) a q →
      (a = .handedOut ∧ q = p) ∨ (At r hs a q ∧ a ≠ .taker i) := by
    intro a q ha
    cases a with
    | entry t => exact .inr ⟨hc.at (ha : At r' hs (.entry t) q), by simp⟩
    | taker j =>
      refine .inr ⟨hc.at (ha : At r' hs (.taker j) q), fun heq => ?_⟩
      cases heq
      obtain ⟨t, htk⟩ := ha
      rw [hn] at htk
      cases htk
    | handedOut =>
      have hq : q ∈ hs.map Prod.snd ∨ q = p := by simpa [At] using ha
      rcases hq with hq | rfl
      · exact .inr ⟨hq, by simp⟩
      · exact .inl ⟨rfl, rfl⟩
  refine ⟨fun a b q ha hb => ?_, fun a q ha => ?_, fun j hj => ?_, ?_⟩
  · rcases key a q ha with ⟨rfl, rfl⟩ | ⟨ha', hna⟩ <;> rcases key b _ hb with ⟨rfl, hq⟩ | ⟨hb', hnb⟩
    · rfl
    · exact absurd (h.uniq _ _ _ hb' hat) hnb
    · subst hq; exact absurd (h.uniq _ _ _ ha' hat) hna
    · exact h.uniq a b q ha' hb'
  · have hoff : At r hs a q ∨ q = p := by
      rcases key a q ha with ⟨-, hq⟩ | ⟨ha', -⟩
      · exact .inr hq
      · exact .inl ha'
    have hr : (r.st.conn q).task.past = true ∧ q ∉ hs.map Prod.fst := by
      rcases hoff with ha' | rfl
      · exact h.offered a q ha'
      · exact h.offered _ _ hat
    refine ⟨(hc.tasks q).past hr.1, fun hf => ?_⟩
    rcases (hfst q).mp hf with hf | rfl
    · exact hr.2 hf
    · rw [ht] at hr
      cases hr.1
  · rcases (hfst j).mp hj with hj | rfl
    · exact (hc.keeps_paired h).served j hj
    · refine ⟨?_, hn⟩
      cases he : (r'.st.conn j).task.early with
      | false => rfl
      | true =>
        have := (hc.tasks j).early he
        rw [ht] at this
        cases this
  · rw [List.map_append, List.nodup_append]
    refine ⟨h.nodup, by simp, fun q hq q' hq' heq => ?_⟩
    simp only [List.map_cons, List.map_nil, List.mem_singleton] at hq'
    subst hq' heq
    have hq : At r hs .handedOut q := hq
    cases h.uniq _ _ _ hq hat

theorem Paired.progress {r r' : Relay} {hs out : List (ConnId × ConnId)} (h : Paired r hs)
    (hp : Progress r r' out) : Paired r' (hs ++ out) := by
  cases hp with
  | calm hc => rw [List.append_nil]; exact hc.keeps_paired h
  | ask i since token ht hst hk =>
    have htask : ∀ j, (r'.st.conn j).task = if j = i then .enter token else (r.st.conn j).task :=
      fun j => by rw [hst]; exact task_upd_goto r.st i j _ _ fun _ => rfl
    have htakes : ∀ j x, (r'.st.conn j).task.takes = some x →
        (r.st.conn j).task.takes = some x := by
      intro j x hx
      rw [htask] at hx
      split at hx
      · cases hx
      · exact hx
    rw [List.append_nil]
    refine h.mono (at_mono (fun _ _ he => by rwa [hst] at he) htakes) (fun j hj => ?_)
      (fun j hj => ?_) htakes
    · rw [htask]
      split
      · rename_i hji
        rw [hji, ht] at hj
        cases hj
      · exact hj
    · rw [htask] at hj
      split at hj
      · rename_i hji
        rw [hji, ht]
        rfl
      · exact hj
  | take i token e ht he hpd hst hk => rw [List.append_nil]; exact h.take ht he hpd hst
  | register i token start wake ht hpd hst hk => rw [List.append_nil]; exact h.register ht hpd hst
  | hand i token p ht hc hn => exact h.hand ht hc hn

theorem sameToken_init : SameToken Relay.init [] :=
  ⟨fun _ _ => rfl, fun _ _ h => (by cases h), fun _ _ h => (by cases h),
    fun _ _ _ h => (by cases h), fun _ h => (by cases h)⟩

theorem SameToken.ask {r r' : Relay} {hs : List (ConnId × ConnId)} (h : SameToken r hs)
    {i : ConnId} {since : Nat} {token : String} (ht : (r.st.conn i).task = .handshake since)
    (hst : r'.st = r.st.upd i (.goto (.enter token)))
    (hk : r'.token = fun j => if j = i then some token else r.token j) : SameToken r' hs := by
  have htask : ∀ j, (r'.st.conn j).task = if j = i then .enter token else (r.st.conn j).task :=
    fun j => by rw [hst]; exact task_upd_goto r.st i j _ _ fun _ => rfl
  have hi : r.token i = none := h.unasked i (by rw [ht]; rfl)
  -- a token that is known stays known
  have keep : ∀ {j t}, r.token j = some t → r'.token j = some t := by
    intro j t hj
    rw [hk]
    simp only
    split
    · rename_i hji
      rw [hji, hi] at hj
      cases hj
    · exact hj
  refine ⟨fun j hj => ?_, fun j t hj => ?_, fun t e he => ?_, fun j t p hj => ?_, fun x hx => ?_⟩
  · rw [htask] at hj
    rw [hk]
    simp only
    split at hj
    · cases hj
    · rename_i hne
      rw [if_neg hne]
      exact h.unasked j hj
  · rw [htask] at hj
    split at hj
    · rename_i hji
      cases hj
      rw [hk]
      simp only [hji, if_true]
    · exact keep (h.asked j t hj)
  · rw [hst] at he
    exact keep (h.entry t e he)
  · rw [htask] at hj
    split at hj
    · cases hj
    · obtain ⟨h1, h2⟩ := h.taker j t p hj
      exact ⟨keep h1, keep h2⟩
  · obtain ⟨t, h1, h2⟩ := h.handed x hx
    exact ⟨t, keep h1, keep h2⟩

/-- A handler leaves the lock, with a new entry or a peer of its token. -/
theorem SameToken.enter {r r' : Relay} {hs : List (ConnId × ConnId)} (h : SameToken r hs)
    {i : ConnId} {t' : Task}
    (hst : ∀ j, (r'.st.conn j).task = if j = i then t' else (r.st.conn j).task)
    (hk : r'.token = r.token) (h1 : t'.early = false)
    (hp : ∀ token e, r'.st.pending.get? token = some e → r.token e.conn = some token)
    (htk : ∀ token p, t'.takes = some (token, p) →
      r.token i = some token ∧ r.token p = some token) : SameToken r' hs := by
  refine ⟨fun j hj => ?_, fun j t hj => ?_, fun t e he => ?_, fun j t p hj => ?_, ?_⟩
  · rw [hst] at hj
    rw [hk]
    split at hj
    · cases t' <;> simp_all [Task.arriving, Task.early]
    · exact h.unasked j hj
  · rw [hst] at hj
    rw [hk]
    split at hj
    · rw [hj] at h1; cases h1
    · exact h.asked j t hj
  · rw [hk]; exact hp t e he
  · rw [hst] at hj
    rw [hk]
    split at hj
    · rename_i hji; rw [hji]; exact htk t p hj
    · exact h.taker j t p hj
  · rw [hk]; exact h.handed

theorem SameToken.progress {r r' : Relay} {hs out : List (ConnId × ConnId)} (h : SameToken r hs)
    (hp : Progress r r' out) : SameToken r' (hs ++ out) := by
  cases hp with
  | calm hc => rw [List.append_nil]; exact hc.sameToken h
  | ask i since token ht hst hk => rw [List.append_nil]; exact h.ask ht hst hk
  | take i token e ht he hpd hst hk =>
    rw [List.append_nil]
    refine h.enter hst hk rfl (fun t e' hg => ?_) fun t p hx => ?_
    · rw [hpd] at hg
      exact h.entry t e' (pending_del t e' hg)
    · cases hx
      exact ⟨h.asked i token ht, h.entry token e he⟩
  | register i token start wake ht hpd hst hk =>
    rw [List.append_nil]
    refine h.enter hst hk rfl (fun t e' hg => ?_) fun t p hx => (by cases hx)
    rw [hpd, Dict.get?_set] at hg
    split at hg
    · rename_i heq
      cases hg
      rw [← heq]
      exact h.asked i token ht
    · exact h.entry t e' hg
  | hand i token p ht hc hn =>
    have hs' := hc.sameToken h
    refine ⟨hs'.unasked, hs'.asked, hs'.entry, hs'.taker, fun x hx => ?_⟩
    rcases List.mem_append.mp hx with hx | hx
    · exact hs'.handed x hx
    · rw [List.mem_singleton.mp hx, hc.token]
      exact ⟨token, h.taker i token p (by rw [ht]; rfl)⟩

/-! ## Runs -/

theorem invariants_step {c : Cfg} {r r' : Relay} {e : Event} {hs : List (ConnId × ConnId)}
    (h : relayStep c r e = some r') (hi : Paired r hs ∧ SameToken r hs) :
    Paired r' (hs ++ handout r e) ∧ SameToken r' (hs ++ handout r e) := by
  obtain ⟨r1, hp, hc⟩ := relayStep_progress h
  exact ⟨hc.keeps_paired (hi.1.progress hp), hc.sameToken (hi.2.progress hp)⟩

theorem invariants_run {c : Cfg} {r : Relay} {es : List Event}
    (h : (relayLts c).Run Relay.init es r) :
    Paired r (handouts c es) ∧ SameToken r (handouts c es) := by
  have := LTS.Run.gather (q := handout) (I := fun r hs => Paired r hs ∧ SameToken r hs) []
    (fun _ _ _ _ _ hst hi => invariants_step hst hi) h.restrict_true
    ⟨paired_init, sameToken_init⟩
  exact this

/-- **Headline.** In every run of the relay, with any clients and any tokens,
until and after it is stopped: a connection is handed out at most once, one
that was given a peer is never handed out, and the two ends of a pair sent the
same token. -/
theorem handed_out_once (c : Cfg) (es : List Event) (r : Relay)
    (h : (relayLts c).Run Relay.init es r) :
    ((handouts c es).map Prod.snd).Nodup ∧
      (∀ a ∈ handouts c es, ∀ b ∈ handouts c es, b.2 ≠ a.1) ∧
      ∀ a ∈ handouts c es, ∃ token, r.token a.1 = some token ∧ r.token a.2 = some token := by
  obtain ⟨hp, ht⟩ := invariants_run h
  refine ⟨hp.nodup, fun a ha b hb heq => ?_, ht.handed⟩
  have hb' : At r (handouts c es) .handedOut b.2 := List.mem_map_of_mem hb
  exact (hp.offered _ _ hb').2 (by rw [heq]; exact List.mem_map_of_mem ha)

/-! ## Two clients of one token, and a stop -/

/-- Client 1 is given client 0, which is cancelled while it still sleeps. -/
def pairAndStop : List Event := pairUp.map .go ++ [Event.stop, .cancel 0, .abandon 0, .clear]

def stopped : Relay := LTS.after (relayStep ⟨60000⟩) Relay.init pairAndStop

theorem stopped_run : (LTS.exec (relayStep ⟨60000⟩) Relay.init pairAndStop).isSome = true := by
  decide

theorem handed_out_pair :
    handouts ⟨60000⟩ pairAndStop = [(1, 0)] ∧
      ((handouts ⟨60000⟩ pairAndStop).map Prod.snd).Nodup ∧
      (∀ a ∈ handouts ⟨60000⟩ pairAndStop, ∀ b ∈ handouts ⟨60000⟩ pairAndStop, b.2 ≠ a.1) ∧
      ∀ a ∈ handouts ⟨60000⟩ pairAndStop,
        ∃ token, stopped.token a.1 = some token ∧ stopped.token a.2 = some token :=
  ⟨by decide, handed_out_once ⟨60000⟩ pairAndStop stopped
    (LTS.run_of_exec (LTS.exec_after stopped_run))⟩

end Wormhole.L5.Transit
