import Wormhole.L5Concurrency.Transit

/-!
# Who holds a waiting connection

A client that found no peer leaves its connection behind: in `pending`, and
later with the handler of the peer that took the entry, or with the cleanup
that removed it. `Shape` says that these three never share a connection, that
a connection held in any of these ways has passed its arrival, and that an
entry of `pending` belongs to a handler still waiting under its token
(`shape_reachable`, every run).
-/
namespace Wormhole.L5.Transit

/-! ## Roles -/

/-- The token a handler waits under, from the insertion of its entry to the
end of its wait. -/
def Task.waits : Task → Option String
  | .sleep token _ _ => some token
  | .poll token _ => some token
  | .expire token => some token
  | _ => none

/-- The connection a handler was given as its peer. -/
def Task.peer : Task → Option ConnId
  | .okSelf _ p => some p
  | .okPeer _ p => some p
  | .relay p _ _ => some p
  | _ => none

/-- A peer was found and neither direction has ended. -/
def Task.live : Task → Bool
  | .okSelf _ _ => true
  | .okPeer _ _ => true
  | .relay _ f b => f ≠ .ended ∧ b ≠ .ended
  | _ => false

/-- Before the first critical section. -/
def Task.early : Task → Bool
  | .fresh => true
  | .handshake _ => true
  | .enter _ => true
  | _ => false

/-- The handler has inserted its entry, or is through. -/
def Task.past : Task → Bool
  | .sleep _ _ _ => true
  | .poll _ _ => true
  | .expire _ => true
  | .expired => true
  | .closing => true
  | .done => true
  | _ => false

def Sweep.target : Sweep → Option ConnId
  | .draining q _ => some q
  | _ => none

/-- What can hold a connection that is not its own handler. -/
inductive Claimant
  | entry (token : String)
  | handler (i : ConnId)
  | sweep
  deriving DecidableEq, Repr

def Claims (s : St) : Claimant → ConnId → Prop
  | .entry token, p => ∃ e, s.pending.get? token = some e ∧ e.conn = p
  | .handler i, p => (s.conn i).task.peer = some p
  | .sweep, p => s.sweep.target = some p

/-- A connection has at most one claimant. -/
structure Shape (s : St) : Prop where
  uniq : ∀ a b p, Claims s a p → Claims s b p → a = b
  past : ∀ a p, Claims s a p → (s.conn p).task.past = true
  entry : ∀ token p, Claims s (.entry token) p → (s.conn p).task.waits = some token

theorem not_early_of_past {t : Task} (h : t.past = true) : t.early = false ∧ t.live = false := by
  cases t <;> simp_all [Task.early, Task.past, Task.live]

theorem sweepNext_cases (s : St) (rest : List String) :
    sweepNext s rest = { s with lock := none, sweep := .sleeping (s.now + sweepEvery) } ∨
    ∃ token e rest', token ∈ rest ∧ s.pending.get? token = some e ∧
      sweepNext s rest = { s.upd e.conn (.write .timeout) with
        pending := s.pending.del token, lock := some .sweep, sweep := .draining e.conn rest' } := by
  induction rest with
  | nil => exact .inl rfl
  | cons token rest ih =>
    rw [sweepNext]
    split
    · refine ih.imp id ?_
      rintro ⟨t, e, rest', hmem, he, hs⟩
      exact ⟨t, e, rest', List.mem_cons_of_mem _ hmem, he, hs⟩
    · rename_i e he; exact .inr ⟨token, e, rest, List.mem_cons_self, he, rfl⟩

/-! ## Steps of one handler -/

/-- The handler a step resumes. -/
def Lbl.subject : Lbl → Option ConnId
  | .accept i => some i
  | .line i _ => some i
  | .enter i => some i
  | .wake i => some i
  | .poll i => some i
  | .expire i => some i
  | .drained i _ => some i
  | .relayed i _ _ => some i
  | .gathered i => some i
  | .closed i => some i
  | _ => none

theorem sweepNext_task (s : St) (rest : List String) (j : ConnId) :
    ((sweepNext s rest).conn j).task = (s.conn j).task := by
  rcases sweepNext_cases s rest with e | ⟨token, e, rest', -, -, hs⟩
  · rw [e]
  · rw [hs]
    simp only [upd_conn]
    split <;> rfl

/-- A step moves no handler but the one it resumes. -/
theorem task_frame {c : Cfg} {s s' : St} {l : Lbl} (hm : Move c s l s') {j : ConnId}
    (hj : l.subject ≠ some j) : (s'.conn j).task = (s.conn j).task := by
  have hne : ∀ i, l.subject = some i → ¬ j = i := fun i hi e => hj (by rw [e]; exact hi)
  cases hm with
  | tick d => rfl
  | sweepWake w hs => rfl
  | sweepEnter now hs hl => exact sweepNext_task s _ j
  | sweepDrained q rest ok hs =>
    rw [sweepNext_task]
    cases ok with
    | false => rfl
    | true => rw [if_pos rfl, upd_conn]; split <;> rfl
  | okSelf i token p ht =>
    rw [upd_conn, if_neg (hne i rfl), upd_conn]
    split <;> rfl
  | relayWrite i fwd e p f b bs ht hd =>
    rw [upd_conn, if_neg (hne i rfl), upd_conn]
    split <;> rfl
  | relayEnd i fwd e p f b ht hd he =>
    rw [upd_conn, if_neg (hne i rfl), upd_conn]
    split <;> rfl
  | _ => simp only [finish, upd_conn, if_neg (hne _ rfl)]

/-! ## The shape is kept -/

/-- Claims only disappear: a step that inserts no entry, gives no handler a new
peer and the cleanup no new connection. -/
theorem claims_mono {s s' : St}
    (hpend : ∀ token e, s'.pending.get? token = some e → s.pending.get? token = some e)
    (hpeer : ∀ j p, (s'.conn j).task.peer = some p → (s.conn j).task.peer = some p)
    (hsw : s'.sweep.target = s.sweep.target) {a : Claimant} {p : ConnId} (h : Claims s' a p) :
    Claims s a p := by
  cases a with
  | entry token => obtain ⟨e, he, hp⟩ := h; exact ⟨e, hpend token e he, hp⟩
  | handler i => exact hpeer i p h
  | sweep => rw [Claims, ← hsw]; exact h

theorem pending_del {s : St} {token : String} : ∀ t e, (s.pending.del token).get? t = some e →
    s.pending.get? t = some e := by
  intro t e h
  rw [Dict.get?_del] at h
  split at h
  · cases h
  · exact h

/-- A step that moves one handler and creates no claim. -/
theorem Shape.setTask {s s' : St} (h : Shape s) {i : ConnId} {t : Task}
    (ht : ∀ j, (s'.conn j).task = if j = i then t else (s.conn j).task)
    (hpend : ∀ token e, s'.pending.get? token = some e → s.pending.get? token = some e)
    (hsw : s'.sweep.target = s.sweep.target)
    (hpeer : ∀ p, t.peer = some p → (s.conn i).task.peer = some p)
    (hpast : (s.conn i).task.past = true → t.past = true)
    (hwaits : ∀ token e, (s.conn i).task.waits = some token → s'.pending.get? token = some e →
      t.waits = some token) : Shape s' := by
  have hmono : ∀ {a p}, Claims s' a p → Claims s a p := by
    intro a p
    refine claims_mono hpend (fun j p hj => ?_) hsw
    rw [ht] at hj
    split at hj
    · rename_i e; rw [e]; exact hpeer p hj
    · exact hj
  refine ⟨fun a b p ha hb => h.uniq a b p (hmono ha) (hmono hb), fun a p ha => ?_,
    fun token p hp => ?_⟩
  · have := h.past a p (hmono ha)
    rw [ht]
    split
    · rename_i e; rw [e] at this; exact hpast this
    · exact this
  · have := h.entry token p (hmono hp)
    rw [ht]
    split
    · rename_i e
      rw [e] at this
      obtain ⟨en, he, -⟩ := hp
      exact hwaits token en this he
    · exact this

theorem sweepNext_entry {s : St} {rest : List String} {token : String} {p : ConnId}
    (h : Claims (sweepNext s rest) (.entry token) p) : Claims s (.entry token) p := by
  obtain ⟨e, he, hp⟩ := h
  rcases sweepNext_cases s rest with hs | ⟨t, en, rest', -, -, hs⟩
  · rw [hs] at he; exact ⟨e, he, hp⟩
  · rw [hs] at he; exact ⟨e, pending_del token e he, hp⟩

/-- A new entry is that of an arriving client. -/
theorem entry_step {c : Cfg} {s s' : St} {l : Lbl} (hm : Move c s l s') {token : String}
    {p : ConnId} (h : Claims s' (.entry token) p) :
    Claims s (.entry token) p ∨ (s.conn p).task.early = true := by
  have hdel : ∀ t e, (s.pending.del t).get? token = some e → e.conn = p →
      Claims s (.entry token) p := fun t e he hp => ⟨e, pending_del token e he, hp⟩
  cases hm with
  | insertSelf i t ht hl hn =>
    obtain ⟨e, he, hp⟩ := h
    rw [Dict.get?_set] at he
    split at he
    · cases he; cases hp; exact .inr (by rw [ht]; rfl)
    · exact .inl ⟨e, he, hp⟩
  | takePeer i t e' ht hl hn =>
    obtain ⟨e, he, hp⟩ := h
    exact .inl (hdel t e he hp)
  | expire i t ht hl =>
    obtain ⟨e, he, hp⟩ := h
    exact .inl (hdel t e he hp)
  | sweepEnter now hs hl => exact .inl (sweepNext_entry h)
  | sweepDrained q rest ok hs =>
    have hc := sweepNext_entry h
    cases ok <;> exact .inl hc
  | _ => exact .inl h

theorem shape_init : Shape init := by
  have hno : ∀ a p, ¬ Claims init a p := by
    intro a p h
    cases a with
    | entry token => obtain ⟨e, he, -⟩ := h; cases he
    | handler i => cases h
    | sweep => cases h
  exact ⟨fun a _ p ha => absurd ha (hno a p), fun a p ha => absurd ha (hno a p),
    fun token p ha => absurd ha (hno _ p)⟩

/-- The entry of a token passes to the handler that took it. -/
theorem shape_takePeer {s : St} (h : Shape s) {i : ConnId} {token : String}
    {e : PendingConnection} (ht : (s.conn i).task = .enter token)
    (he : s.pending.get? token = some e) :
    Shape { s.upd i fun c => (c.write .ok).goto (.okSelf token e.conn) with
      pending := s.pending.del token, lock := some (.client i) } := by
  have hcl : Claims s (.entry token) e.conn := ⟨e, he, rfl⟩
  have hne : ∀ {a p}, Claims s a p → p ≠ i := by
    rintro a p ha rfl
    have := h.past a p ha
    rw [ht] at this
    cases this
  -- a claim after the step is a claim before it, the new one standing for the entry's
  have key : ∀ a p, Claims { s.upd i fun c => (c.write .ok).goto (.okSelf token e.conn) with
      pending := s.pending.del token, lock := some (.client i) } a p →
      (a = .handler i ∧ p = e.conn) ∨ (a ≠ .handler i ∧ a ≠ .entry token ∧ Claims s a p) := by
    intro a p ha
    cases a with
    | entry t =>
      right
      obtain ⟨e', he', hp⟩ := ha
      refine ⟨by simp, ?_, e', pending_del _ _ he', hp⟩
      rintro ⟨rfl⟩
      simp at he'
    | handler j =>
      by_cases hj : j = i
      · subst hj
        left
        simp only [Claims, upd_conn, if_true, goto_task, Task.peer, Option.some.injEq] at ha
        exact ⟨rfl, ha.symm⟩
      · right
        simp only [Claims, upd_conn, hj, if_false] at ha
        exact ⟨by simpa using hj, by simp, ha⟩
    | sweep => exact .inr ⟨by simp, by simp, ha⟩
  refine ⟨fun a b p ha hb => ?_, fun a p ha => ?_, fun t p ha => ?_⟩
  · rcases key a p ha with ⟨rfl, rfl⟩ | ⟨ha1, ha2, ha3⟩ <;>
      rcases key b _ hb with ⟨rfl, hp⟩ | ⟨hb1, hb2, hb3⟩
    · rfl
    · exact absurd (h.uniq b _ _ hb3 hcl) hb2
    · subst hp; exact absurd (h.uniq a _ _ ha3 hcl) ha2
    · exact h.uniq a b p ha3 hb3
  · have hcs : ∃ b, Claims s b p := by
      rcases key a p ha with ⟨-, rfl⟩ | ⟨-, -, h3⟩
      · exact ⟨_, hcl⟩
      · exact ⟨_, h3⟩
    obtain ⟨b, hb⟩ := hcs
    simp only [upd_conn, hne hb, if_false]
    exact h.past b p hb
  · rcases key _ p ha with ⟨h1, -⟩ | ⟨-, -, h3⟩
    · cases h1
    · simp only [upd_conn, hne h3, if_false]
      exact h.entry t p h3

/-- A handler that inserts its entry had no claimant. -/
theorem shape_insertSelf {s : St} (h : Shape s) {i : ConnId} {token : String}
    (ht : (s.conn i).task = .enter token) :
    Shape { s.upd i fun c => c.goto (.sleep token s.now (s.now + pollEvery)) with
      pending := s.pending.set token ⟨i, token, s.now⟩ } := by
  have hne : ∀ {a p}, Claims s a p → p ≠ i := by
    rintro a p ha rfl
    have := h.past a p ha
    rw [ht] at this
    cases this
  have key : ∀ a p, Claims { s.upd i fun c => c.goto (.sleep token s.now (s.now + pollEvery)) with
      pending := s.pending.set token ⟨i, token, s.now⟩ } a p →
      (a = .entry token ∧ p = i) ∨ Claims s a p := by
    intro a p ha
    cases a with
    | entry t =>
      obtain ⟨e', he', hp⟩ := ha
      rw [Dict.get?_set] at he'
      split at he'
      · rename_i htok
        cases he'
        exact .inl ⟨by rw [htok], hp.symm⟩
      · exact .inr ⟨e', he', hp⟩
    | handler j =>
      right
      by_cases hj : j = i
      · simp [Claims, hj, Task.peer] at ha
      · simpa [Claims, hj] using ha
    | sweep => exact .inr ha
  refine ⟨fun a b p ha hb => ?_, fun a p ha => ?_, fun t p ha => ?_⟩
  · rcases key a p ha with ⟨rfl, rfl⟩ | ha' <;> rcases key b _ hb with ⟨rfl, hp⟩ | hb'
    · rfl
    · exact absurd rfl (hne hb')
    · subst hp; exact absurd rfl (hne ha')
    · exact h.uniq a b p ha' hb'
  · rcases key a p ha with ⟨-, rfl⟩ | ha'
    · simp [Task.past]
    · simp only [upd_conn, hne ha', if_false]
      exact h.past a p ha'
  · rcases key _ p ha with ⟨h1, rfl⟩ | ha'
    · cases h1; simp [Task.waits]
    · simp only [upd_conn, hne ha', if_false]
      exact h.entry t p ha'

theorem shape_close {s : St} (h : Shape s) (q : ConnId) : Shape (s.upd q .close) :=
  h.setTask (i := q) (t := (s.conn q).task)
    (fun j => by rw [upd_conn]; split <;> rename_i e <;> simp [e]) (fun _ _ he => he) rfl
    (fun _ hp => hp) (fun hp => hp) (fun _ _ hw _ => hw)

/-- The entry of a token passes to the cleanup. -/
theorem shape_sweepNext {s : St} (h : Shape s) (rest : List String) :
    Shape (sweepNext s rest) := by
  rcases sweepNext_cases s rest with e | ⟨token, e, rest', -, he, hs⟩
  · rw [e]
    have key : ∀ {a p}, Claims { s with lock := none, sweep := .sleeping (s.now + sweepEvery) } a p →
        Claims s a p := by
      intro a p ha
      cases a with
      | sweep => cases ha
      | _ => exact ha
    exact ⟨fun a b p ha hb => h.uniq a b p (key ha) (key hb), fun a p ha => h.past a p (key ha),
      fun t p ha => h.entry t p (key ha)⟩
  · rw [hs]
    have hcl : Claims s (.entry token) e.conn := ⟨e, he, rfl⟩
    have key : ∀ a p, Claims { s.upd e.conn (.write .timeout) with
        pending := s.pending.del token, lock := some .sweep, sweep := .draining e.conn rest' } a p →
        (a = .sweep ∧ p = e.conn) ∨ (a ≠ .sweep ∧ a ≠ .entry token ∧ Claims s a p) := by
      intro a p ha
      cases a with
      | entry t =>
        right
        obtain ⟨e', he', hp⟩ := ha
        refine ⟨by simp, ?_, e', pending_del _ _ he', hp⟩
        rintro ⟨rfl⟩
        simp at he'
      | handler j =>
        right
        refine ⟨by simp, by simp, ?_⟩
        simp only [Claims, upd_conn] at ha
        split at ha <;> exact ha
      | sweep =>
        left
        simp only [Claims, Sweep.target, Option.some.injEq] at ha
        exact ⟨rfl, ha.symm⟩
    have htask : ∀ j, ((s.upd e.conn (.write .timeout)).conn j).task = (s.conn j).task := by
      intro j
      rw [upd_conn]
      split <;> rfl
    refine ⟨fun a b p ha hb => ?_, fun a p ha => ?_, fun t p ha => ?_⟩
    · rcases key a p ha with ⟨rfl, rfl⟩ | ⟨ha1, ha2, ha3⟩ <;>
        rcases key b _ hb with ⟨rfl, hp⟩ | ⟨hb1, hb2, hb3⟩
      · rfl
      · exact absurd (h.uniq b _ _ hb3 hcl) hb2
      · subst hp; exact absurd (h.uniq a _ _ ha3 hcl) ha2
      · exact h.uniq a b p ha3 hb3
    · simp only [htask]
      rcases key a p ha with ⟨-, rfl⟩ | ⟨-, -, h3⟩
      · exact h.past _ _ hcl
      · exact h.past a p h3
    · simp only [htask]
      rcases key _ p ha with ⟨h1, -⟩ | ⟨-, -, h3⟩
      · cases h1
      · exact h.entry t p h3

theorem task_upd_goto (s : St) (i j : ConnId) (f : Conn → Conn) (t : Task)
    (hf : ∀ c, (f c).task = t) :
    ((s.upd i f).conn j).task = if j = i then t else (s.conn j).task := by
  rw [upd_conn]; split
  · exact hf _
  · rfl

/-- Two updates of which only the second moves a handler. -/
theorem task_upd_upd (s : St) (i j k : ConnId) (f : Conn → Conn) (t : Task)
    (hf : ∀ c, (f c).task = c.task) :
    (((s.upd k f).upd i (.goto t)).conn j).task = if j = i then t else (s.conn j).task := by
  rw [upd_conn]; split
  · rfl
  · rw [upd_conn]; split
    · exact hf _
    · rfl

theorem setDir_peer (p : ConnId) (f b : Dir) (fwd : Bool) (d : Dir) :
    (setDir p f b fwd d).peer = some p := by
  cases fwd <;> rfl

theorem setDir_waits (p : ConnId) (f b : Dir) (fwd : Bool) (d : Dir) :
    (setDir p f b fwd d).waits = none := by
  cases fwd <;> rfl

/-- `finish` keeps the shape when no entry of the connection is left. -/
theorem shape_finish {s : St} (h : Shape s) (i : ConnId) (lock : Option Holder)
    (hw : ∀ token e, (s.conn i).task.waits = some token → s.pending.get? token ≠ some e) :
    Shape { finish s i with lock := lock } :=
  h.setTask (i := i) (t := .closing) (fun j => by simp only [finish, upd_conn]; split <;> rfl)
    (fun _ _ he => he) rfl (fun _ hp => by cases hp) (fun _ => rfl)
    (fun token e h1 h2 => absurd h2 (hw token e h1))

theorem shape_step {c : Cfg} {s s' : St} {l : Lbl} (h : Shape s) (hm : Move c s l s') :
    Shape s' := by
  cases hm with
  | tick d => exact ⟨h.uniq, h.past, h.entry⟩
  | accept i ht =>
    exact h.setTask (fun j => task_upd_goto s i j _ _ fun _ => rfl) (fun _ _ he => he) rfl
      (fun _ hp => by cases hp) (fun hp => by rw [ht] at hp; cases hp)
      (fun _ _ hw _ => by rw [ht] at hw; cases hw)
  | hello i r since token ht =>
    exact h.setTask (fun j => task_upd_goto s i j _ _ fun _ => rfl) (fun _ _ he => he) rfl
      (fun _ hp => by cases hp) (fun hp => by rw [ht] at hp; cases hp)
      (fun _ _ hw _ => by rw [ht] at hw; cases hw)
  | reject i r since w ht hw =>
    exact h.setTask (fun j => task_upd_goto s i j _ .rejected fun _ => rfl) (fun _ _ he => he) rfl
      (fun _ hp => by cases hp) (fun hp => by rw [ht] at hp; cases hp)
      (fun _ _ hw _ => by rw [ht] at hw; cases hw)
  | hangup i r since ht => exact shape_finish h i _ (fun _ _ hw => by rw [ht] at hw; cases hw)
  | takePeer i token e ht hl he => exact shape_takePeer h ht he
  | insertSelf i token ht hl he => exact shape_insertSelf h ht
  | wake i token start w ht =>
    exact h.setTask (fun j => task_upd_goto s i j _ _ fun _ => rfl) (fun _ _ he => he) rfl
      (fun _ hp => by cases hp) (fun _ => rfl)
      (fun _ _ hw _ => by rw [ht] at hw; exact hw)
  | leaveMatched i token start ht he =>
    refine shape_finish h i _ (fun t e hw => ?_)
    rw [ht] at hw
    cases hw
    simp [he]
  | pollOn i token start e t ht he hn =>
    have hpast : t.past = true := by rcases hn with rfl | rfl <;> rfl
    have hwaits : t.waits = some token := by rcases hn with rfl | rfl <;> rfl
    have hpeer : t.peer = none := by rcases hn with rfl | rfl <;> rfl
    exact h.setTask (fun j => task_upd_goto s i j _ _ fun _ => rfl) (fun _ _ he => he) rfl
      (fun _ hp => by rw [hpeer] at hp; cases hp) (fun _ => hpast)
      (fun _ _ hw _ => by rw [ht] at hw; cases hw; exact hwaits)
  | expire i token ht hl =>
    exact h.setTask (i := i) (t := .expired) (fun j => by simp only [upd_conn]; split <;> rfl)
      pending_del rfl (fun _ hp => by cases hp) (fun _ => rfl)
      (fun t e hw he => by rw [ht] at hw; cases hw; simp at he)
  | lastDrain i ok ht =>
    refine shape_finish h i _ (fun _ _ hw => ?_)
    rcases ht with ht | ht <;> rw [ht] at hw <;> cases hw
  | okSelf i token p ht =>
    exact h.setTask (fun j => task_upd_upd s i j p _ _ fun _ => rfl) (fun _ _ he => he) rfl
      (fun _ hp => by rw [ht]; exact hp) (fun hp => by rw [ht] at hp; cases hp)
      (fun _ _ hw _ => by rw [ht] at hw; cases hw)
  | okPeer i token p ht =>
    exact h.setTask (i := i) (t := .relay p .reading .reading)
      (fun j => task_upd_goto s i j _ _ fun _ => rfl) (fun _ _ he => he) rfl
      (fun _ hp => by rw [ht]; exact hp) (fun hp => by rw [ht] at hp; cases hp)
      (fun _ _ hw _ => by rw [ht] at hw; cases hw)
  | okFails i token p ht =>
    refine shape_finish h i _ (fun _ _ hw => ?_)
    rcases ht with ht | ht <;> rw [ht] at hw <;> cases hw
  | relayWrite i fwd e p f b bs ht hd =>
    exact h.setTask (fun j => task_upd_upd s i j _ _ _ fun _ => rfl) (fun _ _ he => he) rfl
      (fun _ hp => by rw [ht]; rwa [setDir_peer] at hp) (fun hp => by rw [ht] at hp; cases hp)
      (fun _ _ hw _ => by rw [ht] at hw; cases hw)
  | relayOn i fwd e p f b ht hd =>
    exact h.setTask (t := setDir p f b fwd .reading) (fun j => task_upd_goto s i j _ _ fun _ => rfl)
      (fun _ _ he => he) rfl
      (fun _ hp => by rw [ht]; rwa [setDir_peer] at hp) (fun hp => by rw [ht] at hp; cases hp)
      (fun _ _ hw _ => by rw [ht] at hw; cases hw)
  | relayEnd i fwd e p f b ht hd he =>
    exact h.setTask (fun j => task_upd_upd s i j _ _ _ fun _ => rfl) (fun _ _ he => he) rfl
      (fun _ hp => by rw [ht]; rwa [setDir_peer] at hp) (fun hp => by rw [ht] at hp; cases hp)
      (fun _ _ hw _ => by rw [ht] at hw; cases hw)
  | gathered i p ht => exact shape_finish h i _ (fun _ _ hw => by rw [ht] at hw; cases hw)
  | closed i ht =>
    exact h.setTask (fun j => task_upd_goto s i j _ _ fun _ => rfl) (fun _ _ he => he) rfl
      (fun _ hp => by cases hp) (fun _ => rfl) (fun _ _ hw _ => by rw [ht] at hw; cases hw)
  | sweepWake w hs =>
    have key : ∀ {a p}, Claims { s with sweep := .wanting s.now } a p → Claims s a p := by
      intro a p ha
      cases a with
      | sweep => cases ha
      | _ => exact ha
    exact ⟨fun a b p ha hb => h.uniq a b p (key ha) (key hb), fun a p ha => h.past a p (key ha),
      fun t p ha => h.entry t p (key ha)⟩
  | sweepEnter now hs hl => exact shape_sweepNext h _
  | sweepDrained q rest ok hs =>
    cases ok with
    | false => exact shape_sweepNext h rest
    | true => exact shape_sweepNext (shape_close h q) rest

theorem shape_inductive (c : Cfg) : (lts c).Inductive Shape where
  init := by rintro s rfl; exact shape_init
  step := fun _ _ _ h hs => shape_step h (step_move hs)

/-- In every reachable state a connection has at most one claimant, has then
passed its arrival, and waits under the token of its entry. -/
theorem shape_reachable (c : Cfg) (s : St) (h : (lts c).Reachable s) : Shape s :=
  (shape_inductive c).reachable s h

end Wormhole.L5.Transit
