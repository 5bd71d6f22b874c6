import Wormhole.L5Concurrency.TransitPairs

/-!
# What a matched pair may expect

The relay does not keep a matched pair connected. The handler of the client
that came first learns of the match by finding its token gone, returns from
its wait without a peer, and closes its writer in its `finally` while the
other handler relays on it (`matched_pair_closed`).

`Quiet` excludes the three kinds of steps that are to blame: the poll by which
a client that a live handler has as its peer misses its token, its timeout,
and a failing `drain` of the second `ok`. In a run without them both
connections stay open and see nothing but `ok` and relayed data until a
direction ends (`matched_undisturbed`, by the invariant `Safe`).
-/
namespace Wormhole.L5.Transit
open Wormhole.L1

/-! ## The statement -/

/-- Open, and written nothing but `ok` and relayed data. -/
def Conn.Clean (c : Conn) : Prop := c.closed = false ∧ ∀ w ∈ c.out, w = .ok ∨ ∃ bs, w = .data bs

/-- The handler of `i` has written both `ok`s and neither direction has ended. -/
def Matched (s : St) (i p : ConnId) : Prop :=
  (∃ token, (s.conn i).task = .okPeer token p) ∨
  ∃ f b, (s.conn i).task = .relay p f b ∧ f ≠ .ended ∧ b ≠ .ended

/-- A handler that found `p` as its peer is still at work on it. -/
def LivePeer (s : St) (p : ConnId) : Prop :=
  ∃ i, (s.conn i).task.live = true ∧ (s.conn i).task.peer = some p

/-- The client that came first does not miss its token and does not time out
while its peer is at work, and the drain after the second `ok` returns. -/
def Quiet (s : St) : Lbl → Prop
  | .poll p => LivePeer s p → ∀ token start, (s.conn p).task = .poll token start →
      s.pending.get? token ≠ none
  | .expire p => ¬ LivePeer s p
  | .drained i false => ∀ token p, (s.conn i).task ≠ .okPeer token p
  | _ => True

/-! ## Steps of one handler -/

theorem not_live_of_early {t : Task} (h : t.early = true) : t.live = false := by
  cases t <;> simp_all [Task.early, Task.live]

/-- What a step makes of the task of one handler. -/
inductive TaskStep (s : St) (t : Task) : Task → Prop
  | same : TaskStep s t t
  | arrive {t'} (h : t.early = true) (h' : t'.early = true) : TaskStep s t t'
  | take {token e} (h : t.early = true) (he : s.pending.get? token = some e) :
      TaskStep s t (.okSelf token e.conn)
  | carry {t'} (h : t.live = true) (hp : t'.peer = t.peer) (h' : t'.live = true) : TaskStep s t t'
  | quit {t'} (he : t'.early = false) (hl : t'.live = false) : TaskStep s t t'

theorem live_of_setDir {p : ConnId} {f b d : Dir} {fwd : Bool} (hd : getDir f b fwd ≠ .ended)
    (h : (setDir p f b fwd d).live = true) : (Task.relay p f b).live = true := by
  cases fwd <;> simp_all [setDir, getDir, Task.live]

theorem setDir_step (s : St) (p : ConnId) (f b d : Dir) (fwd : Bool)
    (hd : getDir f b fwd ≠ .ended) :
    TaskStep s (.relay p f b) (setDir p f b fwd d) := by
  have hp : (setDir p f b fwd d).peer = (Task.relay p f b).peer := setDir_peer p f b fwd d
  cases hl : (setDir p f b fwd d).live with
  | true => exact .carry (live_of_setDir hd hl) hp hl
  | false =>
    refine .quit ?_ hl
    cases fwd <;> rfl

theorem task_step {c : Cfg} {s s' : St} {l : Lbl} (hm : Move c s l s') (j : ConnId) :
    TaskStep s (s.conn j).task (s'.conn j).task := by
  by_cases hj : l.subject = some j
  · cases hm with
    | accept i ht =>
      cases hj
      simp only [upd_conn, if_true, goto_task]
      exact .arrive (by rw [ht]; rfl) rfl
    | hello i r since token ht =>
      cases hj
      simp only [upd_conn, if_true, goto_task]
      exact .arrive (by rw [ht]; rfl) rfl
    | takePeer i token e ht hl he =>
      cases hj
      simp only [upd_conn, if_true, goto_task]
      exact .take (by rw [ht]; rfl) he
    | pollOn i token start e t ht he hn =>
      cases hj
      simp only [upd_conn, if_true, goto_task]
      rcases hn with rfl | rfl <;> exact .quit rfl rfl
    | okSelf i token p ht =>
      cases hj
      simp only [upd_conn, if_true, goto_task]
      exact .carry (by rw [ht]; rfl) (by rw [ht]; rfl) rfl
    | okPeer i token p ht =>
      cases hj
      simp only [upd_conn, if_true, goto_task]
      exact .carry (by rw [ht]; rfl) (by rw [ht]; rfl) rfl
    | relayWrite i fwd e p f b bs ht hd =>
      cases hj
      simp only [upd_conn, if_true, goto_task, ht]
      exact setDir_step s p f b _ fwd (by rw [hd]; simp)
    | relayOn i fwd e p f b ht hd =>
      cases hj
      simp only [upd_conn, if_true, goto_task, ht]
      exact setDir_step s p f b _ fwd (by rw [hd]; simp)
    | relayEnd i fwd e p f b ht hd he =>
      cases hj
      simp only [upd_conn, if_true, goto_task, ht]
      exact setDir_step s p f b _ fwd hd
    | _ => cases hj <;> simp only [finish, upd_conn, if_true, goto_task] <;> exact .quit rfl rfl
  · rw [task_frame hm hj]
    exact .same

/-! ## Connections still under protection -/

/-- Nothing has turned against `p` yet: it arrives, works on its own peer,
waits in `pending`, or is the peer of a handler at work. -/
inductive Guarded (s : St) (p : ConnId) : Prop
  | early (h : (s.conn p).task.early = true)
  | live (h : (s.conn p).task.live = true)
  | entry (token : String) (h : Claims s (.entry token) p)
  | peer (h : LivePeer s p)

/-- A new live peer comes from `pending`. -/
theorem livePeer_step {c : Cfg} {s s' : St} {l : Lbl} (hm : Move c s l s') {p : ConnId}
    (h : LivePeer s' p) : LivePeer s p ∨ ∃ token, Claims s (.entry token) p := by
  obtain ⟨i, hl, hp⟩ := h
  have hold : (s.conn i).task.live = true → (s.conn i).task.peer = some p → LivePeer s p :=
    fun h1 h2 => ⟨i, h1, h2⟩
  have hts := task_step hm i
  generalize (s'.conn i).task = t' at hl hp hts
  generalize (s.conn i).task = t at hold hts
  cases hts with
  | same => exact .inl (hold hl hp)
  | arrive h1 h2 => rw [(not_live_of_early h2)] at hl; cases hl
  | @take token e h1 he => cases hp; exact .inr ⟨token, e, he, rfl⟩
  | carry h1 h2 h3 => exact .inl (hold h1 (by rw [← h2]; exact hp))
  | quit h1 h2 => rw [h2] at hl; cases hl

/-- Protection is only ever lost. -/
theorem guarded_step {c : Cfg} {s s' : St} {l : Lbl} (hm : Move c s l s') {p : ConnId}
    (h : Guarded s' p) : Guarded s p := by
  have hts := task_step hm p
  cases h with
  | early h =>
    generalize (s'.conn p).task = t' at h hts
    generalize ht : (s.conn p).task = t at hts
    cases hts with
    | same => exact .early (by rw [ht]; exact h)
    | arrive h1 h2 => exact .early (by rw [ht]; exact h1)
    | take h1 he => cases h
    | carry h1 h2 h3 => exact .live (by rw [ht]; exact h1)
    | quit h1 h2 => rw [h1] at h; cases h
  | live h =>
    generalize (s'.conn p).task = t' at h hts
    generalize ht : (s.conn p).task = t at hts
    cases hts with
    | same => exact .live (by rw [ht]; exact h)
    | arrive h1 h2 => exact .early (by rw [ht]; exact h1)
    | take h1 he => exact .early (by rw [ht]; exact h1)
    | carry h1 h2 h3 => exact .live (by rw [ht]; exact h1)
    | quit h1 h2 => rw [h2] at h; cases h
  | entry token h =>
    rcases entry_step hm h with h | h
    · exact .entry token h
    · exact .early h
  | peer h =>
    rcases livePeer_step hm h with h | ⟨token, h⟩
    · exact .peer h
    · exact .entry token h

/-- A waiting handler goes on waiting through every step but a poll that misses
its token and its own timeout. -/
theorem waits_step {c : Cfg} {s s' : St} {l : Lbl} (hm : Move c s l s') {p : ConnId}
    (hpoll : l = .poll p → ∀ token start, (s.conn p).task = .poll token start →
      s.pending.get? token ≠ none)
    (hexp : l ≠ .expire p) (h : (s.conn p).task.waits.isSome) :
    (s'.conn p).task.waits.isSome := by
  by_cases hp : l.subject = some p
  · cases hm with
    | wake i token start w ht => cases hp; simp [Task.waits]
    | leaveMatched i token start ht he => cases hp; exact absurd he (hpoll rfl token start ht)
    | pollOn i token start e t ht he hn =>
      cases hp
      simp only [upd_conn, if_true, goto_task]
      rcases hn with rfl | rfl <;> rfl
    | expire i token ht hl => cases hp; exact absurd rfl hexp
    | lastDrain i ok ht => cases hp; rcases ht with ht | ht <;> rw [ht] at h <;> cases h
    | okFails i token p ht => cases hp; rcases ht with ht | ht <;> rw [ht] at h <;> cases h
    | tick d => exact h
    | sweepWake w hs => exact h
    | sweepEnter now hs hl => cases hp
    | sweepDrained q rest ok hs => cases hp
    | accept i ht => cases hp; rw [ht] at h; cases h
    | hello i r since token ht => cases hp; rw [ht] at h; cases h
    | reject i r since w ht hw => cases hp; rw [ht] at h; cases h
    | hangup i r since ht => cases hp; rw [ht] at h; cases h
    | takePeer i token e ht hl he => cases hp; rw [ht] at h; cases h
    | insertSelf i token ht hl he => cases hp; rw [ht] at h; cases h
    | okSelf i token q ht => cases hp; rw [ht] at h; cases h
    | okPeer i token q ht => cases hp; rw [ht] at h; cases h
    | relayWrite i fwd e q f b bs ht hd => cases hp; rw [ht] at h; cases h
    | relayOn i fwd e q f b ht hd => cases hp; rw [ht] at h; cases h
    | relayEnd i fwd e q f b ht hd he => cases hp; rw [ht] at h; cases h
    | gathered i q ht => cases hp; rw [ht] at h; cases h
    | closed i ht => cases hp; rw [ht] at h; cases h
  · rwa [task_frame hm hp]

/-! ## The invariant -/

structure Safe (s : St) : Prop where
  clean : ∀ p, Guarded s p → (s.conn p).Clean
  waits : ∀ p, LivePeer s p → (s.conn p).task.waits.isSome

theorem clean_write_ok {c : Conn} (h : c.Clean) : (c.write .ok).Clean :=
  ⟨h.1, fun w hw => by
    rcases List.mem_append.mp hw with hw | hw
    · exact h.2 w hw
    · exact .inl (List.mem_singleton.mp hw)⟩

theorem clean_write_data {c : Conn} (h : c.Clean) (bs : Bytes) : (c.write (.data bs)).Clean :=
  ⟨h.1, fun w hw => by
    rcases List.mem_append.mp hw with hw | hw
    · exact h.2 w hw
    · exact .inr ⟨bs, List.mem_singleton.mp hw⟩⟩

/-- Nothing holds the connection of a handler that has not inserted an entry. -/
theorem unclaimed {s : St} (h : Shape s) {p : ConnId} (hp : (s.conn p).task.past = false)
    (a : Claimant) : ¬ Claims s a p := by
  intro ha
  rw [h.past a p ha] at hp
  cases hp

/-- After a step of `i` to a task that is not at work, `d` is unprotected when
it is neither arriving nor at work, has no entry and is no other handler's peer. -/
theorem not_guarded {s s' : St} {i d : ConnId} {t : Task}
    (ht : ∀ j, (s'.conn j).task = if j = i then t else (s.conn j).task) (hl : t.live = false)
    (hd : (s'.conn d).task.early = false ∧ (s'.conn d).task.live = false)
    (hent : ∀ token, ¬ Claims s' (.entry token) d)
    (hlp : ∀ j, j ≠ i → (s.conn j).task.live = true → ¬ Claims s (.handler j) d) :
    ¬ Guarded s' d := by
  rintro (h | h | ⟨token, h⟩ | ⟨j, h1, h2⟩)
  · rw [hd.1] at h; cases h
  · rw [hd.2] at h; cases h
  · exact hent token h
  · by_cases hj : j = i
    · rw [ht, if_pos hj, hl] at h1; cases h1
    · rw [ht, if_neg hj] at h1 h2; exact hlp j hj h1 h2

/-- What an entry or the cleanup holds is unprotected once the entry is gone. -/
theorem sweep_not_guarded {s s' : St} (h : Shape s) {a : Claimant} {d : ConnId}
    (hcl : Claims s a d) (ha : ∀ j, a ≠ .handler j)
    (ht : ∀ j, (s'.conn j).task = (s.conn j).task)
    (hent : ∀ token, ¬ Claims s' (.entry token) d) : ¬ Guarded s' d := by
  obtain ⟨hne, hnl⟩ := not_early_of_past (h.past a d hcl)
  refine not_guarded (i := d) (t := (s.conn d).task) (fun j => ?_) hnl ?_ hent
    (fun j _ _ hj => ha j (h.uniq _ _ _ hcl hj))
  · rw [ht]
    split
    · rename_i hj; rw [hj]
    · rfl
  · rw [ht]; exact ⟨hne, hnl⟩

/-- The connection that the cleanup takes from `pending` is nobody's peer. -/
theorem sweepNext_clean {s : St} (h : Shape s) {rest : List String} {p : ConnId}
    (hg : Guarded (sweepNext s rest) p) (hc : (s.conn p).Clean) :
    ((sweepNext s rest).conn p).Clean := by
  rcases sweepNext_cases s rest with e | ⟨token, e, rest', -, he, hs⟩
  · rw [e]; exact hc
  · have hcl : Claims s (.entry token) e.conn := ⟨e, he, rfl⟩
    by_cases hp : p = e.conn
    · subst hp
      refine absurd hg (sweep_not_guarded h hcl (by simp) (sweepNext_task s rest) ?_)
      rintro token' ⟨e', he', hp'⟩
      rw [hs] at he'
      cases h.uniq _ (.entry token') _ hcl ⟨e', pending_del _ _ he', hp'⟩
      simp at he'
    · rw [hs]
      simp only [upd_conn, hp, if_false]
      exact hc

theorem clean_upd {s : St} {i p : ConnId} {f : Conn → Conn} (hf : ∀ c, c.Clean → (f c).Clean)
    (hc : (s.conn p).Clean) : ((s.upd i f).conn p).Clean := by
  rw [upd_conn]
  split
  · exact hf _ hc
  · exact hc

/-- Harm to a connection that is not protected afterwards spares the others. -/
theorem clean_harm {s' : St} {d p : ConnId} (hg : Guarded s' p) (hd : ¬ Guarded s' d)
    (hs : p ≠ d → (s'.conn p).Clean) : (s'.conn p).Clean :=
  hs fun e => hd (e ▸ hg)

/-- The `finally` of `i`, when its connection is held neither by an entry nor
by a handler at work. -/
theorem finish_clean {s : St} {i p : ConnId} (lock : Option Holder)
    (hent : ∀ token, ¬ Claims s (.entry token) i) (hlp : ¬ LivePeer s i)
    (hg : Guarded { finish s i with lock := lock } p) (hc : (s.conn p).Clean) :
    (({ finish s i with lock := lock } : St).conn p).Clean := by
  refine clean_harm (d := i) hg ?_ (fun hp => ?_)
  case refine_2 => simp only [finish, upd_conn, hp, if_false]; exact hc
  exact not_guarded (i := i) (t := .closing)
    (fun j => by simp only [finish, upd_conn]; split <;> rfl) rfl
    (by simp [finish, Task.early, Task.live]) hent
    (fun j _ hl hj => hlp ⟨j, hl, hj⟩)

/-- A step spares whoever is still protected after it. -/
theorem clean_step {c : Cfg} {s s' : St} {l : Lbl} (h : Shape s) (hw : Safe s) (hq : Quiet s l)
    (hm : Move c s l s') {p : ConnId} (hg : Guarded s' p) : (s'.conn p).Clean := by
  have hc : (s.conn p).Clean := hw.clean p (guarded_step hm hg)
  cases hm with
  | tick d => exact hc
  | sweepWake w hs => exact hc
  | accept i ht => exact clean_upd (fun _ hc => hc) hc
  | hello i r since token ht => exact clean_upd (fun _ hc => hc) hc
  | wake i token start w ht => exact clean_upd (fun _ hc => hc) hc
  | pollOn i token start e t ht he hn => exact clean_upd (fun _ hc => hc) hc
  | insertSelf i token ht hl he => exact clean_upd (fun _ hc => hc) hc
  | closed i ht => exact clean_upd (fun _ hc => hc) hc
  | okPeer i token q ht => exact clean_upd (fun _ hc => hc) hc
  | relayOn i fwd e q f b ht hd => exact clean_upd (fun _ hc => hc) hc
  | takePeer i token e ht hl he =>
    have hup : ((s.upd i fun c => (c.write .ok).goto (.okSelf token e.conn)).conn p).Clean :=
      clean_upd (fun _ hc => clean_write_ok hc) hc
    exact hup
  | okSelf i token q ht =>
    exact clean_upd (fun _ hc => hc) (clean_upd (fun _ hc => clean_write_ok hc) hc)
  | relayWrite i fwd e q f b bs ht hd =>
    exact clean_upd (fun _ hc => hc) (clean_upd (fun _ hc => clean_write_data hc bs) hc)
  | reject i r since w ht hwr =>
    have hno := unclaimed h (p := i) (by rw [ht]; rfl)
    refine clean_harm (d := i) hg ?_ (fun hp => by simp only [upd_conn, hp, if_false]; exact hc)
    exact not_guarded (i := i) (t := .rejected) (fun j => task_upd_goto s i j _ _ fun _ => rfl) rfl
      (by simp [Task.early, Task.live]) (fun token => hno (.entry token))
      (fun j _ _ => hno (.handler j))
  | hangup i r since ht =>
    have hno := unclaimed h (p := i) (by rw [ht]; rfl)
    refine finish_clean _ (fun token => hno (.entry token)) (fun hlp => ?_) hg hc
    obtain ⟨j, -, hj⟩ := hlp
    exact hno (.handler j) hj
  | gathered i q ht =>
    have hno := unclaimed h (p := i) (by rw [ht]; rfl)
    refine finish_clean _ (fun token => hno (.entry token)) (fun hlp => ?_) hg hc
    obtain ⟨j, -, hj⟩ := hlp
    exact hno (.handler j) hj
  | okFails i token q ht =>
    have hno := unclaimed h (p := i) (by rcases ht with ht | ht <;> rw [ht] <;> rfl)
    refine finish_clean _ (fun token => hno (.entry token)) (fun hlp => ?_) hg hc
    obtain ⟨j, -, hj⟩ := hlp
    exact hno (.handler j) hj
  | leaveMatched i token start ht he =>
    refine finish_clean _ (fun t hcl => ?_) (fun hlp => hq hlp token start ht he) hg hc
    have hwt := h.entry t i hcl
    rw [ht] at hwt
    cases hwt
    obtain ⟨e, he', -⟩ := hcl
    rw [he] at he'
    cases he'
  | expire i token ht hl =>
    refine clean_harm (d := i) hg ?_ (fun hp => by simp only [upd_conn, hp, if_false]; exact hc)
    refine not_guarded (i := i) (t := .expired) (fun j => task_upd_goto s i j _ _ fun _ => rfl) rfl
      (by simp [Task.early, Task.live]) ?_ (fun j _ h1 h2 => hq ⟨j, h1, h2⟩)
    rintro t ⟨e, he, hp⟩
    have hwt := h.entry t i ⟨e, pending_del t e he, hp⟩
    rw [ht] at hwt
    cases hwt
    simp at he
  | lastDrain i ok ht =>
    have hwt : (s.conn i).task.waits = none := by rcases ht with ht | ht <;> rw [ht] <;> rfl
    refine finish_clean _ (fun t hcl => ?_) (fun hlp => ?_) hg hc
    · rw [h.entry t i hcl] at hwt; cases hwt
    · have := hw.waits i hlp; rw [hwt] at this; cases this
  | relayEnd i fwd e q f b ht hd he =>
    have htask := fun j => task_upd_upd s i j (dstOf i q fwd) Conn.close
      (setDir q f b fwd .ended) fun _ => rfl
    have hend : (setDir q f b fwd .ended).early = false ∧
        (setDir q f b fwd .ended).live = false := by
      cases fwd <;> simp [setDir, Task.early, Task.live]
    have honly : ∀ a, Claims s a (dstOf i q fwd) → a = .handler i := by
      intro a ha
      cases fwd with
      | true => exact h.uniq _ _ _ ha (by rw [dstOf, if_pos rfl, Claims, ht]; rfl)
      | false => exact absurd ha (unclaimed h (by rw [dstOf, if_neg (by simp), ht]; rfl) a)
    refine clean_harm (d := dstOf i q fwd) hg (not_guarded (i := i) htask hend.2 ?_ ?_ ?_) ?_
    · rw [htask]
      split
      · exact hend
      · cases fwd with
        | true => exact not_early_of_past (h.past (.handler i) q (by rw [Claims, ht]; rfl))
        | false => rename_i hne; exact absurd rfl hne
    · intro t ht'; cases honly (.entry t) ht'
    · intro j hj _ hcl; cases honly _ hcl; exact hj rfl
    · intro hp
      exact clean_upd (fun _ hc => hc) (by simp only [upd_conn, hp, if_false]; exact hc)
  | sweepEnter now hs hl => exact sweepNext_clean h hg hc
  | sweepDrained q rest ok hs =>
    cases ok with
    | false => exact sweepNext_clean h hg hc
    | true =>
      have hq' : Claims s .sweep q := by rw [Claims, hs]; rfl
      have htask : ∀ j, ((sweepNext (s.upd q .close) rest).conn j).task = (s.conn j).task := by
        intro j
        rw [sweepNext_task, upd_conn]
        split <;> rfl
      refine clean_harm (d := q) hg (sweep_not_guarded h hq' (by simp) htask fun t ht => ?_)
        fun hp => ?_
      · cases h.uniq _ (.entry t) _ hq' (sweepNext_entry (s := s.upd q .close) ht)
      · exact sweepNext_clean (shape_close h q) hg
          (by simp only [upd_conn, hp, if_false]; exact hc)

/-- A handler at work keeps its peer waiting. -/
theorem waits_livePeer_step {c : Cfg} {s s' : St} {l : Lbl} (h : Shape s) (hw : Safe s)
    (hq : Quiet s l) (hm : Move c s l s') {p : ConnId} (hlp : LivePeer s' p) :
    (s'.conn p).task.waits.isSome := by
  rcases livePeer_step hm hlp with hold | ⟨token, hent⟩
  · refine waits_step hm ?_ ?_ (hw.waits p hold)
    · rintro rfl; exact hq hold
    · rintro rfl; exact hq hold
  · have hwt := h.entry token p hent
    refine waits_step hm ?_ ?_ (by rw [hwt]; rfl)
    · intro _ t start ht hnone
      obtain ⟨e, he, -⟩ := hent
      rw [ht] at hwt
      cases hwt
      rw [hnone] at he
      cases he
    · rintro rfl
      -- the handler at work on `p` is another one, which this step left alone
      obtain ⟨j, hl, hp⟩ := hlp
      have hj : j ≠ p := by
        rintro rfl
        cases hm
        simp [Task.live] at hl
      have htj := task_frame hm (j := j) (by simpa [Lbl.subject] using hj.symm)
      rw [htj] at hl hp
      exact hq ⟨j, hl, hp⟩

theorem safe_init : Safe init where
  clean := fun _ _ => ⟨rfl, fun w hw => by cases hw⟩
  waits := fun _ ⟨_, hl, _⟩ => by cases hl

theorem safe_step {c : Cfg} {s s' : St} {l : Lbl} (h : Shape s) (hw : Safe s) (hq : Quiet s l)
    (hm : Move c s l s') : Safe s' where
  clean := fun _ hg => clean_step h hw hq hm hg
  waits := fun _ hlp => waits_livePeer_step h hw hq hm hlp

theorem safe_reachable (c : Cfg) : ∀ s, ((lts c).restrict Quiet).Reachable s → Safe s := by
  refine LTS.Inductive.of_known (fun s h => shape_reachable c s h.of_restrict) ?_ ?_
  · rintro s rfl; exact safe_init
  · rintro s l s' _ h hw ⟨hq, hs⟩; exact safe_step h hw hq (step_move hs)

/-! ## Both were sent `ok` -/

theorem sweepNext_out (s : St) (rest : List String) (p : ConnId) :
    (s.conn p).out ⊆ ((sweepNext s rest).conn p).out := by
  rcases sweepNext_cases s rest with hs | ⟨t, e, rest', -, -, hs⟩
  · rw [hs]; exact List.Subset.refl _
  · rw [hs]
    simp only [upd_conn]
    split <;> simp

/-- Nothing written is taken back. -/
theorem out_step {c : Cfg} {s s' : St} {l : Lbl} (hm : Move c s l s') (p : ConnId) :
    (s.conn p).out ⊆ (s'.conn p).out := by
  cases hm with
  | tick d => exact List.Subset.refl _
  | sweepWake w hs => exact List.Subset.refl _
  | okSelf i token q ht =>
    simp only [upd_conn]
    split
    · simp only [goto_out]; split <;> simp
    · split <;> simp
  | relayWrite i fwd e q f b bs ht hd =>
    simp only [upd_conn]
    split
    · simp only [goto_out]; split <;> simp
    · split <;> simp
  | relayEnd i fwd e q f b ht hd he =>
    simp only [upd_conn]
    split
    · simp only [goto_out]; split <;> simp
    · split <;> simp
  | sweepEnter now hs hl => exact sweepNext_out s _ p
  | sweepDrained q rest ok hs =>
    cases ok with
    | false => exact sweepNext_out s rest p
    | true =>
      have hclose : ((s.upd q .close).conn p).out = (s.conn p).out := by
        rw [upd_conn]; split <;> rfl
      rw [← hclose]
      exact sweepNext_out (s.upd q .close) rest p
  | _ => simp only [finish, upd_conn]; split <;> simp

/-- A handler at work has sent `ok` to its own client, and to its peer once
the first `drain` has returned. -/
def Sent (s : St) : Prop :=
  ∀ i p, (s.conn i).task.live = true → (s.conn i).task.peer = some p →
    .ok ∈ (s.conn i).out ∧ ((∃ token, (s.conn i).task = .okSelf token p) ∨ .ok ∈ (s.conn p).out)

theorem sent_step {c : Cfg} {s s' : St} {l : Lbl} (h : Sent s) (hm : Move c s l s') : Sent s' := by
  intro i p hl hp
  have hmono := out_step hm
  -- a handler that was at work past its first `drain` stays so
  have hkeep : (s.conn i).task.live = true → (s.conn i).task.peer = some p →
      (∀ token, (s.conn i).task ≠ .okSelf token p) →
      .ok ∈ (s'.conn i).out ∧ ((∃ token, (s'.conn i).task = .okSelf token p) ∨
        .ok ∈ (s'.conn p).out) := by
    intro h1 h2 h3
    obtain ⟨h4, h5⟩ := h i p h1 h2
    refine ⟨hmono i h4, .inr (hmono p ?_)⟩
    rcases h5 with ⟨token, h5⟩ | h5
    · exact absurd h5 (h3 token)
    · exact h5
  by_cases hi : l.subject = some i
  · cases hm with
    | takePeer _ token e ht hk he =>
      cases hi
      simp only [upd_conn, if_true, goto_task, Task.peer, Option.some.injEq] at hp ⊢
      subst hp
      exact ⟨by simp, .inl ⟨token, rfl⟩⟩
    | okSelf _ token q ht =>
      cases hi
      simp only [upd_conn, if_true, goto_task, Task.peer, Option.some.injEq] at hp
      subst hp
      refine ⟨hmono i (h i q (by rw [ht]; rfl) (by rw [ht]; rfl)).1, .inr ?_⟩
      rw [upd_conn]
      split <;> simp
    | okPeer _ token q ht =>
      cases hi
      simp only [upd_conn, if_true, goto_task] at hp
      exact hkeep (by rw [ht]; rfl) (by rw [ht]; exact hp) (by simp [ht])
    | relayWrite _ fwd e q f b bs ht hd =>
      cases hi
      simp only [upd_conn, if_true, goto_task, setDir_peer] at hl hp
      exact hkeep (by rw [ht]; exact live_of_setDir (by rw [hd]; simp) hl) (by rw [ht]; exact hp)
        (by simp [ht])
    | relayOn _ fwd e q f b ht hd =>
      cases hi
      simp only [upd_conn, if_true, goto_task, setDir_peer] at hl hp
      exact hkeep (by rw [ht]; exact live_of_setDir (by rw [hd]; simp) hl) (by rw [ht]; exact hp)
        (by simp [ht])
    | relayEnd _ fwd e q f b ht hd he =>
      cases hi
      simp only [upd_conn, if_true, goto_task, setDir_peer] at hl hp
      exact hkeep (by rw [ht]; exact live_of_setDir hd hl) (by rw [ht]; exact hp) (by simp [ht])
    | pollOn _ token start e t ht he hn =>
      cases hi
      simp only [upd_conn, if_true, goto_task] at hl
      rcases hn with rfl | rfl <;> cases hl
    | _ => cases hi <;> simp [finish, Task.live] at hl
  · rw [task_frame hm hi] at hl hp ⊢
    obtain ⟨h1, h2⟩ := h i p hl hp
    exact ⟨hmono i h1, h2.imp id fun h => hmono p h⟩

theorem sent_inductive (c : Cfg) : (lts c).Inductive Sent where
  init := by rintro s rfl i p hl; cases hl
  step := fun _ _ _ h hs => sent_step h (step_move hs)

/-! ## Matched pairs -/

theorem Matched.live {s : St} {i p : ConnId} (h : Matched s i p) :
    (s.conn i).task.live = true ∧ (s.conn i).task.peer = some p := by
  rcases h with ⟨token, ht⟩ | ⟨f, b, ht, hf, hb⟩
  · rw [ht]; exact ⟨rfl, rfl⟩
  · rw [ht]; exact ⟨by simp [Task.live, hf, hb], rfl⟩

/-- In every run: once matched, both were sent `ok`. -/
theorem matched_sent {c : Cfg} {s : St} (h : (lts c).Reachable s) {i p : ConnId}
    (hm : Matched s i p) : .ok ∈ (s.conn i).out ∧ .ok ∈ (s.conn p).out := by
  obtain ⟨hl, hp⟩ := hm.live
  obtain ⟨h1, h2⟩ := (sent_inductive c).reachable s h i p hl hp
  refine ⟨h1, h2.resolve_left ?_⟩
  rintro ⟨token, ht⟩
  rcases hm with ⟨_, h3⟩ | ⟨_, _, h3, _⟩ <;> rw [ht] at h3 <;> cases h3

theorem setDir_relaying (p : ConnId) {f b d : Dir} (fwd : Bool) (hf : f ≠ .ended) (hb : b ≠ .ended)
    (hd : d ≠ .ended) :
    ∃ f' b', setDir p f b fwd d = .relay p f' b' ∧ f' ≠ .ended ∧ b' ≠ .ended := by
  cases fwd with
  | true => exact ⟨d, b, rfl, hd, hb⟩
  | false => exact ⟨f, d, rfl, hf, hd⟩

/-- A pair stays matched until a direction ends. -/
theorem matched_step {c : Cfg} {s s' : St} {l : Lbl} {i p : ConnId} (h : Matched s i p)
    (hq : Quiet s l) (he : ∀ fwd e, l = .relayed i fwd e → e.ends = false) (hm : Move c s l s') :
    Matched s' i p := by
  by_cases hi : l.subject = some i
  · rcases h with ⟨token, ht⟩ | ⟨f, b, ht, hf, hb⟩
    · cases hm with
      | okPeer _ token' q ht' =>
        cases hi
        rw [ht] at ht'
        cases ht'
        exact .inr ⟨.reading, .reading, by simp, by simp, by simp⟩
      | okFails _ token' q ht' => cases hi; exact absurd ht (hq token p)
      | lastDrain _ ok ht' => cases hi; rw [ht] at ht'; rcases ht' with ht' | ht' <;> cases ht'
      | _ => cases hi <;> simp_all
    · cases hm with
      | relayWrite _ fwd e q f b bs ht' hd =>
        cases hi
        rw [ht] at ht'
        cases ht'
        obtain ⟨f', b', hs, hf', hb'⟩ := setDir_relaying p fwd hf hb (d := .draining) (by simp)
        exact .inr ⟨f', b', by simp [hs], hf', hb'⟩
      | relayOn _ fwd e q f b ht' hd =>
        cases hi
        rw [ht] at ht'
        cases ht'
        obtain ⟨f', b', hs, hf', hb'⟩ := setDir_relaying p fwd hf hb (d := .reading) (by simp)
        exact .inr ⟨f', b', by simp [hs], hf', hb'⟩
      | relayEnd _ fwd e q f b ht' hd he' =>
        cases hi
        rw [he fwd e rfl] at he'
        cases he'
      | lastDrain _ ok ht' => cases hi; rw [ht] at ht'; rcases ht' with ht' | ht' <;> cases ht'
      | okFails _ token' q ht' => cases hi; rw [ht] at ht'; rcases ht' with ht' | ht' <;> cases ht'
      | _ => cases hi <;> simp_all
  · rcases h with ⟨token, ht⟩ | ⟨f, b, ht, hf, hb⟩
    · exact .inl ⟨token, by rw [task_frame hm hi, ht]⟩
    · exact .inr ⟨f, b, by rw [task_frame hm hi, ht], hf, hb⟩

theorem matched_run {c : Cfg} {s t : St} {ls : List Lbl} {i p : ConnId} (h : Matched s i p)
    (hr : ((lts c).restrict Quiet).Run s ls t)
    (he : ∀ fwd e, .relayed i fwd e ∈ ls → e.ends = false) : Matched t i p := by
  induction hr with
  | nil => exact h
  | @cons s r t l ls hst _ ih =>
    obtain ⟨hq, hs⟩ := hst
    refine ih (matched_step h hq (fun fwd e hl => he fwd e ?_) (step_move hs)) fun fwd e hl => ?_
    · rw [← hl]; exact List.mem_cons_self
    · exact he fwd e (List.mem_cons_of_mem _ hl)

/-- **A matched pair is left alone.** In every run whose steps are `Quiet`,
from the moment both connections were sent `ok` and for as long as neither
direction has ended, the pair is matched, both connections are open, and both
were written nothing but `ok` and relayed data. -/
theorem matched_undisturbed (c : Cfg) (s t : St) (ls : List Lbl) (i p : ConnId)
    (h : ((lts c).restrict Quiet).Reachable s) (hm : Matched s i p)
    (hr : ((lts c).restrict Quiet).Run s ls t)
    (he : ∀ fwd e, .relayed i fwd e ∈ ls → e.ends = false) :
    Matched t i p ∧ .ok ∈ (t.conn i).out ∧ .ok ∈ (t.conn p).out ∧
      (t.conn i).Clean ∧ (t.conn p).Clean := by
  have hmt := matched_run hm hr he
  have hrt := h.run hr
  obtain ⟨hoi, hop⟩ := matched_sent hrt.of_restrict hmt
  obtain ⟨hl, hp⟩ := hmt.live
  have hsafe := safe_reachable c t hrt
  exact ⟨hmt, hoi, hop, hsafe.clean i (.live hl), hsafe.clean p (.peer ⟨i, hl, hp⟩)⟩

/-! ## Two clients of one token -/

/-- A client connects, asks for the token `t` and reaches the lock. -/
def hello (i : ConnId) : List Lbl :=
  [.accept i, .line i (.line (encode "please relay t\n")), .enter i]

/-- Client 0 registers, client 1 takes its entry and sends both `ok`s. -/
def pairUp : List Lbl := hello 0 ++ hello 1 ++ [Lbl.drained 1 true, .drained 1 true]

/-- Labels that are `Quiet` in every state. -/
def Lbl.calm : Lbl → Bool
  | .poll _ => false
  | .expire _ => false
  | .drained _ false => false
  | _ => true

theorem quiet_of_calm (s : St) (l : Lbl) (h : l.calm = true) : Quiet s l := by
  cases l with
  | poll i => cases h
  | expire i => cases h
  | drained i ok =>
    cases ok with
    | true => exact trivial
    | false => cases h
  | _ => exact trivial

/-- `step` on calm labels. -/
def calmStep : St → Lbl → Option St := LTS.checked (fun _ l => l.calm) (step ⟨60000⟩)

def paired : St := (LTS.exec calmStep init pairUp).get (by decide)

theorem paired_reachable : ((lts ⟨60000⟩).restrict Quiet).Reachable paired :=
  LTS.restrict_reachable_of_exec rfl quiet_of_calm (Option.some_get _).symm

theorem paired_matched : Matched paired 1 0 := .inr ⟨.reading, .reading, by decide⟩

/-- A chunk from client 1 reaches client 0 before that wakes up. -/
def chunkPassed : St := (LTS.exec calmStep paired [.relayed 1 true (.chunk 7 [])]).get (by decide)

theorem matched_undisturbed_chunk :
    (chunkPassed.conn 0).out = [.ok, .data [7]] ∧ Matched chunkPassed 1 0 ∧
      .ok ∈ (chunkPassed.conn 1).out ∧ .ok ∈ (chunkPassed.conn 0).out ∧
      (chunkPassed.conn 1).Clean ∧ (chunkPassed.conn 0).Clean :=
  ⟨by decide, matched_undisturbed ⟨60000⟩ paired chunkPassed [.relayed 1 true (.chunk 7 [])] 1 0
    paired_reachable paired_matched
    (LTS.restrict_run_of_exec quiet_of_calm (Option.some_get _).symm)
    (fun fwd e hl => by rw [List.mem_singleton] at hl; cases hl; rfl)⟩

/-- Client 0 wakes up a tenth of a second after the match and polls. -/
def hungUp : St := (LTS.exec (step ⟨60000⟩) paired [.tick 100, .wake 0, .poll 0]).get (by decide)

/-- **The first client hangs up on its peer.** The handler of client 0 finds
its token gone and closes the connection that the handler of client 1 relays
on. -/
theorem matched_pair_closed :
    ¬ ∀ (c : Cfg) (s t : St) (ls : List Lbl) (i p : ConnId), (lts c).Reachable s →
      Matched s i p → (lts c).Run s ls t → (∀ fwd e, .relayed i fwd e ∈ ls → e.ends = false) →
      (t.conn i).Clean ∧ (t.conn p).Clean := by
  intro h
  have hclosed : (hungUp.conn 0).closed = true := by decide
  obtain ⟨-, hc, -⟩ := h ⟨60000⟩ paired hungUp [.tick 100, .wake 0, .poll 0] 1 0
    paired_reachable.of_restrict paired_matched
    (LTS.run_of_exec (Option.some_get _).symm) (fun fwd e hl => by simp at hl)
  rw [hc] at hclosed
  cases hclosed

end Wormhole.L5.Transit
