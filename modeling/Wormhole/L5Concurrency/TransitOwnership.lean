import Mathlib.Data.Finset.Insert
import Wormhole.L5Concurrency.TransitPairs

/-!
# Whose entry a waiting handler removes

A waiting handler looks for its token in `pending`, not for the entry it
inserted. Once a third client has registered the same token the two differ:
the first client, matched long ago, finds the newcomer's entry, goes on
waiting, and on timeout removes it (`third_client_unregistered`).

`taken` records the connections whose entry a peer has popped. `Orderly`
excludes the steps that go wrong: a poll or a timeout under a token that is
registered for another client, a match with a client that has already decided
to time out, a cleanup that removes the entry of a client still polling. In a
run without them a waiting handler removes only its own entry, leaves its wait
exactly when a peer has popped it, and never times out after that
(`wait_ownership`).
-/
namespace Wormhole.L5.Transit
open Wormhole.L1

/-! ## The statement -/

/-- The connections whose entry a peer has popped. -/
def recordTaken (taken : Finset ConnId) (s : St) : Lbl → St → Finset ConnId
  | .enter i, _ =>
    match (s.conn i).task with
    | .enter token =>
      match s.pending.get? token with
      | some e => insert e.conn taken
      | none => taken
    | _ => taken
  | _, _ => taken

/-- What the end of a wait may be, for the step `l` from `s` to `s'`. -/
def WaitOwnership (taken : Finset ConnId) (s : St) (s' : St) : Lbl → Prop
  | .poll i => (∀ token, s.pending.get? token = s'.pending.get? token) ∧
      ((s'.conn i).task = .closing ↔ i ∈ taken)
  | .expire i => i ∉ taken ∧
      ∀ token e, s.pending.get? token = some e → s'.pending.get? token = none → e.conn = i
  | _ => True

/-- The tokens the cleanup is about to remove. -/
def sweepTokens (c : Cfg) (s : St) : Lbl → List String
  | .sweepEnter =>
    match s.sweep with
    | .wanting now => staleTokens c s now
    | _ => []
  | .sweepDrained _ =>
    match s.sweep with
    | .draining _ rest => rest
    | _ => []
  | _ => []

/-- A waiting handler finds no entry but its own under its token, a peer takes
no entry of a handler about to time out, and the cleanup only such entries. -/
structure Orderly (c : Cfg) (s : St) (l : Lbl) : Prop where
  poll : ∀ i token start e, l = .poll i → (s.conn i).task = .poll token start →
    s.pending.get? token = some e → e.conn = i
  expire : ∀ i token e, l = .expire i → (s.conn i).task = .expire token →
    s.pending.get? token = some e → e.conn = i
  enter : ∀ i token e, l = .enter i → (s.conn i).task = .enter token →
    s.pending.get? token = some e → (s.conn e.conn).task ≠ .expire token
  sweep : ∀ token e, token ∈ sweepTokens c s l → s.pending.get? token = some e →
    (s.conn e.conn).task = .expire token

/-! ## Waits over one step -/

theorem past_step {c : Cfg} {s s' : St} {l : Lbl} (hm : Move c s l s') {p : ConnId}
    (h : (s.conn p).task.past = true) : (s'.conn p).task.past = true := by
  by_cases hp : l.subject = some p
  · cases hm with
    | tick d => exact h
    | sweepWake w hs => exact h
    | accept i ht => cases hp; rw [ht] at h; cases h
    | hello i r since token ht => cases hp; rw [ht] at h; cases h
    | reject i r since w ht hw => cases hp; rw [ht] at h; cases h
    | takePeer i token e ht hl he => cases hp; rw [ht] at h; cases h
    | okSelf i token q ht => cases hp; rw [ht] at h; cases h
    | okPeer i token q ht => cases hp; rw [ht] at h; cases h
    | relayWrite i fwd e q f b bs ht hd => cases hp; rw [ht] at h; cases h
    | relayOn i fwd e q f b ht hd => cases hp; rw [ht] at h; cases h
    | relayEnd i fwd e q f b ht hd he => cases hp; rw [ht] at h; cases h
    | pollOn i token start e t ht he hn =>
      cases hp
      simp only [upd_conn, if_true, goto_task]
      rcases hn with rfl | rfl <;> rfl
    | _ => cases hp <;> simp [finish, Task.past]
  · rwa [task_frame hm hp]

/-- A handler that waits was waiting, or has just inserted its entry. -/
theorem waits_back {c : Cfg} {s s' : St} {l : Lbl} (hm : Move c s l s') {p : ConnId}
    {token : String} (h : (s'.conn p).task.waits = some token) :
    (s.conn p).task.waits = some token ∨ Claims s' (.entry token) p := by
  by_cases hp : l.subject = some p
  · cases hm with
    | insertSelf i t ht hl he =>
      cases hp
      simp only [upd_conn, if_true, goto_task, Task.waits, Option.some.injEq] at h
      subst h
      exact .inr ⟨⟨p, t, s.now⟩, by simp, rfl⟩
    | wake i t start w ht =>
      cases hp
      simp only [upd_conn, if_true, goto_task, Task.waits] at h
      exact .inl (by rw [ht]; exact h)
    | pollOn i t start e t' ht he hn =>
      cases hp
      simp only [upd_conn, if_true, goto_task] at h
      refine .inl ?_
      rw [ht]
      rcases hn with rfl | rfl <;> exact h
    | tick d => exact .inl h
    | sweepWake w hs => exact .inl h
    | relayWrite i fwd e q f b bs ht hd => cases hp; simp [setDir_waits] at h
    | relayOn i fwd e q f b ht hd => cases hp; simp [setDir_waits] at h
    | relayEnd i fwd e q f b ht hd he => cases hp; simp [setDir_waits] at h
    | _ => cases hp <;> simp [finish, Task.waits] at h
  · rw [task_frame hm hp] at h
    exact .inl h

/-- A handler about to time out stays so, or times out. -/
theorem expire_stays {c : Cfg} {s s' : St} {l : Lbl} (hm : Move c s l s') {p : ConnId}
    {token : String} (h : (s.conn p).task = .expire token) :
    (s'.conn p).task = .expire token ∨ (s'.conn p).task.waits = none := by
  by_cases hp : l.subject = some p
  · cases hm with
    | tick d => exact .inl h
    | sweepWake w hs => exact .inl h
    | wake i t start w ht => cases hp; rw [h] at ht; cases ht
    | insertSelf i t ht hl he => cases hp; rw [h] at ht; cases ht
    | pollOn i t start e t' ht he hn => cases hp; rw [h] at ht; cases ht
    | relayWrite i fwd e q f b bs ht hd => cases hp; rw [h] at ht; cases ht
    | relayOn i fwd e q f b ht hd => cases hp; rw [h] at ht; cases ht
    | relayEnd i fwd e q f b ht hd he => cases hp; rw [h] at ht; cases ht
    | _ => cases hp <;> exact .inr (by simp [finish, Task.waits])
  · rw [task_frame hm hp]
    exact .inl h

/-- A handler decides to time out at a poll that finds its token. -/
theorem expire_back {c : Cfg} {s s' : St} {l : Lbl} (hm : Move c s l s') {p : ConnId}
    {token : String} (h : (s'.conn p).task = .expire token) :
    (s.conn p).task = .expire token ∨ ∃ start e, l = .poll p ∧
      (s.conn p).task = .poll token start ∧ s.pending.get? token = some e := by
  by_cases hp : l.subject = some p
  · cases hm with
    | pollOn i t start e t' ht he hn =>
      cases hp
      simp only [upd_conn, if_true, goto_task] at h
      subst h
      rcases hn with hn | hn
      · cases hn; exact .inr ⟨start, e, rfl, ht, he⟩
      · cases hn
    | tick d => exact .inl h
    | sweepWake w hs => exact .inl h
    | relayWrite i fwd e q f b bs ht hd => cases hp; cases fwd <;> simp [setDir] at h
    | relayOn i fwd e q f b ht hd => cases hp; cases fwd <;> simp [setDir] at h
    | relayEnd i fwd e q f b ht hd he => cases hp; cases fwd <;> simp [setDir] at h
    | _ => cases hp <;> simp [finish] at h
  · rw [task_frame hm hp] at h
    exact .inl h

/-! ## The invariant -/

/-- A waiting handler whose entry no peer has popped still has it, or is about
to time out; one whose entry was popped has none and is not about to. -/
structure Owned (s : St) (taken : Finset ConnId) : Prop where
  own : ∀ i token, (s.conn i).task.waits = some token → i ∉ taken →
    Claims s (.entry token) i ∨ (s.conn i).task = .expire token
  taken : ∀ i ∈ taken, (s.conn i).task.past = true ∧ (∀ token, (s.conn i).task ≠ .expire token) ∧
    ∀ token, ¬ Claims s (.entry token) i

theorem taken_subset (taken : Finset ConnId) (s s' : St) (l : Lbl) :
    taken ⊆ recordTaken taken s l s' := by
  unfold recordTaken
  split
  · split
    · split
      · exact Finset.subset_insert _ _
      · exact Finset.Subset.refl _
    · exact Finset.Subset.refl _
  · exact Finset.Subset.refl _

/-- The cleanup takes entries only of handlers about to time out. -/
theorem sweepNext_entry_keep {s : St} {rest : List String} {token : String} {j : ConnId}
    (hq : ∀ t e, t ∈ rest → s.pending.get? t = some e → (s.conn e.conn).task = .expire t)
    (h : Claims s (.entry token) j) :
    Claims (sweepNext s rest) (.entry token) j ∨ (s.conn j).task = .expire token := by
  obtain ⟨e, he, hj⟩ := h
  rcases sweepNext_cases s rest with hs | ⟨t, e', rest', hmem, he', hs⟩
  · rw [hs]; exact .inl ⟨e, he, hj⟩
  · by_cases ht : t = token
    · subst ht
      rw [he] at he'
      cases he'
      exact .inr (by rw [← hj]; exact hq t e hmem he)
    · rw [hs]
      exact .inl ⟨e, by simpa [Dict.get?_del_ne _ ht] using he, hj⟩

/-- How a handler can lose its entry. -/
theorem entry_keep {c : Cfg} {s s' : St} {l : Lbl} (taken : Finset ConnId) (hq : Orderly c s l)
    (hm : Move c s l s') {token : String} {j : ConnId} (h : Claims s (.entry token) j) :
    Claims s' (.entry token) j ∨ j ∈ recordTaken taken s l s' ∨ (s'.conn j).task = .expire token ∨
      (s'.conn j).task.waits = none := by
  cases hm with
  | takePeer i t e ht hl he =>
    obtain ⟨e', he', hj⟩ := h
    by_cases htok : t = token
    · subst htok
      rw [he] at he'
      cases he'
      exact .inr (.inl (by simp [recordTaken, ht, he, hj]))
    · exact .inl ⟨e', by simpa [Dict.get?_del_ne _ htok] using he', hj⟩
  | insertSelf i t ht hl he =>
    obtain ⟨e', he', hj⟩ := h
    have htok : t ≠ token := by rintro rfl; rw [he] at he'; cases he'
    exact .inl ⟨e', by simpa [Dict.get?_set_ne _ _ htok] using he', hj⟩
  | expire i t ht hl =>
    obtain ⟨e', he', hj⟩ := h
    by_cases htok : t = token
    · subst htok
      have hi : j = i := by rw [← hj]; exact hq.expire i t e' rfl ht he'
      exact .inr (.inr (.inr (by simp [hi, Task.waits])))
    · exact .inl ⟨e', by simpa [Dict.get?_del_ne _ htok] using he', hj⟩
  | sweepEnter now hs hl =>
    rw [sweepNext_task]
    refine (sweepNext_entry_keep (fun t e hmem he => hq.sweep t e ?_ he) h).imp id
      fun h => .inr (.inl h)
    simpa [sweepTokens, hs] using hmem
  | sweepDrained q rest ok hs =>
    have hq' : ∀ t e, t ∈ rest → s.pending.get? t = some e → (s.conn e.conn).task = .expire t :=
      fun t e hmem he => hq.sweep t e (by simpa [sweepTokens, hs] using hmem) he
    rw [sweepNext_task]
    cases ok with
    | false => exact (sweepNext_entry_keep hq' h).imp id fun h => .inr (.inl h)
    | true =>
      have htask : ∀ k, ((s.upd q .close).conn k).task = (s.conn k).task := by
        intro k
        rw [upd_conn]
        split <;> rfl
      refine (sweepNext_entry_keep (s := s.upd q .close) (fun t e hmem he => ?_) h).imp id
        fun h => .inr (.inl h)
      rw [htask]
      exact hq' t e hmem he
  | _ => exact .inl h

theorem own_step {c : Cfg} {s s' : St} {l : Lbl} {taken : Finset ConnId} (h : Owned s taken)
    (hq : Orderly c s l) (hm : Move c s l s') (i : ConnId) (token : String)
    (hw : (s'.conn i).task.waits = some token) (hi : i ∉ recordTaken taken s l s') :
    Claims s' (.entry token) i ∨ (s'.conn i).task = .expire token := by
  rcases waits_back hm hw with hw' | hc
  · rcases h.own i token hw' fun hin => hi (taken_subset taken s s' l hin) with hc | hx
    · rcases entry_keep taken hq hm hc with hc | hin | hx | hn
      · exact .inl hc
      · exact absurd hin hi
      · exact .inr hx
      · rw [hn] at hw; cases hw
    · rcases expire_stays hm hx with hx | hn
      · exact .inr hx
      · rw [hn] at hw; cases hw
  · exact .inl hc

/-- A client whose entry was popped finds no entry of its own again. -/
theorem taken_step {c : Cfg} {s s' : St} {l : Lbl} {taken : Finset ConnId} (h : Owned s taken)
    (hq : Orderly c s l) (hm : Move c s l s') {i : ConnId} (hi : i ∈ taken) :
    (s'.conn i).task.past = true ∧ (∀ token, (s'.conn i).task ≠ .expire token) ∧
      ∀ token, ¬ Claims s' (.entry token) i := by
  obtain ⟨hpast, hexp, hent⟩ := h.taken i hi
  refine ⟨past_step hm hpast, ?_, ?_⟩
  · intro token hx
    rcases expire_back hm hx with hx | ⟨start, e, hl, ht, he⟩
    · exact hexp token hx
    · exact hent token ⟨e, he, hq.poll i token start e hl ht he⟩
  · intro token hc
    rcases entry_step hm hc with hc | he
    · exact hent token hc
    · rw [(not_early_of_past hpast).1] at he; cases he

theorem owned_step {c : Cfg} {s s' : St} {l : Lbl} {taken : Finset ConnId} (hs : Shape s)
    (h : Owned s taken) (hq : Orderly c s l) (hm : Move c s l s') :
    Owned s' (recordTaken taken s l s') where
  own := own_step h hq hm
  taken := by
    intro i hi
    by_cases hin : i ∈ taken
    · exact taken_step h hq hm hin
    · -- the entry of `i` was popped by this very step
      cases hm with
      | takePeer j t e ht hl he =>
        simp only [recordTaken, ht, he, Finset.mem_insert, hin, or_false] at hi
        subst hi
        have hcl : Claims s (.entry t) e.conn := ⟨e, he, rfl⟩
        have hj : e.conn ≠ j := by
          intro hj
          have := hs.past _ _ hcl
          rw [hj, ht] at this
          cases this
        refine ⟨by simpa [hj] using hs.past _ _ hcl, fun token hx => ?_, ?_⟩
        · simp only [upd_conn, hj, if_false] at hx
          have hwt := hs.entry t e.conn hcl
          rw [hx] at hwt
          cases hwt
          exact hq.enter j t e rfl ht he hx
        · rintro token ⟨e', he', hp⟩
          cases hs.uniq _ (.entry token) _ hcl ⟨e', pending_del _ _ he', hp⟩
          simp at he'
      | insertSelf j t ht hl he => simp only [recordTaken, ht, he] at hi; exact absurd hi hin
      | _ => exact absurd hi hin

/-- The runs of the relay without disorder, with the record of popped entries. -/
def orderlyLts (c : Cfg) : LTS (St × Finset ConnId) Lbl :=
  ((lts c).restrict (Orderly c)).observe ∅ recordTaken

theorem owned_reachable (c : Cfg) : ∀ p, (orderlyLts c).Reachable p → Owned p.1 p.2 := by
  refine LTS.Inductive.of_known
    (fun p h => shape_reachable c p.1 (LTS.observe_reachable h).of_restrict) ?_ ?_
  · rintro ⟨s, taken⟩ ⟨hs, ht⟩
    obtain rfl : s = init := hs
    obtain rfl : taken = ∅ := ht
    exact ⟨fun i token hw _ => (by cases hw), fun i hi => (by simp at hi)⟩
  · rintro ⟨s, taken⟩ l ⟨s', taken'⟩ _ hsh h ⟨⟨hq, hs⟩, ht⟩
    obtain rfl : taken' = recordTaken taken s l s' := ht
    exact owned_step hsh h hq (step_move hs)

/-- **A waiting handler removes only its own entry.** In every run without
disorder, a waiting handler leaves its wait exactly when a peer has popped its
entry, and it removes at most its own entry, after no peer has popped it. -/
theorem wait_ownership (c : Cfg) (s s' : St) (taken : Finset ConnId) (l : Lbl)
    (h : (orderlyLts c).Reachable (s, taken)) (hq : Orderly c s l) (hs : step c s l = some s') :
    WaitOwnership taken s s' l := by
  have how := owned_reachable c _ h
  have hm := step_move hs
  cases l with
  | poll i =>
    cases hm with
    | leaveMatched _ token start ht he =>
      refine ⟨fun _ => rfl, ⟨fun _ => ?_, fun _ => by simp [finish]⟩⟩
      by_contra hi
      rcases how.own i token (by rw [ht]; rfl) hi with ⟨e, he', -⟩ | hx
      · rw [he] at he'; cases he'
      · rw [ht] at hx; cases hx
    | pollOn _ token start e t ht he hn =>
      refine ⟨fun _ => rfl, ⟨fun hcl => ?_, fun hi => ?_⟩⟩
      · simp only [upd_conn, if_true, goto_task] at hcl
        subst hcl
        rcases hn with hn | hn <;> cases hn
      · exact absurd ⟨e, he, hq.poll i token start e rfl ht he⟩ ((how.taken i hi).2.2 token)
  | expire i =>
    cases hm with
    | expire _ token ht hl =>
      refine ⟨fun hi => (how.taken i hi).2.1 token ht, fun t e he hn => ?_⟩
      by_cases htok : token = t
      · subst htok
        exact hq.expire i token e rfl ht he
      · simp only [Dict.get?_del_ne _ htok] at hn
        rw [he] at hn
        cases hn
  | _ => exact trivial

/-! ## Two clients of one token -/

/-- A check that implies `Orderly`. -/
def orderlyCheck (s : St) : Lbl → Bool
  | .poll i => s.pending.entries.all fun e => e.2.conn = i
  | .expire i => s.pending.entries.all fun e => e.2.conn = i
  | .enter _ => s.pending.entries.all fun e => (s.conn e.2.conn).task ≠ .expire e.1
  | .sweepEnter => false
  | .sweepDrained _ => false
  | _ => true

theorem orderly_of_check (c : Cfg) (s : St) (l : Lbl) (h : orderlyCheck s l = true) :
    Orderly c s l where
  poll := by
    rintro i token start e rfl _ he
    simpa using List.all_eq_true.mp h _ (Dict.mem_entries.mpr he)
  expire := by
    rintro i token e rfl _ he
    simpa using List.all_eq_true.mp h _ (Dict.mem_entries.mpr he)
  enter := by
    rintro i token e rfl _ he
    simpa using List.all_eq_true.mp h _ (Dict.mem_entries.mpr he)
  sweep := by
    intro token e hmem _
    cases l with
    | sweepEnter => cases h
    | sweepDrained ok => cases h
    | _ => cases hmem

/-- Client 0 registers, client 1 takes its entry, client 0 is about to poll. -/
def twoClients : List Lbl :=
  [.accept 0, .line 0 (.line (encode "please relay t\n")), .enter 0,
    .accept 1, .line 1 (.line (encode "please relay t\n")), .enter 1,
    .drained 1 true, .drained 1 true, .tick 100, .wake 0]

def beforePoll : St :=
  (LTS.exec (LTS.checked orderlyCheck (step ⟨60000⟩)) init twoClients).get (by decide)

def afterPoll : St := (step ⟨60000⟩ beforePoll (.poll 0)).get (by decide)

theorem wait_ownership_two :
    ∃ taken, (orderlyLts ⟨60000⟩).Reachable (beforePoll, taken) ∧
      WaitOwnership taken beforePoll afterPoll (.poll 0) := by
  have hr : ((lts ⟨60000⟩).restrict (Orderly ⟨60000⟩)).Reachable beforePoll :=
    LTS.restrict_reachable_of_exec rfl (orderly_of_check ⟨60000⟩) (Option.some_get _).symm
  obtain ⟨taken, ht⟩ := LTS.exists_observe ∅ recordTaken hr
  exact ⟨taken, ht, wait_ownership ⟨60000⟩ beforePoll afterPoll taken (.poll 0) ht
    (orderly_of_check ⟨60000⟩ beforePoll (.poll 0) (by decide)) (Option.some_get _).symm⟩

/-! ## Three clients of one token -/

/-- Client 0 registers and decides, just before its time is up, to sleep once
more; client 1 takes its entry; client 2 registers; client 0 wakes up, finds
the token, and is out of time. -/
def threeClients : List Lbl :=
  [.accept 0, .line 0 (.line (encode "please relay t\n")), .enter 0, .tick 59950, .wake 0, .poll 0,
    .accept 1, .line 1 (.line (encode "please relay t\n")), .tick 50, .enter 1,
    .drained 1 true, .drained 1 true, .accept 2, .line 2 (.line (encode "please relay t\n")),
    .enter 2, .tick 50, .wake 0, .poll 0]

def beforeTimeout : St := (LTS.exec (step ⟨60000⟩) init threeClients).get (by decide)

def afterTimeout : St := (step ⟨60000⟩ beforeTimeout (.expire 0)).get (by decide)

/-- **A third client is unregistered by the first.** -/
theorem third_client_unregistered :
    ¬ ∀ (c : Cfg) (s s' : St) (taken : Finset ConnId) (l : Lbl),
      ((lts c).observe ∅ recordTaken).Reachable (s, taken) → step c s l = some s' →
      WaitOwnership taken s s' l := by
  intro h
  have hr : (lts ⟨60000⟩).Reachable beforeTimeout :=
    LTS.reachable_of_exec rfl (Option.some_get _).symm
  obtain ⟨taken, ht⟩ := LTS.exists_observe ∅ recordTaken hr
  obtain ⟨-, h2⟩ := h ⟨60000⟩ beforeTimeout afterTimeout taken (.expire 0) ht
    (Option.some_get _).symm
  have hother : (2 : ConnId) = 0 :=
    h2 "t" ⟨2, "t", 60000⟩ (by decide) (by decide)
  cases hother

end Wormhole.L5.Transit
