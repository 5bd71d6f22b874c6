import Wormhole.Core.Channel
import Wormhole.Core.LTS

/-!
# The Caddy listener

`WormholeListener` of `src/integrations/caddy/listener.go`. Three parties share
a context and a channel with ten places: the background `acceptLoop`, which
gets connections from the daemon and sends them, the callers of `Accept`, which
wait for a connection or for the context, and `Close`, which cancels the context
and then closes the channel, once. A `select` takes any of its branches that is
ready; a closed channel is ready for both ends. What the daemon answers, and the
end of the context that the listener was made under, may be anything at any time.

A listener is at rest when `Close` is through, the loop has ended and no `Accept`
waits: nobody is left who would take a connection out of the channel.

* `contract_iff`: every state of a run keeps the contract of `net.Listener`, whichever
  branches the `select`s then take, exactly when the channel is closed at a moment at
  which nobody waits, nothing is in the loop's hand or in the buffer, and nothing
  comes after it.
* `close_breaks`: the three ways to lose it.
-/
namespace Wormhole.L5.CaddyListener
open Wormhole.Go

/-! ## State -/

/-- What `ctx.Err()` gives once the context is done. -/
inductive CtxErr
  | canceled
  | deadlineExceeded
  deriving DecidableEq, Repr

structure WormholeConn where
  connectionID : String
  deriving DecidableEq, Repr

/-- The answer of the daemon to `Accept`. -/
structure AcceptResponse where
  status : String
  connectionID : String
  deriving DecidableEq, Repr

/-- Where `acceptLoop` is: in `WaitForDaemon`, in `Listen`, before the `select`
at the head of the loop, in the daemon's `Accept`, in the `select` that sends.
A panic there ends the program. -/
inductive Loop
  | starting
  | listening
  | looking
  | polling
  | sending (conn : WormholeConn)
  | ended
  | panicked (conn : WormholeConn)
  deriving DecidableEq, Repr

/-- `waiting` are the calls of `Accept` in their `select`, `results` what the
others returned. `obtained` and `closedConns` are the connections that the loop
made and closed, both histories. -/
structure WormholeListener where
  ctx : Option CtxErr
  connChan : Channel WormholeConn
  closing : Bool
  loop : Loop
  waiting : Nat
  results : List (Option WormholeConn × Option CtxErr)
  obtained : List WormholeConn
  closedConns : List WormholeConn

/-- mirrors src/integrations/caddy/listener.go:68-86 (`getWormholeListener`) -/
def fresh : WormholeListener := ⟨none, .make 10, false, .starting, 0, [], [], []⟩

/-! ## Steps -/

/-- What `acceptLoop` meets: the outcomes of its calls (`none` and `false` for an
error), and the branches of its two `select`s. -/
inductive LoopEv
  | daemon (up : Bool)
  | listen (ok : Bool)
  | look
  | poll (resp : Option AcceptResponse)
  | send
  | done
  deriving DecidableEq, Repr

inductive AcceptEv
  | call
  | receive
  | done
  deriving DecidableEq, Repr

/-- The two steps of the first `Close`. Later calls wait for it and do nothing. -/
inductive CloseEv
  | cancel
  | close
  deriving DecidableEq, Repr

inductive Ev
  | loop (e : LoopEv)
  | accept (e : AcceptEv)
  | close (e : CloseEv)
  | parentDone (err : CtxErr)
  deriving DecidableEq, Repr

/-- mirrors src/integrations/caddy/listener.go:115-204 -/
def acceptLoop (l : WormholeListener) : LoopEv → Option WormholeListener
  | .daemon up =>
    if l.loop = .starting then
      some { l with loop := if up then .listening else .ended }
    else none
  | .listen ok =>
    if l.loop = .listening then
      some { l with loop := if ok then .looking else .ended }
    else none
  | .look =>
    if l.loop = .looking then
      some { l with loop := if l.ctx.isSome then .ended else .polling }
    else none
  | .poll resp =>
    if l.loop = .polling then
      match resp with
      | none => some { l with loop := .ended }
      | some resp =>
        if resp.status = "timeout" ∨ resp.connectionID = "" then some { l with loop := .looking }
        else
          some { l with
            loop := .sending ⟨resp.connectionID⟩
            obtained := l.obtained ++ [⟨resp.connectionID⟩] }
    else none
  | .send =>
    match l.loop with
    | .sending conn =>
      match l.connChan.send conn with
      | .blocked => none
      | .panics => some { l with loop := .panicked conn }
      | .done c => some { l with connChan := c, loop := .looking }
    | _ => none
  | .done =>
    match l.loop with
    | .sending conn =>
      if l.ctx.isSome then
        some { l with loop := .ended, closedConns := l.closedConns ++ [conn] }
      else none
    | _ => none

/-- mirrors src/integrations/caddy/listener.go:88-96 -/
def accept (l : WormholeListener) : AcceptEv → Option WormholeListener
  | .call => some { l with waiting := l.waiting + 1 }
  | .receive =>
    if 0 < l.waiting then
      l.connChan.receive.map fun r =>
        { l with
          connChan := r.2
          waiting := l.waiting - 1
          results := l.results ++ [(r.1, none)] }
    else none
  | .done =>
    if 0 < l.waiting ∧ l.ctx.isSome then
      some { l with waiting := l.waiting - 1, results := l.results ++ [(none, l.ctx)] }
    else none

/-- A context keeps its first error. -/
def cancel (l : WormholeListener) (err : CtxErr) : WormholeListener :=
  { l with ctx := some (l.ctx.getD err) }

/-- mirrors src/integrations/caddy/listener.go:98-105 -/
def close (l : WormholeListener) : CloseEv → Option WormholeListener
  | .cancel => if l.closing then none else some { cancel l .canceled with closing := true }
  | .close =>
    if l.closing then l.connChan.close.map fun c => { l with connChan := c } else none

/-- A step of one of the parties, or of the parent context. -/
def move (l : WormholeListener) : Ev → Option WormholeListener
  | .loop e => acceptLoop l e
  | .accept e => accept l e
  | .close e => close l e
  | .parentDone err => some (cancel l err)

/-- No step follows a panic. -/
def step (l : WormholeListener) (e : Ev) : Option WormholeListener :=
  match l.loop with
  | .panicked _ => none
  | _ => move l e

def lts : LTS WormholeListener Ev := LTS.ofStep (· = fresh) step

/-! ## The contract -/

/-- `Close` is through, the loop has ended, no `Accept` waits. -/
def AtRest (l : WormholeListener) : Prop :=
  l.connChan.closed = true ∧ l.loop = .ended ∧ l.waiting = 0

/-- The connections that `Accept` returned. -/
def returned (l : WormholeListener) : List WormholeConn := l.results.filterMap Prod.fst

/-- The contract of `net.Listener`: `Accept` gives a connection or an error, the
loop does not send on a closed channel, and in the end every connection it
obtained has been returned or closed. -/
structure Proper (l : WormholeListener) : Prop where
  answers : ∀ r ∈ l.results, r.1.isSome = true ↔ r.2 = none
  sends : ∀ conn, l.loop ≠ .panicked conn
  conns : AtRest l → l.obtained.Perm (returned l ++ l.closedConns)

/-- The connection that the loop is about to send. -/
def hand : Loop → List WormholeConn
  | .sending conn => [conn]
  | .panicked conn => [conn]
  | _ => []

/-- A call of `Accept`, an answer of the daemon to the loop, or the close of the channel. -/
def Input : Ev → Prop
  | .accept .call => True
  | .loop (.poll (some _)) => True
  | .close .close => True
  | _ => False

/-- The contract holds, whichever branches the `select`s take until the next input. -/
def Keeps (l : WormholeListener) : Prop :=
  ∀ es t, (∀ e ∈ es, ¬ Input e) → lts.Run l es t → Proper t

/-- The channel is closed when no `Accept` waits, the loop has no connection in its hand and
the buffer is empty. After that nobody calls `Accept` and the daemon gives no connection. -/
def Timely (l : WormholeListener) : Ev → Prop
  | .close .close => l.waiting = 0 ∧ hand l.loop = [] ∧ l.connChan.buffer = []
  | .accept .call => l.connChan.closed = false
  | .loop (.poll (some resp)) =>
    resp.status = "timeout" ∨ resp.connectionID = "" ∨ l.connChan.closed = false
  | _ => True

instance (l : WormholeListener) : (e : Ev) → Decidable (Timely l e)
  | .close .close => inferInstanceAs
      (Decidable (l.waiting = 0 ∧ hand l.loop = [] ∧ l.connChan.buffer = []))
  | .accept .call => inferInstanceAs (Decidable (l.connChan.closed = false))
  | .loop (.poll (some resp)) => inferInstanceAs (Decidable
      (resp.status = "timeout" ∨ resp.connectionID = "" ∨ l.connChan.closed = false))
  | .loop (.poll none) | .loop (.daemon _) | .loop (.listen _) | .loop .look | .loop .send
  | .loop .done | .accept .receive | .accept .done | .close .cancel | .parentDone _ =>
    isTrue trivial

/-! ## Every connection is somewhere -/

/-- What was obtained was returned or closed, or is in the buffer or in the loop's hand. -/
def Inv (l : WormholeListener) : Prop :=
  ∀ c, l.obtained.count c = (returned l).count c + l.closedConns.count c +
    l.connChan.buffer.count c + (hand l.loop).count c

theorem returned_append (l : WormholeListener) (r : Option WormholeConn × Option CtxErr) :
    returned { l with results := l.results ++ [r] } = returned l ++ r.1.toList := by
  obtain ⟨conn, err⟩ := r
  unfold returned
  rw [List.filterMap_append]
  cases conn <;> rfl

theorem step_move {s t : WormholeListener} {e : Ev} (h : step s e = some t) :
    (∀ conn, s.loop ≠ .panicked conn) ∧ move s e = some t := by
  unfold step at h
  split at h
  · cases h
  · rename_i hp; exact ⟨hp, h⟩

theorem acceptLoop_inv {s t : WormholeListener} {e : LoopEv} (hi : Inv s)
    (h : acceptLoop s e = some t) : Inv t := by
  intro c
  have hc := hi c
  -- between two phases with nothing in the hand
  have moves : ∀ ph, hand s.loop = [] → hand ph = [] → t = { s with loop := ph } →
      t.obtained.count c = (returned t).count c + t.closedConns.count c +
        t.connChan.buffer.count c + (hand t.loop).count c := by
    rintro ph h1 h2 rfl
    rw [h1] at hc
    simp only [h2]
    exact hc
  cases e with
  | daemon up =>
    simp only [acceptLoop] at h
    split at h
    · rename_i hl; cases h; exact moves _ (by rw [hl]; rfl) (by cases up <;> rfl) rfl
    · cases h
  | listen ok =>
    simp only [acceptLoop] at h
    split at h
    · rename_i hl; cases h; exact moves _ (by rw [hl]; rfl) (by cases ok <;> rfl) rfl
    · cases h
  | look =>
    simp only [acceptLoop] at h
    split at h
    · rename_i hl; cases h; exact moves _ (by rw [hl]; rfl) (by split <;> rfl) rfl
    · cases h
  | poll resp =>
    simp only [acceptLoop] at h
    split at h
    · rename_i hl
      split at h
      · cases h; exact moves _ (by rw [hl]; rfl) rfl rfl
      · split at h
        · cases h; exact moves _ (by rw [hl]; rfl) rfl rfl
        · cases h
          rw [hl] at hc
          simp only [returned, hand, List.count_append, List.count_nil] at hc ⊢
          omega
    · cases h
  | send =>
    simp only [acceptLoop] at h
    split at h
    · rename_i conn hl
      rw [hl] at hc
      split at h
      · cases h
      · cases h; exact hc
      · rename_i d hd
        cases h
        simp only [returned, hand, (Channel.send_done hd).1, List.count_append,
          List.count_nil] at hc ⊢
        omega
    · cases h
  | done =>
    simp only [acceptLoop] at h
    split at h
    · rename_i conn hl
      rw [hl] at hc
      split at h
      · cases h
        simp only [returned, hand, List.count_append, List.count_nil] at hc ⊢
        omega
      · cases h
    · cases h

theorem accept_inv {s t : WormholeListener} {e : AcceptEv} (hi : Inv s)
    (h : accept s e = some t) : Inv t := by
  intro c
  have hc := hi c
  cases e with
  | call => cases h; exact hc
  | receive =>
    simp only [accept] at h
    split at h
    · obtain ⟨⟨conn, d⟩, hr, rfl⟩ := Option.map_eq_some_iff.mp h
      have hret : returned { s with results := s.results ++ [(conn, none)] } =
          returned s ++ conn.toList := returned_append s (conn, none)
      have hbuf : s.connChan.buffer = conn.toList ++ d.buffer := by
        rcases (Channel.receive_cases hr).2 with ⟨a, rfl, hb⟩ | ⟨rfl, hb, hd⟩
        · rw [hb]; rfl
        · rw [hb, hd]; rfl
      simp only [returned] at hret hc ⊢
      rw [hret]
      rw [hbuf] at hc
      simp only [List.count_append] at hc ⊢
      omega
    · cases h
  | done =>
    simp only [accept] at h
    split at h
    · cases h
      have hret : returned { s with results := s.results ++ [(none, s.ctx)] } =
          returned s ++ [] := returned_append s (none, s.ctx)
      simp only [returned, List.append_nil] at hret hc ⊢
      rw [hret]
      exact hc
    · cases h

theorem step_inv {s t : WormholeListener} {e : Ev} (hi : Inv s) (h : step s e = some t) :
    Inv t := by
  obtain ⟨-, h⟩ := step_move h
  cases e with
  | loop e => exact acceptLoop_inv hi h
  | accept e => exact accept_inv hi h
  | close e =>
    cases e with
    | cancel =>
      simp only [move, close] at h
      split at h
      · cases h
      · cases h; exact hi
    | close =>
      simp only [move, close] at h
      split at h
      · obtain ⟨d, hd, rfl⟩ := Option.map_eq_some_iff.mp h
        intro c
        have hc := hi c
        rw [← (Channel.close_some hd).2] at hc
        exact hc
      · cases h
  | parentDone err => cases h; exact hi

/-- At rest nothing is in a hand, so all that can be missing is in the buffer. -/
theorem perm_iff {l : WormholeListener} (hi : Inv l) (hr : AtRest l) :
    l.obtained.Perm (returned l ++ l.closedConns) ↔ l.connChan.buffer = [] := by
  have hhand : hand l.loop = [] := by rw [hr.2.1]; rfl
  rw [List.perm_iff_count]
  constructor
  · intro h
    refine List.eq_nil_iff_forall_not_mem.mpr fun c hc => ?_
    have hpos := List.count_pos_iff.mpr hc
    have h1 := h c
    have h2 := hi c
    rw [List.count_append] at h1
    omega
  · intro h c
    rw [hi c, h, hhand, List.count_append]
    simp

/-! ## After the close -/

/-- What `Inv` says, and that the context is done before the channel is closed. -/
structure Known (l : WormholeListener) : Prop where
  somewhere : Inv l
  cancelled : l.closing = true → l.ctx.isSome = true
  closing : l.connChan.closed = true → l.closing = true

/-- Once the channel is closed, no `Accept` waits for it, the loop has nothing to send and
nothing is in the buffer. -/
structure Still (l : WormholeListener) : Prop where
  waiting : l.connChan.closed = true → l.waiting = 0
  hand : l.connChan.closed = true → hand l.loop = []
  buffer : l.connChan.closed = true → l.connChan.buffer = []

theorem still_of_open {l : WormholeListener} (h : l.connChan.closed = false) : Still l := by
  refine ⟨?_, ?_, ?_⟩ <;> intro hc <;> rw [h] at hc <;> cases hc

theorem acceptLoop_frame {s t : WormholeListener} {e : LoopEv} (h : acceptLoop s e = some t) :
    t.waiting = s.waiting ∧ t.connChan.closed = s.connChan.closed ∧ t.closing = s.closing ∧
      t.ctx = s.ctx ∧ t.results = s.results := by
  cases e with
  | daemon | listen | look | done =>
    simp only [acceptLoop] at h
    repeat' split at h
    all_goals cases h
    all_goals exact ⟨rfl, rfl, rfl, rfl, rfl⟩
  | poll resp =>
    simp only [acceptLoop] at h
    repeat' split at h
    all_goals cases h
    all_goals exact ⟨rfl, rfl, rfl, rfl, rfl⟩
  | send =>
    simp only [acceptLoop] at h
    split at h
    · split at h
      · cases h
      · cases h
        exact ⟨rfl, rfl, rfl, rfl, rfl⟩
      · rename_i d hd
        cases h
        exact ⟨rfl, (Channel.send_done hd).2, rfl, rfl, rfl⟩
    · cases h

theorem known_step {s t : WormholeListener} {e : Ev} (hk : Known s) (h : step s e = some t) :
    Known t := by
  suffices hrest : (t.closing = true → t.ctx.isSome = true) ∧
      (t.connChan.closed = true → t.closing = true) from
    ⟨step_inv hk.somewhere h, hrest.1, hrest.2⟩
  obtain ⟨-, h⟩ := step_move h
  cases e with
  | loop e =>
    obtain ⟨-, hclosed, hclosing, hctx, -⟩ := acceptLoop_frame h
    rw [hclosed, hclosing, hctx]
    exact ⟨hk.cancelled, hk.closing⟩
  | accept e =>
    cases e with
    | call =>
      cases h
      exact ⟨hk.cancelled, hk.closing⟩
    | receive =>
      simp only [move, accept] at h
      split at h
      · obtain ⟨⟨conn, d⟩, hr, rfl⟩ := Option.map_eq_some_iff.mp h
        refine ⟨hk.cancelled, ?_⟩
        rw [(Channel.receive_cases hr).1]
        exact hk.closing
      · cases h
    | done =>
      simp only [move, accept] at h
      split at h
      · cases h
        exact ⟨hk.cancelled, hk.closing⟩
      · cases h
  | close e =>
    cases e with
    | cancel =>
      simp only [move, close] at h
      split at h
      · cases h
      · cases h
        exact ⟨fun _ => rfl, fun _ => rfl⟩
    | close =>
      simp only [move, close] at h
      split at h
      · rename_i hclosing
        obtain ⟨d, -, rfl⟩ := Option.map_eq_some_iff.mp h
        exact ⟨hk.cancelled, fun _ => hclosing⟩
      · cases h
  | parentDone err =>
    cases h
    exact ⟨fun _ => rfl, hk.closing⟩

/-- The loop does not disturb a listener at rest, unless the daemon gives it a connection. -/
theorem still_loop {s t : WormholeListener} {e : LoopEv} (hs : Still s)
    (h : acceptLoop s e = some t) : Still t ↔ Timely s (.loop e) := by
  obtain ⟨hwaiting, hclosed, -⟩ := acceptLoop_frame h
  cases hc : s.connChan.closed with
  | false =>
    rw [hc] at hclosed
    refine iff_of_true (still_of_open hclosed) ?_
    cases e with
    | poll resp =>
      cases resp with
      | none => trivial
      | some resp => exact .inr (.inr hc)
    | daemon | listen | look | send | done => trivial
  | true =>
    have hhand := hs.hand hc
    have hbuffer := hs.buffer hc
    have hwait := hs.waiting hc
    cases e with
    | daemon | listen | look =>
      simp only [acceptLoop] at h
      split at h
      · cases h
        refine iff_of_true ⟨fun _ => hwait, fun _ => ?_, fun _ => hbuffer⟩ trivial
        dsimp only
        split <;> rfl
      · cases h
    | poll resp =>
      simp only [acceptLoop] at h
      split at h
      · cases resp with
        | none =>
          cases h
          exact iff_of_true ⟨fun _ => hwait, fun _ => rfl, fun _ => hbuffer⟩ trivial
        | some resp =>
          dsimp only at h
          split at h
          · rename_i hnone
            cases h
            refine iff_of_true ⟨fun _ => hwait, fun _ => rfl, fun _ => hbuffer⟩ ?_
            exact hnone.imp_right .inl
          · rename_i hconn
            cases h
            refine iff_of_false (fun ht => ?_) fun ht => ?_
            · exact List.cons_ne_nil _ _ (ht.hand hc)
            · rcases ht with ht | ht | ht
              · exact hconn (.inl ht)
              · exact hconn (.inr ht)
              · rw [hc] at ht
                cases ht
      · cases h
    | send | done =>
      simp only [acceptLoop] at h
      split at h
      · rename_i conn hl
        rw [hl] at hhand
        cases hhand
      · cases h

/-- What keeps a listener at rest is when the channel is closed, and what comes after. -/
theorem still_step {s t : WormholeListener} {e : Ev} (hs : Still s) (h : step s e = some t) :
    Still t ↔ Timely s e := by
  obtain ⟨-, h⟩ := step_move h
  -- whoever waits, waits on a channel that is open
  have waits : 0 < s.waiting → s.connChan.closed = false := by
    intro hw
    by_contra hc
    rw [Bool.not_eq_false] at hc
    have := hs.waiting hc
    omega
  cases e with
  | loop e => exact still_loop hs h
  | accept e =>
    cases e with
    | call =>
      cases h
      change _ ↔ s.connChan.closed = false
      constructor
      · intro ht
        by_contra hc
        rw [Bool.not_eq_false] at hc
        have hw : s.waiting + 1 = 0 := ht.waiting hc
        omega
      · intro hc
        exact still_of_open hc
    | receive =>
      simp only [move, accept] at h
      split at h
      · rename_i hw
        obtain ⟨⟨conn, d⟩, hr, rfl⟩ := Option.map_eq_some_iff.mp h
        exact iff_of_true (still_of_open ((Channel.receive_cases hr).1.trans (waits hw))) trivial
      · cases h
    | done =>
      simp only [move, accept] at h
      split at h
      · rename_i hw
        cases h
        exact iff_of_true (still_of_open (waits hw.1)) trivial
      · cases h
  | close e =>
    cases e with
    | cancel =>
      simp only [move, close] at h
      split at h
      · cases h
      · cases h
        exact iff_of_true ⟨hs.waiting, hs.hand, hs.buffer⟩ trivial
    | close =>
      simp only [move, close] at h
      split at h
      · obtain ⟨d, hd, rfl⟩ := Option.map_eq_some_iff.mp h
        obtain ⟨hclosed, hbuf⟩ := Channel.close_some hd
        constructor
        · intro ht
          exact ⟨ht.waiting hclosed, ht.hand hclosed, hbuf.symm.trans (ht.buffer hclosed)⟩
        · intro ht
          exact ⟨fun _ => ht.1, fun _ => ht.2.1, fun _ => hbuf.trans ht.2.2⟩
      · cases h
  | parentDone err =>
    cases h
    exact iff_of_true ⟨hs.waiting, hs.hand, hs.buffer⟩ trivial

/-! ## The contract while the listener is still -/

theorem answers_step {s t : WormholeListener} {e : Ev} (hs : Still s) (hp : Proper s)
    (h : step s e = some t) : ∀ r ∈ t.results, r.1.isSome = true ↔ r.2 = none := by
  obtain ⟨-, h⟩ := step_move h
  cases e with
  | loop e =>
    obtain ⟨-, -, -, -, hresults⟩ := acceptLoop_frame h
    rw [hresults]
    exact hp.answers
  | accept e =>
    cases e with
    | call =>
      cases h
      exact hp.answers
    | receive =>
      simp only [move, accept] at h
      split at h
      · rename_i hw
        obtain ⟨⟨conn, d⟩, hr, rfl⟩ := Option.map_eq_some_iff.mp h
        refine List.forall_mem_append.mpr ⟨hp.answers, ?_⟩
        rw [List.forall_mem_singleton]
        cases conn with
        | some conn => exact iff_of_true rfl rfl
        | none =>
          have := hs.waiting (Channel.receive_none hr)
          omega
      · cases h
    | done =>
      simp only [move, accept] at h
      split at h
      · rename_i hw
        cases h
        refine List.forall_mem_append.mpr ⟨hp.answers, ?_⟩
        obtain ⟨err, herr⟩ := Option.isSome_iff_exists.mp hw.2
        rw [List.forall_mem_singleton, herr]
        exact iff_of_false nofun nofun
      · cases h
  | close e =>
    cases e with
    | cancel =>
      simp only [move, close] at h
      split at h
      · cases h
      · cases h
        exact hp.answers
    | close =>
      simp only [move, close] at h
      split at h
      · obtain ⟨d, -, rfl⟩ := Option.map_eq_some_iff.mp h
        exact hp.answers
      · cases h
  | parentDone err =>
    cases h
    exact hp.answers

theorem sends_step {s t : WormholeListener} {e : Ev} (hs : Still s) (h : step s e = some t) :
    ∀ conn, t.loop ≠ .panicked conn := by
  obtain ⟨hp, h⟩ := step_move h
  cases e with
  | loop e =>
    cases e with
    | send =>
      simp only [move, acceptLoop] at h
      split at h
      · rename_i conn hl
        split at h
        · cases h
        · rename_i hpanics
          have hhand := hs.hand (Channel.send_panics_iff.mp hpanics)
          rw [hl] at hhand
          cases hhand
        · cases h
          exact nofun
      · cases h
    | daemon | listen | look | poll | done =>
      simp only [move, acceptLoop] at h
      repeat' split at h
      all_goals first | (cases h; done) | (cases h; nofun)
  | accept e =>
    cases e <;> simp only [move, accept] at h
    · cases h
      exact hp
    · split at h
      · obtain ⟨r, -, rfl⟩ := Option.map_eq_some_iff.mp h
        exact hp
      · cases h
    · split at h
      · cases h
        exact hp
      · cases h
  | close e =>
    cases e <;> simp only [move, close] at h
    · split at h
      · cases h
      · cases h
        exact hp
    · split at h
      · obtain ⟨d, -, rfl⟩ := Option.map_eq_some_iff.mp h
        exact hp
      · cases h
  | parentDone err =>
    cases h
    exact hp

theorem proper_step {s t : WormholeListener} {e : Ev} (hk : Known s) (hs : Still s)
    (hp : Proper s) (h : step s e = some t) (ht : Still t) : Proper t where
  answers := answers_step hs hp h
  sends := sends_step hs h
  conns hr := (perm_iff (step_inv hk.somewhere h) hr).mpr (ht.buffer hr.1)

theorem timely_of_not_input {l : WormholeListener} {e : Ev} (h : ¬ Input e) : Timely l e := by
  unfold Timely
  split
  · exact absurd trivial h
  · exact absurd trivial h
  · exact absurd trivial h
  · trivial

/-- Without input a still listener stays as it is, and keeps the contract. -/
theorem keeps_of_still {l : WormholeListener} (hk : Known l) (hs : Still l) (hp : Proper l) :
    Keeps l := by
  intro es t hes hrun
  induction hrun with
  | nil l => exact hp
  | @cons s u t e es hstep _ ih =>
    have hu : Still u :=
      (still_step hs hstep).mpr (timely_of_not_input (hes e List.mem_cons_self))
    exact ih (known_step hk hstep) hu (proper_step hk hs hp hstep hu)
      fun e' he' => hes e' (List.mem_cons_of_mem _ he')

/-! ## What else can come of it -/

/-- A loop with nothing in its hand can end. -/
theorem loop_ends {l : WormholeListener} (hctx : l.ctx.isSome = true) (hhand : hand l.loop = []) :
    ∃ es, (∀ e ∈ es, ¬ Input e) ∧ lts.Run l es { l with loop := .ended } := by
  have one : ∀ e, ¬ Input e → step l e = some { l with loop := .ended } →
      ∃ es, (∀ e ∈ es, ¬ Input e) ∧ lts.Run l es { l with loop := .ended } := by
    intro e he hstep
    exact ⟨[e], by rwa [List.forall_mem_singleton], .single hstep⟩
  cases hl : l.loop with
  | starting => exact one (.loop (.daemon false)) nofun (by simp [step, move, acceptLoop, hl])
  | listening => exact one (.loop (.listen false)) nofun (by simp [step, move, acceptLoop, hl])
  | looking => exact one (.loop .look) nofun (by simp [step, move, acceptLoop, hl, hctx])
  | polling => exact one (.loop (.poll none)) nofun (by simp [step, move, acceptLoop, hl])
  | ended =>
    refine ⟨[], nofun, ?_⟩
    rw [← hl]
    exact .nil l
  | sending conn | panicked conn =>
    rw [hl] at hhand
    cases hhand

/-- All who wait can take the branch of the context. -/
theorem accepts_end {l : WormholeListener} (hctx : l.ctx.isSome = true) (hl : l.loop = .ended) :
    ∃ es t, (∀ e ∈ es, ¬ Input e) ∧ lts.Run l es t ∧ t.loop = .ended ∧ t.waiting = 0 ∧
      t.connChan = l.connChan := by
  obtain ⟨n, hn⟩ : ∃ n, l.waiting = n := ⟨_, rfl⟩
  induction n generalizing l with
  | zero => exact ⟨[], l, nofun, .nil l, hl, hn, rfl⟩
  | succ n ih =>
    have hstep : step l (.accept .done) = some { l with
        waiting := l.waiting - 1, results := l.results ++ [(none, l.ctx)] } := by
      have hw : 0 < l.waiting := by omega
      simp [step, move, accept, hl, hctx, hw]
    obtain ⟨es, t, hes, hrun, hrest⟩ := ih (l := { l with
      waiting := l.waiting - 1, results := l.results ++ [(none, l.ctx)] }) hctx hl
      (by dsimp only; omega)
    exact ⟨.accept .done :: es, t, List.forall_mem_cons.mpr ⟨nofun, hes⟩, .cons hstep hrun, hrest⟩

/-- A closed listener with nothing in its hand can come to rest with what is in the buffer. -/
theorem comes_to_rest {l : WormholeListener} (hk : Known l) (hc : l.connChan.closed = true)
    (hhand : hand l.loop = []) :
    ∃ es t, (∀ e ∈ es, ¬ Input e) ∧ lts.Run l es t ∧ AtRest t ∧ t.connChan = l.connChan := by
  have hctx := hk.cancelled (hk.closing hc)
  obtain ⟨es, hes, hrun⟩ := loop_ends hctx hhand
  obtain ⟨es', t, hes', hrun', hl, hw, hconn⟩ :=
    accepts_end (l := { l with loop := .ended }) hctx rfl
  refine ⟨es ++ es', t, List.forall_mem_append.mpr ⟨hes, hes'⟩, hrun.append hrun', ?_, hconn⟩
  exact ⟨by rw [hconn]; exact hc, hl, hw⟩

/-- A listener that keeps the contract whatever branches are taken is still. -/
theorem still_of_keeps {l : WormholeListener} (hk : Known l) (h : Keeps l) : Still l := by
  have hpanic := (h [] l nofun (.nil l)).sends
  have hhand : l.connChan.closed = true → hand l.loop = [] := by
    intro hc
    cases hl : l.loop with
    | sending conn =>
      have hsend := Channel.send_panics_iff (x := conn).mpr hc
      have hstep : step l (.loop .send) = some { l with loop := .panicked conn } := by
        simp only [step, hl, move, acceptLoop, hsend]
      have hp := h [.loop .send] _ (by rw [List.forall_mem_singleton]; exact nofun) (.single hstep)
      exact absurd rfl (hp.sends conn)
    | panicked conn => exact absurd hl (hpanic conn)
    | starting | listening | looking | polling | ended => rfl
  have hbuffer : l.connChan.closed = true → l.connChan.buffer = [] := by
    intro hc
    obtain ⟨es, t, hes, hrun, hrest, hconn⟩ := comes_to_rest hk hc (hhand hc)
    have hi : Inv t :=
      hrun.invariant (I := Inv) (fun _ _ _ hi hstep => step_inv hi hstep) hk.somewhere
    rw [← hconn]
    exact (perm_iff hi hrest).mp ((h es t hes hrun).conns hrest)
  refine ⟨fun hc => ?_, hhand, hbuffer⟩
  by_contra hw
  have hstep : step l (.accept .receive) = some { l with
      waiting := l.waiting - 1, results := l.results ++ [(none, none)] } := by
    have hw : 0 < l.waiting := by omega
    unfold step
    split
    · rename_i conn hl
      exact absurd hl (hpanic conn)
    · simp only [move, accept, hw, if_true, Channel.receive_closed hc (hbuffer hc),
        Option.map_some]
  have hp := h [.accept .receive] _ (by rw [List.forall_mem_singleton]; exact nofun)
    (.single hstep)
  have := (hp.answers (none, none) (List.mem_append_right _ List.mem_cons_self)).mpr rfl
  cases this

theorem keeps_step {s t : WormholeListener} {e : Ev} (hk : Known s) (h : Keeps s)
    (hstep : step s e = some t) : Keeps t ↔ Timely s e := by
  have hs := still_of_keeps hk h
  have hkt := known_step hk hstep
  constructor
  · intro ht
    exact (still_step hs hstep).mp (still_of_keeps hkt ht)
  · intro ht
    have hst := (still_step hs hstep).mpr ht
    exact keeps_of_still hkt hst (proper_step hk hs (h [] s nofun (.nil s)) hstep hst)

/-! ## Runs -/

theorem known_fresh : Known fresh := ⟨fun _ => rfl, nofun, nofun⟩

theorem keeps_fresh : Keeps fresh :=
  keeps_of_still known_fresh ⟨nofun, nofun, nofun⟩ ⟨nofun, nofun, fun hr => by cases hr.1⟩

/-- **Headline.** All along a run of the listener the contract holds, whichever branches the
`select`s take, exactly when every step of the run was timely. -/
theorem contract_iff (es : List Ev) (t : WormholeListener) (hr : lts.Run fresh es t) :
    (∀ pre u, pre <+: es → lts.Run fresh pre u → Keeps u) ↔
      (lts.restrict Timely).Run fresh es t :=
  LTS.Run.prefixes_iff (fun _ _ _ hk hst => known_step hk hst)
    (fun _ _ _ hk h hst => keeps_step hk h hst) hr known_fresh keeps_fresh

/-- The loop gets a connection from the daemon. -/
def oneConn : List Ev :=
  [.loop (.daemon true), .loop (.listen true), .loop .look,
    .loop (.poll (some ⟨"connected", "c1"⟩))]

/-- It is sent and accepted before the listener is closed. -/
def quietRun : List Ev :=
  oneConn ++ [Ev.loop .send, .accept .call, .accept .receive, .close .cancel, .close .close,
    .loop .look]

theorem quietRun_proper : AtRest (LTS.after step fresh quietRun) ∧
    ∀ pre u, pre <+: quietRun → lts.Run fresh pre u → Keeps u := by
  have hrun : (lts.restrict Timely).Run fresh quietRun (LTS.after step fresh quietRun) :=
    LTS.restrict_run_of_decide rfl
  exact ⟨⟨rfl, rfl, rfl⟩, (contract_iff _ _ hrun.of_restrict).mpr hrun⟩

/-- An `Accept` that waits when the channel is closed. -/
def nilRun : List Ev := [.accept .call, .close .cancel, .close .close, .accept .receive]

/-- The loop chooses to send after the close. -/
def panicRun : List Ev := oneConn ++ [Ev.close .cancel, .close .close, .loop .send]

/-- A connection is in the buffer when everybody is through. -/
def lostRun : List Ev :=
  oneConn ++ [Ev.loop .send, .close .cancel, .close .close, .loop .look]

/-- `Accept` returns neither a connection nor an error; the loop panics; a connection
is neither returned nor closed. -/
theorem close_breaks :
    (LTS.after step fresh nilRun).results = [(none, none)] ∧
    (LTS.after step fresh panicRun).loop = .panicked ⟨"c1"⟩ ∧
    (AtRest (LTS.after step fresh lostRun) ∧
      (LTS.after step fresh lostRun).obtained = [⟨"c1"⟩] ∧
      returned (LTS.after step fresh lostRun) = [] ∧
      (LTS.after step fresh lostRun).closedConns = []) ∧
    ¬ ∀ t, lts.Reachable t → Proper t := by
  refine ⟨rfl, rfl, ⟨⟨rfl, rfl, rfl⟩, rfl, rfl, rfl⟩, fun h => ?_⟩
  have hrun : LTS.exec step fresh nilRun = some (LTS.after step fresh nilRun) := rfl
  have hp := (h _ (LTS.reachable_of_exec rfl hrun)).answers (none, none)
    (List.mem_singleton.mpr rfl)
  cases hp.mpr rfl

end Wormhole.L5.CaddyListener
