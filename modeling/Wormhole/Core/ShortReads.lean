import Mathlib.Data.List.Basic

/-!
# Reads that may come up short

A handler reads a stream with calls that return what is there, up to the number asked for,
and wait only while nothing is there. What it sends is compared for all the ways in which
the stream can come in.

* `finish_step`: no step changes what the handler ends up sending, but a read that comes up
  short.
* `Decides.unchanged`: it sends the same when every read that matters is in time.
* `Decides.inTime`: where each short read can be told from what is sent, only then.
-/
namespace Wormhole.ShortReads

variable {α ε ω : Type}

/-- A handler: what it sends, and the read it goes on with. -/
inductive Reader (α ε : Type) where
  | stop (out : List ε)
  | read (out : List ε) (n : Nat) (next : List α → Reader α ε)

/-- What is sent when all of a stream is there. -/
def Reader.whole : Reader α ε → List α → List ε
  | .stop out, _ => out
  | .read out n next, s =>
    if s = [] ∧ n ≠ 0 then out else out ++ (next (s.take n)).whole (s.drop n)

/-- A handler and its stream. `sent` is what was sent before `handler`. -/
structure Conn (α ε : Type) where
  sent : List ε
  handler : Reader α ε
  buffer : List α
  coming : List α

/-- Some of the stream comes in, or the handler gets to read. -/
inductive Ev
  | arrive (n : Nat)
  | turn
  deriving DecidableEq, Repr

def Conn.turn (c : Conn α ε) : Conn α ε :=
  match c.handler with
  | .stop _ => c
  | .read out n next =>
    if c.buffer = [] ∧ n ≠ 0 then c
    else ⟨c.sent ++ out, next (c.buffer.take n), c.buffer.drop n, c.coming⟩

def Conn.step (c : Conn α ε) : Ev → Conn α ε
  | .arrive n => { c with buffer := c.buffer ++ c.coming.take n, coming := c.coming.drop n }
  | .turn => c.turn

def Conn.run (c : Conn α ε) (evs : List Ev) : Conn α ε := evs.foldl Conn.step c

/-- What is sent in the end, when the rest of the stream has come in. -/
def Conn.finish (c : Conn α ε) : List ε := c.sent ++ c.handler.whole (c.buffer ++ c.coming)

/-- No read of these sizes comes up short, with `a` elements unread and `c` to come. -/
def InTime : List Nat → Nat → Nat → List Ev → Prop
  | [], _, _, _ => True
  | _ :: _, _, _, [] => True
  | w :: ws, a, c, .arrive n :: evs => InTime (w :: ws) (a + min n c) (c - n) evs
  | w :: ws, a, c, .turn :: evs =>
    if a = 0 ∧ w ≠ 0 then InTime (w :: ws) a c evs else w ≤ a ∧ InTime ws (a - w) c evs

instance decidableInTime : ∀ (ws : List Nat) (a c : Nat) (evs : List Ev),
    Decidable (InTime ws a c evs)
  | [], _, _, _ => .isTrue (by rw [InTime]; trivial)
  | _ :: _, _, _, [] => .isTrue (by rw [InTime]; trivial)
  | w :: ws, a, c, .arrive n :: evs => decidableInTime (w :: ws) (a + min n c) (c - n) evs
  | w :: ws, a, c, .turn :: evs =>
    have := decidableInTime (w :: ws) a c evs
    have := decidableInTime ws (a - w) c evs
    inferInstanceAs (Decidable (if a = 0 ∧ w ≠ 0 then InTime (w :: ws) a c evs
      else w ≤ a ∧ InTime ws (a - w) c evs))

/-! ## Steps -/

theorem stream_arrive (c : Conn α ε) (n : Nat) :
    (c.step (.arrive n)).buffer ++ (c.step (.arrive n)).coming = c.buffer ++ c.coming := by
  unfold Conn.step
  rw [List.append_assoc, List.take_append_drop]

theorem finish_arrive (c : Conn α ε) (n : Nat) : (c.step (.arrive n)).finish = c.finish := by
  rw [Conn.finish, stream_arrive]
  rfl

theorem turn_stop {c : Conn α ε} {out : List ε} (h : c.handler = .stop out) : c.turn = c := by
  rw [Conn.turn, h]

theorem turn_waits {c : Conn α ε} {out : List ε} {n : Nat} {next : List α → Reader α ε}
    (h : c.handler = .read out n next) (hw : c.buffer = [] ∧ n ≠ 0) : c.turn = c := by
  rw [Conn.turn, h]
  exact if_pos hw

theorem turn_reads {c : Conn α ε} {out : List ε} {n : Nat} {next : List α → Reader α ε}
    (h : c.handler = .read out n next) (hr : ¬ (c.buffer = [] ∧ n ≠ 0)) :
    c.turn = ⟨c.sent ++ out, next (c.buffer.take n), c.buffer.drop n, c.coming⟩ := by
  rw [Conn.turn, h]
  exact if_neg hr

/-- What is read is there, or will be. -/
theorem finish_reads {c : Conn α ε} {out : List ε} {n : Nat} {next : List α → Reader α ε}
    (h : c.handler = .read out n next) (hr : ¬ (c.buffer = [] ∧ n ≠ 0)) :
    c.finish = c.sent ++ (out ++ (next ((c.buffer ++ c.coming).take n)).whole
      ((c.buffer ++ c.coming).drop n)) := by
  rw [Conn.finish, h, Reader.whole, if_neg]
  intro hw
  exact hr ⟨(List.append_eq_nil_iff.mp hw.1).1, hw.2⟩

/-- A turn that reads all it asked for. -/
theorem finish_turn {c : Conn α ε} {out : List ε} {n : Nat} {next : List α → Reader α ε}
    (h : c.handler = .read out n next) (hr : ¬ (c.buffer = [] ∧ n ≠ 0))
    (hn : n ≤ c.buffer.length) : c.turn.finish = c.finish := by
  rw [finish_reads h hr, turn_reads h hr, Conn.finish, List.take_append_of_le_length hn,
    List.drop_append_of_le_length hn, List.append_assoc]

theorem run_cons (c : Conn α ε) (e : Ev) (evs : List Ev) :
    c.run (e :: evs) = (c.step e).run evs := rfl

/-! ## What can be sent -/

/-- The handler sends this, for some results of its reads. -/
inductive Emits : Reader α ε → List ε → Prop
  | stop (out : List ε) : Emits (.stop out) out
  | wait (out : List ε) (n : Nat) (next : List α → Reader α ε) : Emits (.read out n next) out
  | read {out : List ε} {n : Nat} {next : List α → Reader α ε} {d : List α} {l : List ε} :
    d.length ≤ n → Emits (next d) l → Emits (.read out n next) (out ++ l)

theorem emits_whole (r : Reader α ε) (s : List α) : Emits r (r.whole s) := by
  induction r generalizing s with
  | stop out => exact .stop out
  | read out n next ih =>
    rw [Reader.whole]
    split
    · exact .wait out n next
    · exact .read (List.length_take_le n s) (ih _ _)

theorem emits_run (evs : List Ev) (c : Conn α ε) :
    ∃ l, Emits c.handler l ∧ (c.run evs).finish = c.sent ++ l := by
  induction evs generalizing c with
  | nil => exact ⟨_, emits_whole c.handler (c.buffer ++ c.coming), rfl⟩
  | cons e evs ih =>
    obtain ⟨l, hl, hrun⟩ := ih (c.step e)
    rw [run_cons, hrun]
    cases e with
    | arrive n => exact ⟨l, hl, rfl⟩
    | turn =>
      show ∃ l', Emits c.handler l' ∧ c.turn.sent ++ l = c.sent ++ l'
      change Emits c.turn.handler l at hl
      cases h : c.handler with
      | stop out =>
        rw [turn_stop h] at hl ⊢
        exact ⟨l, h ▸ hl, rfl⟩
      | read out n next =>
        by_cases hw : c.buffer = [] ∧ n ≠ 0
        · rw [turn_waits h hw] at hl ⊢
          exact ⟨l, h ▸ hl, rfl⟩
        · rw [turn_reads h hw] at hl ⊢
          exact ⟨out ++ l, .read (List.length_take_le n _) hl, List.append_assoc _ _ _⟩

/-! ## Reads that matter -/

/-- However the stream comes in, the handler sends the same. -/
def Settled (r : Reader α ε) (s : List α) : Prop :=
  ∀ (c : Conn α ε), c.handler = r → c.buffer ++ c.coming = s → ∀ evs,
    (c.run evs).finish = c.finish

theorem settled_stop (out : List ε) (s : List α) : Settled (.stop out) s := by
  intro c hc hs evs
  induction evs generalizing c with
  | nil => rfl
  | cons e evs ih =>
    rw [run_cons]
    cases e with
    | arrive n =>
      rw [ih (c.step (.arrive n)) hc ((stream_arrive c n).trans hs), finish_arrive]
    | turn =>
      have hturn : c.step .turn = c := turn_stop hc
      rw [hturn, ih c hc hs]

/-- A read whose result does not matter. -/
theorem settled_read {out o : List ε} {n : Nat} {next : List α → Reader α ε} {s : List α}
    (h : ∀ d, d <+: s → d.length ≤ n → next d = .stop o) : Settled (.read out n next) s := by
  intro c hc hs evs
  induction evs generalizing c with
  | nil => rfl
  | cons e evs ih =>
    rw [run_cons]
    cases e with
    | arrive n =>
      rw [ih (c.step (.arrive n)) hc ((stream_arrive c n).trans hs), finish_arrive]
    | turn =>
      show (c.turn.run evs).finish = c.finish
      by_cases hw : c.buffer = [] ∧ n ≠ 0
      · rw [turn_waits hc hw, ih c hc hs]
      · have hbuf : next (c.buffer.take n) = .stop o :=
          h _ ((List.take_prefix n _).trans ⟨c.coming, hs⟩) (List.length_take_le n _)
        have hall : next (s.take n) = .stop o :=
          h _ (List.take_prefix n s) (List.length_take_le n s)
        rw [settled_stop o (c.turn.buffer ++ c.turn.coming) c.turn
            (by rw [turn_reads hc hw, hbuf]) rfl evs, finish_reads hc hw, hs, hall,
          turn_reads hc hw, Conn.finish, hbuf, List.append_assoc]
        rfl

variable (obs : List ε → ω) (P : Prop)

/-- The reads of these sizes are the ones that matter. Each of them finds all it asks for in
the stream, and given `P`, if it comes up short then that can be told from what is sent. -/
inductive Decides : Reader α ε → List α → List Nat → Prop
  | settled {r : Reader α ε} {s : List α} : Settled r s → Decides r s []
  | read {out : List ε} {n : Nat} {next : List α → Reader α ε} {s : List α} {ws : List Nat} :
    n ≤ s.length → Decides (next (s.take n)) (s.drop n) ws →
    (P → ∀ d, d <+: s.take n → d ≠ [] → d.length < n → ∀ l, Emits (next d) l →
      obs l ≠ obs ((next (s.take n)).whole (s.drop n))) →
    Decides (.read out n next) s (n :: ws)

/-- A field that is all there. -/
theorem whole_field {out : List ε} {n : Nat} {next : List α → Reader α ε} {d : List α}
    (hd : d.length = n) (rest : List α) :
    (Reader.read out n next).whole (d ++ rest) = out ++ (next d).whole rest := by
  rw [Reader.whole, if_neg, List.take_left' hd, List.drop_left' hd]
  intro hw
  rw [(List.append_eq_nil_iff.mp hw.1).1] at hd
  exact hw.2 hd.symm

variable {obs P} in
theorem Decides.field {out : List ε} {n : Nat} {next : List α → Reader α ε} {d rest : List α}
    {ws : List Nat} (hd : d.length = n) (h : Decides obs P (next d) rest ws)
    (hcut : P → ∀ e, e <+: d → e ≠ [] → e.length < n → ∀ l, Emits (next e) l →
      obs l ≠ obs ((next d).whole rest)) :
    Decides obs P (.read out n next) (d ++ rest) (n :: ws) := by
  apply Decides.read
  · rw [List.length_append, hd]
    omega
  · rwa [List.take_left' hd, List.drop_left' hd]
  · rwa [List.take_left' hd, List.drop_left' hd]

/-- What is told apart is told apart behind the same beginning. -/
def Cancels : Prop := ∀ a b c : List ε, obs (a ++ b) = obs (a ++ c) → obs b = obs c

variable {obs P}

theorem inTime_arrive {w n : Nat} {ws : List Nat} {c : Conn α ε} {evs : List Ev} :
    InTime (w :: ws) c.buffer.length c.coming.length (.arrive n :: evs) ↔
      InTime (w :: ws) (c.step (.arrive n)).buffer.length (c.step (.arrive n)).coming.length
        evs := by
  simp only [Conn.step]
  rw [InTime, List.length_append, List.length_take, List.length_drop]

theorem inTime_turn {n : Nat} {ws : List Nat} {c : Conn α ε} {evs : List Ev}
    (hw : ¬ (c.buffer = [] ∧ n ≠ 0)) :
    InTime (n :: ws) c.buffer.length c.coming.length (.turn :: evs) ↔
      n ≤ c.buffer.length ∧ InTime ws (c.buffer.drop n).length c.coming.length evs := by
  rw [InTime, if_neg (by rwa [List.length_eq_zero_iff]), List.length_drop]

theorem inTime_waits {n : Nat} {ws : List Nat} {c : Conn α ε} {evs : List Ev}
    (hw : c.buffer = [] ∧ n ≠ 0) :
    InTime (n :: ws) c.buffer.length c.coming.length (.turn :: evs) ↔
      InTime (n :: ws) c.buffer.length c.coming.length evs := by
  rw [InTime, if_pos (by rwa [List.length_eq_zero_iff])]

/-- Where the handler goes on after a read in time. -/
theorem Decides.next {n : Nat} {next : List α → Reader α ε} {s : List α} {ws : List Nat}
    {c : Conn α ε} (h : Decides obs P (next (s.take n)) (s.drop n) ws)
    (hs : c.buffer ++ c.coming = s) (hn : n ≤ c.buffer.length) :
    Decides obs P (next (c.buffer.take n)) (c.buffer.drop n ++ c.coming) ws := by
  rwa [← hs, List.take_append_of_le_length hn, List.drop_append_of_le_length hn] at h

/-- **The same is sent** when every read that matters is in time. -/
theorem Decides.unchanged {r : Reader α ε} {s : List α} {ws : List Nat} (h : Decides obs P r s ws)
    {c : Conn α ε} (hc : c.handler = r) (hs : c.buffer ++ c.coming = s) {evs : List Ev}
    (ht : InTime ws c.buffer.length c.coming.length evs) : (c.run evs).finish = c.finish := by
  induction evs generalizing r s ws c with
  | nil => rfl
  | cons e evs ih =>
    cases h with
    | settled hset => exact hset c hc hs _
    | read hn hnext hcut =>
      rename_i out n next ws
      rw [run_cons]
      cases e with
      | arrive m =>
        rw [ih (.read hn hnext hcut) (c := c.step (.arrive m)) hc
          ((stream_arrive c m).trans hs) (inTime_arrive.mp ht), finish_arrive]
      | turn =>
        show (c.turn.run evs).finish = c.finish
        by_cases hw : c.buffer = [] ∧ n ≠ 0
        · rw [turn_waits hc hw]
          exact ih (.read hn hnext hcut) hc hs ((inTime_waits hw).mp ht)
        · obtain ⟨hle, ht⟩ := (inTime_turn hw).mp ht
          rw [← finish_turn hc hw hle, turn_reads hc hw]
          exact ih (hnext.next hs hle) rfl rfl ht

/-- **Only then**, where each short read can be told. -/
theorem Decides.inTime (hobs : Cancels obs) (hP : P) {r : Reader α ε} {s : List α} {ws : List Nat}
    (h : Decides obs P r s ws) {c : Conn α ε} (hc : c.handler = r)
    (hs : c.buffer ++ c.coming = s) {evs : List Ev}
    (ho : obs (c.run evs).finish = obs c.finish) :
    InTime ws c.buffer.length c.coming.length evs := by
  induction evs generalizing r s ws c with
  | nil => cases ws <;> (rw [InTime]; trivial)
  | cons e evs ih =>
    cases h with
    | settled hset => rw [InTime]; trivial
    | read hn hnext hcut =>
      rename_i out n next ws
      rw [run_cons] at ho
      cases e with
      | arrive m =>
        rw [← finish_arrive c m] at ho
        exact inTime_arrive.mpr (ih (.read hn hnext hcut) hc ((stream_arrive c m).trans hs) ho)
      | turn =>
        change obs (c.turn.run evs).finish = obs c.finish at ho
        by_cases hw : c.buffer = [] ∧ n ≠ 0
        · rw [turn_waits hc hw] at ho
          exact (inTime_waits hw).mpr (ih (.read hn hnext hcut) hc hs ho)
        · rw [inTime_turn hw]
          by_cases hle : n ≤ c.buffer.length
          · rw [← finish_turn hc hw hle, turn_reads hc hw] at ho
            exact ⟨hle, ih (hnext.next hs hle) rfl rfl ho⟩
          · -- the read comes up short, and that shows
            obtain ⟨l, hl, hrun⟩ := emits_run evs c.turn
            rw [turn_reads hc hw] at hl hrun
            rw [turn_reads hc hw, hrun, finish_reads hc hw, hs, List.append_assoc] at ho
            have hbuf : c.buffer <+: s.take n :=
              (List.prefix_take_iff).mpr ⟨⟨c.coming, hs⟩, by omega⟩
            rw [List.take_of_length_le (by omega)] at hl
            refine absurd (hobs _ _ _ (hobs _ _ _ ho)) (hcut hP c.buffer hbuf ?_ (by omega) l hl)
            intro hnil
            exact hw ⟨hnil, by omega⟩

end Wormhole.ShortReads
