import Wormhole.Core.Arrivals
import Wormhole.L3Protocol.Tunnel

/-!
# What the tunnel's decoder survives

`_process_buffer` of `src/wh/cli/tunnel.py` on bytes of any kind. `wire` cuts a
stream into its messages by their lengths alone. `_process_buffer` decodes the
host of an `OPEN` before it takes the message off, so a host that is not UTF-8
stays at the front for good; and it sets the result of a pending open for every
answer, which raises for a future that is done.

* `survives_iff`: one arrival raises nothing, and leaves an incomplete message,
  exactly when the hosts are UTF-8 and no pending open is answered once more
  than it can be.
* `survives_run_iff`: the same over whole runs, in which other tasks have the
  protocol between two chunks.
* `survives_stream_iff`: the same for a stream, whatever its chunks.
-/
namespace Wormhole.L3.Tunnel
open Wormhole.L1 Wormhole.Decoder

/-! ## Messages by their length -/

/-- mirrors src/wh/cli/tunnel.py:85-102 -/
def frameLen : Bytes → Option Nat
  | msgType :: _ :: _ :: body =>
    if msgType = MSG_DATA then
      if body.length < 4 then none else some (7 + unpack (body.take 4))
    else if msgType = MSG_OPEN then body.head?.map fun hostLen => 6 + hostLen.toNat
    else some 3
  | _ => none

theorem frame_cons {f : Bytes} {n : Nat} (h : frameLen f = some n) :
    ∃ msgType c1 c0 body, f = msgType :: c1 :: c0 :: body := by
  unfold frameLen at h
  split at h
  · exact ⟨_, _, _, _, rfl⟩
  · cases h

theorem frameLen_pos {buf : Bytes} {n : Nat} (h : frameLen buf = some n) : 0 < n := by
  unfold frameLen at h
  split at h
  · split at h
    · split at h
      · cases h
      · cases h; omega
    · split at h
      · obtain ⟨hostLen, -, rfl⟩ := Option.map_eq_some_iff.mp h
        omega
      · cases h; omega
  · cases h

theorem frameLen_append {buf : Bytes} {n : Nat} (tl : Bytes) (h : frameLen buf = some n) :
    frameLen (buf ++ tl) = some n := by
  unfold frameLen at h
  split at h
  · rename_i msgType c1 c0 body
    rw [List.cons_append, List.cons_append, List.cons_append, frameLen]
    split at h
    · rename_i hd
      rw [if_pos hd]
      split at h
      · cases h
      · rename_i hlen
        cases h
        rw [if_neg (by rw [List.length_append]; omega), take_append_le tl (by omega)]
    · rename_i hd
      rw [if_neg hd]
      split at h
      · rename_i ho
        rw [if_pos ho]
        cases body with
        | nil => cases h
        | cons hostLen body => exact h
      · rename_i ho
        rw [if_neg ho]
        exact h
  · cases h

theorem frameLen_take {buf : Bytes} {n : Nat} (h : frameLen buf = some n) (hn : n ≤ buf.length) :
    frameLen (buf.take n) = some n := by
  unfold frameLen at h
  split at h
  · rename_i msgType c1 c0 body
    simp only [List.length_cons] at hn
    split at h
    · rename_i hd
      split at h
      · cases h
      · rename_i hlen
        cases h
        rw [show 7 + unpack (body.take 4) = unpack (body.take 4) + 4 + 3 by omega,
          List.take_succ_cons, List.take_succ_cons, List.take_succ_cons, frameLen, if_pos hd,
          List.take_take, Nat.min_eq_left (by omega), if_neg (by rw [List.length_take]; omega)]
        exact congrArg some (by omega)
    · rename_i hd
      split at h
      · rename_i ho
        obtain ⟨hostLen, hhead, rfl⟩ := Option.map_eq_some_iff.mp h
        cases body with
        | nil => cases hhead
        | cons b body =>
          obtain rfl : b = hostLen := Option.some.inj hhead
          rw [show 6 + b.toNat = b.toNat + 2 + 1 + 3 by omega, List.take_succ_cons,
            List.take_succ_cons, List.take_succ_cons, frameLen, if_neg hd, if_pos ho,
            List.take_succ_cons, List.head?_cons, Option.map_some]
          exact congrArg some (by omega)
      · rename_i ho
        cases h
        rw [List.take_succ_cons, List.take_succ_cons, List.take_succ_cons, frameLen, if_neg hd,
          if_neg ho]
  · cases h

/-- The messages of a byte stream, whatever they hold. -/
def wire : Decoder UInt8 Bytes Empty :=
  measured ⟨frameLen, rfl, frameLen_pos, frameLen_append, frameLen_take⟩

theorem wire_never (buf : Bytes) (e : Empty) : wire.look buf ≠ .fail e := nomatch e

/-- The loop looks for complete messages by the same lengths. -/
theorem look_spec (buf : Bytes) :
    match look buf with
    | .more => ∀ n, frameLen buf = some n → buf.length < n
    | .fail _ => ∃ n, frameLen buf = some n ∧ n ≤ buf.length
    | .item _ rest => ∃ n, frameLen buf = some n ∧ n ≤ buf.length ∧ rest = buf.drop n := by
  match buf with
  | [] | [_] | [_, _] => intro n h; cases h
  | msgType :: c1 :: c0 :: body =>
    by_cases hd : msgType = MSG_DATA
    · simp only [look, frameLen, if_pos hd]
      by_cases h4 : body.length < 4
      · simp only [if_pos h4]
        exact fun n h => by cases h
      · simp only [if_neg h4]
        by_cases hlen : body.length < 4 + unpack (body.take 4)
        · simp only [if_pos hlen]
          intro n h
          cases h
          simp only [List.length_cons]
          omega
        · simp only [if_neg hlen]
          refine ⟨_, rfl, by simp only [List.length_cons]; omega, ?_⟩
          rw [show 7 + unpack (body.take 4) = 4 + unpack (body.take 4) + 3 by omega]
          rfl
    · by_cases ho : msgType = MSG_OPEN
      · simp only [look, frameLen, if_neg hd, if_pos ho]
        cases body with
        | nil => exact fun n h => by cases h
        | cons hostLen rest =>
          dsimp only [List.head?_cons, Option.map_some]
          by_cases hlen : rest.length < hostLen.toNat + 2
          · simp only [if_pos hlen]
            intro n h
            cases h
            simp only [List.length_cons]
            omega
          · simp only [if_neg hlen]
            cases decode (rest.take hostLen.toNat) with
            | none => exact ⟨_, rfl, by simp only [List.length_cons]; omega⟩
            | some host =>
              refine ⟨_, rfl, by simp only [List.length_cons]; omega, ?_⟩
              rw [show 6 + hostLen.toNat = hostLen.toNat + 2 + 4 by omega]
              rfl
      · simp only [look, frameLen, if_neg hd, if_neg ho]
        have h3 : ∃ n, some 3 = some n ∧ n ≤ (msgType :: c1 :: c0 :: body).length ∧
            body = (msgType :: c1 :: c0 :: body).drop n :=
          ⟨3, rfl, by simp only [List.length_cons]; omega, rfl⟩
        by_cases hk : msgType = MSG_OPEN_OK
        · simpa only [if_pos hk] using h3
        · by_cases hf : msgType = MSG_OPEN_FAIL
          · simpa only [if_neg hk, if_pos hf] using h3
          · by_cases hc : msgType = MSG_CLOSE
            · simpa only [if_neg hk, if_neg hf, if_pos hc] using h3
            · simpa only [if_neg hk, if_neg hf, if_neg hc] using h3

/-! ## One message -/

/-- The call that a message makes. -/
def call (f : Bytes) : Option Dispatch :=
  match look f with
  | .item a _ => a
  | _ => none

/-- The host of an `OPEN`. -/
def hostOf (f : Bytes) : Bytes := (f.drop 4).take (f.length - 6)

/-- A host that is not UTF-8 raises before the message is taken off. -/
def Readable (f : Bytes) : Prop := f.head? = some MSG_OPEN → (decode (hostOf f)).isSome = true

instance : DecidablePred Readable := fun _ => inferInstanceAs (Decidable (_ → _))

/-- An `OPEN_OK` or `OPEN_FAIL` for `channelId`. -/
def answers (channelId : Nat) : Bytes → Bool
  | [msgType, c1, c0] =>
    (msgType = MSG_OPEN_OK ∨ msgType = MSG_OPEN_FAIL) ∧ unpack [c1, c0] = channelId
  | _ => false

def isAnswer (channelId : Nat) : Option Dispatch → Bool
  | some (.handleOpenOk ch) | some (.handleOpenFail ch) => ch = channelId
  | _ => false

theorem look_more_iff (buf : Bytes) : look buf = .more ↔ wire.look buf = .more := by
  rw [wire, measured_more]
  have h := look_spec buf
  constructor
  · intro hm
    rw [hm] at h
    exact h
  · intro hlt
    cases hl : look buf with
    | more => rfl
    | fail e =>
      rw [hl] at h
      obtain ⟨n, hn, hle⟩ := h
      have := hlt n hn
      omega
    | item a rest =>
      rw [hl] at h
      obtain ⟨n, hn, hle, -⟩ := h
      have := hlt n hn
      omega

/-- A whole message is one item, unless it raises. -/
theorem look_whole {f : Bytes} (h : frameLen f = some f.length) :
    look f = .item (call f) [] ∨ ∃ e, look f = .fail e := by
  have hs := look_spec f
  cases hl : look f with
  | more =>
    rw [hl] at hs
    exact absurd (hs _ h) (Nat.lt_irrefl _)
  | fail e => exact .inr ⟨e, rfl⟩
  | item a rest =>
    rw [hl] at hs
    obtain ⟨n, hn, -, rfl⟩ := hs
    rw [h] at hn
    cases hn
    rw [call, hl, List.drop_length]
    exact .inl rfl

/-- It raises exactly when it is an `OPEN` with an unreadable host. -/
theorem look_fail_iff {f : Bytes} (h : frameLen f = some f.length) :
    (∃ e, look f = .fail e) ↔ ¬ Readable f := by
  obtain ⟨msgType, c1, c0, body, rfl⟩ := frame_cons h
  by_cases hd : msgType = MSG_DATA
  · subst hd
    have hr : Readable (MSG_DATA :: c1 :: c0 :: body) := fun h => by cases h
    simp only [look, if_true, hr, not_true_eq_false, iff_false]
    rintro ⟨e, he⟩
    split at he
    · cases he
    · split at he <;> cases he
  · by_cases ho : msgType = MSG_OPEN
    · subst ho
      rw [frameLen, if_neg hd, if_pos rfl] at h
      cases body with
      | nil => cases h
      | cons hostLen rest =>
        simp only [List.head?_cons, Option.map_some, Option.some.injEq, List.length_cons] at h
        have hlen : ¬ rest.length < hostLen.toNat + 2 := by omega
        have hhost : hostOf (MSG_OPEN :: c1 :: c0 :: hostLen :: rest) =
            rest.take hostLen.toNat := by
          rw [hostOf]
          simp only [List.length_cons, List.drop_succ_cons, List.drop_zero]
          exact congrArg (List.take · rest) (by omega)
        simp only [look, if_neg hd, if_true, if_neg hlen, Readable, List.head?_cons, hhost,
          true_imp_iff]
        cases decode (rest.take hostLen.toNat) with
        | none => exact ⟨fun _ h => (by cases h), fun _ => ⟨_, rfl⟩⟩
        | some host =>
          refine iff_of_false ?_ fun h => h rfl
          rintro ⟨e, he⟩
          cases he
    · have hr : Readable (msgType :: c1 :: c0 :: body) := fun h => absurd (Option.some.inj h) ho
      simp only [look, if_neg hd, if_neg ho, hr, not_true_eq_false, iff_false]
      rintro ⟨e, he⟩
      split at he
      · cases he
      · split at he
        · cases he
        · split at he <;> cases he

theorem answers_eq {f : Bytes} (h : frameLen f = some f.length) (channelId : Nat) :
    answers channelId f = isAnswer channelId (call f) := by
  obtain ⟨msgType, c1, c0, body, rfl⟩ := frame_cons h
  by_cases hd : msgType = MSG_DATA
  · subst hd
    have ha : answers channelId (MSG_DATA :: c1 :: c0 :: body) = false := by
      cases body <;> simp [answers, MSG_DATA, MSG_OPEN_OK, MSG_OPEN_FAIL]
    rw [ha]
    simp only [call, look, if_true]
    split
    · rename_i a rest hl
      split at hl
      · cases hl
      · split at hl <;> cases hl
        rfl
    · rfl
  · by_cases ho : msgType = MSG_OPEN
    · subst ho
      have ha : answers channelId (MSG_OPEN :: c1 :: c0 :: body) = false := by
        cases body <;> simp [answers, MSG_OPEN, MSG_OPEN_OK, MSG_OPEN_FAIL]
      rw [ha]
      simp only [call, look, if_neg hd, if_true]
      split
      · rename_i a rest hl
        cases body with
        | nil => cases hl
        | cons hostLen body =>
          dsimp only at hl
          split at hl
          · cases hl
          · split at hl <;> cases hl
            rfl
      · rfl
    · rw [frameLen, if_neg hd, if_neg ho] at h
      obtain rfl : body = [] := by
        simp only [List.length_cons, Option.some.injEq] at h
        exact List.length_eq_zero_iff.mp (by omega)
      rw [call, look, if_neg hd, if_neg ho, answers]
      by_cases hk : msgType = MSG_OPEN_OK
      · simp [hk, isAnswer]
      · by_cases hf : msgType = MSG_OPEN_FAIL
        · simp [hf, isAnswer, MSG_OPEN_FAIL, MSG_OPEN_OK]
        · by_cases hc : msgType = MSG_CLOSE
          · simp [hc, isAnswer, MSG_CLOSE, MSG_OPEN_FAIL, MSG_OPEN_OK]
          · simp [hk, hf, hc, isAnswer]

/-! ## Answers to pending opens -/

/-- How often a future can still be given a result. -/
def allowed : Option Bool → Nat
  | none => 1
  | some _ => 0

/-- No pending open is answered more often than it can be. -/
def Bounded (pending : Dict Nat (Option Bool)) (count : Nat → Nat) : Prop :=
  ∀ ch r, pending.get? ch = some r → count ch ≤ allowed r

theorem setResult_bounded (t : TunnelProtocol) (ch : Nat) (success : Bool) (count : Nat → Nat) :
    ((setResult t ch success).2 = none ∧ Bounded (setResult t ch success).1.pendingOpens count) ↔
      Bounded t.pendingOpens fun j => (if ch = j then 1 else 0) + count j := by
  unfold Bounded
  cases hg : t.pendingOpens.get? ch with
  | none =>
    have hs : setResult t ch success = (t, none) := by rw [setResult, hg]
    simp only [hs, true_and]
    refine forall_congr' fun j => forall_congr' fun r => imp_congr_right fun hr => ?_
    have hne : ch ≠ j := by rintro rfl; rw [hg] at hr; cases hr
    rw [if_neg hne, Nat.zero_add]
  | some r =>
    cases r with
    | some b =>
      have hs : setResult t ch success = (t, some .invalidStateError) := by rw [setResult, hg]
      simp only [hs]
      refine ⟨fun h => (by cases h.1), fun h => ?_⟩
      have := h ch _ hg
      rw [if_pos rfl, allowed] at this
      omega
    | none =>
      have hs : setResult t ch success =
          ({ t with pendingOpens := t.pendingOpens.set ch (some success) }, none) := by
        rw [setResult, hg]
      simp only [hs, true_and, Dict.get?_set]
      constructor <;> intro h j r hr
      · by_cases hj : ch = j
        · subst hj
          rw [hg] at hr
          cases hr
          have := h ch (some success) (if_pos rfl)
          rw [allowed] at this
          rw [if_pos rfl, allowed]
          omega
        · rw [if_neg hj, Nat.zero_add]
          exact h j r (by rw [if_neg hj]; exact hr)
      · split at hr
        · rename_i hj
          cases hr
          subst hj
          have := h ch none hg
          rw [if_pos rfl, allowed] at this
          rw [allowed]
          omega
        · exact Nat.le_trans (Nat.le_add_left _ _) (h j r hr)

/-- An item is an answer, or leaves the pending opens alone. -/
theorem handle_cases (t : TunnelProtocol) (a : Option Dispatch) :
    (∃ ch success t', handle t a = setResult t' ch success ∧ t'.pendingOpens = t.pendingOpens ∧
      ∀ j, isAnswer j a = decide (ch = j)) ∨
    ((handle t a).2 = none ∧ (handle t a).1.pendingOpens = t.pendingOpens ∧
      ∀ j, isAnswer j a = false) := by
  cases a with
  | none => exact .inr ⟨rfl, rfl, fun _ => rfl⟩
  | some d =>
    cases d with
    | handleData ch data =>
      refine .inr ?_
      simp only [handle, dispatch]
      split <;> exact ⟨rfl, rfl, fun _ => rfl⟩
    | handleOpen ch host port => exact .inr ⟨rfl, rfl, fun _ => rfl⟩
    | handleOpenOk ch => exact .inl ⟨ch, true, _, rfl, rfl, fun _ => rfl⟩
    | handleOpenFail ch => exact .inl ⟨ch, false, _, rfl, rfl, fun _ => rfl⟩
    | handleClose ch =>
      refine .inr ?_
      simp only [handle, dispatch]
      split <;> exact ⟨rfl, rfl, fun _ => rfl⟩

theorem calm_iff_bounded (t : TunnelProtocol) (as : List (Option Dispatch)) :
    Calm handle t as ↔ Bounded t.pendingOpens fun j => as.countP (isAnswer j) := by
  induction as generalizing t with
  | nil => exact ⟨fun _ _ _ _ => Nat.zero_le _, fun _ => trivial⟩
  | cons a as ih =>
    rw [Calm, ih]
    rcases handle_cases t a with ⟨ch, success, t', he, hp, hj⟩ | ⟨h1, h2, hj⟩
    · rw [he, setResult_bounded, hp]
      simp only [List.countP_cons, hj, decide_eq_true_eq, Nat.add_comm]
    · rw [h1, h2]
      simp only [true_and, List.countP_cons, hj, Bool.false_eq_true, if_false, Nat.add_zero]

/-! ## One arrival -/

/-- What may come in: readable hosts, and no answer that is one too many. -/
structure Clean (pending : Dict Nat (Option Bool)) (stream : Bytes) : Prop where
  hosts : ∀ f ∈ wire.items stream, Readable f
  answers : Bounded pending fun j => (wire.items stream).countP (answers j)

/-- Nothing is raised, no complete message is left in the buffer, and each one
has made its call. -/
structure Survives (p : Peer) (chunk : Bytes) : Prop where
  calm : (onData decoder handle p chunk).2 = none
  settled : wire.look (onData decoder handle p chunk).1.buf = .more
  dispatched : (onData decoder handle p chunk).1.st.dispatched =
    p.st.dispatched ++ (wire.items (p.buf ++ chunk)).filterMap call

theorem wire_whole {buf f rest : Bytes} (h : wire.look buf = .item f rest) :
    buf = f ++ rest ∧ frameLen f = some f.length :=
  ⟨(measured_item h).1, (measured_item h).2.1⟩

theorem wire_frames {buf rest : Bytes} {fs : List Bytes} (h : wire.Decodes buf fs rest) :
    ∀ f ∈ fs, frameLen f = some f.length := by
  induction h with
  | nil => intro f hf; cases hf
  | cons hl _ ih =>
    intro f hf
    rcases List.mem_cons.mp hf with rfl | hf
    · exact (wire_whole hl).2
    · exact ih f hf

/-- Taking items off is taking readable messages off. -/
theorem decodes_iff {buf rest : Bytes} {as : List (Option Dispatch)} :
    decoder.Decodes buf as rest ↔ ∃ fs, wire.Decodes buf fs rest ∧ as = fs.map call ∧
      ∀ f ∈ fs, frameLen f = some f.length ∧ Readable f := by
  constructor
  · intro h
    induction h with
    | nil buf => exact ⟨[], .nil buf, rfl, fun _ hf => (by cases hf)⟩
    | @cons buf a rest as tl hl _ ih =>
      obtain ⟨fs, hd, rfl, hfs⟩ := ih
      -- the message that the lengths cut off is the item
      cases hw : wire.look buf with
      | more =>
        rw [decoder_look, (look_more_iff buf).mpr hw] at hl
        cases hl
      | fail e => exact nomatch e
      | item f rest' =>
        obtain ⟨hbuf, hf⟩ := wire_whole hw
        have hread : Readable f := by
          by_contra hno
          obtain ⟨e, he⟩ := (look_fail_iff hf).mpr hno
          rw [hbuf, decoder_look, look_fail rest' he] at hl
          cases hl
        have hitem : look f = .item (call f) [] :=
          (look_whole hf).resolve_right fun h => (look_fail_iff hf).mp h hread
        rw [hbuf, decoder_look, look_item rest' hitem] at hl
        cases hl
        refine ⟨f :: fs, .cons hw hd, rfl, fun g hg => ?_⟩
        rcases List.mem_cons.mp hg with rfl | hg
        · exact ⟨hf, hread⟩
        · exact hfs g hg
  · rintro ⟨fs, hd, rfl, hfs⟩
    induction hd with
    | nil buf => exact .nil buf
    | @cons buf f rest fs tl hw _ ih =>
      obtain ⟨hbuf, -⟩ := wire_whole hw
      obtain ⟨hf, hread⟩ := hfs f List.mem_cons_self
      have hitem : look f = .item (call f) [] :=
        (look_whole hf).resolve_right fun h => (look_fail_iff hf).mp h hread
      refine .cons ?_ (ih fun g hg => hfs g (List.mem_cons_of_mem f hg))
      rw [hbuf, decoder_look, look_item rest hitem]
      rfl

theorem countP_call {fs : List Bytes} (h : ∀ f ∈ fs, frameLen f = some f.length) (j : Nat) :
    fs.countP (answers j) = (fs.map call).countP (isAnswer j) := by
  rw [List.countP_map]
  exact List.countP_congr fun f hf => by rw [answers_eq (h f hf) j]; rfl

/-- What is clean can be taken off without raising. -/
theorem clean_iff (t : TunnelProtocol) (stream : Bytes) :
    Clean t.pendingOpens stream ↔ ∃ as rest, decoder.Decodes stream as rest ∧
      decoder.look rest = .more ∧ Calm handle t as := by
  constructor
  · rintro ⟨hhosts, hanswers⟩
    obtain ⟨rest, hw, hm⟩ := items_decodes wire_never stream
    have hwhole := wire_frames hw
    refine ⟨_, rest, decodes_iff.mpr ⟨_, hw, rfl, fun f hf => ⟨hwhole f hf, hhosts f hf⟩⟩,
      (look_more_iff rest).mpr hm, ?_⟩
    rw [calm_iff_bounded]
    simpa only [countP_call hwhole] using hanswers
  · rintro ⟨as, rest, hd, hm, hc⟩
    obtain ⟨fs, hw, rfl, hfs⟩ := decodes_iff.mp hd
    have hitems := hw.items ((look_more_iff rest).mp hm)
    refine ⟨fun f hf => (hfs f (hitems ▸ hf)).2, ?_⟩
    rw [hitems]
    simp only [countP_call fun f hf => (hfs f hf).1]
    exact (calm_iff_bounded _ _).mp hc

/-- Raising nothing is surviving. -/
theorem survives_of_none {p : Peer} {chunk : Bytes} (h : (onData decoder handle p chunk).2 = none) :
    Survives p chunk := by
  obtain ⟨as, rest, hd, hm, hc⟩ := onData_none_iff.mp h
  have hfeed := onData_calm hd hm hc
  have hmore := (look_more_iff rest).mp hm
  obtain ⟨fs, hw, rfl, -⟩ := decodes_iff.mp hd
  refine ⟨h, by rw [hfeed]; exact hmore, ?_⟩
  rw [hfeed, handled_dispatched, List.filterMap_map, hw.items hmore]
  rfl

/-- **One arrival.** It is survived exactly when what is then in the buffer is clean. -/
theorem survives_iff (p : Peer) (chunk : Bytes) :
    Survives p chunk ↔ Clean p.st.pendingOpens (p.buf ++ chunk) := by
  rw [clean_iff]
  exact ⟨fun h => onData_none_iff.mp h.calm, fun h => survives_of_none (onData_none_iff.mpr h)⟩

/-! ## Runs -/

/-- **Headline.** In a run every arrival is survived exactly when each finds a clean
buffer: the hosts in it are UTF-8, and it has no answer to a pending open that
is done, or second answer to one that is not. -/
theorem survives_run_iff (p : Peer) (es : List (Ev TunnelProtocol UInt8)) :
    (∀ pre chunk post, es = pre ++ .data chunk :: post →
      Survives (after decoder handle p pre) chunk) ↔
    ∀ pre chunk post, es = pre ++ .data chunk :: post →
      Clean (after decoder handle p pre).st.pendingOpens
        ((after decoder handle p pre).buf ++ chunk) := by
  simp only [survives_iff]

/-- While no other task has the protocol, the chunks do not matter. -/
theorem survives_stream_iff (t : TunnelProtocol) (chunks : List Bytes) :
    (∀ pre chunk post, chunks = pre ++ chunk :: post → Survives (feed t pre) chunk) ↔
      Clean t.pendingOpens chunks.flatten := by
  have hnone : ∀ p chunk, Survives p chunk ↔ (onData decoder handle p chunk).2 = none :=
    fun p chunk => ⟨fun h => h.calm, survives_of_none⟩
  simp only [hnone, clean_iff]
  exact feed_none_iff (r := ⟨t, []⟩) rfl

/-! ## An unreadable host, a second answer -/

/-- An `OPEN` of channel 1 whose host is one byte that begins no character, with
a `CLOSE` behind it. -/
def unreadable : Bytes := [0x01, 0, 1, 1, 0xff, 0, 80, 0x05, 0, 1]

/-- It stays where it is, and the `CLOSE` with it. -/
theorem unreadable_stays : ¬ ∀ (t : TunnelProtocol) (chunks pre post : List Bytes) (chunk : Bytes),
    chunks = pre ++ chunk :: post → Survives (feed t pre) chunk := by
  intro h
  have hs := (h init [unreadable] [] [] unreadable rfl).settled
  have hbuf : (onData decoder handle (feed init []) unreadable).1.buf = unreadable := rfl
  rw [hbuf] at hs
  cases hs

/-- The second `OPEN_OK` raises, and the `CLOSE` behind it waits for the next chunk. -/
example :
    let p : Peer := ⟨{ init with pendingOpens := Dict.empty.set 1 none }, []⟩
    (onData decoder handle p [2, 0, 1, 2, 0, 1, 5, 0, 1]).2 = some .invalidStateError ∧
      (onData decoder handle p [2, 0, 1, 2, 0, 1, 5, 0, 1]).1.buf = [5, 0, 1] :=
  ⟨rfl, rfl⟩

end Wormhole.L3.Tunnel
