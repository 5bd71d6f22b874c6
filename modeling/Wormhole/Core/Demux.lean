import Wormhole.Core.Framing
import Wormhole.Core.LTS

/-!
# Demultiplexing one stream to sinks that come and go

The items of one stream carry bytes for channels. A receiver hands an item's
bytes to the channel's sink if it has one at that moment, and drops them
otherwise (`Demux`). Sinks are registered and removed by the receiver's other
tasks, between two chunks of the stream and also by items of the stream.

`Link` puts a sender and the stream in front of it: items are written whole,
the stream is cut into chunks anywhere, and the receiver's tasks step whenever
they like. `lossless_iff`: in every run, what a channel's sinks were given and
what is still under way is what was sent to that channel if and only if no
chunk brought bytes for it while it had no sink.
-/
namespace Wormhole

universe u v w x y z

variable {σ : Type u} {α : Type v} {ε : Type w} {κ : Type x} {β : Type y} [DecidableEq κ]

/-- The bytes that an item carries for channel `c`. -/
def bytesFor (payload : α → Option (κ × List β)) (c : κ) (a : α) : List β :=
  match payload a with
  | some (c', bs) => if c' = c then bs else []
  | none => []

/-- A handler of items with sinks. `out s c` is what the sinks of `c` were given. -/
structure Demux (σ : Type u) (α : Type v) (ε : Type w) (κ : Type x) (β : Type y)
    [DecidableEq κ] where
  handle : σ → α → σ × Option ε
  payload : α → Option (κ × List β)
  sink : σ → κ → Bool
  out : σ → κ → List β
  out_handle : ∀ s a c,
    out (handle s a).1 c = out s c ++ (if sink s c then bytesFor payload c a else [])

namespace Demux
open Decoder

variable (X : Demux σ α ε κ β)

/-- The bytes for `c` among the items. -/
def sentTo (c : κ) (as : List α) : List β := as.flatMap (bytesFor X.payload c)

/-- The bytes for `c` that are handed on when the items are handled in `s`. -/
def keptTo (c : κ) : σ → List α → List β
  | _, [] => []
  | s, a :: as =>
    (if X.sink s c then bytesFor X.payload c a else []) ++ keptTo c (X.handle s a).1 as

/-- Whenever an item brings bytes for `c`, it has a sink. -/
def Registered (c : κ) : σ → List α → Prop
  | _, [] => True
  | s, a :: as =>
    (bytesFor X.payload c a ≠ [] → X.sink s c = true) ∧ Registered c (X.handle s a).1 as

theorem out_handled (c : κ) (s : σ) (as : List α) :
    X.out (handled X.handle s as) c = X.out s c ++ X.keptTo c s as := by
  induction as generalizing s with
  | nil => simp [handled, keptTo]
  | cons a as ih => rw [handled, ih, X.out_handle, keptTo, List.append_assoc]

theorem sentTo_cons (c : κ) (a : α) (as : List α) :
    X.sentTo c (a :: as) = bytesFor X.payload c a ++ X.sentTo c as := by
  simp [sentTo]

theorem sentTo_append (c : κ) (as bs : List α) :
    X.sentTo c (as ++ bs) = X.sentTo c as ++ X.sentTo c bs := by
  simp [sentTo]

/-- What is handed on is part of what was sent, and all of it exactly when the
channel is registered throughout. -/
theorem keptTo_sentTo (c : κ) (s : σ) (as : List α) :
    (X.keptTo c s as).Sublist (X.sentTo c as) ∧
      (X.keptTo c s as = X.sentTo c as ↔ X.Registered c s as) := by
  induction as generalizing s with
  | nil => exact ⟨List.Sublist.refl _, fun _ => trivial, fun _ => rfl⟩
  | cons a as ih =>
    obtain ⟨ih1, ih2⟩ := ih (X.handle s a).1
    have hsub : (if X.sink s c then bytesFor X.payload c a else []).Sublist
        (bytesFor X.payload c a) := by
      split
      · exact List.Sublist.refl _
      · exact List.nil_sublist _
    have heq : (if X.sink s c then bytesFor X.payload c a else []) = bytesFor X.payload c a ↔
        (bytesFor X.payload c a ≠ [] → X.sink s c = true) := by
      cases hs : X.sink s c with
      | true => simp
      | false =>
        simp only [Bool.false_eq_true, if_false, imp_false, not_not]
        exact eq_comm
    rw [keptTo, sentTo_cons, Registered, LTS.append_eq_of_sublist hsub ih1, heq, ih2]
    exact ⟨hsub.append ih1, Iff.rfl⟩

end Demux

/-! ## A sender, a stream and the receiver -/

/-- `emit s f a`: the far side, in state `f`, writes item `a` as some bytes.
`act`: a step of one of the receiver's own tasks. -/
structure Link (σ : Type u) (α : Type v) (ε : Type w) (κ : Type x) (β : Type y)
    (φ : Type z) (ℓ : Type z) [DecidableEq κ] extends Demux σ α ε κ β where
  decoder : Decoder β α ε
  emit : σ → φ → α → Option (φ × List β)
  act : σ → ℓ → Option σ
  emit_look : ∀ {s f a f' bs}, emit s f a = some (f', bs) →
    ∀ tl, decoder.look (bs ++ tl) = .item a tl
  act_out : ∀ {s l t}, act s l = some t → ∀ c, out t c = out s c

namespace Link
open Decoder

variable {φ ℓ : Type z}

/-- The receiver with its buffer, the bytes under way, the far side. -/
structure St (σ : Type u) (β : Type y) (φ : Type z) where
  rx : Rx σ β
  wire : List β
  far : φ

inductive Lbl (α : Type v) (ℓ : Type z)
  | far (a : α)
  | deliver (n : Nat)
  | act (l : ℓ)

variable (L : Link σ α ε κ β φ ℓ)

/-- What reaches the receiver next is any number of the bytes under way. -/
def step (s : St σ β φ) : Lbl α ℓ → Option (St σ β φ)
  | .far a => (L.emit s.rx.st s.far a).map fun (f, bs) => ⟨s.rx, s.wire ++ bs, f⟩
  | .deliver n =>
    some ⟨(onData L.decoder L.handle s.rx (s.wire.take n)).1, s.wire.drop n, s.far⟩
  | .act l => (L.act s.rx.st l).map fun st => { s with rx := { s.rx with st := st } }

/-- Started with nothing received and nothing under way. -/
def lts (st : σ) (f : φ) : LTS (St σ β φ) (Lbl α ℓ) :=
  .ofStep (· = ⟨⟨st, []⟩, [], f⟩) L.step

/-- The bytes that a step writes for `c`. -/
def sent (c : κ) (_ : St σ β φ) : Lbl α ℓ → List β
  | .far a => bytesFor L.payload c a
  | _ => []

/-- The items that a step hands to the receiver. -/
def arriving (s : St σ β φ) : Lbl α ℓ → List α
  | .deliver n => taken L.decoder L.handle s.rx (s.wire.take n)
  | _ => []

/-- The bytes for `c` that are under way or in the buffer. -/
def underWay (c : κ) (s : St σ β φ) : List β :=
  L.sentTo c (L.decoder.items (s.rx.buf ++ s.wire))

/-- The condition on a step: bytes for `c` reach the receiver only while `c`
has a sink. -/
def Registers (c : κ) (s : St σ β φ) (l : Lbl α ℓ) : Prop :=
  L.Registered c s.rx.st (L.arriving s l)

/-- The stream is made of whole items. -/
def Whole (s : St σ β φ) : Prop :=
  L.decoder.Decodes (s.rx.buf ++ s.wire) (L.decoder.items (s.rx.buf ++ s.wire)) []

variable {L}

theorem whole_iff {s : St σ β φ} :
    L.Whole s ↔ ∃ as, L.decoder.Decodes (s.rx.buf ++ s.wire) as [] := by
  constructor
  · intro h
    exact ⟨_, h⟩
  · rintro ⟨as, h⟩
    unfold Whole
    rwa [h.items L.decoder.look_nil]

/-- One step of the stream: what is under way, and what a step writes, is what
the step hands over and what is then under way. -/
theorem step_items {s t : St σ β φ} {l : Lbl α ℓ} (hw : L.Whole s) (h : L.step s l = some t) :
    L.Whole t ∧ L.decoder.items (s.rx.buf ++ s.wire) ++ (match l with | .far a => [a] | _ => []) =
      L.arriving s l ++ L.decoder.items (t.rx.buf ++ t.wire) := by
  cases l with
  | far a =>
    obtain ⟨⟨f, bs⟩, he, rfl⟩ := Option.map_eq_some_iff.mp h
    have hl := L.emit_look he []
    rw [List.append_nil] at hl
    have hd : L.decoder.Decodes (s.rx.buf ++ (s.wire ++ bs))
        (L.decoder.items (s.rx.buf ++ s.wire) ++ [a]) [] := by
      rw [← List.append_assoc]
      exact (hw.append bs).trans (.cons hl (.nil _))
    exact ⟨whole_iff.mpr ⟨_, hd⟩, (hd.items L.decoder.look_nil).symm⟩
  | deliver n =>
    cases h
    obtain ⟨h1, -⟩ := onData_taken (D := L.decoder) (H := L.handle) s.rx (s.wire.take n)
    have h2 := h1.append (s.wire.drop n)
    rw [List.append_assoc, List.take_append_drop] at h2
    obtain ⟨cs, hcs, hd⟩ := h2.extends hw L.decoder.look_nil
    refine ⟨whole_iff.mpr ⟨_, hd⟩, ?_⟩
    simp only [List.append_nil]
    rw [hd.items L.decoder.look_nil]
    exact hcs
  | act l =>
    obtain ⟨st, -, rfl⟩ := Option.map_eq_some_iff.mp h
    exact ⟨hw, by simp [arriving]⟩

theorem step_underWay {s t : St σ β φ} {l : Lbl α ℓ} (c : κ) (hw : L.Whole s)
    (h : L.step s l = some t) :
    L.underWay c s ++ L.sent c s l = L.sentTo c (L.arriving s l) ++ L.underWay c t := by
  obtain ⟨-, hi⟩ := step_items hw h
  unfold underWay
  rw [← L.sentTo_append, ← hi, L.sentTo_append]
  cases l <;> simp [sent, Demux.sentTo]

theorem step_out {s t : St σ β φ} {l : Lbl α ℓ} (c : κ) (h : L.step s l = some t) :
    L.out t.rx.st c = L.out s.rx.st c ++ L.keptTo c s.rx.st (L.arriving s l) := by
  cases l with
  | far a =>
    obtain ⟨⟨f, bs⟩, -, rfl⟩ := Option.map_eq_some_iff.mp h
    simp [arriving, Demux.keptTo]
  | deliver n =>
    cases h
    rw [(onData_taken (D := L.decoder) (H := L.handle) s.rx (s.wire.take n)).2]
    exact L.out_handled c s.rx.st _
  | act l =>
    obtain ⟨st, ha, rfl⟩ := Option.map_eq_some_iff.mp h
    simp [arriving, Demux.keptTo, L.act_out ha]

/-- What the sinks of `c` hold is what the run handed on. -/
theorem run_out {s t : St σ β φ} {ls : List (Lbl α ℓ)} (c : κ)
    {init : St σ β φ → Prop} (hr : (LTS.ofStep init L.step).Run s ls t) :
    L.out t.rx.st c = L.out s.rx.st c ++
      LTS.gather L.step (fun s l => L.keptTo c s.rx.st (L.arriving s l)) s ls := by
  induction hr with
  | nil s => simp [LTS.gather]
  | @cons s t r l ls hst _ ih =>
    have hst' : L.step s l = some t := hst
    simp only [LTS.gather, hst']
    rw [ih, step_out c hst', List.append_assoc]

/-- **No loss but between sinks.** A run has put everything sent to `c`, less
what is still under way, into the sinks of `c` if and only if bytes for `c`
reached the receiver only while `c` had a sink. -/
theorem lossless_iff {st : σ} {f : φ} (c : κ) (h0 : L.out st c = []) {t : St σ β φ}
    {ls : List (Lbl α ℓ)} (hr : (L.lts st f).Run ⟨⟨st, []⟩, [], f⟩ ls t) :
    L.out t.rx.st c ++ L.underWay c t = LTS.gather L.step (L.sent c) ⟨⟨st, []⟩, [], f⟩ ls ↔
      ((L.lts st f).restrict (L.Registers c)).Run ⟨⟨st, []⟩, [], f⟩ ls t := by
  have hw : L.Whole ⟨⟨st, []⟩, [], f⟩ := whole_iff.mpr ⟨[], .nil _⟩
  have hu : L.underWay c ⟨⟨st, []⟩, [], f⟩ = [] := by
    have : L.decoder.items [] = [] := (Decodes.nil []).items L.decoder.look_nil
    simp [underWay, this, Demux.sentTo]
  have hl := LTS.Run.lossless_iff (L.underWay c) (L.sent c)
    (fun s l => L.sentTo c (L.arriving s l)) (fun s l => L.keptTo c s.rx.st (L.arriving s l))
    (L.Registers c) (fun s l t h hw => (step_items hw h).1) (fun s l t h hw => step_underWay c hw h)
    (fun s l => (L.keptTo_sentTo c s.rx.st _).1) (fun s l => (L.keptTo_sentTo c s.rx.st _).2)
    hr hw
  rw [hu, List.nil_append] at hl
  rw [run_out c hr, h0, List.nil_append]
  exact hl

end Link
end Wormhole
