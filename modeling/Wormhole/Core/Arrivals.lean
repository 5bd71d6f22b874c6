import Wormhole.Core.Framing

/-!
# Arrivals among other tasks

The receiver of `Framing` in a program: a chunk arrives, or another task has
the handler's state, which leaves the buffer alone (`Ev`). Items are written
one after another with `enc`.

* `handed_decodes`: the items handed to the handler and the buffer are always
  the bytes that came in.
* `inStep_iff`: after every arrival the receiver has handled exactly the items
  that are there as a whole and keeps the incomplete tail, exactly when no
  arrival has an item raise that is not its last.
-/
namespace Wormhole.Decoder

universe u v w x

inductive Ev (σ : Type x) (β : Type u)
  | data (chunk : List β)
  | task (f : σ → σ)

variable {β : Type u} {α : Type v} {ε : Type w} {σ : Type x}

/-- The bytes that came in. -/
def fed : List (Ev σ β) → List β
  | [] => []
  | .data chunk :: es => chunk ++ fed es
  | .task _ :: es => fed es

section
variable (D : Decoder β α ε) (H : σ → α → σ × Option ε)

def after (r : Rx σ β) : List (Ev σ β) → Rx σ β
  | [] => r
  | .data chunk :: es => after (onData D H r chunk).1 es
  | .task f :: es => after ⟨f r.st, r.buf⟩ es

/-- The items handed to the handler. -/
def handed (r : Rx σ β) : List (Ev σ β) → List α
  | [] => []
  | .data chunk :: es => taken D H r chunk ++ handed (onData D H r chunk).1 es
  | .task f :: es => handed ⟨f r.st, r.buf⟩ es

/-- The first `k` items and an incomplete one. -/
structure Cut (enc : α → List β) (as : List α) (stream : List β) (k : Nat) (tail : List β) :
    Prop where
  bytes : stream = (as.take k).flatMap enc ++ tail
  incomplete : match as[k]? with
    | some a => tail.length < (enc a).length
    | none => tail = []

/-- The receiver has handled what came in as a whole, once and in order, and its
buffer is the incomplete tail. -/
def InStep (enc : α → List β) (as : List α) (s : σ) (es : List (Ev σ β)) : Prop :=
  ∃ k tail, Cut enc as (fed es) k tail ∧ handed D H ⟨s, []⟩ es = as.take k ∧
    (after D H ⟨s, []⟩ es).buf = tail

end

variable {D : Decoder β α ε} {H : σ → α → σ × Option ε}

theorem fed_append (es fs : List (Ev σ β)) : fed (es ++ fs) = fed es ++ fed fs := by
  induction es with
  | nil => rfl
  | cons e es ih =>
    cases e with
    | data chunk => simp only [List.cons_append, fed, ih, List.append_assoc]
    | task f => exact ih

theorem after_append (r : Rx σ β) (es fs : List (Ev σ β)) :
    after D H r (es ++ fs) = after D H (after D H r es) fs := by
  induction es generalizing r with
  | nil => rfl
  | cons e es ih => cases e <;> exact ih _

theorem handed_decodes (r : Rx σ β) (es : List (Ev σ β)) :
    D.Decodes (r.buf ++ fed es) (handed D H r es) (after D H r es).buf := by
  induction es generalizing r with
  | nil =>
    rw [fed, List.append_nil]
    exact .nil r.buf
  | cons e es ih =>
    cases e with
    | data chunk =>
      rw [fed, ← List.append_assoc]
      exact ((onData_taken r chunk).1.append (fed es)).trans (ih _)
    | task f => exact ih ⟨f r.st, r.buf⟩

/-! ## Cutting a stream of written items -/

variable {enc : α → List β}

theorem exists_cut {as : List α} {stream : List β} (h : stream <+: as.flatMap enc) :
    ∃ k tail, Cut enc as stream k tail := by
  induction as generalizing stream with
  | nil => exact ⟨0, [], by simpa using h, rfl⟩
  | cons a as ih =>
    rw [List.flatMap_cons] at h
    by_cases hlt : stream.length < (enc a).length
    · exact ⟨0, stream, rfl, hlt⟩
    · obtain ⟨rest, rfl⟩ : enc a <+: stream :=
        List.prefix_of_prefix_length_le (List.prefix_append _ _) h (by omega)
      obtain ⟨k, tail, hb, hi⟩ := ih ((List.prefix_append_right_inj _).mp h)
      refine ⟨k + 1, tail, ?_, by simpa using hi⟩
      rw [List.take_succ_cons, List.flatMap_cons, List.append_assoc, ← hb]

theorem look_front (hD : ∀ buf e, D.look buf ≠ .fail e) {a : α}
    (ha : ∀ tl, D.look (enc a ++ tl) = .item a tl) {tail tl : List β} (h : enc a = tail ++ tl)
    (hlt : tail.length < (enc a).length) : D.look tail = .more := by
  cases hl : D.look tail with
  | more => rfl
  | fail e => exact absurd hl (hD tail e)
  | item b rest =>
    have hi := D.look_item tl hl
    have hw := ha []
    rw [List.append_nil, h, hi] at hw
    have hnil := (List.append_eq_nil_iff.mp (Look.item.inj hw).2).2
    rw [h, hnil, List.append_nil] at hlt
    exact absurd hlt (Nat.lt_irrefl _)

theorem Cut.decodes (hD : ∀ buf e, D.look buf ≠ .fail e) {as : List α}
    (henc : ∀ a ∈ as, ∀ tl, D.look (enc a ++ tl) = .item a tl) {stream tail : List β} {k : Nat}
    (hpre : stream <+: as.flatMap enc) (h : Cut enc as stream k tail) :
    D.Decodes stream (as.take k) tail ∧ D.look tail = .more := by
  constructor
  · rw [h.bytes]
    exact Decodes.of_encoded (fun a ha => henc a (List.mem_of_mem_take ha)) tail
  · have hi := h.incomplete
    split at hi
    · rename_i a hk
      obtain ⟨tl, htl⟩ := hpre
      obtain ⟨hlt, rfl⟩ := List.getElem?_eq_some_iff.mp hk
      have hsplit : as.flatMap enc =
          (as.take k).flatMap enc ++ (enc as[k] ++ (as.drop (k + 1)).flatMap enc) := by
        rw [← List.flatMap_cons, ← List.flatMap_append, ← List.drop_eq_getElem_cons hlt,
          List.take_append_drop]
      rw [h.bytes, hsplit, List.append_assoc, List.append_cancel_left_eq] at htl
      obtain ⟨t, ht⟩ : tail <+: enc as[k] :=
        List.prefix_of_prefix_length_le ⟨tl, htl⟩ (List.prefix_append _ _) (Nat.le_of_lt hi)
      exact look_front hD (henc _ (List.getElem_mem hlt)) ht.symm hi
    · rw [hi]
      exact D.look_nil

/-- What has come off a written stream is cut off it when the rest is incomplete. -/
theorem cut_iff (hD : ∀ buf e, D.look buf ≠ .fail e) {as bs : List α}
    (henc : ∀ a ∈ as, ∀ tl, D.look (enc a ++ tl) = .item a tl) {stream rest : List β}
    (hpre : stream <+: as.flatMap enc) (hd : D.Decodes stream bs rest) :
    (∃ k tail, Cut enc as stream k tail ∧ bs = as.take k ∧ rest = tail) ↔
      D.look rest = .more := by
  constructor
  · rintro ⟨k, tail, hcut, -, rfl⟩
    exact (hcut.decodes hD henc hpre).2
  · intro hm
    obtain ⟨k, tail, hcut⟩ := exists_cut hpre
    obtain ⟨hd', hm'⟩ := hcut.decodes hD henc hpre
    obtain ⟨cs, hcs, hr⟩ := hd.extends hd' hm'
    obtain ⟨rfl, rfl⟩ := hr.of_more hm
    exact ⟨k, _, hcut, by rw [hcs, List.append_nil], rfl⟩

/-! ## Runs -/

theorem look_iff_all (hD : ∀ buf e, D.look buf ≠ .fail e) (r : Rx σ β) (chunk : List β) :
    D.look (onData D H r chunk).1.buf = .more ↔
      taken D H r chunk = D.items (r.buf ++ chunk) :=
  ⟨fun h => ((onData_taken r chunk).1.items h).symm, more_of_all hD⟩

/-- **In step.** After every arrival the receiver has handled what is there as a
whole, exactly when in every arrival only the last item may raise. -/
theorem inStep_iff (hD : ∀ buf e, D.look buf ≠ .fail e) {as : List α}
    (henc : ∀ a ∈ as, ∀ tl, D.look (enc a ++ tl) = .item a tl) (s : σ) (es : List (Ev σ β))
    (hes : fed es = as.flatMap enc) :
    (∀ pre chunk post, es = pre ++ Ev.data chunk :: post →
      InStep D H enc as s (pre ++ [Ev.data chunk])) ↔
    ∀ pre chunk post, es = pre ++ Ev.data chunk :: post →
      Calm H (after D H ⟨s, []⟩ pre).st
        (D.items ((after D H ⟨s, []⟩ pre).buf ++ chunk)).dropLast := by
  refine forall_congr' fun pre => forall_congr' fun chunk => forall_congr' fun post =>
    imp_congr_right fun he => ?_
  have hpre : fed (pre ++ [Ev.data chunk]) <+: as.flatMap enc := by
    rw [← hes, he]
    exact ⟨fed post, by simp [fed_append, fed]⟩
  have hd := handed_decodes (D := D) (H := H) ⟨s, []⟩ (pre ++ [Ev.data chunk])
  rw [← onData_all_iff hD, ← look_iff_all hD]
  have hafter : after D H ⟨s, []⟩ (pre ++ [Ev.data chunk]) =
      (onData D H (after D H ⟨s, []⟩ pre) chunk).1 := by
    rw [after_append]
    rfl
  rw [← hafter]
  exact cut_iff hD henc hpre hd

end Wormhole.Decoder
