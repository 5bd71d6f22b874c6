/-!
# Incremental decoders

A byte stream arrives in chunks; a receiver appends each chunk to a buffer
and then takes complete items off its front until what is left is
incomplete. `Decoder.look` is one look at the front of the buffer: it asks
for more bytes, raises, or yields an item and the rest of the buffer. The
fields of `Decoder` say that bytes still to come cannot change a decision
already taken.

Items are handed to a synchronous handler, which may raise as well: the loop
then stops with the item already off the buffer, and runs again when the
next chunk arrives.

* `Decodes buf as rest`: the items `as` come off the front of `buf`.
* `feed_decodes`: whatever the chunks, the items handled are the first items
  of the whole stream, and the buffer is what they leave of it.
* `feed_complete`: when nothing raises, the chunks do not matter at all.
* `feed_none_iff`: that nothing raises does not depend on the chunks either.
* `headed`: the decoder of items that start with a header of a fixed length;
  `measured`: that of items whose length can be read off their front.
* `onData_none_iff`: one arrival raises nothing exactly when its items do not;
  `onData_all_iff`: it takes everything complete off exactly when no item but
  the last raises.
-/
namespace Wormhole

universe u v w x

/-- One look at the front of a buffer. -/
inductive Look (β : Type u) (α : Type v) (ε : Type w) where
  | more
  | fail (e : ε)
  | item (a : α) (rest : List β)

/-- A decoder whose decisions are final: an item is never empty and is not
affected by what follows it, nor is a failure. -/
structure Decoder (β : Type u) (α : Type v) (ε : Type w) where
  look : List β → Look β α ε
  look_nil : look [] = .more
  shrinks : ∀ {buf a rest}, look buf = .item a rest → rest.length < buf.length
  look_item : ∀ {buf a rest} (tl), look buf = .item a rest → look (buf ++ tl) = .item a (rest ++ tl)
  look_fail : ∀ {buf e} (tl), look buf = .fail e → look (buf ++ tl) = .fail e

namespace Decoder

variable {β : Type u} {α : Type v} {ε : Type w} {σ : Type x}

/-! ## The items at the front of a buffer -/

/-- The items `as` come off the front of the first buffer and leave the second. -/
inductive Decodes (D : Decoder β α ε) : List β → List α → List β → Prop
  | nil (buf) : Decodes D buf [] buf
  | cons {buf a rest as tl} : D.look buf = .item a rest → Decodes D rest as tl →
      Decodes D buf (a :: as) tl

variable {D : Decoder β α ε}

theorem Decodes.append {buf rest : List β} {as : List α} (h : D.Decodes buf as rest)
    (tl : List β) : D.Decodes (buf ++ tl) as (rest ++ tl) := by
  induction h with
  | nil buf => exact .nil _
  | cons hl _ ih => exact .cons (D.look_item tl hl) ih

theorem Decodes.trans {a b c : List β} {as bs : List α} (h : D.Decodes a as b)
    (h' : D.Decodes b bs c) : D.Decodes a (as ++ bs) c := by
  induction h with
  | nil => exact h'
  | cons hl _ ih => exact .cons hl (ih h')

/-- Two ways of taking items off one buffer: the one that stopped at an
incomplete rest went at least as far. -/
theorem Decodes.extends {buf r t : List β} {as bs : List α} (h : D.Decodes buf as r)
    (h' : D.Decodes buf bs t) (ht : D.look t = .more) :
    ∃ cs, bs = as ++ cs ∧ D.Decodes r cs t := by
  induction h generalizing bs with
  | nil buf => exact ⟨bs, rfl, h'⟩
  | cons hl _ ih =>
    cases h' with
    | nil => rw [ht] at hl; cases hl
    | cons hl' h'' =>
      rw [hl] at hl'
      cases hl'
      obtain ⟨cs, rfl, hcs⟩ := ih h''
      exact ⟨cs, rfl, hcs⟩

/-- Nothing comes off an incomplete buffer. -/
theorem Decodes.of_more {buf r : List β} {as : List α} (h : D.Decodes buf as r)
    (hm : D.look buf = .more) : as = [] ∧ r = buf := by
  cases h with
  | nil => exact ⟨rfl, rfl⟩
  | cons hl _ => rw [hm] at hl; cases hl

/-- Encoded items, one after another, come off the front. -/
theorem Decodes.of_encoded {enc : α → List β} {as : List α}
    (h : ∀ a ∈ as, ∀ tl, D.look (enc a ++ tl) = .item a tl) (tl : List β) :
    D.Decodes (as.flatMap enc ++ tl) as tl := by
  induction as with
  | nil => exact .nil tl
  | cons a as ih =>
    rw [List.flatMap_cons, List.append_assoc]
    exact .cons (h a (List.mem_cons_self ..) _) (ih fun b hb => h b (List.mem_cons_of_mem _ hb))

/-- Two ways of taking everything off a buffer are the same. -/
theorem Decodes.unique {buf : List β} {as bs : List α} (h : D.Decodes buf as [])
    (h' : D.Decodes buf bs []) : as = bs := by
  obtain ⟨cs, rfl, hcs⟩ := h.extends h' D.look_nil
  rw [(hcs.of_more D.look_nil).1, List.append_nil]

/-! ## Items with a header -/

/-- The size of a header of a type and a length of four bytes. -/
theorem five_pos : 0 < 5 := by decide

/-- An item is a header of `n` elements, which gives the length of its body,
and the body. -/
def headed (n : Nat) (hn : 0 < n) (bodyLen : List β → Nat) (mk : List β → List β → α) :
    Decoder β α ε where
  look buf :=
    if buf.length < n ∨ (buf.drop n).length < bodyLen (buf.take n) then .more
    else .item (mk (buf.take n) ((buf.drop n).take (bodyLen (buf.take n))))
      ((buf.drop n).drop (bodyLen (buf.take n)))
  look_nil := by simp [hn]
  shrinks := by
    intro buf a rest h
    split at h
    · cases h
    · rename_i hlen
      cases h
      simp only [List.length_drop]
      omega
  look_item := by
    intro buf a rest tl h
    split at h
    · cases h
    · rename_i hlen
      cases h
      have hbuf : n ≤ buf.length := by omega
      have hbody : bodyLen (buf.take n) ≤ (buf.drop n).length := by omega
      rw [List.take_append_of_le_length hbuf, List.drop_append_of_le_length hbuf,
        List.take_append_of_le_length hbody, List.drop_append_of_le_length hbody, if_neg]
      simp only [List.length_append]
      omega
  look_fail := by
    intro buf e tl h
    split at h <;> cases h

theorem headed_look {n : Nat} {hn : 0 < n} {bodyLen : List β → Nat} {mk : List β → List β → α}
    {header body : List β} (hh : header.length = n) (hb : bodyLen header = body.length)
    (tl : List β) :
    (headed (ε := ε) n hn bodyLen mk).look (header ++ body ++ tl) = .item (mk header body) tl := by
  subst hh
  simp only [headed, List.append_assoc, List.take_left, List.drop_left, hb]
  rw [if_neg]
  simp only [List.length_append]
  omega

/-! ## Items that tell their length -/

/-- The length of an item, read off its front; `none` is too little to tell. What
follows what was read does not change it. -/
structure Measure (β : Type u) where
  len : List β → Option Nat
  len_nil : len [] = none
  pos : ∀ {buf n}, len buf = some n → 0 < n
  append : ∀ {buf n} (tl), len buf = some n → len (buf ++ tl) = some n
  take : ∀ {buf n}, len buf = some n → n ≤ buf.length → len (buf.take n) = some n

/-- The decoder that only cuts the items apart. -/
def measured (M : Measure β) : Decoder β (List β) Empty where
  look buf :=
    match M.len buf with
    | some n => if n ≤ buf.length then .item (buf.take n) (buf.drop n) else .more
    | none => .more
  look_nil := by rw [M.len_nil]
  shrinks := by
    intro buf f rest h
    split at h
    · rename_i n hn
      split at h
      · cases h
        have := M.pos hn
        rw [List.length_drop]
        omega
      · cases h
    · cases h
  look_item := by
    intro buf f rest tl h
    split at h
    · rename_i n hn
      split at h
      · rename_i hle
        cases h
        rw [M.append tl hn]
        simp only
        rw [if_pos (by rw [List.length_append]; omega), List.take_append_of_le_length hle,
          List.drop_append_of_le_length hle]
      · cases h
    · cases h
  look_fail := fun _ h => nomatch h

theorem measured_item {M : Measure β} {buf f rest : List β}
    (h : (measured M).look buf = .item f rest) :
    buf = f ++ rest ∧ M.len f = some f.length ∧ M.len buf = some f.length := by
  simp only [measured] at h
  split at h
  · rename_i n hn
    split at h
    · rename_i hle
      cases h
      have hlen : (buf.take n).length = n := List.length_take_of_le hle
      exact ⟨(List.take_append_drop n buf).symm, by rw [hlen]; exact M.take hn hle,
        by rw [hlen]; exact hn⟩
    · cases h
  · cases h

theorem measured_more {M : Measure β} {buf : List β} :
    (measured M).look buf = .more ↔ ∀ n, M.len buf = some n → buf.length < n := by
  simp only [measured]
  cases hn : M.len buf with
  | none => simp
  | some n =>
    simp only [Option.some.injEq, forall_eq']
    split
    · exact ⟨fun h => (by cases h), fun h => absurd h (by omega)⟩
    · exact ⟨fun _ => by omega, fun _ => rfl⟩

/-! ## The receive loop -/

/-- A receiver between two chunks: the handler's state and the buffer. -/
structure Rx (σ : Type x) (β : Type u) where
  st : σ
  buf : List β

/-- The loop, at most `n` iterations. The second component is what it raised. -/
def drainN (D : Decoder β α ε) (H : σ → α → σ × Option ε) :
    Nat → σ → List β → Rx σ β × Option ε
  | 0, s, buf => (⟨s, buf⟩, none)
  | n + 1, s, buf =>
    match D.look buf with
    | .more => (⟨s, buf⟩, none)
    | .fail e => (⟨s, buf⟩, some e)
    | .item a rest =>
      match H s a with
      | (s', some e) => (⟨s', rest⟩, some e)
      | (s', none) => drainN D H n s' rest

/-- The loop; every iteration shortens the buffer, so its length bounds them. -/
def drain (D : Decoder β α ε) (H : σ → α → σ × Option ε) (s : σ) (buf : List β) :
    Rx σ β × Option ε :=
  drainN D H (buf.length + 1) s buf

/-- A chunk arrives. -/
def onData (D : Decoder β α ε) (H : σ → α → σ × Option ε) (r : Rx σ β) (chunk : List β) :
    Rx σ β × Option ε :=
  drain D H r.st (r.buf ++ chunk)

/-- The chunks arrive one after another; what one of them raised does not
keep the next from arriving. -/
def feed (D : Decoder β α ε) (H : σ → α → σ × Option ε) (r : Rx σ β) :
    List (List β) → Rx σ β
  | [] => r
  | c :: cs => feed D H (onData D H r c).1 cs

/-- The handler's state after the items `as`. -/
def handled (H : σ → α → σ × Option ε) (s : σ) : List α → σ
  | [] => s
  | a :: as => handled H (H s a).1 as

/-- The handler raises on none of the items `as`, started in `s`. -/
def Calm (H : σ → α → σ × Option ε) (s : σ) : List α → Prop
  | [] => True
  | a :: as => (H s a).2 = none ∧ Calm H (H s a).1 as

theorem handled_append (H : σ → α → σ × Option ε) (s : σ) (as bs : List α) :
    handled H s (as ++ bs) = handled H (handled H s as) bs := by
  induction as generalizing s with
  | nil => rfl
  | cons a as ih => exact ih _

theorem calm_append (H : σ → α → σ × Option ε) (s : σ) (as bs : List α) :
    Calm H s (as ++ bs) ↔ Calm H s as ∧ Calm H (handled H s as) bs := by
  induction as generalizing s with
  | nil => simp [Calm, handled]
  | cons a as ih => simp [Calm, handled, ih, and_assoc]

variable {H : σ → α → σ × Option ε}

/-- The items that at most `n` iterations of the loop hand to the handler. -/
def takenN (D : Decoder β α ε) (H : σ → α → σ × Option ε) : Nat → σ → List β → List α
  | 0, _, _ => []
  | n + 1, s, buf =>
    match D.look buf with
    | .more => []
    | .fail _ => []
    | .item a rest =>
      match H s a with
      | (_, some _) => [a]
      | (s', none) => a :: takenN D H n s' rest

/-- The items that the arrival of a chunk hands to the handler. -/
def taken (D : Decoder β α ε) (H : σ → α → σ × Option ε) (r : Rx σ β) (chunk : List β) : List α :=
  takenN D H ((r.buf ++ chunk).length + 1) r.st (r.buf ++ chunk)

theorem drainN_taken (n : Nat) (s : σ) (buf : List β) :
    D.Decodes buf (takenN D H n s buf) (drainN D H n s buf).1.buf ∧
      (drainN D H n s buf).1.st = handled H s (takenN D H n s buf) := by
  induction n generalizing s buf with
  | zero => exact ⟨.nil _, rfl⟩
  | succ n ih =>
    rw [drainN, takenN]
    split
    · exact ⟨.nil _, rfl⟩
    · exact ⟨.nil _, rfl⟩
    · rename_i a rest hl
      split
      · rename_i s' e hh
        exact ⟨.cons hl (.nil _), by simp [handled, hh]⟩
      · rename_i s' hh
        obtain ⟨h1, h2⟩ := ih s' rest
        exact ⟨.cons hl h1, by simp [handled, hh, h2]⟩

theorem onData_taken (r : Rx σ β) (chunk : List β) :
    D.Decodes (r.buf ++ chunk) (taken D H r chunk) (onData D H r chunk).1.buf ∧
      (onData D H r chunk).1.st = handled H r.st (taken D H r chunk) :=
  drainN_taken _ _ _

/-- A chunk hands over the first of the items that are still to come. -/
theorem onData_pending {r : Rx σ β} {chunk rest : List β} {as : List α}
    (h : D.Decodes (r.buf ++ (chunk ++ rest)) as []) :
    ∃ bs, as = taken D H r chunk ++ bs ∧ D.Decodes ((onData D H r chunk).1.buf ++ rest) bs [] := by
  rw [← List.append_assoc] at h
  exact ((onData_taken r chunk).1.append rest).extends h D.look_nil

theorem drainN_decodes (n : Nat) (s : σ) (buf : List β) :
    ∃ as, D.Decodes buf as (drainN D H n s buf).1.buf ∧
      (drainN D H n s buf).1.st = handled H s as :=
  ⟨_, drainN_taken n s buf⟩

/-- The items of a whole stream. -/
def items (D : Decoder β α ε) (buf : List β) : List α :=
  takenN D (fun _ _ => ((), none)) (buf.length + 1) () buf

theorem takenN_of_decodes {buf rest : List β} {as : List α} (h : D.Decodes buf as rest)
    (hm : D.look rest = .more) {n : Nat} (hn : buf.length < n) :
    takenN D (fun _ _ => ((), none)) n () buf = as := by
  induction h generalizing n with
  | nil buf =>
    cases n with
    | zero => rfl
    | succ n => rw [takenN, hm]
  | cons hl _ ih =>
    cases n with
    | zero => omega
    | succ n =>
      rw [takenN, hl]
      have hs := D.shrinks hl
      simp only [ih hm (by omega : _ < n)]

theorem Decodes.items {buf rest : List β} {as : List α} (h : D.Decodes buf as rest)
    (hm : D.look rest = .more) : D.items buf = as :=
  takenN_of_decodes h hm (Nat.lt_succ_self _)

/-- The loop raises nothing, and stops at an incomplete buffer, when its items
raise nothing and the decoder does not fail on what is left. -/
theorem drainN_calm {n : Nat} {s : σ} {buf : List β} (hn : buf.length < n) {as : List α}
    {tl rest : List β} (hd : D.Decodes (buf ++ tl) as rest) (hm : D.look rest = .more)
    (hc : Calm H s as) : D.look (drainN D H n s buf).1.buf = .more := by
  induction n generalizing s buf as with
  | zero => omega
  | succ n ih =>
    rw [drainN]
    split
    · assumption
    · rename_i e hl
      exfalso
      have hf := D.look_fail tl hl
      cases hd with
      | nil => rw [hm] at hf; cases hf
      | cons hl' _ => rw [hf] at hl'; cases hl'
    · rename_i a r hl
      have hi := D.look_item tl hl
      cases hd with
      | nil => rw [hm] at hi; cases hi
      | cons hl' hd' =>
        rw [hi] at hl'
        cases hl'
        have hs := D.shrinks hl
        split
        · rename_i s' e hh
          rw [Calm, hh] at hc
          cases hc.1
        · rename_i s' hh
          rw [Calm, hh] at hc
          exact ih (by omega) hd' hc.2

/-- A handler that never raises, on a stream that cannot fail, leaves the buffer
incomplete. -/
theorem onData_more (hH : ∀ s a, (H s a).2 = none) (hD : ∀ buf e, D.look buf ≠ .fail e)
    (r : Rx σ β) (chunk : List β) : D.look (onData D H r chunk).1.buf = .more := by
  suffices hdrain : ∀ n s buf, buf.length < n → D.look (drainN D H n s buf).1.buf = .more from
    hdrain _ _ _ (Nat.lt_succ_self _)
  intro n
  induction n with
  | zero => omega
  | succ n ih =>
    intro s buf hn
    rw [drainN]
    split
    · assumption
    · rename_i e hl
      exact absurd hl (hD buf e)
    · rename_i a rest hl
      have hs := D.shrinks hl
      split
      · rename_i s' e hh
        have hnone := hH s a
        rw [hh] at hnone
        cases hnone
      · exact ih _ _ (by omega)

/-- A decoder that cannot fail has taken off all its items. -/
theorem items_decodes (hD : ∀ buf e, D.look buf ≠ .fail e) (buf : List β) :
    ∃ rest, D.Decodes buf (D.items buf) rest ∧ D.look rest = .more :=
  ⟨_, (drainN_taken (buf.length + 1) () buf).1, onData_more (fun _ _ => rfl) hD ⟨(), []⟩ buf⟩

theorem items_of_item (hD : ∀ buf e, D.look buf ≠ .fail e) {buf rest : List β} {a : α}
    (h : D.look buf = .item a rest) : D.items buf = a :: D.items rest := by
  obtain ⟨r, hd, hm⟩ := items_decodes hD rest
  exact (Decodes.cons h hd).items hm

theorem items_of_more {buf : List β} (h : D.look buf = .more) : D.items buf = [] :=
  (Decodes.nil buf).items h

theorem drainN_none_iff {n : Nat} {s : σ} {buf : List β} (hn : buf.length < n) :
    (drainN D H n s buf).2 = none ↔
      ∃ as rest, D.Decodes buf as rest ∧ D.look rest = .more ∧ Calm H s as := by
  induction n generalizing s buf with
  | zero => omega
  | succ n ih =>
    rw [drainN]
    split
    · rename_i hl
      exact ⟨fun _ => ⟨[], buf, .nil buf, hl, trivial⟩, fun _ => rfl⟩
    · rename_i e hl
      refine ⟨fun h => (by cases h), ?_⟩
      rintro ⟨as, rest, hd, hm, -⟩
      cases hd with
      | nil => rw [hm] at hl; cases hl
      | cons hl' _ => rw [hl] at hl'; cases hl'
    · rename_i a rest hl
      have hs := D.shrinks hl
      split
      · rename_i s' e hh
        refine ⟨fun h => (by cases h), ?_⟩
        rintro ⟨as, r, hd, hm, hc⟩
        cases hd with
        | nil => rw [hm] at hl; cases hl
        | cons hl' _ =>
          rw [hl] at hl'
          cases hl'
          rw [Calm, hh] at hc
          cases hc.1
      · rename_i s' hh
        rw [ih (by omega)]
        constructor
        · rintro ⟨as, r, hd, hm, hc⟩
          exact ⟨a :: as, r, .cons hl hd, hm, by rw [Calm, hh]; exact ⟨rfl, hc⟩⟩
        · rintro ⟨as, r, hd, hm, hc⟩
          cases hd with
          | nil => rw [hm] at hl; cases hl
          | cons hl' hd =>
            rw [hl] at hl'
            cases hl'
            rw [Calm, hh] at hc
            exact ⟨_, r, hd, hm, hc.2⟩

/-- The arrival of a chunk raises nothing exactly when its items do not, up to a
rest that is incomplete. -/
theorem onData_none_iff {r : Rx σ β} {chunk : List β} :
    (onData D H r chunk).2 = none ↔
      ∃ as rest, D.Decodes (r.buf ++ chunk) as rest ∧ D.look rest = .more ∧ Calm H r.st as :=
  drainN_none_iff (Nat.lt_succ_self _)

/-- What such an arrival leaves. -/
theorem onData_calm {r : Rx σ β} {chunk rest : List β} {as : List α}
    (hd : D.Decodes (r.buf ++ chunk) as rest) (hm : D.look rest = .more) (hc : Calm H r.st as) :
    (onData D H r chunk).1 = ⟨handled H r.st as, rest⟩ := by
  obtain ⟨ht, hst⟩ := onData_taken (D := D) (H := H) r chunk
  have hd' : D.Decodes (r.buf ++ chunk ++ []) as rest := by rw [List.append_nil]; exact hd
  have hmore : D.look (onData D H r chunk).1.buf = .more :=
    drainN_calm (Nat.lt_succ_self _) hd' hm hc
  obtain ⟨cs, rfl, hcs⟩ := ht.extends hd hm
  obtain ⟨rfl, rfl⟩ := hcs.of_more hmore
  rw [List.append_nil, ← hst]

theorem takenN_eq_items_iff (hD : ∀ buf e, D.look buf ≠ .fail e) {n : Nat} {s : σ} {buf : List β}
    (hn : buf.length < n) :
    takenN D H n s buf = D.items buf ↔ Calm H s (D.items buf).dropLast := by
  induction n generalizing s buf with
  | zero => omega
  | succ n ih =>
    rw [takenN]
    split
    · rename_i hl
      rw [items_of_more hl]
      exact ⟨fun _ => trivial, fun _ => rfl⟩
    · rename_i e hl
      exact absurd hl (hD buf e)
    · rename_i a rest hl
      have hs := D.shrinks hl
      rw [items_of_item hD hl]
      split
      · rename_i s' e hh
        cases hi : D.items rest with
        | nil => exact ⟨fun _ => trivial, fun _ => rfl⟩
        | cons b bs =>
          refine ⟨fun h => (by cases h), fun h => ?_⟩
          rw [List.dropLast_cons_cons, Calm, hh] at h
          cases h.1
      · rename_i s' hh
        rw [List.cons.injEq, eq_self, true_and, ih (by omega)]
        cases hi : D.items rest with
        | nil => exact ⟨fun _ => trivial, fun _ => trivial⟩
        | cons b bs =>
          rw [List.dropLast_cons_cons, Calm, hh]
          exact ⟨fun h => ⟨rfl, h⟩, fun h => h.2⟩

/-- One arrival hands over everything complete exactly when no item but the last
of it raises. -/
theorem onData_all_iff (hD : ∀ buf e, D.look buf ≠ .fail e) {r : Rx σ β} {chunk : List β} :
    taken D H r chunk = D.items (r.buf ++ chunk) ↔
      Calm H r.st (D.items (r.buf ++ chunk)).dropLast :=
  takenN_eq_items_iff hD (Nat.lt_succ_self _)

/-- What is then left is the incomplete tail. -/
theorem more_of_all (hD : ∀ buf e, D.look buf ≠ .fail e) {r : Rx σ β} {chunk : List β}
    (h : taken D H r chunk = D.items (r.buf ++ chunk)) :
    D.look (onData D H r chunk).1.buf = .more := by
  obtain ⟨rest, hd, hm⟩ := items_decodes hD (r.buf ++ chunk)
  have ht := (onData_taken (D := D) (H := H) r chunk).1
  rw [h] at ht
  obtain ⟨cs, hcs, hr⟩ := ht.extends hd hm
  obtain rfl : cs = [] := List.self_eq_append_right.mp hcs
  cases hr
  exact hm

/-- **The chunks only group the items.** Whatever was raised on the way, the
items handled are the first items of the whole stream, in order, and the
buffer is what they leave of it. -/
theorem feed_decodes (r : Rx σ β) (chunks : List (List β)) :
    ∃ as, D.Decodes (r.buf ++ chunks.flatten) as (feed D H r chunks).buf ∧
      (feed D H r chunks).st = handled H r.st as := by
  induction chunks generalizing r with
  | nil => exact ⟨[], by simpa [feed] using Decodes.nil r.buf, rfl⟩
  | cons c cs ih =>
    obtain ⟨as, h1, h2⟩ := drainN_decodes (D := D) (H := H) ((r.buf ++ c).length + 1) r.st
      (r.buf ++ c)
    obtain ⟨bs, h3, h4⟩ := ih (onData D H r c).1
    refine ⟨as ++ bs, ?_, ?_⟩
    · rw [List.flatten_cons, ← List.append_assoc]
      exact (h1.append cs.flatten).trans h3
    · rw [feed, h4, handled_append, ← h2]; rfl

/-- **Chunk invariance.** When no item of the stream makes the handler raise
and the stream ends in an incomplete rest, every way of cutting it into
chunks handles exactly its items and leaves exactly that rest. -/
theorem feed_complete {r : Rx σ β} {chunks : List (List β)} {as : List α} {rest : List β}
    (h0 : D.look r.buf = .more) (hd : D.Decodes (r.buf ++ chunks.flatten) as rest)
    (hm : D.look rest = .more) (hc : Calm H r.st as) :
    feed D H r chunks = ⟨handled H r.st as, rest⟩ := by
  induction chunks generalizing r as with
  | nil =>
    simp only [List.flatten_nil, List.append_nil] at hd
    obtain ⟨rfl, rfl⟩ := hd.of_more h0
    rfl
  | cons c cs ih =>
    rw [List.flatten_cons, ← List.append_assoc] at hd
    obtain ⟨bs, h1, h2⟩ := drainN_decodes (D := D) (H := H) ((r.buf ++ c).length + 1) r.st
      (r.buf ++ c)
    obtain ⟨cs', rfl, h3⟩ := (h1.append cs.flatten).extends hd hm
    rw [calm_append, ← h2] at hc
    rw [handled_append, ← h2]
    refine ih (r := (onData D H r c).1) ?_ h3 hc.2
    exact drainN_calm (by omega) hd hm ((calm_append H r.st bs cs').mpr ⟨hc.1, h2 ▸ hc.2⟩)

/-- **Chunk invariance of raising nothing.** No arrival raises anything exactly when
no item of the stream does, up to an incomplete rest. -/
theorem feed_none_iff {r : Rx σ β} {chunks : List (List β)} (h0 : D.look r.buf = .more) :
    (∀ pre c post, chunks = pre ++ c :: post → (onData D H (feed D H r pre) c).2 = none) ↔
      ∃ as rest, D.Decodes (r.buf ++ chunks.flatten) as rest ∧ D.look rest = .more ∧
        Calm H r.st as := by
  induction chunks generalizing r with
  | nil =>
    refine ⟨fun _ => ⟨[], r.buf, ?_, h0, trivial⟩, fun _ pre c post h => ?_⟩
    · rw [List.flatten_nil, List.append_nil]
      exact .nil r.buf
    · cases pre <;> cases h
  | cons c cs ih =>
    rw [List.flatten_cons, ← List.append_assoc]
    constructor
    · intro h
      have hfirst : (onData D H r c).2 = none := h [] c cs rfl
      obtain ⟨as, rest, hd, hm, hc⟩ := onData_none_iff.mp hfirst
      have he := onData_calm hd hm hc
      have htail : ∀ pre d post, cs = pre ++ d :: post →
          (onData D H (feed D H (onData D H r c).1 pre) d).2 = none := by
        intro pre d post hcs
        exact h (c :: pre) d post (by rw [hcs]; rfl)
      obtain ⟨bs, tl, hd', hm', hc'⟩ := (ih (by rw [he]; exact hm)).mp htail
      rw [he] at hd' hc'
      exact ⟨as ++ bs, tl, (hd.append cs.flatten).trans hd', hm',
        (calm_append H r.st as bs).mpr ⟨hc, hc'⟩⟩
    · rintro ⟨as, rest, hd, hm, hc⟩
      obtain ⟨ht, hst⟩ := onData_taken (D := D) (H := H) r c
      obtain ⟨bs, rfl, hd'⟩ := (ht.append cs.flatten).extends hd hm
      obtain ⟨hc1, hc2⟩ := (calm_append H r.st _ bs).mp hc
      have hmore : D.look (onData D H r c).1.buf = .more :=
        drainN_calm (Nat.lt_succ_self _) hd hm hc
      have htail := (ih hmore).mpr ⟨bs, rest, hd', hm, by rw [hst]; exact hc2⟩
      intro pre d post hcs
      cases pre with
      | nil =>
        cases hcs
        exact onData_none_iff.mpr ⟨_, _, ht, hmore, hc1⟩
      | cons e pre =>
        cases hcs
        exact htail pre d post rfl

end Decoder
end Wormhole
