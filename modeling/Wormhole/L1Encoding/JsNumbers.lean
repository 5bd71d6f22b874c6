import Wormhole.L1Encoding.JsonRoundTrip

/-!
# The numbers of JavaScript

What `JSON.parse` makes of a text has no other numbers than doubles, and no
object that repeats a key (`jsReader_plain`). How a double is printed is up to
the runtime; `exactText` prints it with all its digits, and is read back
(`exactText_reads`).
-/
namespace Wormhole.L1.JsonText

/-- `Number.isSafeInteger`. -/
def isSafeInteger (q : Rat) : Bool := q.den = 1 ∧ q.num.natAbs < 2 ^ 53

/-- A number that `JSON.parse` can return. -/
def JsNumber : Json → Prop
  | .int n => n.natAbs < 2 ^ 53
  | .float (.fin q) => IsDouble q ∧ isSafeInteger q = false
  | .float .inf => True
  | .float .negInf => True
  | _ => False

/-- A value that `JSON.parse` can return. -/
abbrev JsValue : Json → Prop := Plain JsNumber

/-! ## Reading numbers -/

theorem jsNumber_fin {q : Rat} (h : IsDouble q) : JsNumber (jsNumber (.fin q)) := by
  unfold jsNumber
  simp only
  split
  · rename_i hsafe
    exact hsafe.2
  · rename_i hsafe
    exact ⟨h, decide_eq_false hsafe⟩

theorem jsReader_number {x : Number} {v : Json} (h : jsReader.number x = some v) : JsNumber v := by
  simp only [jsReader, Option.some.injEq] at h
  subst h
  unfold Number.toFloat
  split
  · split <;> trivial
  · rename_i q hq
    have hnonneg : (0 : Rat) ≤ (x.digits : Rat) * 10 ^ x.exponent :=
      mul_nonneg (Nat.cast_nonneg _) (zpow_nonneg (by norm_num) _)
    have hdouble : IsDouble q := isDouble_of_round hnonneg hq
    split
    · split
      · exact (by decide : (0 : Int).natAbs < 2 ^ 53)
      · exact jsNumber_fin hdouble.neg
    · exact jsNumber_fin hdouble

/-! ## Reading values -/

section Plain

variable {R : Reader} {P : Json → Prop}

theorem plainFields_assign {k : String} {v : Json} (hv : Plain P v) :
    ∀ {fields : List (String × Json)}, PlainFields P fields →
      PlainFields P (Dict.assign k v fields)
  | [], _ => ⟨hv, trivial⟩
  | (j, w) :: fields, h => by
    unfold Dict.assign
    split
    · exact ⟨hv, h.2⟩
    · exact ⟨h.1, plainFields_assign hv h.2⟩

theorem plain_ofPairs {pairs : List (String × Json)} (h : PlainFields P pairs) :
    Plain P (.obj (ofPairs pairs)) := by
  have hgen : ∀ (rest acc : List (String × Json)), PlainFields P rest → Plain P (.obj acc) →
      Plain P (.obj (rest.foldl (fun fields f => Dict.assign f.1 f.2 fields) acc)) := by
    intro rest
    induction rest with
    | nil => exact fun acc _ hacc => hacc
    | cons f rest ih =>
      intro acc hrest hacc
      exact ih _ hrest.2 ⟨Dict.nodup_assign hacc.1, plainFields_assign hrest.1 hacc.2⟩
  exact hgen pairs [] h ⟨List.nodup_nil, trivial⟩

/-- What is no number and no composite. -/
theorem scalar_plain (hnum : ∀ x v, R.number x = some v → Plain P v)
    (hconst : ∀ c ∈ R.constants, Plain P c.2) {s rest : Text} {v : Json}
    (h : R.scalar s = some (v, rest)) : Plain P v := by
  unfold Reader.scalar at h
  split at h
  · rename_i c hc
    cases h
    rcases List.mem_append.mp (List.mem_of_find?_eq_some hc) with hl | hl
    · simp only [literals, List.mem_cons, List.not_mem_nil, or_false] at hl
      rcases hl with rfl | rfl | rfl <;> trivial
    · exact hconst c hl
  · split at h
    · cases h
    · obtain ⟨x, hx, heq⟩ := Option.map_eq_some_iff.mp h
      cases heq
      exact hnum _ _ hx

theorem value_plain (hnum : ∀ x v, R.number x = some v → Plain P v)
    (hconst : ∀ c ∈ R.constants, Plain P c.2) {n : Nat}
    (hitems : ∀ s xs rest, R.items n s = some (xs, rest) → PlainItems P xs)
    (hfields : ∀ s fs rest, R.fields n s = some (fs, rest) → PlainFields P fs)
    {s rest : Text} {v : Json} (h : R.value (n + 1) s = some (v, rest)) : Plain P v := by
  cases s with
  | nil => cases h
  | cons c tl =>
    rw [Reader.value] at h
    split at h
    · obtain ⟨p, -, heq⟩ := Option.map_eq_some_iff.mp h
      cases heq
      trivial
    · split at h
      · split at h
        · cases h
          trivial
        · obtain ⟨p, hp, heq⟩ := Option.map_eq_some_iff.mp h
          cases heq
          exact hitems _ _ _ hp
      · split at h
        · split at h
          · cases h
            exact ⟨List.nodup_nil, trivial⟩
          · obtain ⟨p, hp, heq⟩ := Option.map_eq_some_iff.mp h
            cases heq
            exact plain_ofPairs (hfields _ _ _ hp)
        · exact scalar_plain hnum hconst h

theorem items_plain {n : Nat} (hvalue : ∀ s v rest, R.value n s = some (v, rest) → Plain P v)
    (hitems : ∀ s xs rest, R.items n s = some (xs, rest) → PlainItems P xs)
    {s rest : Text} {xs : List Json} (h : R.items (n + 1) s = some (xs, rest)) :
    PlainItems P xs := by
  rw [Reader.items] at h
  split at h
  · cases h
  · rename_i x tl hx
    split at h
    · obtain ⟨p, hp, heq⟩ := Option.map_eq_some_iff.mp h
      cases heq
      exact ⟨hvalue _ _ _ hx, hitems _ _ _ hp⟩
    · cases h
      exact ⟨hvalue _ _ _ hx, trivial⟩
    · cases h

theorem fields_plain {n : Nat} (hvalue : ∀ s v rest, R.value n s = some (v, rest) → Plain P v)
    (hfields : ∀ s fs rest, R.fields n s = some (fs, rest) → PlainFields P fs)
    {s rest : Text} {fs : List (String × Json)} (h : R.fields (n + 1) s = some (fs, rest)) :
    PlainFields P fs := by
  unfold Reader.fields at h
  split at h
  · split at h
    · cases h
    · split at h
      · split at h
        · cases h
        · rename_i x tl hx
          split at h
          · obtain ⟨p, hp, heq⟩ := Option.map_eq_some_iff.mp h
            cases heq
            exact ⟨hvalue _ _ _ hx, hfields _ _ _ hp⟩
          · cases h
            exact ⟨hvalue _ _ _ hx, trivial⟩
          · cases h
      · cases h
  · cases h

/-- What is read is plain when its numbers and constants are. -/
theorem loads_plain (hnum : ∀ x v, R.number x = some v → Plain P v)
    (hconst : ∀ c ∈ R.constants, Plain P c.2) {s : String} {v : Json} (h : R.loads s = some v) :
    Plain P v := by
  have hall : ∀ n, (∀ s v rest, R.value n s = some (v, rest) → Plain P v) ∧
      (∀ s xs rest, R.items n s = some (xs, rest) → PlainItems P xs) ∧
      (∀ s fs rest, R.fields n s = some (fs, rest) → PlainFields P fs) := by
    intro n
    induction n with
    | zero =>
      refine ⟨fun s v rest h => ?_, fun s xs rest h => ?_, fun s fs rest h => ?_⟩
      · rw [Reader.value] at h
        cases h
      · rw [Reader.items] at h
        cases h
      · rw [Reader.fields] at h
        cases h
    | succ n ih =>
      obtain ⟨hvalue, hitems, hfields⟩ := ih
      exact ⟨fun _ _ _ => value_plain hnum hconst hitems hfields, fun _ _ _ =>
        items_plain hvalue hitems, fun _ _ _ => fields_plain hvalue hfields⟩
  unfold Reader.loads at h
  split at h
  · cases h
  · rename_i hv
    split at h
    · cases h
      exact (hall _).1 _ _ _ hv
    · cases h

end Plain

/-- **Headline.** `JSON.parse` returns values of JavaScript. -/
theorem jsReader_plain {s : String} {v : Json} (h : jsReader.loads s = some v) : JsValue v := by
  refine loads_plain (fun x v hx => ?_) (fun c hc => ?_) h
  · have hv := jsReader_number hx
    cases v with
    | int n => exact hv
    | float f => exact hv
    | null => trivial
    | bool b => trivial
    | str s => trivial
    | arr xs => cases hv
    | obj fields => cases hv
  · cases hc

/-! ## Printing doubles -/

/-- All the digits of a number whose denominator is a power of two. -/
def exactText : PyFloat → Text
  | .fin q =>
    Writer.intText (q.num * 5 ^ Nat.log2 q.den) ++ 'e' :: '-' :: Nat.toDigits 10 (Nat.log2 q.den)
  | _ => []

/-- The parts of such a text. -/
def exactNumber (n : Int) (j : Nat) : Number :=
  ⟨n < 0, Nat.toDigits 10 n.natAbs, [], some (true, Nat.toDigits 10 j)⟩

theorem scanExp_toDigits (j : Nat) {rest : Text} (h : EndsDigits rest) :
    scanExp ('e' :: '-' :: (Nat.toDigits 10 j ++ rest)) =
      (some (true, Nat.toDigits 10 j), rest) := by
  have hdigits : ∀ d ∈ Nat.toDigits 10 j, d.isDigit = true := fun d hd =>
    Nat.isDigit_of_mem_toDigits (by decide) (by decide) hd
  obtain ⟨htake, hdrop⟩ := takeWhile_digits hdigits h
  obtain ⟨c, ds, hcd, -⟩ := toDigits_cases j
  rw [hcd] at htake hdrop ⊢
  simp only [scanExp, true_or, if_true, scanExpSign, htake, hdrop]

theorem scanNumber_exact (n : Int) (j : Nat) {rest : Text} (h : Stops rest) :
    scanNumber (Writer.intText n ++ ('e' :: '-' :: (Nat.toDigits 10 j ++ rest))) =
      some (exactNumber n j, rest) := by
  have hends : EndsDigits ('e' :: '-' :: (Nat.toDigits 10 j ++ rest)) :=
    (by decide : 'e'.isDigit = false)
  have hint := scanInt_toDigits n.natAbs hends
  have hfrac : scanFrac ('e' :: '-' :: (Nat.toDigits 10 j ++ rest)) =
      ([], 'e' :: '-' :: (Nat.toDigits 10 j ++ rest)) := by
    simp [scanFrac]
  rw [scanNumber, scanSign_intText]
  simp only [hint, hfrac, scanExp_toDigits j h.endsDigits]
  rfl

theorem exactNumber_digits (n : Int) (j : Nat) : (exactNumber n j).digits = n.natAbs := by
  rw [Number.digits, exactNumber, List.append_nil]
  exact Nat.ofDigitChars_ten_toDigits

theorem exactNumber_exponent (n : Int) (j : Nat) : (exactNumber n j).exponent = -(j : Int) := by
  simp only [Number.exponent, exactNumber, if_true, Nat.ofDigitChars_ten_toDigits, List.length_nil,
    Nat.cast_zero, sub_zero]

/-- The digits and the power of ten are the number. -/
theorem exactNumber_value {q : Rat} {j : Nat} (hj : q.den = 2 ^ j) :
    (((q.num * 5 ^ j).natAbs : Nat) : Rat) * 10 ^ (-(j : Int)) = |q| := by
  have hnum : (((q.num * 5 ^ j).natAbs : Nat) : Rat) = |(q.num : Rat)| * 5 ^ j := by
    rw [Int.natAbs_mul, Int.natAbs_pow, Nat.cast_mul, Nat.cast_natAbs, Int.cast_abs, Nat.cast_pow]
    rfl
  have hden : |q| = |(q.num : Rat)| / 2 ^ j := by
    have hq := congrArg abs (Rat.num_div_den q)
    rw [abs_div, hj] at hq
    rw [← hq]
    simp
  have hten : (10 : Rat) ^ j = 5 ^ j * 2 ^ j := by
    rw [← mul_pow]
    norm_num
  rw [hnum, hden, zpow_neg, zpow_natCast, hten]
  field_simp

theorem toFloat_exact {q : Rat} (h : IsDouble q) (h0 : q ≠ 0) :
    (exactNumber (q.num * 5 ^ Nat.log2 q.den) (Nat.log2 q.den)).toFloat = .fin q := by
  obtain ⟨j, hj⟩ := h.den_eq
  have hlog : Nat.log2 q.den = j := by rw [hj, Nat.log2_two_pow]
  have hround : roundDouble ((exactNumber (q.num * 5 ^ j) j).digits *
      10 ^ (exactNumber (q.num * 5 ^ j) j).exponent) = some |q| := by
    rw [exactNumber_digits, exactNumber_exponent, exactNumber_value hj]
    exact h
  have hneg : (exactNumber (q.num * 5 ^ j) j).neg = decide (q < 0) := by
    have hpow : (0 : Int) < 5 ^ j := by positivity
    rw [exactNumber]
    simp only [decide_eq_decide]
    rw [← Rat.num_neg]
    exact ⟨fun hlt => by_contra fun hge => absurd hlt (by
      rw [not_lt] at hge ⊢
      exact mul_nonneg hge hpow.le), fun hlt => mul_neg_of_neg_of_pos hlt hpow⟩
  rw [hlog, Number.toFloat, hround]
  simp only [hneg, decide_eq_true_eq, abs_eq_zero, h0, if_false]
  split
  · rename_i hlt
    rw [abs_of_neg hlt, neg_neg]
  · rename_i hge
    rw [abs_of_nonneg (not_lt.mp hge)]

/-- `JSON.parse` reads `exactText`. -/
theorem exactText_reads {q : Rat} (h : IsDouble q) (hs : isSafeInteger q = false) :
    jsReader.ReadsNumber (jsWriter exactText) (.float (.fin q)) := by
  have h0 : q ≠ 0 := by
    rintro rfl
    cases hs
  refine ⟨?_, fun rest hr => ?_⟩
  · obtain ⟨c, tl, hc, hopen⟩ := head_intText (q.num * 5 ^ Nat.log2 q.den)
    refine ⟨c, tl ++ 'e' :: '-' :: Nat.toDigits 10 (Nat.log2 q.den), ?_, hopen⟩
    simp only [Writer.numberText, jsWriter, jsFloat, exactText, hc, List.cons_append]
  · have hfind : (literals ++ jsReader.constants).find? (fun l => l.1.isPrefixOf
        (Writer.intText (q.num * 5 ^ Nat.log2 q.den) ++
          ('e' :: '-' :: (Nat.toDigits 10 (Nat.log2 q.den) ++ rest)))) = none :=
      find?_intText _ _ jsReader_literals
    have hnum : jsReader.number (exactNumber (q.num * 5 ^ Nat.log2 q.den) (Nat.log2 q.den)) =
        some (.float (.fin q)) := by
      have hsafe : ¬ (q.den = 1 ∧ q.num.natAbs < 2 ^ 53) := of_decide_eq_false hs
      simp only [jsReader, toFloat_exact h h0, jsNumber, hsafe, if_false]
    have htext : (jsWriter exactText).numberText (.float (.fin q)) ++ rest =
        Writer.intText (q.num * 5 ^ Nat.log2 q.den) ++
          ('e' :: '-' :: (Nat.toDigits 10 (Nat.log2 q.den) ++ rest)) := by
      simp only [Writer.numberText, jsWriter, jsFloat, exactText, List.append_assoc,
        List.cons_append]
    rw [htext, Reader.scalar, hfind]
    simp only [scanNumber_exact _ _ hr, hnum, Option.map_some]

end Wormhole.L1.JsonText
