import Mathlib.Data.Int.Log
import Mathlib.Data.Nat.Prime.Pow
import Mathlib.Data.Rat.Floor
import Mathlib.Tactic.Positivity
import Wormhole.L1Encoding.JsonText

/-!
# Doubles

`roundDouble` gives the double nearest to a number. The doubles are the numbers
`n * 2 ^ k` with at most 53 bits in `n` and no exponent below -1074.

* `roundDouble_some`: what is given is such a number.
* `roundDouble_grid`: such a number is its own nearest double.
* `IsDouble.den_eq`: it is written with a power of two below the line.
* `nearest`: rounding after an operation; `nearest_mono`, `nearest_of_isDouble` and
  `sub_ulp_le_nearest` are what is known of it.
-/
namespace Wormhole.L1.JsonText

/-! ## The distance of doubles -/

theorem zpow_log2_le {n : Nat} (h : n ≠ 0) : (2 : Rat) ^ (Nat.log2 n : Int) ≤ n := by
  rw [zpow_natCast]
  exact_mod_cast Nat.log2_self_le h

theorem lt_zpow_log2 (n : Nat) : (n : Rat) < 2 ^ ((Nat.log2 n : Int) + 1) := by
  have h : n < 2 ^ (Nat.log2 n + 1) := Nat.lt_log2_self
  exact_mod_cast h

/-- The binary exponent of a quotient, up to one. -/
theorem log_div {a b : Nat} (ha : a ≠ 0) (hb : b ≠ 0) :
    (Nat.log2 a : Int) - Nat.log2 b - 1 ≤ Int.log 2 ((a : Rat) / b) ∧
      Int.log 2 ((a : Rat) / b) < (Nat.log2 a : Int) - Nat.log2 b + 1 := by
  have hb0 : (0 : Rat) < b := by exact_mod_cast Nat.pos_of_ne_zero hb
  have hq : (0 : Rat) < (a : Rat) / b := div_pos (by exact_mod_cast Nat.pos_of_ne_zero ha) hb0
  constructor
  · rw [← Int.zpow_le_iff_le_log (by decide) hq, Nat.cast_ofNat, le_div_iff₀ hb0]
    calc (2 : Rat) ^ ((Nat.log2 a : Int) - Nat.log2 b - 1) * b
        ≤ 2 ^ ((Nat.log2 a : Int) - Nat.log2 b - 1) * 2 ^ ((Nat.log2 b : Int) + 1) :=
          mul_le_mul_of_nonneg_left (lt_zpow_log2 b).le (zpow_nonneg (by norm_num) _)
      _ = 2 ^ (Nat.log2 a : Int) := by
          rw [← zpow_add₀ (by norm_num)]
          congr 1
          omega
      _ ≤ a := zpow_log2_le ha
  · rw [← Int.lt_zpow_iff_log_lt (by decide) hq, Nat.cast_ofNat, div_lt_iff₀ hb0]
    calc (a : Rat) < 2 ^ ((Nat.log2 a : Int) + 1) := lt_zpow_log2 a
      _ = 2 ^ ((Nat.log2 a : Int) - Nat.log2 b + 1) * 2 ^ (Nat.log2 b : Int) := by
          rw [← zpow_add₀ (by norm_num)]
          congr 1
          omega
      _ ≤ 2 ^ ((Nat.log2 a : Int) - Nat.log2 b + 1) * b :=
          mul_le_mul_of_nonneg_left (zpow_log2_le hb) (zpow_nonneg (by norm_num) _)

theorem ulp_eq {q : Rat} (hq : 0 < q) : ulp q = 2 ^ (max (Int.log 2 q) (-1022) - 52) := by
  have hnum : q.num.natAbs ≠ 0 := by
    have := Rat.num_pos.mpr hq
    omega
  have hquot : (q.num.natAbs : Rat) / (q.den : Rat) = q := by
    have hcast : ((q.num.natAbs : Int) : Rat) = (q.num : Rat) := by
      rw [Int.natAbs_of_nonneg (Rat.num_nonneg.mpr hq.le)]
    rw [Int.cast_natCast] at hcast
    rw [hcast, Rat.num_div_den]
  have hlog := log_div hnum q.den_ne_zero
  rw [hquot] at hlog
  have hlt := Int.lt_zpow_iff_log_lt (R := Rat) (b := 2) (by decide)
    (x := (Nat.log2 q.num.natAbs : Int) - Nat.log2 q.den) hq
  rw [Nat.cast_ofNat] at hlt
  rw [ulp]
  simp only [hlt]
  split
  · rw [show (Nat.log2 q.num.natAbs : Int) - Nat.log2 q.den - 1 = Int.log 2 q by omega]
  · rw [show (Nat.log2 q.num.natAbs : Int) - Nat.log2 q.den = Int.log 2 q by omega]

theorem ulp_pos {q : Rat} (hq : 0 < q) : 0 < ulp q := by
  rw [ulp_eq hq]
  exact zpow_pos (by norm_num) _

/-! ## Numbers that are doubles -/

theorem roundEven_int (n : Int) : roundEven n = n := by
  norm_num [roundEven]

/-- A number that is a multiple of the distance around it. -/
theorem roundDouble_exact {q : Rat} {m : Nat} (hq : 0 < q) (hm : q / ulp q = m)
    (hlt : q < 2 ^ 1024) : roundDouble q = some q := by
  have hround : (roundEven (q / ulp q) : Rat) * ulp q = q := by
    have hcast : (m : Rat) = ((m : Int) : Rat) := (Int.cast_natCast m).symm
    rw [hm, hcast, roundEven_int, ← hcast, ← hm, div_mul_cancel₀ q (ulp_pos hq).ne']
  rw [roundDouble, if_neg hq.ne']
  simp only [hround, hlt, if_true]

theorem log_mul_zpow {n : Nat} (h : n ≠ 0) (k : Int) :
    Int.log 2 ((n : Rat) * 2 ^ k) = Nat.log2 n + k := by
  have hpos : (0 : Rat) < (n : Rat) * 2 ^ k :=
    mul_pos (by exact_mod_cast Nat.pos_of_ne_zero h) (zpow_pos (by norm_num) k)
  refine le_antisymm (Int.lt_add_one_iff.mp ?_) ?_
  · rw [← Int.lt_zpow_iff_log_lt (by decide) hpos, Nat.cast_ofNat, add_right_comm,
      zpow_add₀ (by norm_num)]
    exact mul_lt_mul_of_pos_right (lt_zpow_log2 n) (zpow_pos (by norm_num) k)
  · rw [← Int.zpow_le_iff_le_log (by decide) hpos, Nat.cast_ofNat, zpow_add₀ (by norm_num)]
    exact mul_le_mul_of_nonneg_right (zpow_log2_le h) (zpow_nonneg (by norm_num) k)

theorem roundDouble_grid_lt {n : Nat} {k : Int} (hn : n < 2 ^ 53) (hk : -1074 ≤ k)
    (hlt : (n : Rat) * 2 ^ k < 2 ^ 1024) :
    roundDouble ((n : Rat) * 2 ^ k) = some ((n : Rat) * 2 ^ k) := by
  by_cases h0 : n = 0
  · subst h0
    rw [Nat.cast_zero, zero_mul]
    rfl
  · have hpos : (0 : Rat) < (n : Rat) * 2 ^ k :=
      mul_pos (by exact_mod_cast Nat.pos_of_ne_zero h0) (zpow_pos (by norm_num) k)
    have hlog : Nat.log2 n < 53 := (Nat.log2_lt h0).mpr hn
    obtain ⟨j, hj⟩ : ∃ j : Nat, k - (max ((Nat.log2 n : Int) + k) (-1022) - 52) = j :=
      ⟨_, (Int.toNat_of_nonneg (by omega)).symm⟩
    refine roundDouble_exact (m := n * 2 ^ j) hpos ?_ hlt
    rw [ulp_eq hpos, log_mul_zpow h0, mul_div_assoc, ← zpow_sub₀ (by norm_num), hj, zpow_natCast]
    push_cast
    rfl

/-- `n * 2 ^ k` is a double. -/
theorem roundDouble_grid {n : Nat} {k : Int} (hn : n ≤ 2 ^ 53) (hk : -1074 ≤ k)
    (hlt : (n : Rat) * 2 ^ k < 2 ^ 1024) :
    roundDouble ((n : Rat) * 2 ^ k) = some ((n : Rat) * 2 ^ k) := by
  rcases Nat.lt_or_eq_of_le hn with h | h
  · exact roundDouble_grid_lt h hk hlt
  · -- one bit too many, and a zero at the end of it
    have hshift : (n : Rat) * 2 ^ k = ((2 ^ 52 : Nat) : Rat) * 2 ^ (k + 1) := by
      rw [h, zpow_add₀ (by norm_num), zpow_one]
      push_cast
      ring
    rw [hshift] at hlt ⊢
    exact roundDouble_grid_lt (by norm_num) (by omega) hlt

/-- An integer below `2 ^ 53` is a double. -/
theorem roundDouble_nat {k : Nat} (h : k < 2 ^ 53) : roundDouble (k : Rat) = some (k : Rat) := by
  have hlt : (k : Rat) < 2 ^ 53 := by exact_mod_cast h
  have hgrid := roundDouble_grid_lt (k := 0) h (by decide)
  rw [zpow_zero, mul_one] at hgrid
  exact hgrid (hlt.trans (pow_lt_pow_right₀ (by norm_num) (by norm_num)))

/-! ## Rounding -/

theorem roundEven_bounds {q : Rat} {b : Int} (h0 : 0 ≤ q) (hb : q ≤ b) :
    0 ≤ roundEven q ∧ roundEven q ≤ b := by
  have hfloor : 0 ≤ q.floor := Int.floor_nonneg.mpr h0
  have hle : (q.floor : Rat) ≤ q := Int.floor_le q
  have hbound : q.floor < b ∨ q = q.floor := by
    rcases lt_or_ge q.floor b with h | h
    · exact .inl h
    · have hcast : (b : Rat) ≤ q.floor := by exact_mod_cast h
      exact .inr (le_antisymm (hb.trans hcast) hle)
  have hfb : q.floor ≤ b := by exact_mod_cast hle.trans hb
  unfold roundEven
  simp only
  rcases hbound with h | h
  · split
    · exact ⟨hfloor, hfb⟩
    · split
      · exact ⟨by omega, by omega⟩
      · split
        · exact ⟨hfloor, hfb⟩
        · exact ⟨by omega, by omega⟩
  · have hlt : q - q.floor < 1 / 2 := by
      rw [sub_eq_zero.mpr h]
      norm_num
    rw [if_pos hlt]
    exact ⟨hfloor, hfb⟩

/-- What is given is `n * 2 ^ k`. -/
theorem roundDouble_some {q r : Rat} (hq : 0 ≤ q) (h : roundDouble q = some r) :
    ∃ (n : Nat) (k : Int), n ≤ 2 ^ 53 ∧ -1074 ≤ k ∧ r = n * 2 ^ k ∧ r < 2 ^ 1024 := by
  unfold roundDouble at h
  split at h
  · cases h
    exact ⟨0, 0, by decide, by decide, by simp, by positivity⟩
  · rename_i hne
    have hpos : 0 < q := lt_of_le_of_ne hq (Ne.symm hne)
    simp only at h
    split at h
    · rename_i hlt
      cases h
      have hquot : q / ulp q ≤ ((2 ^ 53 : Int) : Rat) := by
        rw [div_le_iff₀ (ulp_pos hpos), ulp_eq hpos]
        have hlog := Int.lt_zpow_succ_log_self (R := Rat) (b := 2) (by decide) q
        rw [Nat.cast_ofNat] at hlog
        calc q ≤ 2 ^ (Int.log 2 q + 1) := hlog.le
          _ ≤ 2 ^ (53 + (max (Int.log 2 q) (-1022) - 52)) :=
            zpow_le_zpow_right₀ (by norm_num) (by omega)
          _ = ((2 ^ 53 : Int) : Rat) * 2 ^ (max (Int.log 2 q) (-1022) - 52) := by
            rw [zpow_add₀ (by norm_num)]
            norm_num
      obtain ⟨h0, hb⟩ := roundEven_bounds (div_nonneg hq (ulp_pos hpos).le) hquot
      obtain ⟨n, hn⟩ := Int.eq_ofNat_of_zero_le h0
      refine ⟨n, max (Int.log 2 q) (-1022) - 52, by omega, by omega, ?_, hlt⟩
      rw [hn, ulp_eq hpos]
      rfl
    · cases h

/-- A double is its own nearest double. -/
theorem roundDouble_idem {q r : Rat} (hq : 0 ≤ q) (h : roundDouble q = some r) :
    0 ≤ r ∧ roundDouble r = some r := by
  obtain ⟨n, k, hn, hk, hr, hlt⟩ := roundDouble_some hq h
  rw [hr] at hlt ⊢
  exact ⟨mul_nonneg n.cast_nonneg (zpow_nonneg (by norm_num) k), roundDouble_grid hn hk hlt⟩

/-- A number that is its own nearest double. -/
def IsDouble (q : Rat) : Prop := roundDouble |q| = some |q|

theorem isDouble_of_round {q r : Rat} (hq : 0 ≤ q) (h : roundDouble q = some r) : IsDouble r := by
  obtain ⟨hr, hidem⟩ := roundDouble_idem hq h
  rw [IsDouble, abs_of_nonneg hr]
  exact hidem

theorem IsDouble.neg {q : Rat} (h : IsDouble q) : IsDouble (-q) := by
  rw [IsDouble, abs_neg]
  exact h

theorem IsDouble.den_eq {q : Rat} (h : IsDouble q) : ∃ j, q.den = 2 ^ j := by
  obtain ⟨n, k, -, -, hr, -⟩ := roundDouble_some (abs_nonneg q) h
  obtain ⟨m, l, hl⟩ : ∃ m l : Nat, k + m = l := ⟨k.natAbs, (k + k.natAbs).toNat, by omega⟩
  have habs : |q| * 2 ^ m = ((n * 2 ^ l : Nat) : Rat) := by
    rw [hr, mul_assoc, ← zpow_natCast (2 : Rat) m, ← zpow_add₀ (by norm_num), hl, zpow_natCast]
    push_cast
    rfl
  obtain ⟨z, hz⟩ : ∃ z : Int, q * 2 ^ m = z := by
    rcases abs_choice q with hq | hq
    · rw [hq] at habs
      exact ⟨(n * 2 ^ l : Nat), by rw [habs, Int.cast_natCast]⟩
    · rw [hq, neg_mul] at habs
      exact ⟨-(n * 2 ^ l : Nat), by rw [Int.cast_neg, Int.cast_natCast, ← habs, neg_neg]⟩
  have hdvd : q.den ∣ 2 ^ m := by
    have hquot : q = Rat.divInt z ((2 ^ m : Nat) : Int) := by
      rw [Rat.divInt_eq_div, ← hz]
      push_cast
      rw [mul_div_cancel_right₀ q (by positivity)]
    rw [hquot]
    exact Int.natCast_dvd_natCast.mp (Rat.den_dvd z _)
  obtain ⟨j, -, hj⟩ := (Nat.dvd_prime_pow Nat.prime_two).mp hdvd
  exact ⟨j, hj⟩

/-! ## Arithmetic on doubles -/

/-- The double nearest to a number. From `2 ^ 1024` on it stands for infinity. -/
def nearest (q : Rat) : Rat :=
  if 0 < q then roundEven (q / ulp q) * ulp q
  else if q < 0 then -(roundEven (-q / ulp (-q)) * ulp (-q))
  else 0

theorem nearest_pos_eq {q : Rat} (h : 0 < q) : nearest q = roundEven (q / ulp q) * ulp q := by
  rw [nearest, if_pos h]

theorem roundDouble_nearest {q : Rat} (h : 0 < q) :
    roundDouble q = if nearest q < 2 ^ 1024 then some (nearest q) else none := by
  rw [roundDouble, if_neg h.ne', nearest_pos_eq h]

/-- A double is its own nearest double. -/
theorem nearest_of_isDouble {q : Rat} (h0 : 0 ≤ q) (h : IsDouble q) : nearest q = q := by
  rcases h0.eq_or_lt with rfl | hpos
  · rfl
  · rw [IsDouble, abs_of_pos hpos, roundDouble_nearest hpos] at h
    split at h
    · exact Option.some.inj h
    · cases h

theorem IsDouble.lt {q : Rat} (h0 : 0 ≤ q) (h : IsDouble q) : q < 2 ^ 1024 := by
  obtain ⟨n, k, -, -, -, hlt⟩ := roundDouble_some (abs_nonneg q) h
  rwa [abs_of_nonneg h0] at hlt

theorem roundEven_mem (q : Rat) : q.floor ≤ roundEven q ∧ roundEven q ≤ q.floor + 1 := by
  unfold roundEven
  simp only
  split
  · omega
  · split
    · omega
    · split <;> omega

theorem le_roundEven {q : Rat} {b : Int} (h : (b : Rat) ≤ q) : b ≤ roundEven q :=
  (Int.le_floor.mpr h).trans (roundEven_mem q).1

theorem roundEven_le {q : Rat} {b : Int} (h : q ≤ b) : roundEven q ≤ b := by
  rcases lt_or_ge q.floor b with hlt | hge
  · have := (roundEven_mem q).2
    omega
  · have hle : (q.floor : Rat) ≤ q := Int.floor_le q
    have hcast : (b : Rat) ≤ q.floor := by exact_mod_cast hge
    have heq : q = (b : Int) := le_antisymm h (hcast.trans hle)
    rw [heq, roundEven_int]

theorem roundEven_mono {p q : Rat} (h : p ≤ q) : roundEven p ≤ roundEven q := by
  have hfloor : p.floor ≤ q.floor := Int.floor_mono h
  rcases hfloor.lt_or_eq with hlt | heq
  · have h1 := (roundEven_mem p).2
    have h2 := (roundEven_mem q).1
    omega
  · unfold roundEven
    simp only [heq]
    -- in one unit interval the nearest integer can only go up
    split
    · split
      · exact le_rfl
      · split
        · omega
        · split <;> omega
    · rename_i hlow
      have hq : ¬ q - q.floor < 1 / 2 := by linarith
      rw [if_neg hq]
      split
      · rw [if_pos (by linarith)]
      · split
        · split <;> omega
        · split <;> omega

theorem ulp_mono {p q : Rat} (hp : 0 < p) (h : p ≤ q) : ulp p ≤ ulp q := by
  have hlog := Int.log_mono_right (b := 2) hp h
  rw [ulp_eq hp, ulp_eq (hp.trans_le h)]
  exact zpow_le_zpow_right₀ (by norm_num) (by omega)

/-- The power of two below a number. -/
theorem zpow_log_le {q : Rat} (hq : 0 < q) : (2 : Rat) ^ Int.log 2 q ≤ q := by
  have h := Int.zpow_log_le_self (R := Rat) (b := 2) (by decide) hq
  rwa [Nat.cast_ofNat] at h

theorem nearest_mono_pos {p q : Rat} (hp : 0 < p) (h : p ≤ q) : nearest p ≤ nearest q := by
  have hq := hp.trans_le h
  rw [nearest_pos_eq hp, nearest_pos_eq hq]
  rcases (ulp_mono hp h).lt_or_eq with hlt | heq
  · -- a power of two, a double for both, is in between
    have hu := hlt
    rw [ulp_eq hp, ulp_eq hq, zpow_lt_zpow_iff_right₀ (by norm_num)] at hu
    have hmid : p ≤ 2 ^ Int.log 2 q := by
      have hself := Int.lt_zpow_succ_log_self (R := Rat) (b := 2) (by decide) p
      rw [Nat.cast_ofNat] at hself
      exact hself.le.trans (zpow_le_zpow_right₀ (by norm_num) (by omega))
    have hdown : ∀ {r : Rat} (_ : 0 < r) {j : Nat},
        Int.log 2 q - (max (Int.log 2 r) (-1022) - 52) = j →
        (2 : Rat) ^ Int.log 2 q = ((2 ^ j : Int) : Rat) * ulp r := by
      intro r hr j hj
      rw [ulp_eq hr]
      push_cast
      rw [← zpow_natCast (2 : Rat) j, ← zpow_add₀ (by norm_num), ← hj]
      congr 1
      omega
    obtain ⟨j, hj⟩ : ∃ j : Nat, Int.log 2 q - (max (Int.log 2 p) (-1022) - 52) = j :=
      ⟨_, (Int.toNat_of_nonneg (by omega)).symm⟩
    obtain ⟨k, hk⟩ : ∃ k : Nat, Int.log 2 q - (max (Int.log 2 q) (-1022) - 52) = k :=
      ⟨_, (Int.toNat_of_nonneg (by omega)).symm⟩
    have hbelow : roundEven (p / ulp p) ≤ 2 ^ j := by
      refine roundEven_le ?_
      rw [div_le_iff₀ (ulp_pos hp), ← hdown hp hj]
      exact hmid
    have habove : 2 ^ k ≤ roundEven (q / ulp q) := by
      refine le_roundEven ?_
      rw [le_div_iff₀ (ulp_pos hq), ← hdown hq hk]
      exact zpow_log_le hq
    calc (roundEven (p / ulp p) : Rat) * ulp p
        ≤ ((2 ^ j : Int) : Rat) * ulp p :=
          mul_le_mul_of_nonneg_right (by exact_mod_cast hbelow) (ulp_pos hp).le
      _ = ((2 ^ k : Int) : Rat) * ulp q := by rw [← hdown hp hj, ← hdown hq hk]
      _ ≤ roundEven (q / ulp q) * ulp q :=
          mul_le_mul_of_nonneg_right (by exact_mod_cast habove) (ulp_pos hq).le
  · rw [heq]
    refine mul_le_mul_of_nonneg_right ?_ (ulp_pos hq).le
    exact_mod_cast roundEven_mono (div_le_div_of_nonneg_right h (ulp_pos hq).le)

theorem nearest_nonneg {q : Rat} (h : 0 ≤ q) : 0 ≤ nearest q := by
  rcases h.eq_or_lt with rfl | hpos
  · exact le_rfl
  · rw [nearest_pos_eq hpos]
    have hround : (0 : Int) ≤ roundEven (q / ulp q) :=
      le_roundEven (by simpa using div_nonneg h (ulp_pos hpos).le)
    exact mul_nonneg (by exact_mod_cast hround) (ulp_pos hpos).le

theorem nearest_mono {p q : Rat} (h0 : 0 ≤ p) (h : p ≤ q) : nearest p ≤ nearest q := by
  rcases h0.eq_or_lt with rfl | hpos
  · exact nearest_nonneg h
  · exact nearest_mono_pos hpos h

/-- Rounding does not pass a double. -/
theorem le_nearest {p q : Rat} (h0 : 0 ≤ p) (hp : IsDouble p) (h : p ≤ q) : p ≤ nearest q := by
  rw [← nearest_of_isDouble h0 hp]
  exact nearest_mono h0 h

/-- What is not infinite is a double. -/
theorem isDouble_nearest {q : Rat} (h0 : 0 ≤ q) (h : nearest q < 2 ^ 1024) :
    IsDouble (nearest q) := by
  rcases h0.eq_or_lt with rfl | hpos
  · rfl
  · refine isDouble_of_round h0 ?_
    rw [roundDouble_nearest hpos, if_pos h]

/-- Rounding loses at most half of the distance of doubles. -/
theorem sub_ulp_le_nearest {q : Rat} (h : 0 < q) : q - ulp q / 2 ≤ nearest q := by
  have hhalf : q / ulp q - 1 / 2 ≤ roundEven (q / ulp q) := by
    have hlt : q / ulp q < (q / ulp q).floor + 1 := Int.lt_floor_add_one _
    unfold roundEven
    simp only
    split
    · linarith
    · rename_i hlow
      split
      · push_cast
        linarith
      · rename_i hhigh
        split
        · linarith
        · push_cast
          linarith
  have hmul := mul_le_mul_of_nonneg_right hhalf (ulp_pos h).le
  rw [nearest_pos_eq h, sub_mul, div_mul_cancel₀ q (ulp_pos h).ne'] at *
  linarith

theorem ulp_le {q : Rat} (h : 2 ^ (-1022 : Int) ≤ q) : ulp q ≤ q / 2 ^ 52 := by
  have hpos : 0 < q := (zpow_pos (by norm_num) _).trans_le h
  have hlog : -1022 ≤ Int.log 2 q := by
    rw [← Int.zpow_le_iff_le_log (by decide) hpos]
    exact_mod_cast h
  rw [ulp_eq hpos, max_eq_left hlog, zpow_sub₀ (by norm_num)]
  exact div_le_div_of_nonneg_right (zpow_log_le hpos) (by positivity)

/-- Rounding loses at most one part in `2 ^ 53`. -/
theorem sub_le_nearest {q : Rat} (h : 2 ^ (-1022 : Int) ≤ q) : q - q / 2 ^ 53 ≤ nearest q := by
  have hpos : 0 < q := (zpow_pos (by norm_num) _).trans_le h
  have hloss := sub_ulp_le_nearest hpos
  have hulp := ulp_le h
  linarith

/-- From 1 on, the doubles are multiples of `2 ^ -52`. -/
theorem nearest_grid {q : Rat} (h : 1 ≤ q) : ∃ k : Int, nearest q = k / 2 ^ 52 := by
  have hpos : 0 < q := by linarith
  have hlog : 0 ≤ Int.log 2 q := by
    rw [← Int.zpow_le_iff_le_log (by decide) hpos]
    simpa using h
  obtain ⟨j, hj⟩ := Int.eq_ofNat_of_zero_le hlog
  refine ⟨roundEven (q / ulp q) * 2 ^ j, ?_⟩
  rw [nearest_pos_eq hpos, ulp_eq hpos, max_eq_left (by omega), hj, zpow_sub₀ (by norm_num)]
  push_cast
  rw [zpow_natCast]
  ring

/-- From 1 on, two doubles are at least `2 ^ -52` apart. -/
theorem nearest_gap {p q : Rat} (hp : 1 ≤ p) (hq : 1 ≤ q) (h : nearest p < nearest q) :
    1 / 2 ^ 52 ≤ nearest q - nearest p := by
  obtain ⟨j, hj⟩ := nearest_grid hp
  obtain ⟨k, hk⟩ := nearest_grid hq
  rw [hj, hk] at h ⊢
  rw [← sub_div]
  refine div_le_div_of_nonneg_right ?_ (by positivity)
  have hlt : (j : Rat) < k := (div_lt_div_iff_of_pos_right (by positivity)).mp h
  have hint : j + 1 ≤ k := by exact_mod_cast hlt
  have hcast : (j : Rat) + 1 ≤ k := by exact_mod_cast hint
  linarith

end Wormhole.L1.JsonText
