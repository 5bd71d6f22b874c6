import Wormhole.L1Encoding.Doubles
import Wormhole.L4App.Throttler

/-!
# The throttler's loops

`throttle` waits, a tenth of a second at a time, until the bucket has what is asked for. The
numbers are doubles and each operation rounds: a result from `2 ^ 1024` on is infinite. So a
short sleep may be too short to show on the clock, and what comes in too little to show in the
bucket. The clock is given by the time at each of its readings. The loops have fuel, and a
result is what they return when it suffices.

* `refill_gains`: a reading that is later fills the bucket or adds one part in `2 ^ 54`.
* `throttling_finishes_iff`: on a clock that goes on, `throttle` and `throttle_stream` return
  if and only if the amount, or the longest chunk, is within one second of data, or there is
  no bucket.
-/
namespace Wormhole.L4.Enterprise.Throttling

open Wormhole.L1.JsonText

/-! ## The bucket -/

/-- `float(k)`; `none`: OverflowError. -/
def float (k : ℤ) : Option ℚ := if |nearest k| < 2 ^ 1024 then some (nearest k) else none

/-- mirrors src/wh/enterprise/rate_limiter.py:53-66 -/
structure Bucket where
  capacity : ℚ
  refillRate : ℚ
  tokens : ℚ
  lastUpdate : ℚ
deriving DecidableEq

namespace Bucket

/-- A new bucket is full.
mirrors src/wh/enterprise/rate_limiter.py:68-70 -/
def new (capacity refillRate now : ℚ) : Bucket := ⟨capacity, refillRate, capacity, now⟩

/-- mirrors src/wh/enterprise/rate_limiter.py:72-77 -/
def refill (b : Bucket) (now : ℚ) : Bucket :=
  let elapsed := nearest (now - b.lastUpdate)
  { b with
    tokens := min b.capacity (nearest (b.tokens + nearest (elapsed * b.refillRate)))
    lastUpdate := now }

/-- `self.tokens -= tokens`. -/
def spend (b : Bucket) (n : ℚ) : Bucket := { b with tokens := nearest (b.tokens - n) }

/-- mirrors src/wh/enterprise/rate_limiter.py:79-93 -/
def tryAcquire (b : Bucket) (n now : ℚ) : Bool × Bucket :=
  if n ≤ (b.refill now).tokens then (true, (b.refill now).spend n) else (false, b.refill now)

/-- `none`: division by zero.
mirrors src/wh/enterprise/rate_limiter.py:95-101 -/
def timeUntilAvailable (b : Bucket) (n now : ℚ) : Option ℚ × Bucket :=
  if n ≤ (b.refill now).tokens then (some 0, b.refill now)
  else if b.refillRate = 0 then (none, b.refill now)
  else (some (nearest (nearest (n - (b.refill now).tokens) / b.refillRate)), b.refill now)

/-- The bucket of the exact calculation. -/
def exact (b : TokenBucket) : Bucket := ⟨b.capacity, b.refillRate, b.tokens, b.lastUpdate⟩

/-- Where nothing needs rounding, the exact calculation is the one in doubles. -/
theorem refill_exact {b : TokenBucket} {now : ℚ} (helapsed : nearest (now - b.lastUpdate) =
      now - b.lastUpdate)
    (hgain : nearest ((now - b.lastUpdate) * b.refillRate) = (now - b.lastUpdate) * b.refillRate)
    (hsum : nearest (b.tokens + (now - b.lastUpdate) * b.refillRate) =
      b.tokens + (now - b.lastUpdate) * b.refillRate) :
    (exact b).refill now = exact (b.refill now) := by
  simp only [refill, exact, TokenBucket.refill, helapsed, hgain, hsum]

/-- A bucket of one second of data. -/
structure Held (rate : ℚ) (b : Bucket) : Prop where
  capacity_eq : b.capacity = rate
  rate_eq : b.refillRate = rate
  nonneg : 0 ≤ b.tokens
  le : b.tokens ≤ rate
  double : IsDouble b.tokens

variable {rate n now : ℚ} {b : Bucket}

theorem refill_tokens (h : b.Held rate) : (b.refill now).tokens =
    min rate (nearest (b.tokens + nearest (nearest (now - b.lastUpdate) * rate))) := by
  simp only [refill, h.capacity_eq, h.rate_eq]

theorem gain_nonneg (hrate : 0 ≤ rate) (hnow : b.lastUpdate ≤ now) :
    0 ≤ nearest (nearest (now - b.lastUpdate) * rate) :=
  nearest_nonneg (mul_nonneg (nearest_nonneg (sub_nonneg.mpr hnow)) hrate)

theorem le_refill (h : b.Held rate) (hrate : 0 ≤ rate) (hnow : b.lastUpdate ≤ now) :
    b.tokens ≤ (b.refill now).tokens := by
  have hgain := gain_nonneg hrate hnow
  rw [refill_tokens h]
  exact le_min h.le (le_nearest h.nonneg h.double (by linarith))

theorem held_new (hrate : 0 ≤ rate) (hdouble : IsDouble rate) : (new rate rate now).Held rate :=
  ⟨rfl, rfl, hrate, le_rfl, hdouble⟩

theorem held_refill (h : b.Held rate) (hdouble : IsDouble rate) (hnow : b.lastUpdate ≤ now) :
    (b.refill now).Held rate := by
  have hrate : 0 ≤ rate := h.nonneg.trans h.le
  have hgain := gain_nonneg hrate hnow
  have htokens : (b.refill now).tokens =
      min rate (nearest (b.tokens + nearest (nearest (now - b.lastUpdate) * rate))) :=
    refill_tokens h
  refine ⟨h.capacity_eq, h.rate_eq, h.nonneg.trans (le_refill h hrate hnow), ?_, ?_⟩
  · rw [htokens]
    exact min_le_left _ _
  · rw [htokens]
    rcases le_total rate
      (nearest (b.tokens + nearest (nearest (now - b.lastUpdate) * rate))) with hfull | hless
    · rwa [min_eq_left hfull]
    · rw [min_eq_right hless]
      exact isDouble_nearest (add_nonneg h.nonneg hgain) (hless.trans_lt (hdouble.lt hrate))

theorem held_spend (h : b.Held rate) (hn : 0 ≤ n) (hfits : n ≤ b.tokens) :
    (b.spend n).Held rate := by
  have hrest : 0 ≤ b.tokens - n := sub_nonneg.mpr hfits
  have hless : nearest (b.tokens - n) ≤ b.tokens := by
    have hmono := nearest_mono hrest (sub_le_self b.tokens hn)
    rwa [nearest_of_isDouble h.nonneg h.double] at hmono
  exact ⟨h.capacity_eq, h.rate_eq, nearest_nonneg hrest, hless.trans h.le,
    isDouble_nearest hrest (hless.trans_lt (h.double.lt h.nonneg))⟩

theorem isDouble_step : IsDouble (1 / 2 ^ 52) := by
  have hlt : ((1 : ℕ) : ℚ) * 2 ^ (-52 : ℤ) < 2 ^ 1024 := by
    rw [Nat.cast_one, one_mul, ← zpow_natCast]
    exact zpow_lt_zpow_right₀ (by norm_num) (by decide)
  have hgrid := roundDouble_grid (by decide) (by decide) hlt
  rw [IsDouble, abs_of_pos (by positivity)]
  norm_num at hgrid ⊢
  exact hgrid

theorem normal_small : (2 : ℚ) ^ (-1022 : ℤ) ≤ 1 / 2 ^ 53 := by
  rw [one_div, ← zpow_natCast, ← zpow_neg]
  exact zpow_le_zpow_right₀ (by norm_num) (by decide)

/-- A later reading fills the bucket, or adds one part in `2 ^ 54`. -/
theorem refill_gains (h : b.Held rate) (hone : 1 ≤ rate) (hdouble : IsDouble rate) {p q : ℚ}
    (hp : 1 ≤ p) (hq : 1 ≤ q) (hlast : b.lastUpdate = nearest p)
    (hlater : nearest p < nearest q) :
    min rate (b.tokens + rate / 2 ^ 54) ≤ (b.refill (nearest q)).tokens := by
  have hpos : 0 < rate := by linarith
  have helapsed : 1 / 2 ^ 52 ≤ nearest (nearest q - b.lastUpdate) := by
    rw [hlast]
    exact le_nearest (by positivity) isDouble_step (nearest_gap hp hq hlater)
  rw [refill_tokens h]
  generalize nearest (nearest q - b.lastUpdate) = elapsed at helapsed ⊢
  -- what comes in, and what rounding takes from it
  have hproduct : 1 / 2 ^ 52 * rate ≤ elapsed * rate :=
    mul_le_mul_of_nonneg_right helapsed hpos.le
  have hsmall := normal_small
  have hgain := sub_le_nearest (q := elapsed * rate) (by linarith)
  generalize nearest (elapsed * rate) = gain at hgain ⊢
  have hcome : rate / 2 ^ 53 + rate / 2 ^ 54 ≤ gain := by linarith
  refine le_min (min_le_left _ _) ?_
  have hnonneg := h.nonneg
  rcases lt_or_ge (b.tokens + gain) rate with hless | hfull
  · have hloss := sub_le_nearest (q := b.tokens + gain) (by linarith)
    refine (min_le_right _ _).trans ?_
    linarith
  · exact (min_le_left _ _).trans (le_nearest hpos.le hdouble hfull)

end Bucket

/-! ## The clock and the loops -/

/-- The time at each of the readings to come. However little is slept, it goes on. -/
structure Clock where
  time : ℕ → ℚ
  nonneg (i : ℕ) : 0 ≤ time i
  mono : Monotone time
  passes (t : ℚ) : ∃ i, t ≤ time i

/-- `time.monotonic()`. -/
def Clock.read (c : Clock) (i : ℕ) : ℚ := nearest (c.time i)

/-- How a call ends, if it does within its fuel. -/
inductive Ending (α : Type) where
  | running
  | raised
  | returned (a : α)

def Ending.bind {α β : Type} (r : Ending α) (f : α → Ending β) : Ending β :=
  match r with
  | running => .running
  | raised => .raised
  | returned a => f a

/-- mirrors src/wh/enterprise/rate_limiter.py:402-425 -/
structure BandwidthThrottler where
  maxBytesPerSecond : Option ℤ
  bucket : Option Bucket
deriving DecidableEq

namespace BandwidthThrottler

/-- `none`: OverflowError, of `int(inf)`.
mirrors src/wh/enterprise/rate_limiter.py:412-417 -/
def limit (maxMbps : Option ℚ) (maxBytesPerSecond : Option ℤ) : Option (Option ℤ) :=
  match truthy maxMbps with
  | some q =>
    let product := nearest (nearest (q * 1024) * 1024)
    if |product| < 2 ^ 1024 then some (some (pyInt (nearest (product / 8)))) else none
  | none => some (truthy maxBytesPerSecond)

/-- Where nothing needs rounding, the limit is the exact one. -/
theorem limit_exact {maxMbps : Option ℚ} {maxBytesPerSecond : Option ℤ}
    (h : ∀ q, truthy maxMbps = some q → nearest (q * 1024) = q * 1024 ∧
      nearest (q * 1024 * 1024) = q * 1024 * 1024 ∧
      nearest (q * 1024 * 1024 / 8) = q * 1024 * 1024 / 8 ∧ |q * 1024 * 1024| < 2 ^ 1024) :
    limit maxMbps maxBytesPerSecond =
      some (Enterprise.BandwidthThrottler.limit maxMbps maxBytesPerSecond) := by
  unfold limit Enterprise.BandwidthThrottler.limit
  cases hq : truthy maxMbps with
  | none => rfl
  | some q =>
    obtain ⟨hfirst, hsecond, hthird, hlt⟩ := h q hq
    simp only [hfirst, hsecond, hthird, if_pos hlt]

/-- mirrors src/wh/enterprise/rate_limiter.py:407-425 -/
def new (maxMbps : Option ℚ) (maxBytesPerSecond : Option ℤ) (made : ℚ) :
    Option BandwidthThrottler :=
  (limit maxMbps maxBytesPerSecond).bind fun m =>
    match truthy m with
    | none => some ⟨m, none⟩
    | some k => (float k).map fun rate => ⟨m, some (.new rate rate made)⟩

/-- One turn of the loop, from reading `i` on: how it ends, or the bucket and how long it
sleeps. What the sleep takes is in the times of the clock.
mirrors src/wh/enterprise/rate_limiter.py:437-439 -/
def turn (n : ℚ) (c : Clock) (b : Bucket) (i : ℕ) : Ending (Bucket × ℕ) ⊕ Bucket × ℚ :=
  let tried := b.tryAcquire n (c.read i)
  if tried.1 then .inl (.returned (tried.2, i + 1))
  else
    let asked := tried.2.timeUntilAvailable n (c.read (i + 1))
    match asked.1 with
    | none => .inl .raised
    | some waitTime => .inr (asked.2, min waitTime (nearest (1 / 10)))

/-- `while not self._bucket.try_acquire(n)`. -/
def wait (n : ℚ) (c : Clock) : ℕ → Bucket → ℕ → Ending (Bucket × ℕ)
  | 0, _, _ => .running
  | fuel + 1, b, i => (turn n c b i).elim id fun r => wait n c fuel r.1 (i + 2)

/-- mirrors src/wh/enterprise/rate_limiter.py:427-439 -/
def throttle (t : BandwidthThrottler) (bytesToSend : ℕ) (c : Clock) (fuel i : ℕ) :
    Ending (BandwidthThrottler × ℕ) :=
  match t.bucket with
  | none => .returned (t, i)
  | some b =>
    match float bytesToSend with
    | none => .raised
    | some n => (wait n c fuel b i).bind fun r => .returned ({ t with bucket := some r.1 }, r.2)

/-- The loop of `throttle_stream`, with the chunks it yields.
mirrors src/wh/enterprise/rate_limiter.py:452-457 -/
def throttleFrom (data : List UInt8) (chunkSize : ℕ) (c : Clock) :
    ℕ → ℕ → BandwidthThrottler → ℕ → Ending (List (List UInt8) × BandwidthThrottler × ℕ)
  | 0, _, _, _ => .running
  | fuel + 1, offset, t, i =>
    if offset < data.length then
      let chunk := (data.drop offset).take chunkSize
      (t.throttle chunk.length c fuel i).bind fun r =>
      (throttleFrom data chunkSize c fuel (offset + chunkSize) r.1 r.2).bind fun rest =>
      .returned (chunk :: rest.1, rest.2)
    else .returned ([], t, i)

/-- mirrors src/wh/enterprise/rate_limiter.py:441-457 -/
def throttleStream (t : BandwidthThrottler) (data : List UInt8) (chunkSize : ℕ) (c : Clock)
    (fuel i : ℕ) : Ending (List (List UInt8) × BandwidthThrottler × ℕ) :=
  throttleFrom data chunkSize c fuel 0 t i

/-! ## The bucket fills -/

variable {rate n : ℚ} {c : Clock} {b : Bucket} {i : ℕ}

end BandwidthThrottler

namespace Clock

variable {c : Clock}

theorem read_mono {i j : ℕ} (h : i ≤ j) : c.read i ≤ c.read j :=
  nearest_mono (c.nonneg i) (c.mono h)

theorem read_passes (t : ℚ) : ∃ i, t < c.read i := by
  obtain ⟨i, hi⟩ := c.passes (max 1 (2 * t + 1))
  obtain ⟨hone, htwice⟩ := max_le_iff.mp hi
  have hsmall : (2 : ℚ) ^ (-1022 : ℤ) ≤ c.time i := Bucket.normal_small.trans (by linarith)
  have hloss := sub_le_nearest hsmall
  refine ⟨i, ?_⟩
  unfold read
  linarith

theorem read_rises (k : ℕ) : ∃ j, k ≤ j ∧ c.read j < c.read (j + 1) := by
  obtain ⟨l, hl⟩ := c.read_passes (c.read k)
  by_contra hnone
  have hsame : ∀ j, k ≤ j → c.read j ≤ c.read k := by
    intro j hj
    induction j, hj using Nat.le_induction with
    | base => exact le_rfl
    | succ j hj ih =>
      by_contra hless
      exact hnone ⟨j, hj, ih.trans_lt (not_le.mp hless)⟩
  rcases le_total k l with hkl | hlk
  · exact absurd hl (not_lt.mpr (hsame l hkl))
  · exact absurd hl (not_lt.mpr (read_mono hlk))

end Clock

namespace Bucket

/-- The bucket after `k` more readings in which nothing was taken from it. -/
def refills (c : Clock) (b : Bucket) (i : ℕ) : ℕ → Bucket
  | 0 => b
  | k + 1 => (refills c b i k).refill (c.read (i + k))

variable {c : Clock} {rate n : ℚ} {b : Bucket} {i : ℕ}

theorem refills_shift (k : ℕ) :
    refills c (b.refill (c.read i)) (i + 1) k = refills c b i (k + 1) := by
  induction k with
  | zero => rfl
  | succ k ih =>
    rw [refills, ih, Nat.add_assoc, Nat.add_comm 1 k]
    rfl

theorem refills_lastUpdate (h : b.lastUpdate ≤ c.read i) (k : ℕ) :
    (refills c b i k).lastUpdate ≤ c.read (i + k) := by
  cases k with
  | zero => exact h
  | succ k => exact c.read_mono (by omega)

theorem held_refills (h : b.Held rate) (hdouble : IsDouble rate) (hlast : b.lastUpdate ≤ c.read i)
    (k : ℕ) : (refills c b i k).Held rate := by
  induction k with
  | zero => exact h
  | succ k ih => exact held_refill ih hdouble (refills_lastUpdate hlast k)

theorem refills_mono (h : b.Held rate) (hdouble : IsDouble rate) (hlast : b.lastUpdate ≤ c.read i) :
    Monotone fun k => (refills c b i k).tokens := by
  refine monotone_nat_of_le_succ fun k => ?_
  exact le_refill (held_refills h hdouble hlast k) (h.nonneg.trans h.le)
    (refills_lastUpdate hlast k)

/-- Each time the reading goes up, one part in `2 ^ 54` comes in. -/
theorem refills_gain (h : b.Held rate) (hone : 1 ≤ rate) (hdouble : IsDouble rate)
    (hlast : b.lastUpdate ≤ c.read i) (parts : ℕ) :
    ∃ k, 1 ≤ c.time (i + k) ∧
      min rate (parts * (rate / 2 ^ 54)) ≤ (refills c b i (k + 1)).tokens := by
  induction parts with
  | zero =>
    obtain ⟨k, hk⟩ := c.passes 1
    refine ⟨k, hk.trans (c.mono (by omega)), ?_⟩
    refine (min_le_right _ _).trans ?_
    rw [Nat.cast_zero, zero_mul]
    exact (held_refills h hdouble hlast _).nonneg
  | succ parts ih =>
    obtain ⟨k, hk, htokens⟩ := ih
    obtain ⟨j, hj, hrises⟩ := c.read_rises (i + k)
    obtain ⟨l, rfl⟩ : ∃ l, j = i + l := ⟨j - i, by omega⟩
    have hl : 1 ≤ c.time (i + l) := hk.trans (c.mono hj)
    have hl' : 1 ≤ c.time (i + l + 1) := hl.trans (c.mono (by omega))
    have hheld := held_refills h hdouble hlast (l + 1)
    have hgains := refill_gains hheld hone hdouble hl hl' rfl hrises
    have hkept : (refills c b i (k + 1)).tokens ≤ (refills c b i (l + 1)).tokens :=
      refills_mono h hdouble hlast (by omega)
    refine ⟨l + 1, hl', le_trans ?_ hgains⟩
    refine le_min (min_le_left _ _) ?_
    push_cast
    rcases min_le_iff.mp (htokens.trans hkept) with hfull | hpart
    · refine (min_le_left _ _).trans ?_
      have : 0 ≤ rate / 2 ^ 54 := by positivity
      linarith
    · refine (min_le_right _ _).trans ?_
      linarith

/-- What the bucket has room for is there some time. -/
theorem fits_later (h : b.Held rate) (hone : 1 ≤ rate) (hdouble : IsDouble rate)
    (hlast : b.lastUpdate ≤ c.read i) (hn : n ≤ rate) :
    ∃ m, n ≤ (refills c b i (2 * m + 1)).tokens := by
  obtain ⟨k, -, htokens⟩ := refills_gain h hone hdouble hlast (2 ^ 54)
  have hfull : min rate ((2 ^ 54 : ℕ) * (rate / 2 ^ 54)) = rate := by
    rw [Nat.cast_pow, Nat.cast_ofNat, mul_div_cancel₀ rate (by positivity), min_self]
  rw [hfull] at htokens
  have hlater : (refills c b i (k + 1)).tokens ≤ (refills c b i (2 * k + 1)).tokens :=
    refills_mono h hdouble hlast (by omega)
  exact ⟨k, hn.trans (htokens.trans hlater)⟩

end Bucket

namespace BandwidthThrottler

/-! ## Waiting -/

variable {c : Clock} {rate n : ℚ} {b : Bucket} {i : ℕ}

theorem turn_of_fits (h : n ≤ (b.refill (c.read i)).tokens) :
    turn n c b i = .inl (.returned ((b.refill (c.read i)).spend n, i + 1)) := by
  have htried : b.tryAcquire n (c.read i) = (true, (b.refill (c.read i)).spend n) := if_pos h
  rw [turn, htried]
  rfl

theorem turn_of_missing (h : ¬ n ≤ (b.refill (c.read i)).tokens) :
    (b.refillRate = 0 ∧ turn n c b i = .inl .raised) ∨
      ∃ slept, turn n c b i = .inr ((b.refill (c.read i)).refill (c.read (i + 1)), slept) := by
  have hno : b.tryAcquire n (c.read i) = (false, b.refill (c.read i)) := if_neg h
  rw [turn, hno]
  dsimp only
  rw [if_neg Bool.false_ne_true]
  by_cases hthere : n ≤ ((b.refill (c.read i)).refill (c.read (i + 1))).tokens
  · rw [Bucket.timeUntilAvailable, if_pos hthere]
    exact .inr ⟨_, rfl⟩
  · by_cases hrate : b.refillRate = 0
    · have hzero : (b.refill (c.read i)).refillRate = 0 := hrate
      rw [Bucket.timeUntilAvailable, if_neg hthere, if_pos hzero]
      exact .inl ⟨hrate, rfl⟩
    · have hne : ¬ (b.refill (c.read i)).refillRate = 0 := hrate
      rw [Bucket.timeUntilAvailable, if_neg hthere, if_neg hne]
      exact .inr ⟨_, rfl⟩

theorem wait_mono {fuel fuel' : ℕ} (hle : fuel ≤ fuel') {r : Bucket × ℕ}
    (h : wait n c fuel b i = .returned r) : wait n c fuel' b i = .returned r := by
  induction fuel generalizing fuel' b i with
  | zero => cases h
  | succ fuel ih =>
    obtain ⟨fuel', rfl⟩ : ∃ f, fuel' = f + 1 := ⟨fuel' - 1, by omega⟩
    rw [wait] at h ⊢
    cases hturn : turn n c b i with
    | inl ending => rwa [hturn] at h
    | inr r =>
      rw [hturn] at h
      exact ih (by omega) h

/-- The loop returns by the turn in which the amount is there. -/
theorem wait_returns (hrate : 1 ≤ rate) (hdouble : IsDouble rate) (hn : 0 ≤ n) (m : ℕ)
    (hb : b.Held rate) (hlast : b.lastUpdate ≤ c.read i)
    (h : n ≤ (b.refills c i (2 * m + 1)).tokens) :
    ∃ fuel b' i', wait n c fuel b i = .returned (b', i') ∧ b'.Held rate ∧
      b'.lastUpdate ≤ c.read i' := by
  induction m generalizing b i with
  | zero =>
    have hheld := Bucket.held_refill hb hdouble hlast
    have hfits : n ≤ (b.refill (c.read i)).tokens := h
    exact ⟨1, _, _, by rw [wait, turn_of_fits hfits]; rfl, Bucket.held_spend hheld hn hfits,
      c.read_mono (by omega)⟩
  | succ m ih =>
    have hheld := Bucket.held_refill hb hdouble hlast
    by_cases hfits : n ≤ (b.refill (c.read i)).tokens
    · exact ⟨1, _, _, by rw [wait, turn_of_fits hfits]; rfl, Bucket.held_spend hheld hn hfits,
        c.read_mono (by omega)⟩
    · rcases turn_of_missing hfits with ⟨hzero, _⟩ | ⟨slept, hturn⟩
      · rw [hb.rate_eq] at hzero
        linarith
      · have hnext : c.read i ≤ c.read (i + 1) := c.read_mono (by omega)
        obtain ⟨fuel, b', i', hwait, hrest⟩ := ih (i := i + 2)
          (Bucket.held_refill hheld hdouble hnext) (c.read_mono (by omega))
          (by rwa [Bucket.refills_shift, Bucket.refills_shift])
        exact ⟨fuel + 1, b', i', by rw [wait, hturn]; exact hwait, hrest⟩

/-- What exceeds the capacity is never there. -/
theorem wait_never (fuel : ℕ) (h : b.capacity < n) : ∀ r, wait n c fuel b i ≠ .returned r := by
  induction fuel generalizing b i with
  | zero =>
    intro r hr
    cases hr
  | succ fuel ih =>
    intro r
    have hmissing : ¬ n ≤ (b.refill (c.read i)).tokens :=
      not_le.mpr ((min_le_left _ _).trans_lt h)
    rw [wait]
    rcases turn_of_missing hmissing with ⟨_, hturn⟩ | ⟨slept, hturn⟩
    · rw [hturn]
      intro hr
      cases hr
    · rw [hturn, Sum.elim_inr]
      exact ih (b := (b.refill (c.read i)).refill (c.read (i + 1))) h r

/-! ## Throttling -/

theorem Ending.of_bind {α β : Type} {r : Ending α} {f : α → Ending β} {y : β}
    (h : r.bind f = .returned y) : ∃ a, r = .returned a ∧ f a = .returned y := by
  cases r with
  | running => cases h
  | raised => cases h
  | returned a => exact ⟨a, rfl, h⟩

variable {t : BandwidthThrottler} {bytes fuel : ℕ}

theorem throttle_mono {fuel' : ℕ} (hle : fuel ≤ fuel') {r : BandwidthThrottler × ℕ}
    (h : t.throttle bytes c fuel i = .returned r) : t.throttle bytes c fuel' i = .returned r := by
  unfold throttle at h ⊢
  cases hb : t.bucket with
  | none => rwa [hb] at h
  | some b =>
    rw [hb] at h
    dsimp only at h ⊢
    cases hn : float bytes with
    | none => rwa [hn] at h
    | some n =>
      rw [hn] at h
      dsimp only at h ⊢
      obtain ⟨a, hwait, hr⟩ := Ending.of_bind h
      rw [wait_mono hle hwait]
      exact hr

theorem throttleFrom_mono {data : List UInt8} {chunkSize offset fuel' : ℕ} (hle : fuel ≤ fuel')
    {r : List (List UInt8) × BandwidthThrottler × ℕ}
    (h : throttleFrom data chunkSize c fuel offset t i = .returned r) :
    throttleFrom data chunkSize c fuel' offset t i = .returned r := by
  induction fuel generalizing fuel' offset t i r with
  | zero => cases h
  | succ fuel ih =>
    obtain ⟨fuel', rfl⟩ : ∃ f, fuel' = f + 1 := ⟨fuel' - 1, by omega⟩
    unfold throttleFrom at h ⊢
    split at h
    · rename_i hmore
      obtain ⟨s, hthrottle, hs⟩ := Ending.of_bind h
      obtain ⟨rest, hrest, hr⟩ := Ending.of_bind hs
      rw [if_pos hmore]
      simp only [throttle_mono (by omega : fuel ≤ fuel') hthrottle,
        ih (by omega : fuel ≤ fuel') hrest, Ending.bind]
      exact hr
    · rename_i hdone
      rw [if_neg hdone]
      exact h

/-- The bucket, if there is one, has room for the amount. -/
def Serves (t : BandwidthThrottler) (now : ℚ) (room : ℕ) : Prop :=
  ∀ b, t.bucket = some b → b.lastUpdate ≤ now ∧
    ∃ rate, 1 ≤ rate ∧ IsDouble rate ∧ b.Held rate ∧ nearest room ≤ rate

theorem float_of_le {rate : ℚ} (hrate : 1 ≤ rate) (hdouble : IsDouble rate)
    (h : nearest (bytes : ℕ) ≤ rate) : float bytes = some (nearest bytes) := by
  have hlt := h.trans_lt (hdouble.lt (by linarith))
  rw [float, Int.cast_natCast, abs_of_nonneg (nearest_nonneg bytes.cast_nonneg), if_pos hlt]

/-- Whatever the bucket could serve before, it can serve afterwards. -/
theorem throttle_returns {room : ℕ} (h : t.Serves (c.read i) room) (hle : bytes ≤ room) :
    ∃ fuel t' i', t.throttle bytes c fuel i = .returned (t', i') ∧ t'.Serves (c.read i') room := by
  unfold throttle
  cases hb : t.bucket with
  | none =>
    refine ⟨0, t, i, rfl, ?_⟩
    intro b hb'
    rw [hb] at hb'
    cases hb'
  | some b =>
    obtain ⟨hlast, rate, hone, hdouble, hheld, hroom⟩ := h b hb
    have hfits : nearest bytes ≤ rate :=
      (nearest_mono bytes.cast_nonneg (Nat.cast_le.mpr hle)).trans hroom
    obtain ⟨m, hm⟩ := Bucket.fits_later hheld hone hdouble hlast hfits
    obtain ⟨fuel, b', i', hwait, hheld', hlast'⟩ :=
      wait_returns hone hdouble (nearest_nonneg bytes.cast_nonneg) m hheld hlast hm
    refine ⟨fuel, { t with bucket := some b' }, i', ?_, ?_⟩
    · dsimp only
      rw [float_of_le hone hdouble hfits]
      dsimp only
      rw [hwait]
      rfl
    · intro b'' hb''
      cases hb''
      exact ⟨hlast', rate, hone, hdouble, hheld', hroom⟩

theorem throttle_never (hb : t.bucket = some b) (h : b.capacity < nearest bytes) :
    ∀ r, t.throttle bytes c fuel i ≠ .returned r := by
  intro r hr
  unfold throttle at hr
  rw [hb] at hr
  dsimp only at hr
  unfold float at hr
  split at hr
  · cases hr
  · rename_i hfloat
    split at hfloat
    · cases hfloat
      obtain ⟨s, hwait, _⟩ := Ending.of_bind hr
      exact wait_never fuel (by rwa [Int.cast_natCast]) s hwait
    · cases hfloat

theorem throttleFrom_returns {data : List UInt8} {chunkSize : ℕ} (hchunk : 1 ≤ chunkSize)
    (left : ℕ) (offset : ℕ) (hleft : data.length - offset < left)
    (h : t.Serves (c.read i) (min chunkSize data.length)) :
    ∃ fuel chunks r, throttleFrom data chunkSize c fuel offset t i = .returned (chunks, r) ∧
      chunks.flatten = data.drop offset := by
  induction left generalizing offset t i with
  | zero => omega
  | succ left ih =>
    by_cases hmore : offset < data.length
    · have hlen : ((data.drop offset).take chunkSize).length ≤ min chunkSize data.length := by
        rw [List.length_take, List.length_drop]
        omega
      obtain ⟨first, t', i', hthrottle, hserves⟩ := throttle_returns h hlen
      obtain ⟨second, chunks, r, hrest, hflat⟩ := ih (offset + chunkSize) (by omega) hserves
      refine ⟨max first second + 1, (data.drop offset).take chunkSize :: chunks, r, ?_, ?_⟩
      · unfold throttleFrom
        rw [if_pos hmore]
        simp only [throttle_mono (le_max_left first second) hthrottle,
          throttleFrom_mono (le_max_right first second) hrest, Ending.bind]
      · rw [List.flatten_cons, hflat, ← List.drop_drop, List.take_append_drop]
    · refine ⟨1, [], (t, i), if_neg hmore, ?_⟩
      rw [List.drop_eq_nil_of_le (not_lt.mp hmore), List.flatten_nil]

theorem throttleStream_never {data : List UInt8} {chunkSize : ℕ} (hb : t.bucket = some b)
    (hcap : 0 ≤ b.capacity) (h : b.capacity < nearest (min chunkSize data.length : ℕ)) :
    ∀ r, t.throttleStream data chunkSize c fuel i ≠ .returned r := by
  intro r hr
  have hdata : 0 < data.length := by
    by_contra hempty
    have hzero : min chunkSize data.length = 0 := by omega
    rw [hzero] at h
    exact absurd h (not_lt.mpr hcap)
  unfold throttleStream at hr
  cases fuel with
  | zero => cases hr
  | succ fuel =>
    unfold throttleFrom at hr
    rw [if_pos hdata] at hr
    obtain ⟨s, hthrottle, _⟩ := Ending.of_bind hr
    exact throttle_never hb (by simpa using h) s hthrottle

/-! ## Whom the throttler serves -/

/-- A bucket after other calls on it. -/
inductive Called (b₀ : Bucket) : Bucket → Prop where
  | made : Called b₀ b₀
  | tried {b : Bucket} (n now : ℚ) (hn : 0 ≤ n) (hnow : b.lastUpdate ≤ now) (h : Called b₀ b) :
      Called b₀ (b.tryAcquire n now).2
  | asked {b : Bucket} (n now : ℚ) (hnow : b.lastUpdate ≤ now) (h : Called b₀ b) :
      Called b₀ (b.timeUntilAvailable n now).2

theorem held_called {b₀ : Bucket} (hdouble : IsDouble rate) (h₀ : b₀.Held rate)
    (h : Called b₀ b) : b.Held rate := by
  induction h with
  | made => exact h₀
  | tried n now hn hnow _ ih =>
    have hheld := Bucket.held_refill ih hdouble hnow
    unfold Bucket.tryAcquire
    split
    · rename_i hfits
      exact Bucket.held_spend hheld hn hfits
    · exact hheld
  | asked n now hnow _ ih =>
    have hheld := Bucket.held_refill ih hdouble hnow
    unfold Bucket.timeUntilAvailable
    split
    · exact hheld
    · split
      · exact hheld
      · exact hheld

/-- What other calls make of a throttler by the time `now`. -/
def Used (made t : BandwidthThrottler) (now : ℚ) : Prop :=
  t.maxBytesPerSecond = made.maxBytesPerSecond ∧
    Option.Rel (fun b₀ b => Called b₀ b ∧ b.lastUpdate ≤ now) made.bucket t.bucket

variable {maxMbps : Option ℚ} {maxBytesPerSecond : Option ℤ} {made now : ℚ} {m : ℤ}
  {t₀ : BandwidthThrottler}

theorem bucket_new (h : new maxMbps maxBytesPerSecond made = some t₀)
    (hm : t₀.maxBytesPerSecond = some m) :
    (m = 0 ∧ t₀.bucket = none) ∨
      m ≠ 0 ∧ |nearest m| < 2 ^ 1024 ∧ t₀.bucket = some (.new (nearest m) (nearest m) made) := by
  obtain ⟨set, -, hset⟩ := Option.bind_eq_some_iff.mp h
  cases htruthy : truthy set with
  | none =>
    rw [htruthy] at hset
    cases hset
    cases hm
    left
    refine ⟨?_, rfl⟩
    by_contra hne
    simp [truthy, Option.filter, hne] at htruthy
  | some k =>
    rw [htruthy] at hset
    obtain ⟨rate, hrate, rfl⟩ := Option.map_eq_some_iff.mp hset
    cases hm
    obtain ⟨hk, hne⟩ := Option.filter_eq_some_iff.mp htruthy
    cases hk
    unfold float at hrate
    split at hrate
    · rename_i hlt
      cases hrate
      exact .inr ⟨by simpa using hne, hlt, rfl⟩
    · cases hrate

/-- The bucket of a limit that is not negative, whatever was asked of it. -/
theorem used_bucket (h : new maxMbps maxBytesPerSecond made = some t₀)
    (hm : t₀.maxBytesPerSecond = some m) (hpos : 0 ≤ m) (hused : Used t₀ t now) :
    (m = 0 ∧ t.bucket = none) ∨
      m ≠ 0 ∧ 1 ≤ nearest m ∧ IsDouble (nearest m) ∧
        ∃ b, t.bucket = some b ∧ b.lastUpdate ≤ now ∧ b.Held (nearest m) := by
  obtain ⟨-, hrel⟩ := hused
  rcases bucket_new h hm with ⟨hzero, hnone⟩ | ⟨hne, hlt, hsome⟩
  · rw [hnone] at hrel
    left
    refine ⟨hzero, ?_⟩
    cases hb : t.bucket with
    | none => rfl
    | some b =>
      rw [hb] at hrel
      cases hrel
  · right
    have hone : (1 : ℚ) ≤ m := by
      have hint : 1 ≤ m := by omega
      exact_mod_cast hint
    have hnonneg : (0 : ℚ) ≤ nearest m := nearest_nonneg (by linarith)
    rw [abs_of_nonneg hnonneg] at hlt
    have hdouble := isDouble_nearest (by linarith : (0 : ℚ) ≤ m) hlt
    have hdouble1 : IsDouble 1 := by
      have hround := roundDouble_nat (k := 1) (by decide)
      rw [IsDouble, abs_one]
      exact_mod_cast hround
    refine ⟨hne, le_nearest zero_le_one hdouble1 hone, hdouble, ?_⟩
    rw [hsome] at hrel
    cases hb : t.bucket with
    | none =>
      rw [hb] at hrel
      cases hrel
    | some b =>
      rw [hb] at hrel
      cases hrel with
      | some hcalled =>
        exact ⟨b, rfl, hcalled.2, held_called hdouble (Bucket.held_new hnonneg hdouble) hcalled.1⟩

/-- **Headline.** For a limit that makes `m` bytes per second, whatever was asked of the bucket
before, and on a clock that goes on: `throttle` returns if and only if the amount is within one
second of data, and `throttle_stream` yields the data if and only if the longest chunk is; or the
limit is less than a byte per second, and then there is no bucket. -/
theorem throttling_finishes_iff (h : new maxMbps maxBytesPerSecond made = some t₀)
    (hm : t₀.maxBytesPerSecond = some m) (hpos : 0 ≤ m) {c : Clock} {i : ℕ}
    (hused : Used t₀ t (c.read i)) :
    (∀ bytes : ℕ, (∃ fuel r, t.throttle bytes c fuel i = .returned r) ↔
      m = 0 ∨ nearest bytes ≤ nearest m) ∧
    ∀ data chunkSize, 1 ≤ chunkSize →
      ((∃ fuel chunks r, t.throttleStream data chunkSize c fuel i = .returned (chunks, r) ∧
          chunks.flatten = data) ↔
        m = 0 ∨ nearest (min chunkSize data.length : ℕ) ≤ nearest m) := by
  have hserves : ∀ {room : ℕ}, m = 0 ∨ nearest room ≤ nearest m → t.Serves (c.read i) room := by
    intro room hroom b hb
    rcases used_bucket h hm hpos hused with ⟨-, hnone⟩ | ⟨hne, hone, hdouble, b', hb', hlast, hheld⟩
    · rw [hnone] at hb
      cases hb
    · rw [hb'] at hb
      cases hb
      exact ⟨hlast, _, hone, hdouble, hheld, hroom.resolve_left hne⟩
  have hbeyond : ∀ {room : ℕ}, ¬ (m = 0 ∨ nearest room ≤ nearest m) →
      ∃ b, t.bucket = some b ∧ 0 ≤ b.capacity ∧ b.capacity < nearest room := by
    intro room hroom
    obtain ⟨hne, hless⟩ := not_or.mp hroom
    rcases used_bucket h hm hpos hused with ⟨hzero, -⟩ | ⟨-, hone, -, b, hb, -, hheld⟩
    · exact absurd hzero hne
    · refine ⟨b, hb, ?_, ?_⟩
      · rw [hheld.capacity_eq]
        linarith
      · rw [hheld.capacity_eq]
        exact not_le.mp hless
  constructor
  · intro bytes
    constructor
    · intro hreturns
      obtain ⟨fuel, r, hr⟩ := hreturns
      by_contra hroom
      obtain ⟨b, hb, -, hlt⟩ := hbeyond hroom
      exact throttle_never hb hlt r hr
    · intro hroom
      obtain ⟨fuel, t', i', hr, -⟩ := throttle_returns (hserves hroom) le_rfl
      exact ⟨fuel, _, hr⟩
  · intro data chunkSize hchunk
    constructor
    · intro hreturns
      obtain ⟨fuel, chunks, r, hr, -⟩ := hreturns
      by_contra hroom
      obtain ⟨b, hb, hcap, hlt⟩ := hbeyond hroom
      exact throttleStream_never hb hcap hlt _ hr
    · intro hroom
      exact throttleFrom_returns hchunk (data.length + 1) 0 (by omega) (hserves hroom)

/-- A clock that is a second later at each reading. -/
def seconds : Clock where
  time i := i
  nonneg i := i.cast_nonneg
  mono _ _ h := Nat.cast_le.mpr h
  passes t := exists_nat_ge t

theorem throttling_finishes_iff_two : ∃ t₀, new none (some 2) 0 = some t₀ ∧
    (∃ fuel r, t₀.throttle 2 seconds fuel 0 = .returned r) ∧
      ∃ fuel chunks r, t₀.throttleStream [1, 2, 3] 2 seconds fuel 0 =
        .returned (chunks, r) ∧ chunks.flatten = [1, 2, 3] := by
  have hnew : new none (some 2) 0 = some ⟨some 2, some (.new 2 2 0)⟩ := by decide +kernel
  have hused : Used ⟨some 2, some (.new 2 2 0)⟩ ⟨some 2, some (.new 2 2 0)⟩ (seconds.read 0) :=
    ⟨rfl, .some ⟨.made, le_rfl⟩⟩
  have h := throttling_finishes_iff hnew rfl (by decide) hused
  exact ⟨_, hnew, (h.1 2).mpr (.inr le_rfl), (h.2 [1, 2, 3] 2 (by decide)).mpr (.inr le_rfl)⟩

/-- **A stream that never ends.** One byte a second, and two bytes in one chunk: whatever the
clock does, the loop waits for a second token that the bucket has no room for. -/
theorem two_bytes_never : ∃ t₀, new none (some 1) 0 = some t₀ ∧ ∀ (c : Clock) (i : ℕ),
    (∀ fuel r, t₀.throttle 2 c fuel i ≠ .returned r) ∧
      ∀ fuel r, t₀.throttleStream [1, 2] 8192 c fuel i ≠ .returned r := by
  have hnew : new none (some 1) 0 = some ⟨some 1, some (.new 1 1 0)⟩ := by decide +kernel
  have hless : (1 : ℚ) < nearest (2 : ℕ) := by decide +kernel
  refine ⟨_, hnew, ?_⟩
  intro c i
  constructor
  · intro fuel
    exact throttle_never rfl hless
  · intro fuel
    exact throttleStream_never rfl zero_le_one hless

end BandwidthThrottler

end Wormhole.L4.Enterprise.Throttling
