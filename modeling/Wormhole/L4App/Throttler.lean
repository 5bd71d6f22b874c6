import Mathlib.Algebra.Order.Floor.Ring
import Wormhole.L4App.BucketCalls

/-!
# The bandwidth throttler, and whom the buckets can serve

`BandwidthThrottler` holds a bucket of one second of data. Nothing asks whether a bucket can
ever hold the amount:

* `retry_hints_honest_iff`: the waits that the limiter's and the throttler's buckets name
  come true if and only if the rate is positive and the amount within the capacity, that
  is, within `rate * burst_multiplier` or one second of data.
-/
namespace Wormhole.L4.Enterprise

/-! ## The limit and its bucket -/

/-- `int(q)`: towards 0. -/
def pyInt (q : ℚ) : ℤ := if 0 ≤ q then ⌊q⌋ else ⌈q⌉

/-- mirrors src/wh/enterprise/rate_limiter.py:402-425 -/
structure BandwidthThrottler where
  maxBytesPerSecond : Option ℤ
  bucket : Option TokenBucket

namespace BandwidthThrottler

/-- mirrors src/wh/enterprise/rate_limiter.py:412-417 -/
def limit (maxMbps : Option ℚ) (maxBytesPerSecond : Option ℤ) : Option ℤ :=
  match truthy maxMbps with
  | some q => some (pyInt (q * 1024 * 1024 / 8))
  | none => truthy maxBytesPerSecond

/-- mirrors src/wh/enterprise/rate_limiter.py:407-425 -/
def new (maxMbps : Option ℚ) (maxBytesPerSecond : Option ℤ) (made : ℚ) : BandwidthThrottler where
  maxBytesPerSecond := limit maxMbps maxBytesPerSecond
  bucket := (truthy (limit maxMbps maxBytesPerSecond)).map fun m => .new m m made

/-- The limit that is set, in bytes per second. -/
def configured (maxMbps : Option ℚ) (maxBytesPerSecond : Option ℤ) : Option ℚ :=
  match truthy maxMbps with
  | some q => some (q * 1024 * 1024 / 8)
  | none => (truthy maxBytesPerSecond).map (↑)

/-! ## The limits and the buckets they make -/

theorem natCast_le_pyInt {q : ℚ} (hq : 0 < q) (n : ℕ) : (n : ℤ) ≤ pyInt q ↔ (n : ℚ) ≤ q := by
  rw [pyInt, if_pos hq.le, Int.le_floor, Int.cast_natCast]

theorem pyInt_pos_iff {q : ℚ} (hne : pyInt q ≠ 0) : 0 < pyInt q ↔ 0 < q := by
  unfold pyInt at hne ⊢
  by_cases hq : 0 ≤ q
  · rw [if_pos hq] at hne ⊢
    have hfloor : 0 ≤ ⌊q⌋ := Int.floor_nonneg.mpr hq
    have hle : ((⌊q⌋ : ℤ) : ℚ) ≤ q := Int.floor_le q
    constructor
    · intro h
      have hcast : (0 : ℚ) < ⌊q⌋ := Int.cast_pos.mpr h
      exact hcast.trans_le hle
    · intro _
      omega
  · rw [if_neg hq] at hne ⊢
    have hceil : ⌈q⌉ ≤ 0 := Int.ceil_le.mpr (by simpa using (not_le.mp hq).le)
    constructor
    · intro h
      omega
    · intro h
      exact absurd h.le hq

@[simp] theorem pyInt_intCast (m : ℤ) : pyInt m = m := by
  unfold pyInt
  split <;> simp

variable {maxMbps : Option ℚ} {maxBytesPerSecond : Option ℤ} {made : ℚ}

theorem limit_eq (maxMbps : Option ℚ) (maxBytesPerSecond : Option ℤ) :
    limit maxMbps maxBytesPerSecond = (configured maxMbps maxBytesPerSecond).map pyInt := by
  unfold limit configured
  cases truthy maxMbps with
  | some q => rfl
  | none =>
    cases truthy maxBytesPerSecond with
    | none => rfl
    | some m => simp

/-- No bucket is made for a limit that rounds to 0. -/
theorem bucket_new {q : ℚ} (h : configured maxMbps maxBytesPerSecond = some q) :
    (new maxMbps maxBytesPerSecond made).bucket =
      if pyInt q = 0 then none else some (.new (pyInt q) (pyInt q) made) := by
  unfold new
  dsimp only
  rw [limit_eq, h]
  by_cases hzero : pyInt q = 0
  · simp [truthy, hzero]
  · simp [truthy, hzero, Option.filter]

theorem configured_of_bucket {b : TokenBucket}
    (h : (new maxMbps maxBytesPerSecond made).bucket = some b) :
    ∃ q, configured maxMbps maxBytesPerSecond = some q := by
  cases hq : configured maxMbps maxBytesPerSecond with
  | some q => exact ⟨q, rfl⟩
  | none =>
    unfold new at h
    dsimp only at h
    rw [limit_eq, hq] at h
    cases h

end BandwidthThrottler

/-- A request of one token, against the limits as they are configured. -/
def RateLimitConfig.ServesOne (limits : RateLimitConfig) : Prop :=
  match truthy limits.requestsPerSecond with
  | some rate => 0 < rate ∧ 1 ≤ rate * limits.burstMultiplier
  | none =>
    0 < (truthy limits.requestsPerMinute).getD 60 ∧
      60 ≤ ((truthy limits.requestsPerMinute).getD 60 : ℚ) * limits.burstMultiplier

theorem servesOne_iff (limits : RateLimitConfig) :
    limits.ServesOne ↔
      0 < limits.bucketRate ∧ 1 ≤ limits.bucketRate * limits.burstMultiplier := by
  unfold RateLimitConfig.ServesOne RateLimitConfig.bucketRate
  cases truthy limits.requestsPerSecond with
  | some rate => exact Iff.rfl
  | none =>
    dsimp only
    have hsixty : (0 : ℚ) < 60 := by decide
    rw [div_mul_eq_mul_div, le_div_iff₀ hsixty, one_mul, div_pos_iff_of_pos_right hsixty,
      Int.cast_pos]

open TokenBucket (AnswersComeTrue Grantable asks_honest_iff)

/-- **Headline.** What `time_until_available` answers comes true, and the amount can be
granted at all: for the requests of the limiter if and only if the rate is positive and
one token within `rate * burst_multiplier`, for those of the throttler if and only if the
limit is positive and the amount within it. -/
theorem retry_hints_honest_iff (buckets : Dict String TokenBucket) (key : String)
    (limits : RateLimitConfig) (maxMbps : Option ℚ) (maxBytesPerSecond : Option ℤ) (made : ℚ)
    (b : TokenBucket) (n : ℕ) :
    (buckets.get? key = none →
      (AnswersComeTrue (getBucket buckets key limits made) 1 ∧
          Grantable (getBucket buckets key limits made) 1 ↔ limits.ServesOne)) ∧
    ((BandwidthThrottler.new maxMbps maxBytesPerSecond made).bucket = some b →
      (AnswersComeTrue b n ∧ Grantable b n ↔
        ∃ q, BandwidthThrottler.configured maxMbps maxBytesPerSecond = some q ∧
          0 < q ∧ (n : ℚ) ≤ q)) := by
  constructor
  · intro hkey
    rw [getBucket, hkey, asks_honest_iff (bucketRate_ne limits), servesOne_iff]
    simp
  · intro hb
    obtain ⟨q, hq⟩ := BandwidthThrottler.configured_of_bucket hb
    rw [BandwidthThrottler.bucket_new hq] at hb
    split at hb
    · cases hb
    rename_i hne
    cases hb
    rw [asks_honest_iff (Int.cast_ne_zero.mpr hne), Int.cast_pos,
      BandwidthThrottler.pyInt_pos_iff hne, hq]
    simp only [Option.some.injEq, exists_eq_left']
    apply and_congr_right
    intro hpos
    rw [← BandwidthThrottler.natCast_le_pyInt hpos, NNRat.cast_natCast, ← Int.cast_natCast,
      Int.cast_le]

theorem retry_hints_honest_default :
    (AnswersComeTrue (getBucket .empty "10.0.0.1" .default 0) 1 ∧
      Grantable (getBucket .empty "10.0.0.1" .default 0) 1) ∧
    ∃ b, (BandwidthThrottler.new (some 10) none 0).bucket = some b ∧
      (AnswersComeTrue b 8192 ∧ Grantable b 8192) := by
  have h := retry_hints_honest_iff .empty "10.0.0.1" .default (some 10) none 0
    (.new 1310720 1310720 0) 8192
  refine ⟨(h.1 rfl).mpr ?_, .new 1310720 1310720 0, by decide +kernel, ?_⟩
  · exact ⟨by decide, by decide +kernel⟩
  · exact (h.2 (by decide +kernel)).mpr
      ⟨1310720, by decide +kernel, by decide +kernel, by decide +kernel⟩

/-- Ten requests a minute. -/
def tenRequests : RateLimitConfig :=
  { RateLimitConfig.default with requestsPerMinute := some 10 }

/-- **A limit that no request ever passes.** Ten requests a minute make a bucket that holds a
third of a token: it names a wait of four seconds, and has no token then or later. -/
theorem ten_requests_never :
    ((getBucket .empty "10.0.0.1" tenRequests 0).timeUntilAvailable 1 0).1 = some 4 ∧
      ¬ AnswersComeTrue (getBucket .empty "10.0.0.1" tenRequests 0) 1 ∧
      ¬ Grantable (getBucket .empty "10.0.0.1" tenRequests 0) 1 := by
  have hbucket : getBucket .empty "10.0.0.1" tenRequests 0 = .new (1 / 3) (1 / 6) 0 := by
    decide +kernel
  rw [hbucket]
  refine ⟨by decide +kernel, ?_, ?_⟩
  · exact TokenBucket.not_answersComeTrue_of_beyond (by decide +kernel) (by decide +kernel)
  · rw [TokenBucket.grantable_iff]
    decide +kernel

end Wormhole.L4.Enterprise
