import Mathlib.Algebra.Order.Archimedean.Basic
import Mathlib.Tactic.Linarith
import Wormhole.L4App.AcquireCosts

/-!
# Calls on a token bucket

Any sequence of `refill`, `try_acquire` and `time_until_available` on one bucket, each at
the time its `time.monotonic()` reads. The clock never goes back: no call reads less than
the `last_update` the call before it left.

* `throughput_bounded`: the tokens stay between 0 and the capacity, and what
  `try_acquire` grants within any interval of length `t` is at most
  `capacity + refill_rate * t`.
* `asks_honest_iff`: what `time_until_available` answers comes true, and the amount can be
  granted at all, if and only if the rate is positive and the amount within the capacity.
-/
namespace Wormhole.L4.Enterprise

inductive BucketCall where
  | refill
  | tryAcquire (n : ℚ≥0)
  | timeUntilAvailable (n : ℚ≥0)
deriving DecidableEq

namespace BucketCall

/-- The bucket after the call, also when the call raises. -/
def apply (c : BucketCall) (b : TokenBucket) (now : ℚ) : TokenBucket :=
  match c with
  | refill => b.refill now
  | tryAcquire n => (b.tryAcquire n now).2
  | timeUntilAvailable n => (b.timeUntilAvailable n now).2

/-- What the call takes from the bucket. -/
def granted (c : BucketCall) (b : TokenBucket) (now : ℚ) : ℚ≥0 :=
  match c with
  | tryAcquire n => if (b.tryAcquire n now).1 then n else 0
  | _ => 0

end BucketCall

namespace TokenBucket

def step (b : TokenBucket) (l : ℚ × BucketCall) : Option TokenBucket :=
  if b.lastUpdate ≤ l.1 then some (l.2.apply b l.1) else none

/-- A bucket under any calls. -/
def system (b₀ : TokenBucket) : LTS TokenBucket (ℚ × BucketCall) := .ofStep (· = b₀) step

/-- What the calls grant at the times from `x` to `y`. -/
def grantedIn (x y : ℚ) : TokenBucket → List (ℚ × BucketCall) → ℚ
  | _, [] => 0
  | b, (now, c) :: calls =>
    (if x ≤ now ∧ now ≤ y then (c.granted b now : ℚ) else 0) +
      grantedIn x y (c.apply b now) calls

/-! ## One call -/

@[simp] theorem spend_zero (b : TokenBucket) : b.spend 0 = b := by
  simp only [spend, NNRat.cast_zero, sub_zero]

theorem timeUntilAvailable_snd (b : TokenBucket) (n : ℚ≥0) (now : ℚ) :
    (b.timeUntilAvailable n now).2 = b.refill now := by
  unfold timeUntilAvailable
  split
  · rfl
  · split <;> rfl

theorem tryAcquire_fst (b : TokenBucket) (n : ℚ≥0) (now : ℚ) :
    (b.tryAcquire n now).1 = true ↔ (n : ℚ) ≤ (b.refill now).tokens := by
  unfold tryAcquire
  split
  · rename_i h
    simp [h]
  · rename_i h
    simp [h]

/-- **What a call can do.** It refills, and takes what it grants. -/
theorem apply_eq (c : BucketCall) (b : TokenBucket) (now : ℚ) :
    c.apply b now = (b.refill now).spend (c.granted b now) ∧
      (c.granted b now = 0 ∨ (c.granted b now : ℚ) ≤ (b.refill now).tokens) := by
  have hzero : (b.refill now).spend 0 = b.refill now := spend_zero _
  cases c with
  | refill => exact ⟨hzero.symm, .inl rfl⟩
  | timeUntilAvailable n =>
    refine ⟨?_, .inl rfl⟩
    simp only [BucketCall.apply, BucketCall.granted, timeUntilAvailable_snd, hzero]
  | tryAcquire n =>
    by_cases h : (n : ℚ) ≤ (b.refill now).tokens
    · have hg : (BucketCall.tryAcquire n).granted b now = n :=
        if_pos ((b.tryAcquire_fst n now).mpr h)
      rw [hg]
      simp [BucketCall.apply, tryAcquire, h]
    · have hg : (BucketCall.tryAcquire n).granted b now = 0 :=
        if_neg fun ht => h ((b.tryAcquire_fst n now).mp ht)
      rw [hg, hzero]
      simp [BucketCall.apply, tryAcquire, h]

@[simp] theorem apply_capacity (c : BucketCall) (b : TokenBucket) (now : ℚ) :
    (c.apply b now).capacity = b.capacity := by
  rw [(apply_eq c b now).1, spend_capacity, refill_capacity]

@[simp] theorem apply_refillRate (c : BucketCall) (b : TokenBucket) (now : ℚ) :
    (c.apply b now).refillRate = b.refillRate := by
  rw [(apply_eq c b now).1, spend_refillRate, refill_refillRate]

@[simp] theorem apply_lastUpdate (c : BucketCall) (b : TokenBucket) (now : ℚ) :
    (c.apply b now).lastUpdate = now := by
  rw [(apply_eq c b now).1, spend_lastUpdate, refill_lastUpdate]

theorem apply_tokens (c : BucketCall) (b : TokenBucket) (now : ℚ) :
    (c.apply b now).tokens = (b.refill now).tokens - c.granted b now := by
  rw [(apply_eq c b now).1]
  rfl

theorem apply_of_granted_eq_zero {c : BucketCall} {b : TokenBucket} {now : ℚ}
    (h : c.granted b now = 0) : c.apply b now = b.refill now := by
  rw [(apply_eq c b now).1, h, spend_zero]

theorem step_eq_some {b b' : TokenBucket} {now : ℚ} {c : BucketCall}
    (h : b.step (now, c) = some b') : b.lastUpdate ≤ now ∧ b' = c.apply b now := by
  unfold step at h
  split at h
  · rename_i hle
    exact ⟨hle, (Option.some.inj h).symm⟩
  · cases h

theorem refill_tokens_le (b : TokenBucket) (now : ℚ) :
    (b.refill now).tokens ≤ b.tokens + (now - b.lastUpdate) * b.refillRate :=
  min_le_right _ _

theorem refill_tokens_nonneg {b : TokenBucket} {now : ℚ} (hc : 0 ≤ b.capacity)
    (hr : 0 ≤ b.refillRate) (ht : 0 ≤ b.tokens) (hle : b.lastUpdate ≤ now) :
    0 ≤ (b.refill now).tokens := by
  have helapsed : 0 ≤ (now - b.lastUpdate) * b.refillRate :=
    mul_nonneg (sub_nonneg.mpr hle) hr
  exact le_min hc (add_nonneg ht helapsed)

/-! ## What every call keeps -/

variable {capacity refillRate made : ℚ} {b₀ : TokenBucket}

/-- The bucket has the capacity and the rate it was made with, and no debt. -/
structure Sound (capacity refillRate : ℚ) (b : TokenBucket) : Prop where
  capacity_eq : b.capacity = capacity
  rate_eq : b.refillRate = refillRate
  nonneg : 0 ≤ b.tokens

theorem sound_step (hc : 0 ≤ capacity) (hr : 0 ≤ refillRate) {b b' : TokenBucket}
    {l : ℚ × BucketCall} (hb : b.Sound capacity refillRate) (h : b.step l = some b') :
    b'.Sound capacity refillRate := by
  obtain ⟨now, c⟩ := l
  obtain ⟨hle, rfl⟩ := step_eq_some h
  have hrefill : 0 ≤ (b.refill now).tokens := by
    apply refill_tokens_nonneg _ _ hb.nonneg hle
    · rw [hb.capacity_eq]
      exact hc
    · rw [hb.rate_eq]
      exact hr
  refine ⟨by simp [hb.capacity_eq], by simp [hb.rate_eq], ?_⟩
  rw [apply_tokens]
  rcases (apply_eq c b now).2 with hzero | hfits
  · rw [hzero]
    simpa using hrefill
  · exact sub_nonneg.mpr hfits

theorem sound_run (hc : 0 ≤ capacity) (hr : 0 ≤ refillRate) {b b' : TokenBucket}
    {calls : List (ℚ × BucketCall)} (h : (system b₀).Run b calls b')
    (hb : b.Sound capacity refillRate) : b'.Sound capacity refillRate := by
  have hstep : ∀ s l t, s.Sound capacity refillRate →
      (system b₀).step s l t → t.Sound capacity refillRate :=
    fun _ _ _ hs hst => sound_step hc hr hs hst
  exact h.invariant hstep hb

theorem sound_new (hc : 0 ≤ capacity) : (new capacity refillRate made).Sound capacity refillRate :=
  ⟨rfl, rfl, hc⟩

/-! ## What is granted within an interval -/

theorem grantedIn_of_lt {x y : ℚ} {b b' : TokenBucket} {calls : List (ℚ × BucketCall)}
    (h : (system b₀).Run b calls b') (hy : y < b.lastUpdate) :
    grantedIn x y b calls = 0 := by
  induction h with
  | nil => rfl
  | @cons b _ _ l calls hst _ ih =>
    obtain ⟨now, c⟩ := l
    obtain ⟨hle, rfl⟩ := step_eq_some hst
    have hlt : y < now := hy.trans_le hle
    have hout : ¬ (x ≤ now ∧ now ≤ y) := fun h => (h.2.trans_lt hlt).false
    rw [grantedIn, if_neg hout, ih (by simpa using hlt), add_zero]

/-- What is there, and what comes in until `y`. -/
theorem grantedIn_le_tokens {x y : ℚ} (hr : 0 ≤ refillRate) {b b' : TokenBucket}
    {calls : List (ℚ × BucketCall)} (h : (system b₀).Run b calls b')
    (hrate : b.refillRate = refillRate) (ht : 0 ≤ b.tokens) (hc : 0 ≤ b.capacity)
    (hy : b.lastUpdate ≤ y) :
    grantedIn x y b calls ≤ b.tokens + refillRate * (y - b.lastUpdate) := by
  induction h with
  | nil => exact add_nonneg ht (mul_nonneg hr (sub_nonneg.mpr hy))
  | @cons b _ _ l calls hst hrest ih =>
    have hsound := sound_step hc hr ⟨rfl, hrate, ht⟩ hst
    obtain ⟨now, c⟩ := l
    obtain ⟨hle, rfl⟩ := step_eq_some hst
    have hin := b.refill_tokens_le now
    have hg : (0 : ℚ) ≤ c.granted b now := (c.granted b now).2
    rw [grantedIn]
    by_cases hnow : now ≤ y
    · have hlater := ih hsound.rate_eq hsound.nonneg (by rwa [hsound.capacity_eq])
        (by simpa using hnow)
      rw [apply_tokens, apply_lastUpdate] at hlater
      rw [hrate] at hin
      split <;> nlinarith
    · have hlt : y < (c.apply b now).lastUpdate := by simpa using hnow
      have hout : ¬ (x ≤ now ∧ now ≤ y) := fun h => hnow h.2
      rw [if_neg hout, grantedIn_of_lt hrest hlt, add_zero]
      exact add_nonneg ht (mul_nonneg hr (sub_nonneg.mpr hy))

theorem grantedIn_le {x y : ℚ} (hc : 0 ≤ capacity) (hr : 0 ≤ refillRate) (hxy : x ≤ y)
    {b b' : TokenBucket} {calls : List (ℚ × BucketCall)}
    (h : (system b₀).Run b calls b') (hb : b.Sound capacity refillRate) :
    grantedIn x y b calls ≤ capacity + refillRate * (y - x) := by
  have hroom : 0 ≤ refillRate * (y - x) := mul_nonneg hr (sub_nonneg.mpr hxy)
  induction h with
  | nil => exact add_nonneg hc hroom
  | @cons b _ _ l calls hst hrest ih =>
    have hsound := sound_step hc hr hb hst
    obtain ⟨now, c⟩ := l
    obtain ⟨hle, rfl⟩ := step_eq_some hst
    rw [grantedIn]
    split
    · -- The first call of the interval: from here on the tokens pay for everything.
      rename_i hin
      have hlater := grantedIn_le_tokens (x := x) hr hrest hsound.rate_eq hsound.nonneg
        (by rwa [hsound.capacity_eq]) (by simpa using hin.2)
      rw [apply_tokens, apply_lastUpdate] at hlater
      have hfull : (b.refill now).tokens ≤ capacity := by
        rw [← hb.capacity_eq]
        exact (b.refill now).le
      have hspan : refillRate * (y - now) ≤ refillRate * (y - x) :=
        mul_le_mul_of_nonneg_left (by linarith [hin.1]) hr
      linarith
    · rw [zero_add]
      exact ih hsound

/-- **Headline.** Under any calls at any times the tokens stay between 0 and the capacity,
and what is granted within any interval is at most the capacity plus what comes in during
the interval. -/
theorem throughput_bounded (hc : 0 ≤ capacity) (hr : 0 ≤ refillRate) {b : TokenBucket}
    {calls : List (ℚ × BucketCall)}
    (h : (system (.new capacity refillRate made)).Run (.new capacity refillRate made) calls b) :
    (0 ≤ b.tokens ∧ b.tokens ≤ capacity) ∧ ∀ x y, x ≤ y →
      grantedIn x y (.new capacity refillRate made) calls ≤ capacity + refillRate * (y - x) := by
  have hb := sound_run hc hr h (sound_new hc)
  refine ⟨⟨hb.nonneg, ?_⟩, ?_⟩
  · rw [← hb.capacity_eq]
    exact b.le
  · intro x y hxy
    exact grantedIn_le hc hr hxy h (sound_new hc)

/-- Two tokens at most, one more a second: three calls within one second. -/
def threeCalls : List (ℚ × BucketCall) :=
  [(0, .tryAcquire 2), (1 / 2, .timeUntilAvailable 1), (1, .tryAcquire 1)]

theorem throughput_bounded_threeCalls :
    (system (.new 2 1 0)).Run (.new 2 1 0) threeCalls (LTS.after step (.new 2 1 0) threeCalls) ∧
      ∀ x y, x ≤ y → grantedIn x y (.new 2 1 0) threeCalls ≤ 2 + 1 * (y - x) := by
  have hrun : (system (.new 2 1 0)).Run (.new 2 1 0) threeCalls
      (LTS.after step (.new 2 1 0) threeCalls) :=
    LTS.run_of_exec (LTS.exec_after (by decide +kernel))
  exact ⟨hrun, (throughput_bounded (by decide) (by decide) hrun).2⟩

/-! ## What `time_until_available` promises -/

/-- After any calls, an answer `w` comes true: as long as nothing is granted in between,
`try_acquire` succeeds at any time from `w` seconds after the answer on. -/
def AnswersComeTrue (b₀ : TokenBucket) (n : ℚ≥0) : Prop :=
  ∀ calls b now w, (system b₀).Run b₀ calls b → b.lastUpdate ≤ now →
    (b.timeUntilAvailable n now).1 = some w →
    ∀ later b', ((system b₀).restrict fun b l => l.2.granted b l.1 = 0).Run
      (b.timeUntilAvailable n now).2 later b' →
    ∀ now', b'.lastUpdate ≤ now' → now + w ≤ now' → (b'.tryAcquire n now').1 = true

/-- Some calls lead to a time at which `try_acquire` succeeds. -/
def Grantable (b₀ : TokenBucket) (n : ℚ≥0) : Prop :=
  ∃ calls b now, (system b₀).Run b₀ calls b ∧ b.lastUpdate ≤ now ∧
    (b.tryAcquire n now).1 = true

theorem kept_run {b b' : TokenBucket} {calls : List (ℚ × BucketCall)}
    (h : (system b₀).Run b calls b') :
    b'.capacity = b.capacity ∧ b'.refillRate = b.refillRate := by
  induction h with
  | nil => exact ⟨rfl, rfl⟩
  | @cons b _ _ l calls hst _ ih =>
    obtain ⟨now, c⟩ := l
    obtain ⟨_, rfl⟩ := step_eq_some hst
    simpa using ih

/-- Calls that are granted nothing only refill. -/
theorem refilled_run {b b' : TokenBucket} {calls : List (ℚ × BucketCall)}
    (h : ((system b₀).restrict fun b l => l.2.granted b l.1 = 0).Run b
      calls b') : Refilled b b' := by
  induction h with
  | nil => exact Refilled.refl _
  | @cons b _ b' l calls hst _ ih =>
    obtain ⟨now, c⟩ := l
    obtain ⟨hzero, hst⟩ := hst
    obtain ⟨hle, rfl⟩ := step_eq_some hst
    rw [apply_of_granted_eq_zero hzero] at ih
    obtain ⟨hlater, heq⟩ := ih
    rw [refill_lastUpdate] at hlater
    refine ⟨hle.trans hlater, ?_⟩
    rw [heq, refill_lastUpdate]
    exact b.refill_refill hle hlater

theorem tryAcquire_refilled {b b' : TokenBucket} (h : Refilled b b') {n : ℚ≥0} {now : ℚ}
    (hle : b'.lastUpdate ≤ now) :
    (b'.tryAcquire n now).1 = true ↔
      (n : ℚ) ≤ b.capacity ∧ (n : ℚ) ≤ b.tokens + (now - b.lastUpdate) * b.refillRate := by
  rw [tryAcquire_fst, h.2, b.refill_refill h.1 hle]
  exact le_min_iff

theorem timeUntilAvailable_eq (b : TokenBucket) (n : ℚ≥0) (now : ℚ) (hr : b.refillRate ≠ 0) :
    b.timeUntilAvailable n now = (some (if (n : ℚ) ≤ (b.refill now).tokens then 0
      else (n - (b.refill now).tokens) / b.refillRate), b.refill now) := by
  unfold timeUntilAvailable
  rw [if_neg hr]
  split <;> rfl

/-- With a positive rate and room for the amount, the wait fills what is missing. -/
theorem answersComeTrue (hr : 0 < refillRate) {n : ℚ≥0} (hn : (n : ℚ) ≤ capacity) :
    AnswersComeTrue (new capacity refillRate made) n := by
  intro calls b now w hrun hnow hw later b' hlater now' hle hwait
  obtain ⟨hcap, hrate⟩ := kept_run hrun
  have hrefilled := refilled_run hlater
  rw [timeUntilAvailable_snd] at hrefilled
  rw [tryAcquire_refilled hrefilled hle, refill_capacity, refill_refillRate, refill_lastUpdate,
    hcap, hrate]
  refine ⟨hn, ?_⟩
  rw [timeUntilAvailable_eq _ _ _ (by rw [hrate]; exact hr.ne'), Option.some.injEq, hrate] at hw
  change (if _ then (0 : ℚ) else _ / refillRate) = w at hw
  change _ ≤ _ + (now' - now) * refillRate
  by_cases hthere : (n : ℚ) ≤ (b.refill now).tokens
  · rw [if_pos hthere] at hw
    have hin : 0 ≤ (now' - now) * refillRate := mul_nonneg (by linarith) hr.le
    linarith
  · rw [if_neg hthere] at hw
    have hmissing : n - (b.refill now).tokens = w * refillRate := by
      rw [← hw, div_mul_cancel₀ _ hr.ne']
    have hin : w * refillRate ≤ (now' - now) * refillRate :=
      mul_le_mul_of_nonneg_right (by linarith) hr.le
    linarith

/-- An amount beyond the capacity is never there. -/
theorem tryAcquire_beyond {b : TokenBucket} {n : ℚ≥0} {now : ℚ} (h : b.capacity < n) :
    (b.tryAcquire n now).1 = false := by
  have hno : ¬ (b.tryAcquire n now).1 = true := by
    rw [tryAcquire_fst]
    intro hfits
    exact absurd (hfits.trans (b.refill now).le) (not_le.mpr h)
  simpa using hno

theorem grantable_iff {n : ℚ≥0} :
    Grantable (new capacity refillRate made) n ↔ (n : ℚ) ≤ capacity := by
  constructor
  · rintro ⟨calls, b, now, hrun, _, hgrant⟩
    by_contra h
    have hcap : b.capacity < n := by
      rw [(kept_run hrun).1]
      exact not_le.mp h
    rw [tryAcquire_beyond hcap] at hgrant
    cases hgrant
  · intro h
    refine ⟨[], _, made, .nil _, le_rfl, (tryAcquire_fst _ _ _).mpr ?_⟩
    rw [show (new capacity refillRate made).refill made = new capacity refillRate made from
      refill_lastUpdate_self _]
    exact h

/-- With a negative rate the bucket runs dry, and the wait it names is over at once. -/
theorem not_answersComeTrue_of_neg (hr : refillRate < 0) (n : ℚ≥0) :
    ¬ AnswersComeTrue (new capacity refillRate made) n := by
  intro h
  let b := new capacity refillRate made
  -- At `now` so much has run out that the amount is missing.
  obtain ⟨k, hk⟩ := exists_nat_gt ((capacity - n) / -refillRate)
  let now : ℚ := made + k
  have hdry : (b.refill now).tokens < n := by
    have hout : capacity - n < k * -refillRate := (div_lt_iff₀ (by linarith)).mp hk
    have hle := b.refill_tokens_le now
    change _ ≤ capacity + (made + k - made) * refillRate at hle
    linarith
  have hmissing : ¬ (n : ℚ) ≤ (b.refill now).tokens := not_le.mpr hdry
  have hw := congrArg Prod.fst (b.timeUntilAvailable_eq n now hr.ne)
  rw [if_neg hmissing] at hw
  have hneg : ((n : ℚ) - (b.refill now).tokens) / refillRate ≤ 0 :=
    div_nonpos_of_nonneg_of_nonpos (by linarith) hr.le
  have hlater : b.lastUpdate ≤ now := le_add_of_nonneg_right k.cast_nonneg
  have hgrant := h [] b now _ (.nil b) hlater hw [] _ (.nil _) now
    (by rw [timeUntilAvailable_snd]; exact le_rfl) (add_le_of_nonpos_right hneg)
  rw [timeUntilAvailable_snd, tryAcquire_fst, b.refill_refill hlater le_rfl] at hgrant
  exact hmissing hgrant

/-- Beyond the capacity the wait is over some time, and nothing is granted. -/
theorem not_answersComeTrue_of_beyond (hr : refillRate ≠ 0) {n : ℚ≥0} (hn : capacity < n) :
    ¬ AnswersComeTrue (new capacity refillRate made) n := by
  intro h
  let b := new capacity refillRate made
  have hw := congrArg Prod.fst (b.timeUntilAvailable_eq n made hr)
  have hgrant := h [] b made _ (.nil b) le_rfl hw [] _ (.nil _) _
    (by rw [timeUntilAvailable_snd]; exact le_max_left made _) (le_max_right _ _)
  rw [timeUntilAvailable_snd, tryAcquire_beyond (by exact hn)] at hgrant
  cases hgrant

/-- **What `time_until_available` answers comes true** if and only if the rate is positive and
the amount within the capacity, and then the amount can be granted. -/
theorem asks_honest_iff (hr : refillRate ≠ 0) {n : ℚ≥0} :
    AnswersComeTrue (new capacity refillRate made) n ∧ Grantable (new capacity refillRate made) n ↔
      0 < refillRate ∧ (n : ℚ) ≤ capacity := by
  constructor
  · rintro ⟨htrue, _⟩
    constructor
    · apply lt_of_le_of_ne _ hr.symm
      by_contra hneg
      exact not_answersComeTrue_of_neg (not_le.mp hneg) n htrue
    · by_contra hn
      exact not_answersComeTrue_of_beyond hr (not_le.mp hn) htrue
  · rintro ⟨hpos, hn⟩
    exact ⟨answersComeTrue hpos hn, grantable_iff.mpr hn⟩

end TokenBucket

end Wormhole.L4.Enterprise
