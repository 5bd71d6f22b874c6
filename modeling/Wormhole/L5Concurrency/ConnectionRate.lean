import Wormhole.L4App.AcquireCosts

/-!
# The rate of connections

How many calls of `acquire` one IP or one identity gets granted in a window of time.

`_get_bucket` makes the bucket of a key from `requests_per_second` or, failing that,
`requests_per_minute` or 60; `connections_per_minute` only says whether there is a bucket.

* `Budget`: what a bucket has given up since the start of the window, and what it still
  has, is at most its burst and what has flowed in.
* `rate_enforced`: with `c` connections a minute and bursts of `b`, at most `b·c + c·T`
  calls succeed in `T` minutes, if the buckets of the key are made with a rate of at most `c`
  a minute.
* `rate_exceeded`: one connection a minute, and four in two seconds.
-/
namespace Wormhole.L5.ConnectionRate
open Wormhole.L4.Enterprise

/-! ## Buckets over a window -/

/-- A bucket of at most `B` tokens, filled at a rate of at most `r`, that has given up `n`
tokens since `start`. -/
structure Budget (b : TokenBucket) (B r start : ℚ) (n : Nat) : Prop where
  capacity : b.capacity ≤ B
  rate : b.refillRate ≤ r
  before : b.lastUpdate < start → n = 0
  since : start ≤ b.lastUpdate → n + b.tokens ≤ B + r * (b.lastUpdate - start)

variable {b : TokenBucket} {B r start now : ℚ} {n : Nat}

theorem Budget.new {capacity rate made : ℚ} (hcap : capacity ≤ B) (hrate : rate ≤ r)
    (hr : 0 ≤ r) : Budget (.new capacity rate made) B r start 0 := by
  refine ⟨hcap, hrate, fun _ => rfl, fun h => ?_⟩
  have hflow : 0 ≤ r * (made - start) := mul_nonneg hr (sub_nonneg.mpr h)
  have hzero : ((0 : Nat) : ℚ) = 0 := Nat.cast_zero
  simp only [TokenBucket.new, hzero]
  linarith

theorem Budget.refill (h : Budget b B r start n) (hr : 0 ≤ r) (hle : b.lastUpdate ≤ now)
    (hstart : start ≤ now) : Budget (b.refill now) B r start n := by
  refine ⟨h.capacity, h.rate, fun hlt => absurd hlt (not_lt.mpr hstart), fun _ => ?_⟩
  have hflow : (now - b.lastUpdate) * b.refillRate ≤ (now - b.lastUpdate) * r :=
    mul_le_mul_of_nonneg_left h.rate (sub_nonneg.mpr hle)
  have hmin : (b.refill now).tokens ≤ b.tokens + (now - b.lastUpdate) * b.refillRate :=
    min_le_right _ _
  have hcap : (b.refill now).tokens ≤ B := (b.refill now).le.trans h.capacity
  rcases lt_or_ge b.lastUpdate start with hlt | hge
  · have hn : n = 0 := h.before hlt
    have hin : 0 ≤ r * (now - start) := mul_nonneg hr (sub_nonneg.mpr hstart)
    subst hn
    have hzero : ((0 : Nat) : ℚ) = 0 := Nat.cast_zero
    simp only [TokenBucket.refill_lastUpdate, hzero]
    linarith
  · have hold := h.since hge
    simp only [TokenBucket.refill_lastUpdate]
    linarith

theorem Budget.spend (h : Budget b B r start n) (hstart : start ≤ b.lastUpdate) :
    Budget (b.spend 1) B r start (n + 1) := by
  refine ⟨h.capacity, h.rate, fun hlt => absurd hlt (not_lt.mpr hstart), fun _ => ?_⟩
  have hold := h.since hstart
  have htokens : (b.spend 1).tokens = b.tokens - 1 := rfl
  rw [htokens, TokenBucket.spend_lastUpdate, Nat.cast_succ]
  linarith

theorem Budget.fewer (h : Budget b B r start (n + 1)) : Budget b B r start n := by
  refine ⟨h.capacity, h.rate, fun hlt => absurd (h.before hlt) (Nat.succ_ne_zero n), fun hge => ?_⟩
  have hold := h.since hge
  rw [Nat.cast_succ] at hold
  linarith

/-- While there are tokens left, no more were given up than flowed in. -/
theorem Budget.le (h : Budget b B r start n) (hstart : start ≤ b.lastUpdate)
    (htokens : 0 ≤ b.tokens) : n ≤ B + r * (b.lastUpdate - start) := by
  have hold := h.since hstart
  linarith

/-! ## The bucket of a key -/

/-- The two kinds of keys. -/
inductive Keyed where
  | ip
  | identity

namespace Keyed

def buckets : Keyed → RateLimiter → Dict String TokenBucket
  | .ip, s => s.ipBuckets
  | .identity, s => s.identityBuckets

def name : Keyed → Caller → Option String
  | .ip, c => c.sourceIp
  | .identity, c => c.identity

def made : Keyed → Readings → ℚ
  | .ip, now => now.ipMade
  | .identity, now => now.identityMade

/-- When the bucket is asked. -/
def reading : Keyed → Readings → ℚ
  | .ip, now => now.ip
  | .identity, now => now.identity

def message : Keyed → String
  | .ip => "IP rate limit exceeded: "
  | .identity => "Identity rate limit exceeded: "

theorem global_le_made (w : Keyed) (now : Readings) : now.global ≤ w.made now := by
  cases w
  · exact now.mono.1
  · exact (now.mono.1.trans now.mono.2.1).trans now.mono.2.2.1

theorem made_le_reading (w : Keyed) (now : Readings) : w.made now ≤ w.reading now := by
  cases w
  · exact now.mono.2.1
  · exact now.mono.2.2.2.1

theorem reading_le_retry (w : Keyed) (now : Readings) : w.reading now ≤ now.retry := by
  cases w
  · exact now.ip_le_retry
  · exact now.identity_le_retry

/-- The check of the key's bucket in one call. -/
def request (w : Keyed) (I : IpModule) (s : RateLimiter) (c : Caller) (now : Readings) :
    Outcome (Dict String TokenBucket) :=
  requestKeyed (w.buckets s) ((s.policy.getRateLimits I c).limitedKey (w.name c))
    (s.policy.getRateLimits I c) w.message (w.made now) (w.reading now) now.retry

end Keyed

/-- The buckets after a call: untouched when an earlier check refused, else those after the
check, which passed if the call was granted. -/
def Asked (w : Keyed) (I : IpModule) (s : RateLimiter) (c : Caller) (now : Readings)
    (o : Outcome RateLimiter) : Prop :=
  (o.1 ≠ none ∧ w.buckets o.2 = w.buckets s) ∨
    w.buckets o.2 = (w.request I s c now).2 ∧ (o.1 = none → (w.request I s c now).1 = none)

theorem buckets_checkGlobal (w : Keyed) (s : RateLimiter) (now : Readings) :
    w.buckets (s.checkGlobal now).2 = w.buckets s := by
  unfold RateLimiter.checkGlobal
  cases w <;> (dsimp only; split <;> rfl)

/-- The buckets stay through the connection checks and the count. -/
theorem buckets_counted (w : Keyed) (s : RateLimiter) (quotas : QuotaConfig) (c : Caller)
    (sessionId : Option String) :
    w.buckets ((s.checkConnections quotas c).andThen fun s => (none, s.track c sessionId)).2 =
      w.buckets s := by
  have hbeside := checkConnections_beside s quotas c
  refine Outcome.andThen_keeps (P := fun t => w.buckets t = w.buckets s) ?_ fun t ht => ?_
  · cases w
    · exact hbeside.ipBuckets
    · exact hbeside.identityBuckets
  · unfold RateLimiter.track
    split
    · exact ht
    · cases w <;> exact ht

theorem asked (w : Keyed) (I : IpModule) (s : RateLimiter) (c : Caller)
    (sessionId : Option String) (now : Readings) :
    Asked w I s c now (s.acquire I c sessionId now) := by
  have hg := buckets_checkGlobal w s now
  unfold RateLimiter.acquire
  refine Outcome.andThen_elim (fun e => .inl ⟨Option.some_ne_none e, hg⟩) fun _ => ?_
  cases w with
  | ip =>
    change (s.checkGlobal now).2.ipBuckets = s.ipBuckets at hg
    have hr : Keyed.request .ip I s c now = requestKeyed (s.checkGlobal now).2.ipBuckets
        ((s.policy.getRateLimits I c).limitedKey c.sourceIp) (s.policy.getRateLimits I c)
        "IP rate limit exceeded: " now.ipMade now.ip now.retry := by
      rw [hg]
      rfl
    refine Outcome.andThen_elim (fun e => .inr ⟨by rw [hr]; rfl, fun h => nomatch h⟩)
      fun hnone => ?_
    refine Outcome.andThen_elim (fun e => .inr ⟨by rw [hr]; rfl, fun h => nomatch h⟩) fun _ => ?_
    refine .inr ⟨(buckets_counted .ip _ _ c sessionId).trans (by rw [hr]; rfl), fun _ => ?_⟩
    rw [hr]
    exact hnone
  | identity =>
    change (s.checkGlobal now).2.identityBuckets = s.identityBuckets at hg
    have hr : Keyed.request .identity I s c now =
        requestKeyed (s.checkGlobal now).2.identityBuckets
        ((s.policy.getRateLimits I c).limitedKey c.identity) (s.policy.getRateLimits I c)
        "Identity rate limit exceeded: " now.identityMade now.identity now.retry := by
      rw [hg]
      rfl
    refine Outcome.andThen_elim (fun e => .inl ⟨Option.some_ne_none e, hg⟩) fun _ => ?_
    refine Outcome.andThen_elim (fun e => .inr ⟨by rw [hr]; rfl, fun h => nomatch h⟩)
      fun hnone => ?_
    refine .inr ⟨(buckets_counted .identity _ _ c sessionId).trans (by rw [hr]; rfl),
      fun _ => ?_⟩
    rw [hr]
    exact hnone

/-- The bucket of one key in a call. -/
theorem asked_key (w : Keyed) (I : IpModule) (s : RateLimiter) (c : Caller)
    (sessionId : Option String) (now : Readings) (key : String) :
    let limits := s.policy.getRateLimits I c
    let o := s.acquire I c sessionId now
    let r := (getBucket (w.buckets s) key limits (w.made now)).request (w.message ++ key)
      (w.reading now) now.retry
    (w.buckets o.2).get? key = (w.buckets s).get? key ∧
        (o.1 = none → limits.limitedKey (w.name c) ≠ some key) ∨
      limits.limitedKey (w.name c) = some key ∧ (w.buckets o.2).get? key = some r.2 ∧
        (o.1 = none → r.1 = none) := by
  dsimp only
  rcases asked w I s c sessionId now with ⟨hrefused, hsame⟩ | ⟨hbuckets, hgranted⟩
  · exact .inl ⟨by rw [hsame], fun h => absurd h hrefused⟩
  · rw [hbuckets]
    unfold Keyed.request requestKeyed at hgranted ⊢
    cases hkey : (s.policy.getRateLimits I c).limitedKey (w.name c) with
    | none => exact .inl ⟨rfl, fun _ h => nomatch h⟩
    | some k =>
      rw [hkey] at hgranted
      dsimp only at hgranted ⊢
      by_cases hk : k = key
      · subst hk
        exact .inr ⟨rfl, Dict.get?_set_self _ _ _, hgranted⟩
      · exact .inl ⟨Dict.get?_set_ne _ _ hk, fun _ h => hk (Option.some.inj h)⟩

/-! ## One request -/

theorem request_cases (hrate : b.refillRate ≠ 0) (message : String) (now retry : ℚ) :
    (b.request message now retry = (none, (b.refill now).spend 1) ∧ b.HasToken now) ∨
      ∃ e, b.request message now retry = (some e, (b.refill now).refill retry) := by
  by_cases h : b.HasToken now
  · exact .inl ⟨TokenBucket.request_of_hasToken h, h⟩
  · obtain ⟨wait, e⟩ := TokenBucket.request_of_not_hasToken h hrate message retry
    exact .inr ⟨_, e⟩

/-- A request within the window keeps the budget, and a granted one is paid for. -/
theorem Budget.request (h : Budget b B r start n) (hr : 0 ≤ r) (hrate : b.refillRate ≠ 0)
    (hle : b.lastUpdate ≤ now) (hstart : start ≤ now) (message : String) {retry : ℚ}
    (hretry : now ≤ retry) :
    ((b.request message now retry).1 = none →
        Budget (b.request message now retry).2 B r start (n + 1) ∧
          ((n + 1 : Nat) : ℚ) ≤ B + r * (now - start)) ∧
      ((b.request message now retry).1 ≠ none →
        Budget (b.request message now retry).2 B r start n) := by
  have hnow := h.refill hr hle hstart
  rcases request_cases hrate message now retry with ⟨e, htoken⟩ | ⟨x, e⟩
  · rw [e]
    refine ⟨fun _ => ?_, fun hne => absurd rfl hne⟩
    have hspent := hnow.spend hstart
    refine ⟨hspent, hspent.le hstart ?_⟩
    exact sub_nonneg.mpr htoken
  · rw [e]
    exact ⟨fun h => (nomatch h), fun _ => hnow.refill hr hretry (hstart.trans hretry)⟩

/-! ## Runs -/

/-- The call is granted to the key. -/
def grantedTo (I : IpModule) (w : Keyed) (key : String) (s : Timed) : Call → Bool
  | .acquire c sessionId now =>
    named (w.name c) = some key && (s.limiter.acquire I c sessionId now).1.isNone
  | _ => false

def grants (I : IpModule) (w : Keyed) (key : String) (s : Timed) (call : Call) : List Unit :=
  if grantedTo I w key s call then [()] else []

/-- How many of the calls are granted to the key. -/
def successes (I : IpModule) (w : Keyed) (key : String) (s : Timed) (ls : List Call) : Nat :=
  (LTS.gather (Timed.step I) (grants I w key) s ls).length

/-- The key has `cpm` connections a minute, with bursts of `burst`, for whoever asks. -/
def Configured (I : IpModule) (p : Policy) (w : Keyed) (key : String) (cpm : Int) (burst : ℚ) :
    Prop :=
  ∀ c, named (w.name c) = some key → (p.getRateLimits I c).connectionsPerMinute = some cpm ∧
    (p.getRateLimits I c).burstMultiplier = burst

/-- A bucket of the key would be made with a rate of at most `cpm` a minute. -/
def Slow (I : IpModule) (p : Policy) (w : Keyed) (key : String) (cpm : Int) : Call → Prop
  | .acquire c _ _ =>
    named (w.name c) = some key → 60 * (p.getRateLimits I c).bucketRate ≤ cpm
  | _ => True

/-- A call in a window of `minutes`, in which nothing is reset. -/
def Within (w : Keyed) (key : String) (start minutes : ℚ) : Call → Prop
  | .acquire c _ now =>
    named (w.name c) = some key → start ≤ w.reading now ∧ w.reading now ≤ start + 60 * minutes
  | .reset _ => False
  | _ => True

/-- The limiter, where buckets of the key are slow. -/
def slow (I : IpModule) (p : Policy) (w : Keyed) (key : String) (cpm : Int) : LTS Timed Call :=
  (system I p).restrict fun _ => Slow I p w key cpm

/-- The same, within a window. -/
def windowed (I : IpModule) (p : Policy) (w : Keyed) (key : String) (cpm : Int)
    (start minutes : ℚ) : LTS Timed Call :=
  (system I p).restrict fun _ call => Slow I p w key cpm call ∧ Within w key start minutes call

/-- The bucket of the key, if there is one, is within the budget. -/
def KeyBudget (w : Keyed) (key : String) (B r start : ℚ) (n : Nat) (s : RateLimiter) : Prop :=
  (∀ b, (w.buckets s).get? key = some b → Budget b B r start n) ∧
    ((w.buckets s).get? key = none → n = 0)

theorem KeyBudget.of_get? {w : Keyed} {key : String} {s t : RateLimiter}
    (h : KeyBudget w key B r start n s)
    (he : (w.buckets t).get? key = (w.buckets s).get? key) : KeyBudget w key B r start n t := by
  unfold KeyBudget
  rw [he]
  exact h

theorem keyBudget_of_some {w : Keyed} {key : String} {s : RateLimiter}
    (he : (w.buckets s).get? key = some b) (h : Budget b B r start n) :
    KeyBudget w key B r start n s := by
  refine ⟨fun c hc => ?_, fun hn => ?_⟩
  · rw [he] at hc
    cases hc
    exact h
  · rw [he] at hn
    cases hn

theorem budget_getBucket {w : Keyed} {key : String} {s : RateLimiter}
    (h : KeyBudget w key B r start n s) {limits : RateLimitConfig} (made : ℚ) (hr : 0 ≤ r)
    (hcap : limits.bucketRate * limits.burstMultiplier ≤ B) (hrate : limits.bucketRate ≤ r) :
    Budget (getBucket (w.buckets s) key limits made) B r start n := by
  unfold getBucket
  cases e : (w.buckets s).get? key with
  | some b => exact h.1 b e
  | none =>
    rw [h.2 e]
    exact .new hcap hrate hr

theorem getBucket_lastUpdate {buckets : Dict String TokenBucket} {clock made : ℚ}
    (h : ∀ k b, buckets.get? k = some b → b.Kept clock) (hle : clock ≤ made) (key : String)
    (limits : RateLimitConfig) : (getBucket buckets key limits made).lastUpdate ≤ made := by
  unfold getBucket
  cases e : buckets.get? key with
  | some b => exact (h key b e).le_clock.trans hle
  | none => exact le_rfl

theorem kept_buckets {s : RateLimiter} {clock : ℚ} (h : Kept s clock) (w : Keyed) :
    ∀ k b, (w.buckets s).get? k = some b → b.Kept clock := by
  cases w
  · exact h.ip
  · exact h.identity

theorem limitedKey_of_named {limits : RateLimitConfig} {cpm : Int} {name : Option String}
    {key : String} (hcpm : limits.connectionsPerMinute = some cpm) (hpos : 0 < cpm)
    (h : named name = some key) : limits.limitedKey name = some key := by
  unfold RateLimitConfig.limitedKey
  rw [h, hcpm]
  simp [truthy, hpos.ne']

theorem named_of_limitedKey {limits : RateLimitConfig} {name : Option String} {key : String}
    (h : limits.limitedKey name = some key) : named name = some key :=
  (Option.filter_eq_some_iff.mp h).1

/-- A call that asks no bucket. -/
def AsksNone : Call → Prop
  | .acquire .. | .reset _ => False
  | _ => True

theorem buckets_asksNone (w : Keyed) {I : IpModule} {s t : Timed} {call : Call}
    (h : AsksNone call) (hst : Timed.step I s call = some t) :
    w.buckets t.limiter = w.buckets s.limiter := by
  cases call with
  | acquire c sessionId now => cases h
  | release sessionId identity sourceIp =>
    cases hst
    unfold RateLimiter.release
    split <;> cases w <;> rfl
  | checkBandwidth bytes c today =>
    cases hst
    unfold RateLimiter.checkBandwidth
    dsimp only
    split
    · cases w <;> rfl
    · split <;> cases w <;> rfl
  | recordBytes bytes identity sourceIp =>
    cases hst
    cases w <;> rfl
  | reset now => cases h

/-- Before the window: the bucket is a slow one. -/
def KeySlow (w : Keyed) (key : String) (B r : ℚ) (s : RateLimiter) : Prop :=
  ∀ b, (w.buckets s).get? key = some b → b.capacity ≤ B ∧ b.refillRate ≤ r

theorem KeySlow.budget {w : Keyed} {key : String} {s : RateLimiter} (h : KeySlow w key B r s)
    (hr : 0 ≤ r) (start : ℚ) : KeyBudget w key B r start 0 s := by
  refine ⟨fun b hb => ?_, fun _ => rfl⟩
  obtain ⟨hcap, hrate⟩ := h b hb
  refine ⟨hcap, hrate, fun _ => rfl, fun hstart => ?_⟩
  have hflow : 0 ≤ r * (b.lastUpdate - start) := mul_nonneg hr (sub_nonneg.mpr hstart)
  have hle := b.le
  have hzero : ((0 : Nat) : ℚ) = 0 := Nat.cast_zero
  rw [hzero]
  linarith

/-- The effective limits of the key, and the bounds on its bucket that follow. -/
structure Bounds (I : IpModule) (p : Policy) (w : Keyed) (key : String) (cpm : Int) (burst : ℚ) :
    Prop where
  configured : Configured I p w key cpm burst
  cpm_pos : 0 < cpm
  burst_nonneg : 0 ≤ burst

namespace Bounds

variable {I : IpModule} {p : Policy} {w : Keyed} {key : String} {cpm : Int} {burst : ℚ}

theorem rate_nonneg (h : Bounds I p w key cpm burst) : (0 : ℚ) ≤ cpm / 60 := by
  have hpos : (0 : ℚ) < cpm := by exact_mod_cast h.cpm_pos
  linarith

/-- What a new bucket of the key holds and how fast it fills. -/
theorem bucket (h : Bounds I p w key cpm burst) {c : Caller} (hc : named (w.name c) = some key)
    (hslow : 60 * (p.getRateLimits I c).bucketRate ≤ cpm) :
    (p.getRateLimits I c).bucketRate * (p.getRateLimits I c).burstMultiplier ≤ burst * cpm ∧
      (p.getRateLimits I c).bucketRate ≤ cpm / 60 := by
  have hpos : (0 : ℚ) < cpm := by exact_mod_cast h.cpm_pos
  have hrate : (p.getRateLimits I c).bucketRate ≤ cpm := by linarith
  rw [(h.configured c hc).2]
  refine ⟨?_, by linarith⟩
  rw [mul_comm]
  exact mul_le_mul_of_nonneg_left hrate h.burst_nonneg

theorem keySlow_step (h : Bounds I p w key cpm burst) {s t : Timed} {call : Call}
    (hpolicy : s.limiter.policy = p) (hk : Kept s.limiter s.clock)
    (hs : KeySlow w key (burst * cpm) (cpm / 60) s.limiter)
    (hc : Slow I p w key cpm call) (hst : Timed.step I s call = some t) :
    KeySlow w key (burst * cpm) (cpm / 60) t.limiter := by
  have hplain : AsksNone call → KeySlow w key (burst * cpm) (cpm / 60) t.limiter := by
    intro hnone b hb
    rw [buckets_asksNone w hnone hst] at hb
    exact hs b hb
  cases call with
  | acquire c sessionId now =>
    simp only [Timed.step] at hst
    split at hst
    · cases hst
      have hkey := asked_key w I s.limiter c sessionId now key
      dsimp only at hkey ⊢
      rw [hpolicy] at hkey
      rcases hkey with ⟨hsame, _⟩ | ⟨hlimited, hnew, _⟩
      · intro b hb
        rw [hsame] at hb
        exact hs b hb
      · intro b hb
        have hbucket : (getBucket (w.buckets s.limiter) key (p.getRateLimits I c)
            (w.made now)).capacity ≤ burst * cpm ∧ (getBucket (w.buckets s.limiter) key
              (p.getRateLimits I c) (w.made now)).refillRate ≤ cpm / 60 := by
          unfold getBucket
          cases e : (w.buckets s.limiter).get? key with
          | some b => exact hs b e
          | none =>
            have hnamed := named_of_limitedKey hlimited
            exact h.bucket hnamed (hc hnamed)
        have hrate := getBucket_rate_ne (kept_buckets hk w) key (p.getRateLimits I c) (w.made now)
        rw [hnew] at hb
        rcases request_cases hrate (w.message ++ key) (w.reading now) now.retry with ⟨e, _⟩ | ⟨x, e⟩
        · rw [e] at hb
          cases hb
          exact hbucket
        · rw [e] at hb
          cases hb
          exact hbucket
    · cases hst
  | reset now =>
    simp only [Timed.step] at hst
    split at hst
    · cases hst
      intro b hb
      cases w <;> cases hb
    · cases hst
  | release sessionId identity sourceIp =>
    exact hplain trivial
  | checkBandwidth bytes c today =>
    exact hplain trivial
  | recordBytes bytes identity sourceIp =>
    exact hplain trivial

theorem grants_asksNone (I : IpModule) (w : Keyed) (key : String) (s : Timed) {call : Call}
    (h : AsksNone call) : grants I w key s call = [] := by
  cases call with
  | acquire c sessionId now => cases h
  | reset now => rfl
  | release sessionId identity sourceIp => rfl
  | checkBandwidth bytes c today => rfl
  | recordBytes bytes identity sourceIp => rfl

/-- One call in the window: a granted one is paid for from the budget. -/
theorem budget_step (h : Bounds I p w key cpm burst) {start minutes : ℚ} {n : Nat} {s t : Timed}
    {call : Call} (hpolicy : s.limiter.policy = p) (hk : Kept s.limiter s.clock)
    (hb : KeyBudget w key (burst * cpm) (cpm / 60) start n s.limiter)
    (hn : (n : ℚ) ≤ burst * cpm + cpm * minutes) (hc : Slow I p w key cpm call)
    (hw : Within w key start minutes call) (hst : Timed.step I s call = some t) :
    KeyBudget w key (burst * cpm) (cpm / 60) start (n + (grants I w key s call).length) t.limiter ∧
      ((n + (grants I w key s call).length : Nat) : ℚ) ≤ burst * cpm + cpm * minutes := by
  have hplain : AsksNone call → KeyBudget w key (burst * cpm) (cpm / 60) start
      (n + (grants I w key s call).length) t.limiter ∧
      ((n + (grants I w key s call).length : Nat) : ℚ) ≤ burst * cpm + cpm * minutes := by
    intro hnone
    rw [grants_asksNone I w key s hnone]
    exact ⟨hb.of_get? (by rw [buckets_asksNone w hnone hst]), hn⟩
  cases call with
  | reset now => cases hw
  | release sessionId identity sourceIp => exact hplain trivial
  | checkBandwidth bytes c today => exact hplain trivial
  | recordBytes bytes identity sourceIp => exact hplain trivial
  | acquire c sessionId now =>
    simp only [Timed.step] at hst
    split at hst
    case isFalse => cases hst
    rename_i hclock
    cases hst
    have hkey := asked_key w I s.limiter c sessionId now key
    dsimp only at hkey ⊢
    rw [hpolicy] at hkey
    rcases hkey with ⟨hsame, hother⟩ | ⟨hlimited, hnew, hgranted⟩
    · have hgrants : grants I w key s (.acquire c sessionId now) = [] := by
        refine if_neg fun hg => ?_
        obtain ⟨hnamed, hg⟩ := (Bool.and_eq_true _ _).mp hg
        have hnamed' := of_decide_eq_true hnamed
        exact hother (Option.isNone_iff_eq_none.mp hg)
          (limitedKey_of_named (h.configured c hnamed').1 h.cpm_pos hnamed')
      rw [hgrants]
      exact ⟨hb.of_get? hsame, hn⟩
    · have hnamed := named_of_limitedKey hlimited
      obtain ⟨hcap, hrate⟩ := h.bucket hnamed (hc hnamed)
      obtain ⟨hstart, hend⟩ := hw hnamed
      have hmade : s.clock ≤ w.made now := hclock.trans (w.global_le_made now)
      have hlast := (getBucket_lastUpdate (kept_buckets hk w) hmade key
        (p.getRateLimits I c)).trans (w.made_le_reading now)
      obtain ⟨hpaid, hkept⟩ := (budget_getBucket hb (w.made now) h.rate_nonneg hcap hrate).request
        h.rate_nonneg (getBucket_rate_ne (kept_buckets hk w) key _ _) hlast hstart
        (w.message ++ key) (w.reading_le_retry now)
      by_cases hg : (s.limiter.acquire I c sessionId now).1 = none
      · have hgrants : grants I w key s (.acquire c sessionId now) = [()] :=
          if_pos (by simp [grantedTo, hnamed, hg])
        obtain ⟨hbudget, hle⟩ := hpaid (hgranted hg)
        rw [hgrants]
        refine ⟨keyBudget_of_some hnew hbudget, hle.trans ?_⟩
        have hcpm : (0 : ℚ) ≤ cpm := by exact_mod_cast h.cpm_pos.le
        have hspan : (cpm : ℚ) / 60 * (w.reading now - start) ≤ cpm / 60 * (60 * minutes) :=
          mul_le_mul_of_nonneg_left (by linarith) h.rate_nonneg
        linarith
      · have hgrants : grants I w key s (.acquire c sessionId now) = [] :=
          if_neg (by simp [grantedTo, hnamed, hg])
        rw [hgrants]
        refine ⟨keyBudget_of_some hnew ?_, hn⟩
        -- a later check may have refused after this bucket gave up its token
        by_cases hpass : ((getBucket (w.buckets s.limiter) key (p.getRateLimits I c)
            (w.made now)).request (w.message ++ key) (w.reading now) now.retry).1 = none
        · exact (hpaid hpass).1.fewer
        · exact hkept hpass

end Bounds

theorem keySlow_reachable {I : IpModule} {p : Policy} {w : Keyed} {key : String} {cpm : Int}
    {burst : ℚ} (h : Bounds I p w key cpm burst) (s : Timed)
    (hs : (slow I p w key cpm).Reachable s) :
    KeySlow w key (burst * cpm) (cpm / 60) s.limiter ∧ s.limiter.policy = p ∧
      Kept s.limiter s.clock := by
  have hI : (slow I p w key cpm).Inductive fun s =>
      KeySlow w key (burst * cpm) (cpm / 60) s.limiter ∧ s.limiter.policy = p ∧
        Kept s.limiter s.clock := by
    refine ⟨?_, ?_⟩
    · intro s hs
      rw [hs]
      refine ⟨fun b hb => ?_, rfl, kept_new I p s.clock⟩
      cases w <;> cases hb
    · rintro s call t ⟨hkey, hpolicy, hk⟩ ⟨hc, hst⟩
      exact ⟨h.keySlow_step hpolicy hk hkey hc hst, (policy_step hst).trans hpolicy,
        kept_step hk hst⟩
  exact hI.reachable s hs

/-- **Headline.** From any reachable state on, a key with `cpm` connections a minute and bursts
of `burst` is granted at most `burst * cpm + cpm * minutes` calls in a window of `minutes`, if
its buckets are slow. -/
theorem rate_enforced (I : IpModule) (p : Policy) (w : Keyed) (key : String) (cpm : Int)
    (burst : ℚ) (hlimits : Bounds I p w key cpm burst) (start minutes : ℚ) (hm : 0 ≤ minutes)
    (s t : Timed) (ls : List Call) (hs : (slow I p w key cpm).Reachable s)
    (hr : (windowed I p w key cpm start minutes).Run s ls t) :
    (successes I w key s ls : ℚ) ≤ burst * cpm + cpm * minutes := by
  obtain ⟨hkey, hpolicy, hk⟩ := keySlow_reachable hlimits s hs
  have hcpm : (0 : ℚ) ≤ cpm := by exact_mod_cast hlimits.cpm_pos.le
  have hzero : ((0 : Nat) : ℚ) ≤ burst * cpm + cpm * minutes := by
    rw [Nat.cast_zero]
    exact add_nonneg (mul_nonneg hlimits.burst_nonneg hcpm) (mul_nonneg hcpm hm)
  -- the budget is that of the calls granted so far
  have hrun := LTS.Run.gather (q := grants I w key)
    (I := fun s got => (s.limiter.policy = p ∧ Kept s.limiter s.clock) ∧
      KeyBudget w key (burst * cpm) (cpm / 60) start got.length s.limiter ∧
        (got.length : ℚ) ≤ burst * cpm + cpm * minutes) [] ?_ hr
    ⟨⟨hpolicy, hk⟩, hkey.budget hlimits.rate_nonneg start, hzero⟩
  · exact hrun.2.2
  · rintro s call t got ⟨hc, hw⟩ hst ⟨⟨hpolicy, hk⟩, hb, hn⟩
    refine ⟨⟨(policy_step hst).trans hpolicy, kept_step hk hst⟩, ?_⟩
    rw [List.length_append]
    exact hlimits.budget_step hpolicy hk hb hn hc hw hst

/-! ### On fixed calls -/

/-- So many connections a minute, for everybody, with bursts of 2. -/
def perMinute (cpm : Int) : Policy :=
  .ofDefaults { RateLimitConfig.default with connectionsPerMinute := some cpm } .default

def fromHome (now : ℚ) : Call := .acquire ⟨none, some "10.0.0.1", none⟩ none (.at now)

/-- Two calls at once, then one each second. -/
def fourCalls : List Call := [fromHome 0, fromHome 0, fromHome 1, fromHome 2]

def fresh (cpm : Int) : Timed := ⟨.new noAddresses (perMinute cpm) 0, 0⟩

def withinCheck (start minutes : ℚ) : Call → Bool
  | .acquire c _ now => !decide (named c.sourceIp = some "10.0.0.1") ||
    (decide (start ≤ now.ip) && decide (now.ip ≤ start + 60 * minutes))
  | .reset _ => false
  | _ => true

theorem within_of_check {start minutes : ℚ} {call : Call}
    (h : withinCheck start minutes call = true) : Within .ip "10.0.0.1" start minutes call := by
  cases call with
  | acquire c sessionId now =>
    intro hnamed
    change named c.sourceIp = some "10.0.0.1" at hnamed
    simp only [withinCheck, hnamed, decide_true, Bool.not_true, Bool.false_or,
      Bool.and_eq_true, decide_eq_true_eq] at h
    exact h
  | reset now => cases h
  | release sessionId identity sourceIp => trivial
  | checkBandwidth bytes c today => trivial
  | recordBytes bytes identity sourceIp => trivial

/-- The bucket made for 60 connections a minute is filled at 60 a minute. -/
theorem slow_sixty (call : Call) : Slow noAddresses (perMinute 60) .ip "10.0.0.1" 60 call := by
  cases call with
  | acquire c sessionId now =>
    intro _
    rw [perMinute, getRateLimits_ofDefaults]
    decide +kernel
  | reset now => trivial
  | release sessionId identity sourceIp => trivial
  | checkBandwidth bytes c today => trivial
  | recordBytes bytes identity sourceIp => trivial

theorem bounds_sixty : Bounds noAddresses (perMinute 60) .ip "10.0.0.1" 60 2 :=
  ⟨fun _ _ => ⟨rfl, rfl⟩, by decide, by decide⟩

def afterFour (cpm : Int) : Timed :=
  LTS.after (LTS.checked (fun _ => withinCheck 0 (1 / 30)) (Timed.step noAddresses)) (fresh cpm)
    fourCalls

theorem rate_enforced_sixty :
    (successes noAddresses .ip "10.0.0.1" (fresh 60) fourCalls : ℚ) ≤
        2 * (60 : Int) + (60 : Int) * (1 / 30) ∧
      successes noAddresses .ip "10.0.0.1" (fresh 60) fourCalls = 4 := by
  have hexec : LTS.exec (LTS.checked (fun _ => withinCheck 0 (1 / 30)) (Timed.step noAddresses))
      (fresh 60) fourCalls = some (afterFour 60) := LTS.exec_after (by decide +kernel)
  refine ⟨rate_enforced noAddresses (perMinute 60) .ip "10.0.0.1" 60 2 bounds_sixty 0 (1 / 30)
    (by decide +kernel) _ (afterFour 60) fourCalls (.init rfl)
    (LTS.restrict_run_of_exec (fun _ call h => ⟨slow_sixty call, within_of_check h⟩) hexec),
    by decide +kernel⟩

/-- **One connection a minute, four in two seconds.** The bucket is filled at 60 a minute,
whatever `connections_per_minute` says. -/
theorem rate_exceeded :
    ∃ t, (system noAddresses (perMinute 1)).Run (fresh 1) fourCalls t ∧
      (system noAddresses (perMinute 1)).init (fresh 1) ∧
      Configured noAddresses (perMinute 1) .ip "10.0.0.1" 1 2 ∧
      (∀ call ∈ fourCalls, Within .ip "10.0.0.1" 0 (1 / 30) call) ∧
      ¬ (successes noAddresses .ip "10.0.0.1" (fresh 1) fourCalls : ℚ) ≤
        2 * (1 : Int) + (1 : Int) * (1 / 30) := by
  have hexec : LTS.exec (Timed.step noAddresses) (fresh 1) fourCalls =
      some (LTS.after (Timed.step noAddresses) (fresh 1) fourCalls) :=
    LTS.exec_after (by decide +kernel)
  have hcount : successes noAddresses .ip "10.0.0.1" (fresh 1) fourCalls = 4 := by decide +kernel
  refine ⟨_, LTS.run_of_exec hexec, rfl, fun _ _ => ⟨rfl, rfl⟩, fun call hcall => ?_, ?_⟩
  · exact within_of_check (List.all_eq_true.mp (by decide +kernel :
      fourCalls.all (withinCheck 0 (1 / 30)) = true) call hcall)
  · rw [hcount]
    decide +kernel

end Wormhole.L5.ConnectionRate
