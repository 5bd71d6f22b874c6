import Mathlib.Algebra.Order.Field.Rat
import Mathlib.Data.Finset.Basic
import Mathlib.Data.NNRat.Defs
import Wormhole.Core.LTS
import Wormhole.L1Encoding.IsoFormat
import Wormhole.L4App.Policy

/-!
# The rate limiter

`src/wh/enterprise/rate_limiter.py`: token buckets, connection trackers, and the calls
of `RateLimiter`. Each call runs under the limiter's lock without awaiting anything, so
it is one step.

The arithmetic of the buckets is exact, and a bucket carries `tokens ≤ capacity`. What
`time.monotonic()` returns within one call of `acquire` is a value of `Readings`;
`time.localtime()` is a `LocalDate`, as far as the trackers read it.

`system` is the limiter under any sequence of calls, on a clock that never goes back.
`kept_reachable`: no bucket is ahead of the clock, and none has rate 0.
-/
namespace Wormhole.L4.Enterprise
open Wormhole.L1

/-! ## Token buckets -/

/-- mirrors src/wh/enterprise/rate_limiter.py:53-70 -/
structure TokenBucket where
  capacity : ℚ
  refillRate : ℚ
  tokens : ℚ
  lastUpdate : ℚ
  le : tokens ≤ capacity
deriving DecidableEq

namespace TokenBucket

/-- A new bucket is full. -/
def new (capacity refillRate now : ℚ) : TokenBucket :=
  ⟨capacity, refillRate, capacity, now, le_rfl⟩

/-- mirrors src/wh/enterprise/rate_limiter.py:72-77 -/
def refill (b : TokenBucket) (now : ℚ) : TokenBucket :=
  { b with
    tokens := min b.capacity (b.tokens + (now - b.lastUpdate) * b.refillRate)
    lastUpdate := now
    le := min_le_left _ _ }

/-- `self.tokens -= tokens`. -/
def spend (b : TokenBucket) (n : ℚ≥0) : TokenBucket :=
  { b with tokens := b.tokens - n, le := (sub_le_self _ n.2).trans b.le }

/-- mirrors src/wh/enterprise/rate_limiter.py:79-93 -/
def tryAcquire (b : TokenBucket) (n : ℚ≥0) (now : ℚ) : Bool × TokenBucket :=
  if (n : ℚ) ≤ (b.refill now).tokens then (true, (b.refill now).spend n)
  else (false, b.refill now)

/-- `none`: division by zero.
mirrors src/wh/enterprise/rate_limiter.py:95-101 -/
def timeUntilAvailable (b : TokenBucket) (n : ℚ≥0) (now : ℚ) : Option ℚ × TokenBucket :=
  if (n : ℚ) ≤ (b.refill now).tokens then (some 0, b.refill now)
  else if b.refillRate = 0 then (none, b.refill now)
  else (some ((n - (b.refill now).tokens) / b.refillRate), b.refill now)

/-- A request takes one token. -/
def HasToken (b : TokenBucket) (now : ℚ) : Prop := 1 ≤ (b.refill now).tokens

instance (b : TokenBucket) (now : ℚ) : Decidable (b.HasToken now) :=
  inferInstanceAs (Decidable (_ ≤ _))

@[simp] theorem refill_capacity (b : TokenBucket) (now : ℚ) :
    (b.refill now).capacity = b.capacity := rfl

@[simp] theorem refill_refillRate (b : TokenBucket) (now : ℚ) :
    (b.refill now).refillRate = b.refillRate := rfl

@[simp] theorem refill_lastUpdate (b : TokenBucket) (now : ℚ) :
    (b.refill now).lastUpdate = now := rfl

@[simp] theorem spend_refillRate (b : TokenBucket) (n : ℚ≥0) :
    (b.spend n).refillRate = b.refillRate := rfl

@[simp] theorem spend_capacity (b : TokenBucket) (n : ℚ≥0) :
    (b.spend n).capacity = b.capacity := rfl

@[simp] theorem spend_lastUpdate (b : TokenBucket) (n : ℚ≥0) :
    (b.spend n).lastUpdate = b.lastUpdate := rfl

theorem tryAcquire_of_hasToken {b : TokenBucket} {now : ℚ} (h : b.HasToken now) :
    b.tryAcquire 1 now = (true, (b.refill now).spend 1) := by
  have h' : ((1 : ℚ≥0) : ℚ) ≤ (b.refill now).tokens := by simpa [HasToken] using h
  rw [tryAcquire, if_pos h']

theorem tryAcquire_of_not_hasToken {b : TokenBucket} {now : ℚ} (h : ¬ b.HasToken now) :
    b.tryAcquire 1 now = (false, b.refill now) := by
  have h' : ¬ ((1 : ℚ≥0) : ℚ) ≤ (b.refill now).tokens := by simpa [HasToken] using h
  rw [tryAcquire, if_neg h']

end TokenBucket

/-! ## Connection trackers -/

/-- A day of the local calendar. -/
structure LocalDate where
  year : Nat
  month : Nat
  day : Nat
  month_mem : 1 ≤ month ∧ month ≤ 12
  day_mem : 1 ≤ day ∧ day ≤ daysInMonth year month

theorem LocalDate.eq_iff {a b : LocalDate} :
    a = b ↔ a.year = b.year ∧ a.month = b.month ∧ a.day = b.day := by
  obtain ⟨year, month, day, _, _⟩ := a
  obtain ⟨year', month', day', _, _⟩ := b
  simp

instance : DecidableEq LocalDate := fun _ _ => decidable_of_iff _ LocalDate.eq_iff.symm

/-- `tm_yday`, 1 on January 1st. -/
def LocalDate.yday (d : LocalDate) : Nat := daysBeforeMonth d.year d.month + d.day

/-- mirrors src/wh/enterprise/rate_limiter.py:104-112 -/
structure ConnectionTracker where
  activeConnections : Int
  connectionsToday : Int
  bytesToday : Nat
  bytesThisMonth : Nat
  lastResetDay : Nat
  lastResetMonth : Nat
deriving DecidableEq

namespace ConnectionTracker

def fresh : ConnectionTracker := ⟨0, 0, 0, 0, 0, 0⟩

def resetDay (t : ConnectionTracker) (today : LocalDate) : ConnectionTracker :=
  if today.yday ≠ t.lastResetDay then
    { t with connectionsToday := 0, bytesToday := 0, lastResetDay := today.yday }
  else t

def resetMonth (t : ConnectionTracker) (today : LocalDate) : ConnectionTracker :=
  if today.month ≠ t.lastResetMonth then
    { t with bytesThisMonth := 0, lastResetMonth := today.month }
  else t

/-- mirrors src/wh/enterprise/rate_limiter.py:114-125 -/
def resetIfNeeded (t : ConnectionTracker) (today : LocalDate) : ConnectionTracker :=
  (t.resetDay today).resetMonth today

def connect (t : ConnectionTracker) : ConnectionTracker :=
  { t with
    activeConnections := t.activeConnections + 1
    connectionsToday := t.connectionsToday + 1 }

def disconnect (t : ConnectionTracker) : ConnectionTracker :=
  { t with activeConnections := t.activeConnections - 1 }

def record (t : ConnectionTracker) (bytes : Nat) : ConnectionTracker :=
  { t with
    bytesToday := t.bytesToday + bytes
    bytesThisMonth := t.bytesThisMonth + bytes }

end ConnectionTracker

/-- `defaultdict(ConnectionTracker)`. -/
abbrev Trackers := Dict String ConnectionTracker

namespace Trackers

/-- The value of `d[k]`. -/
def at? (d : Trackers) (k : String) : ConnectionTracker := (d.get? k).getD .fresh

/-- `d[k]`, which enters a missing key; without a name nothing is looked up. -/
def touch (d : Trackers) (k : Option String) : Trackers :=
  match k with
  | some k => if d.contains k then d else d.set k .fresh
  | none => d

/-- An update of `d[k]`; without a name there is none. -/
def update (d : Trackers) (k : Option String) (f : ConnectionTracker → ConnectionTracker) :
    Trackers :=
  match k with
  | some k => d.set k (f (d.at? k))
  | none => d

/-- An update of `d[k]` if `k in d`. -/
def updatePresent (d : Trackers) (k : Option String)
    (f : ConnectionTracker → ConnectionTracker) : Trackers :=
  match k with
  | some k => if d.contains k then d.set k (f (d.at? k)) else d
  | none => d

theorem at?_set (d : Trackers) (k j : String) (t : ConnectionTracker) :
    at? (d.set k t) j = if k = j then t else d.at? j := by
  unfold at?
  rw [Dict.get?_set]
  split <;> rfl

theorem at?_update (d : Trackers) (key : Option String)
    (f : ConnectionTracker → ConnectionTracker) (j : String) :
    (d.update key f).at? j = if key = some j then f (d.at? j) else d.at? j := by
  cases key with
  | none => rfl
  | some k =>
    rw [update, at?_set]
    by_cases h : k = j
    · subst h
      simp
    · simp [h]

end Trackers

/-! ## The limiter -/

/-- mirrors src/wh/enterprise/rate_limiter.py:138-163 -/
structure RateLimiter where
  policy : Policy
  ipBuckets : Dict String TokenBucket
  identityBuckets : Dict String TokenBucket
  globalBucket : Option TokenBucket
  ipConnections : Trackers
  identityConnections : Trackers
  globalTracker : ConnectionTracker
  activeSessions : Finset String

/-- What `time.monotonic()` returns in one call of `acquire`, in the order of the reads:
`retry` is that of `time_until_available`. -/
structure Readings where
  global : ℚ
  ipMade : ℚ
  ip : ℚ
  identityMade : ℚ
  identity : ℚ
  retry : ℚ
  mono : global ≤ ipMade ∧ ipMade ≤ ip ∧ ip ≤ identityMade ∧ identityMade ≤ identity ∧
    identity ≤ retry

theorem Readings.identity_le_retry (now : Readings) : now.identity ≤ now.retry :=
  now.mono.2.2.2.2

theorem Readings.ip_le_retry (now : Readings) : now.ip ≤ now.retry :=
  (now.mono.2.2.1.trans now.mono.2.2.2.1).trans now.identity_le_retry

theorem Readings.global_le_retry (now : Readings) : now.global ≤ now.retry :=
  (now.mono.1.trans now.mono.2.1).trans now.ip_le_retry

/-- A clock that stands still during the call. -/
def Readings.at (now : ℚ) : Readings :=
  ⟨now, now, now, now, now, now, le_rfl, le_rfl, le_rfl, le_rfl, le_rfl⟩

/-- The exceptions of `acquire`. -/
inductive Refusal where
  | rateLimitExceeded (message : String) (retryAfter : ℚ)
  | connectionLimitExceeded (message : String)
  | zeroDivision
deriving DecidableEq

/-- A refusal or none, and what is left behind in either case. -/
abbrev Outcome (σ : Type) := Option Refusal × σ

/-- The next check runs unless this one has raised. -/
def Outcome.andThen {σ : Type} (r : Outcome σ) (next : σ → Outcome σ) : Outcome σ :=
  match r.1 with
  | none => next r.2
  | some e => (some e, r.2)

/-- `if not bucket.try_acquire(): raise RateLimitExceeded(.., bucket.time_until_available())`. -/
def TokenBucket.request (b : TokenBucket) (message : String) (now retry : ℚ) :
    Outcome TokenBucket :=
  match b.tryAcquire 1 now with
  | (true, b) => (none, b)
  | (false, b) =>
    match b.timeUntilAvailable 1 retry with
    | (some wait, b) => (some (.rateLimitExceeded message wait), b)
    | (none, b) => (some .zeroDivision, b)

/-- The rate `_get_bucket` derives from the limits.
mirrors src/wh/enterprise/rate_limiter.py:174 -/
def RateLimitConfig.bucketRate (limits : RateLimitConfig) : ℚ :=
  match truthy limits.requestsPerSecond with
  | some rate => rate
  | none => ((truthy limits.requestsPerMinute).getD 60 : ℚ) / 60

/-- mirrors src/wh/enterprise/rate_limiter.py:165-177 -/
def getBucket (buckets : Dict String TokenBucket) (key : String) (limits : RateLimitConfig)
    (made : ℚ) : TokenBucket :=
  match buckets.get? key with
  | some b => b
  | none => .new (limits.bucketRate * limits.burstMultiplier) limits.bucketRate made

/-- The per-IP and the per-identity check: the bucket of the key, if there is one to ask. -/
def requestKeyed (buckets : Dict String TokenBucket) (key : Option String)
    (limits : RateLimitConfig) (message : String) (made now retry : ℚ) :
    Outcome (Dict String TokenBucket) :=
  match key with
  | none => (none, buckets)
  | some k =>
    let r := (getBucket buckets k limits made).request (message ++ k) now retry
    (r.1, buckets.set k r.2)

/-- `if name and limits.connections_per_minute`. -/
def RateLimitConfig.limitedKey (limits : RateLimitConfig) (name : Option String) :
    Option String :=
  (named name).filter fun _ => (truthy limits.connectionsPerMinute).isSome

namespace RateLimiter

/-- The global bucket of `__init__` and `reset`. -/
def initialBucket (I : IpModule) (p : Policy) (now : ℚ) : Option TokenBucket :=
  let limits := p.getRateLimits I ⟨none, none, none⟩
  (truthy limits.requestsPerSecond).map fun rate =>
    .new (rate * limits.burstMultiplier) rate now

/-- mirrors src/wh/enterprise/rate_limiter.py:138-163 -/
def new (I : IpModule) (p : Policy) (now : ℚ) : RateLimiter where
  policy := p
  ipBuckets := .empty
  identityBuckets := .empty
  globalBucket := initialBucket I p now
  ipConnections := .empty
  identityConnections := .empty
  globalTracker := .fresh
  activeSessions := ∅

/-- mirrors src/wh/enterprise/rate_limiter.py:202-205 -/
def checkGlobal (s : RateLimiter) (now : Readings) : Outcome RateLimiter :=
  match s.globalBucket with
  | none => (none, s)
  | some b =>
    let r := b.request "Global rate limit exceeded" now.global now.retry
    (r.1, { s with globalBucket := some r.2 })

/-- mirrors src/wh/enterprise/rate_limiter.py:207-212 -/
def checkIp (s : RateLimiter) (limits : RateLimitConfig) (c : Caller) (now : Readings) :
    Outcome RateLimiter :=
  let r := requestKeyed s.ipBuckets (limits.limitedKey c.sourceIp) limits
    "IP rate limit exceeded: " now.ipMade now.ip now.retry
  (r.1, { s with ipBuckets := r.2 })

/-- mirrors src/wh/enterprise/rate_limiter.py:214-219 -/
def checkIdentity (s : RateLimiter) (limits : RateLimitConfig) (c : Caller) (now : Readings) :
    Outcome RateLimiter :=
  let r := requestKeyed s.identityBuckets (limits.limitedKey c.identity) limits
    "Identity rate limit exceeded: " now.identityMade now.identity now.retry
  (r.1, { s with identityBuckets := r.2 })

/-- `if source_ip`: the IP's connections against `m`.
mirrors src/wh/enterprise/rate_limiter.py:223-226 -/
def checkIpConnections (s : RateLimiter) (m : Int) (c : Caller) : Outcome RateLimiter :=
  (match named c.sourceIp with
    | none => none
    | some k =>
      if m ≤ (s.ipConnections.at? k).activeConnections then
        some (.connectionLimitExceeded ("Max connections exceeded for IP: " ++ k))
      else none,
    { s with ipConnections := s.ipConnections.touch (named c.sourceIp) })

/-- `if identity`: the identity's sessions against `max_sessions_per_identity`.
mirrors src/wh/enterprise/rate_limiter.py:228-231 -/
def checkSessions (s : RateLimiter) (quotas : QuotaConfig) (c : Caller) : Outcome RateLimiter :=
  (match named c.identity, truthy quotas.maxSessionsPerIdentity with
    | some k, some n =>
      if n ≤ (s.identityConnections.at? k).activeConnections then
        some (.connectionLimitExceeded ("Max sessions exceeded for identity: " ++ k))
      else none
    | _, _ => none,
    { s with identityConnections := s.identityConnections.touch (named c.identity) })

/-- mirrors src/wh/enterprise/rate_limiter.py:221-231 -/
def checkConnections (s : RateLimiter) (quotas : QuotaConfig) (c : Caller) :
    Outcome RateLimiter :=
  match truthy quotas.maxConcurrentConnections with
  | none => (none, s)
  | some m => (s.checkIpConnections m c).andThen fun s => s.checkSessions quotas c

/-- mirrors src/wh/enterprise/rate_limiter.py:233-245 -/
def track (s : RateLimiter) (c : Caller) (sessionId : Option String) : RateLimiter :=
  match named sessionId with
  | none => s
  | some id =>
    { s with
      activeSessions := insert id s.activeSessions
      globalTracker := s.globalTracker.connect
      ipConnections := s.ipConnections.update (named c.sourceIp) .connect
      identityConnections := s.identityConnections.update (named c.identity) .connect }

/-- mirrors src/wh/enterprise/rate_limiter.py:179-245 -/
def acquire (I : IpModule) (s : RateLimiter) (c : Caller) (sessionId : Option String)
    (now : Readings) : Outcome RateLimiter :=
  let limits := s.policy.getRateLimits I c
  let quotas := s.policy.getQuotas I c
  (s.checkGlobal now).andThen fun s =>
  (s.checkIp limits c now).andThen fun s =>
  (s.checkIdentity limits c now).andThen fun s =>
  (s.checkConnections quotas c).andThen fun s => (none, s.track c sessionId)

/-- mirrors src/wh/enterprise/rate_limiter.py:248-271 -/
def release (s : RateLimiter) (sessionId : String) (identity sourceIp : Option String) :
    RateLimiter :=
  if sessionId ∈ s.activeSessions then
    { s with
      activeSessions := s.activeSessions.erase sessionId
      globalTracker := s.globalTracker.disconnect
      ipConnections := s.ipConnections.updatePresent (named sourceIp) .disconnect
      identityConnections := s.identityConnections.updatePresent (named identity) .disconnect }
  else s

/-- `projected > quota`, for a quota that is set. -/
def exceeds (quota : Option Int) (bytesSoFar bytes : Nat) : Bool :=
  (truthy quota).any fun q => q < ((bytesSoFar + bytes : Nat) : Int)

/-- The first half of `check_bandwidth`, after the reset: the error, if any.
mirrors src/wh/enterprise/rate_limiter.py:299-309 -/
def overGlobal (s : RateLimiter) (quotas : QuotaConfig) (bytes : Nat) : Option String :=
  if exceeds quotas.maxTransferBytesPerDay s.globalTracker.bytesToday bytes then
    some "Daily transfer quota exceeded"
  else if exceeds quotas.maxTransferBytesPerMonth s.globalTracker.bytesThisMonth bytes then
    some "Monthly transfer quota exceeded"
  else none

/-- `BandwidthQuotaExceeded` is its message.
mirrors src/wh/enterprise/rate_limiter.py:273-316 -/
def checkBandwidth (I : IpModule) (s : RateLimiter) (bytes : Nat) (c : Caller)
    (today : LocalDate) : Option String × RateLimiter :=
  let quotas := s.policy.getQuotas I c
  let s := { s with globalTracker := s.globalTracker.resetIfNeeded today }
  match s.overGlobal quotas bytes with
  | some message => (some message, s)
  | none =>
    match named c.identity with
    | none => (none, s)
    | some k =>
      let tracker := (s.identityConnections.at? k).resetIfNeeded today
      (if exceeds quotas.maxTransferBytesPerDay tracker.bytesToday bytes then
          some ("Daily quota exceeded for " ++ k)
        else none,
        { s with identityConnections := s.identityConnections.set k tracker })

/-- mirrors src/wh/enterprise/rate_limiter.py:318-342 -/
def recordBytes (s : RateLimiter) (bytes : Nat) (identity sourceIp : Option String) :
    RateLimiter :=
  { s with
    globalTracker := s.globalTracker.record bytes
    identityConnections := s.identityConnections.update (named identity) (·.record bytes)
    ipConnections := s.ipConnections.update (named sourceIp) (·.record bytes) }

/-- The global bucket stays if the policy has no `requests_per_second`.
mirrors src/wh/enterprise/rate_limiter.py:372-390 -/
def reset (I : IpModule) (s : RateLimiter) (now : ℚ) : RateLimiter :=
  { new I s.policy now with
    globalBucket := (initialBucket I s.policy now).orElse fun _ => s.globalBucket }

end RateLimiter

/-! ## Any sequence of calls -/

inductive Call where
  | acquire (c : Caller) (sessionId : Option String) (now : Readings)
  | release (sessionId : String) (identity sourceIp : Option String)
  | checkBandwidth (bytes : Nat) (c : Caller) (today : LocalDate)
  | recordBytes (bytes : Nat) (identity sourceIp : Option String)
  | reset (now : ℚ)

/-- The limiter and the last reading of its clock. -/
structure Timed where
  limiter : RateLimiter
  clock : ℚ

def Timed.step (I : IpModule) (s : Timed) : Call → Option Timed
  | .acquire c sessionId now =>
    if s.clock ≤ now.global then
      some ⟨(s.limiter.acquire I c sessionId now).2, now.retry⟩
    else none
  | .release sessionId identity sourceIp =>
    some { s with limiter := s.limiter.release sessionId identity sourceIp }
  | .checkBandwidth bytes c today =>
    some { s with limiter := (s.limiter.checkBandwidth I bytes c today).2 }
  | .recordBytes bytes identity sourceIp =>
    some { s with limiter := s.limiter.recordBytes bytes identity sourceIp }
  | .reset now => if s.clock ≤ now then some ⟨s.limiter.reset I now, now⟩ else none

/-- The limiter of a policy, from its construction on. -/
def system (I : IpModule) (p : Policy) : LTS Timed Call :=
  .ofStep (fun s => s = ⟨.new I p s.clock, s.clock⟩) (Timed.step I)

/-! ## Buckets and the clock -/

namespace TokenBucket

/-- The bucket is not ahead of the clock, and its rate is not 0. -/
structure Kept (b : TokenBucket) (clock : ℚ) : Prop where
  le_clock : b.lastUpdate ≤ clock
  rate_ne : b.refillRate ≠ 0

theorem Kept.mono {b : TokenBucket} {t u : ℚ} (h : b.Kept t) (hle : t ≤ u) : b.Kept u :=
  ⟨h.le_clock.trans hle, h.rate_ne⟩

theorem request_of_hasToken {b : TokenBucket} {message : String} {now retry : ℚ}
    (h : b.HasToken now) : b.request message now retry = (none, (b.refill now).spend 1) := by
  unfold request
  rw [tryAcquire_of_hasToken h]

theorem request_of_not_hasToken {b : TokenBucket} {now : ℚ} (h : ¬ b.HasToken now)
    (hr : b.refillRate ≠ 0) (message : String) (retry : ℚ) :
    ∃ wait, b.request message now retry =
      (some (.rateLimitExceeded message wait), (b.refill now).refill retry) := by
  unfold request timeUntilAvailable
  rw [tryAcquire_of_not_hasToken h]
  by_cases hr' : ((1 : ℚ≥0) : ℚ) ≤ ((b.refill now).refill retry).tokens
  · exact ⟨0, by simp only [hr', if_true]⟩
  · refine ⟨(1 - ((b.refill now).refill retry).tokens) / b.refillRate, ?_⟩
    simp only [hr', refill_refillRate, hr, if_false]
    rfl

theorem kept_request {b : TokenBucket} {message : String} {now retry : ℚ}
    (hr : b.refillRate ≠ 0) (hle : now ≤ retry) : (b.request message now retry).2.Kept retry := by
  by_cases h : b.HasToken now
  · rw [request_of_hasToken h]
    exact ⟨hle, hr⟩
  · obtain ⟨wait, e⟩ := request_of_not_hasToken h hr message retry
    rw [e]
    exact ⟨le_rfl, hr⟩

end TokenBucket

theorem truthy_ne {α : Type} [Zero α] [DecidableEq α] {a : Option α} {x : α}
    (h : truthy a = some x) : x ≠ 0 := by
  rw [truthy, Option.filter_eq_some_iff] at h
  exact of_decide_eq_true h.2

theorem bucketRate_ne (limits : RateLimitConfig) : limits.bucketRate ≠ 0 := by
  unfold RateLimitConfig.bucketRate
  split
  · rename_i rate h
    exact truthy_ne h
  · have h : ((truthy limits.requestsPerMinute).getD 60 : Int) ≠ 0 := by
      cases e : truthy limits.requestsPerMinute with
      | none => decide
      | some n => exact truthy_ne e
    exact div_ne_zero (by exact_mod_cast h) (by decide)

/-- All buckets are kept. -/
structure Kept (s : RateLimiter) (clock : ℚ) : Prop where
  global : ∀ b, s.globalBucket = some b → b.Kept clock
  ip : ∀ k b, s.ipBuckets.get? k = some b → b.Kept clock
  identity : ∀ k b, s.identityBuckets.get? k = some b → b.Kept clock

theorem Kept.mono {s : RateLimiter} {t u : ℚ} (h : Kept s t) (hle : t ≤ u) : Kept s u :=
  ⟨fun b hb => (h.global b hb).mono hle, fun k b hb => (h.ip k b hb).mono hle,
    fun k b hb => (h.identity k b hb).mono hle⟩

/-- A property that every check keeps. -/
theorem Outcome.andThen_keeps {σ : Type} {P : σ → Prop} {r : Outcome σ} {next : σ → Outcome σ}
    (h : P r.2) (hn : ∀ s, P s → P (next s).2) : P (r.andThen next).2 := by
  unfold Outcome.andThen
  split
  · exact hn _ h
  · exact h

/-- Either a check raises, or the next one runs. -/
theorem Outcome.andThen_elim {σ : Type} {Q : Outcome σ → Prop} {r : Outcome σ}
    {next : σ → Outcome σ} (hr : ∀ e, Q (some e, r.2)) (hn : r.1 = none → Q (next r.2)) :
    Q (r.andThen next) := by
  obtain ⟨e, s⟩ := r
  cases e with
  | none => exact hn rfl
  | some e => exact hr e

theorem getBucket_rate_ne {buckets : Dict String TokenBucket} {clock : ℚ}
    (h : ∀ k b, buckets.get? k = some b → b.Kept clock) (key : String)
    (limits : RateLimitConfig) (made : ℚ) :
    (getBucket buckets key limits made).refillRate ≠ 0 := by
  unfold getBucket
  split
  · rename_i b hb
    exact (h key b hb).rate_ne
  · exact bucketRate_ne limits

theorem kept_requestKeyed {buckets : Dict String TokenBucket} {clock : ℚ}
    (h : ∀ k b, buckets.get? k = some b → b.Kept clock) {key : Option String}
    {limits : RateLimitConfig} {message : String} {made now : ℚ} (hnow : now ≤ clock) :
    ∀ k b, (requestKeyed buckets key limits message made now clock).2.get? k = some b →
      b.Kept clock := by
  unfold requestKeyed
  split
  · exact h
  · rename_i k
    intro j b hb
    dsimp only at hb
    rw [Dict.get?_set] at hb
    split at hb
    · cases hb
      exact TokenBucket.kept_request (getBucket_rate_ne h k limits made) hnow
    · exact h j b hb

/-- The checks of the connection counters may enter trackers and leave the rest alone. -/
structure Beside (s t : RateLimiter) : Prop where
  policy : t.policy = s.policy
  ipBuckets : t.ipBuckets = s.ipBuckets
  identityBuckets : t.identityBuckets = s.identityBuckets
  globalBucket : t.globalBucket = s.globalBucket
  globalTracker : t.globalTracker = s.globalTracker
  activeSessions : t.activeSessions = s.activeSessions

theorem Beside.refl (s : RateLimiter) : Beside s s := ⟨rfl, rfl, rfl, rfl, rfl, rfl⟩

theorem checkConnections_beside (s : RateLimiter) (quotas : QuotaConfig) (c : Caller) :
    Beside s (s.checkConnections quotas c).2 := by
  unfold RateLimiter.checkConnections
  split
  · exact .refl s
  · refine Outcome.andThen_keeps ⟨rfl, rfl, rfl, rfl, rfl, rfl⟩ ?_
    intro t h
    exact ⟨h.policy, h.ipBuckets, h.identityBuckets, h.globalBucket, h.globalTracker,
      h.activeSessions⟩

theorem Kept.of_beside {s t : RateLimiter} {clock : ℚ} (h : Kept s clock) (hb : Beside s t) :
    Kept t clock := by
  refine ⟨?_, ?_, ?_⟩
  · rw [hb.globalBucket]; exact h.global
  · rw [hb.ipBuckets]; exact h.ip
  · rw [hb.identityBuckets]; exact h.identity

theorem kept_checkGlobal {s : RateLimiter} {now : Readings} (h : Kept s now.global) :
    Kept (s.checkGlobal now).2 now.retry := by
  have hle : now.global ≤ now.retry := now.global_le_retry
  unfold RateLimiter.checkGlobal
  split
  · exact h.mono hle
  · rename_i b hb
    refine ⟨?_, (h.mono hle).ip, (h.mono hle).identity⟩
    intro b' hb'
    cases hb'
    exact TokenBucket.kept_request (h.global b hb).rate_ne hle

theorem kept_acquire {I : IpModule} {s : RateLimiter} {c : Caller} {sessionId : Option String}
    {now : Readings} (h : Kept s now.global) :
    Kept (s.acquire I c sessionId now).2 now.retry := by
  unfold RateLimiter.acquire
  refine Outcome.andThen_keeps (P := fun s : RateLimiter => Kept s now.retry)
    (kept_checkGlobal h) ?_
  intro s h
  refine Outcome.andThen_keeps (P := fun s : RateLimiter => Kept s now.retry)
    ⟨h.global, kept_requestKeyed h.ip now.ip_le_retry, h.identity⟩ ?_
  intro s h
  refine Outcome.andThen_keeps (P := fun s : RateLimiter => Kept s now.retry)
    ⟨h.global, h.ip, kept_requestKeyed h.identity now.identity_le_retry⟩ ?_
  intro s h
  refine Outcome.andThen_keeps (P := fun s : RateLimiter => Kept s now.retry)
    (h.of_beside (checkConnections_beside s _ c)) ?_
  intro s h
  unfold RateLimiter.track
  split
  · exact h
  · exact ⟨h.global, h.ip, h.identity⟩

theorem kept_initialBucket {I : IpModule} {p : Policy} {now : ℚ} {b : TokenBucket}
    (h : RateLimiter.initialBucket I p now = some b) : b.Kept now := by
  unfold RateLimiter.initialBucket at h
  obtain ⟨rate, hr, rfl⟩ := Option.map_eq_some_iff.mp h
  exact ⟨le_rfl, truthy_ne hr⟩

theorem kept_new (I : IpModule) (p : Policy) (now : ℚ) : Kept (.new I p now) now :=
  ⟨fun _ h => kept_initialBucket h, (fun _ _ h => nomatch h), (fun _ _ h => nomatch h)⟩

theorem kept_reset {I : IpModule} {s : RateLimiter} {clock now : ℚ} (h : Kept s clock)
    (hle : clock ≤ now) : Kept (s.reset I now) now := by
  refine ⟨?_, (fun _ _ h => nomatch h), (fun _ _ h => nomatch h)⟩
  intro b hb
  simp only [RateLimiter.reset] at hb
  cases e : RateLimiter.initialBucket I s.policy now with
  | some b' =>
    rw [e] at hb
    cases hb
    exact kept_initialBucket e
  | none =>
    rw [e] at hb
    exact (h.global b hb).mono hle

theorem kept_step {I : IpModule} {s t : Timed} {call : Call} (h : Kept s.limiter s.clock)
    (hst : Timed.step I s call = some t) : Kept t.limiter t.clock := by
  cases call with
  | acquire c sessionId now =>
    simp only [Timed.step] at hst
    split at hst
    · cases hst
      exact kept_acquire (h.mono ‹_›)
    · cases hst
  | release sessionId identity sourceIp =>
    cases hst
    unfold RateLimiter.release
    split
    · exact ⟨h.global, h.ip, h.identity⟩
    · exact h
  | checkBandwidth bytes c today =>
    cases hst
    unfold RateLimiter.checkBandwidth
    dsimp only
    split
    · exact ⟨h.global, h.ip, h.identity⟩
    · split <;> exact ⟨h.global, h.ip, h.identity⟩
  | recordBytes bytes identity sourceIp =>
    cases hst
    exact ⟨h.global, h.ip, h.identity⟩
  | reset now =>
    simp only [Timed.step] at hst
    split at hst
    · cases hst
      exact kept_reset h ‹_›
    · cases hst

theorem policy_step {I : IpModule} {s t : Timed} {call : Call}
    (hst : Timed.step I s call = some t) : t.limiter.policy = s.limiter.policy := by
  cases call with
  | acquire c sessionId now =>
    simp only [Timed.step] at hst
    split at hst
    · cases hst
      have hglobal : (s.limiter.checkGlobal now).2.policy = s.limiter.policy := by
        unfold RateLimiter.checkGlobal
        split <;> rfl
      unfold RateLimiter.acquire
      refine Outcome.andThen_keeps (P := fun u : RateLimiter => u.policy = s.limiter.policy)
        hglobal ?_
      intro u hu
      refine Outcome.andThen_keeps (P := fun u : RateLimiter => u.policy = s.limiter.policy) hu ?_
      intro u hu
      refine Outcome.andThen_keeps (P := fun u : RateLimiter => u.policy = s.limiter.policy) hu ?_
      intro u hu
      refine Outcome.andThen_keeps (P := fun u : RateLimiter => u.policy = s.limiter.policy)
        ((checkConnections_beside u _ c).policy.trans hu) ?_
      intro u hu
      unfold RateLimiter.track
      split <;> exact hu
    · cases hst
  | release sessionId identity sourceIp =>
    cases hst
    unfold RateLimiter.release
    split <;> rfl
  | checkBandwidth bytes c today =>
    cases hst
    unfold RateLimiter.checkBandwidth
    dsimp only
    split
    · rfl
    · split <;> rfl
  | recordBytes bytes identity sourceIp =>
    cases hst
    rfl
  | reset now =>
    simp only [Timed.step] at hst
    split at hst
    · cases hst
      rfl
    · cases hst

/-- In every reachable state no bucket is ahead of the clock, and none has rate 0. -/
theorem kept_reachable {I : IpModule} {p : Policy} (s : Timed)
    (h : (system I p).Reachable s) : Kept s.limiter s.clock := by
  have hI : (system I p).Inductive fun s => Kept s.limiter s.clock := by
    refine ⟨?_, fun s call t h hst => kept_step h hst⟩
    intro s hs
    rw [hs]
    exact kept_new I p s.clock
  exact hI.reachable s h

end Wormhole.L4.Enterprise
