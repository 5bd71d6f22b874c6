import Wormhole.Core.Ranked
import Wormhole.L4App.Policy

/-!
# The limits that apply

`src/wh/enterprise/policy.py`, from the file to the effective limits: `from_dict` reads a
rule's section, `get_rate_limits` and `get_quotas` lay the section of the deciding rule over
the top-level values. What they are meant to give is said by `effectiveLimits` and
`effectiveQuotas`: a value the rule sets, whatever it is, before the top-level one.

`merge` tells a value that is set from one that is not by the value itself: 0, and 2 for
`burst_multiplier`, count as not set (`merge_eq_overlaid_iff`).

The sizes of `QuotaConfig.from_dict` are left out: quotas come as they were read. A
`burst_multiplier` is a number, never null.
-/
namespace Wormhole.L4.Enterprise

open Wormhole.Ranked (byRank best find?_byRank best_map)

/-! ## The file -/

/-- A `rate_limits` section. A key the section does not have, or has as null, is `none`. -/
structure RateLimitData where
  connectionsPerMinute : Option Int
  connectionsPerHour : Option Int
  requestsPerSecond : Option ℚ
  requestsPerMinute : Option Int
  bandwidthMbps : Option ℚ
  burstMultiplier : Option ℚ

/-- mirrors src/wh/enterprise/policy.py:70-80 -/
def RateLimitConfig.fromDict (data : RateLimitData) : RateLimitConfig where
  connectionsPerMinute := data.connectionsPerMinute
  connectionsPerHour := data.connectionsPerHour
  requestsPerSecond := data.requestsPerSecond
  requestsPerMinute := data.requestsPerMinute
  bandwidthMbps := data.bandwidthMbps
  burstMultiplier := data.burstMultiplier.getD 2

/-- An entry of `rules`. -/
structure RuleData where
  conditions : Dict String String
  rateLimits : Option RateLimitData
  quotas : Option QuotaConfig
  priority : Option Int

/-- mirrors src/wh/enterprise/policy.py:200-218 -/
def PolicyRule.fromDict (data : RuleData) : PolicyRule where
  conditions := data.conditions
  rateLimits := data.rateLimits.map RateLimitConfig.fromDict
  quotas := data.quotas
  priority := data.priority.getD 0

structure PolicyData where
  rateLimits : Option RateLimitData
  quotas : Option QuotaConfig
  rules : List RuleData

/-- mirrors src/wh/enterprise/policy.py:229-248 -/
def PolicyConfig.fromDict (data : PolicyData) : PolicyConfig where
  rateLimits := (data.rateLimits.map RateLimitConfig.fromDict).getD RateLimitConfig.default
  quotas := data.quotas.getD QuotaConfig.default
  rules := data.rules.map PolicyRule.fromDict

/-- mirrors src/wh/enterprise/policy.py:374-380 -/
def PolicyData.policy (data : PolicyData) : Policy := .new (PolicyConfig.fromDict data)

/-! ## What the file says -/

/-- The matching rule of highest priority, the earliest in the file among equals. -/
def PolicyData.deciding (I : IpModule) (data : PolicyData) (c : Caller) : Option RuleData :=
  best (fun r => (PolicyRule.fromDict r).priority)
    (fun r => (PolicyRule.fromDict r).matches I c) data.rules

/-- The values that `data` sets, before those of `top`. -/
def RateLimitConfig.overlaid (top : RateLimitConfig) (data : RateLimitData) :
    RateLimitConfig where
  connectionsPerMinute := data.connectionsPerMinute.or top.connectionsPerMinute
  connectionsPerHour := data.connectionsPerHour.or top.connectionsPerHour
  requestsPerSecond := data.requestsPerSecond.or top.requestsPerSecond
  requestsPerMinute := data.requestsPerMinute.or top.requestsPerMinute
  bandwidthMbps := data.bandwidthMbps.or top.bandwidthMbps
  burstMultiplier := data.burstMultiplier.getD top.burstMultiplier

def QuotaConfig.overlaid (top data : QuotaConfig) : QuotaConfig where
  maxConcurrentConnections := data.maxConcurrentConnections.or top.maxConcurrentConnections
  maxConnectionsPerDay := data.maxConnectionsPerDay.or top.maxConnectionsPerDay
  maxTransferBytesPerDay := data.maxTransferBytesPerDay.or top.maxTransferBytesPerDay
  maxTransferBytesPerMonth := data.maxTransferBytesPerMonth.or top.maxTransferBytesPerMonth
  maxSessionsPerIdentity := data.maxSessionsPerIdentity.or top.maxSessionsPerIdentity
  maxFileSizeBytes := data.maxFileSizeBytes.or top.maxFileSizeBytes

def PolicyData.effectiveLimits (I : IpModule) (data : PolicyData) (c : Caller) :
    RateLimitConfig :=
  match (data.deciding I c).bind RuleData.rateLimits with
  | some limits => (PolicyConfig.fromDict data).rateLimits.overlaid limits
  | none => (PolicyConfig.fromDict data).rateLimits

def PolicyData.effectiveQuotas (I : IpModule) (data : PolicyData) (c : Caller) : QuotaConfig :=
  match (data.deciding I c).bind RuleData.quotas with
  | some quotas => (PolicyConfig.fromDict data).quotas.overlaid quotas
  | none => (PolicyConfig.fromDict data).quotas

/-! ## What the merge loses -/

/-- `v`, which reads as not set, is set over another value. -/
def Lost {α : Type} (v : α) (set top : Option α) : Prop := set = some v ∧ top ≠ some v

instance {α : Type} [DecidableEq α] (v : α) (set top : Option α) : Decidable (Lost v set top) :=
  inferInstanceAs (Decidable (_ ∧ _))

/-- No value that the section sets is lost over `top`. -/
def RateLimitData.Kept (top : RateLimitConfig) (data : RateLimitData) : Prop :=
  ¬Lost 0 data.connectionsPerMinute top.connectionsPerMinute ∧
  ¬Lost 0 data.connectionsPerHour top.connectionsPerHour ∧
  ¬Lost 0 data.requestsPerSecond top.requestsPerSecond ∧
  ¬Lost 0 data.requestsPerMinute top.requestsPerMinute ∧
  ¬Lost 0 data.bandwidthMbps top.bandwidthMbps ∧
  ¬Lost 2 data.burstMultiplier (some top.burstMultiplier)

def QuotaConfig.Kept (top data : QuotaConfig) : Prop :=
  ¬Lost 0 data.maxConcurrentConnections top.maxConcurrentConnections ∧
  ¬Lost 0 data.maxConnectionsPerDay top.maxConnectionsPerDay ∧
  ¬Lost 0 data.maxTransferBytesPerDay top.maxTransferBytesPerDay ∧
  ¬Lost 0 data.maxTransferBytesPerMonth top.maxTransferBytesPerMonth ∧
  ¬Lost 0 data.maxSessionsPerIdentity top.maxSessionsPerIdentity ∧
  ¬Lost 0 data.maxFileSizeBytes top.maxFileSizeBytes

/-- Nor by one of the two sections of a rule. -/
def RuleData.Kept (config : PolicyConfig) (r : RuleData) : Prop :=
  (∀ limits, r.rateLimits = some limits → limits.Kept config.rateLimits) ∧
  (∀ quotas, r.quotas = some quotas → config.quotas.Kept quotas)

theorem orElse_eq_or_iff {α : Type} [Zero α] [DecidableEq α] (set top : Option α) :
    orElse set top = set.or top ↔ ¬Lost 0 set top := by
  unfold Lost
  cases set with
  | none => simp [orElse]
  | some x =>
    by_cases hx : x = 0
    · simp [orElse, hx]
    · simp [orElse, hx]

theorem merge_burst_iff (top : RateLimitConfig) (data : RateLimitData) :
    (top.merge (.fromDict data)).burstMultiplier = (top.overlaid data).burstMultiplier ↔
      ¬Lost 2 data.burstMultiplier (some top.burstMultiplier) := by
  unfold Lost RateLimitConfig.merge RateLimitConfig.overlaid RateLimitConfig.fromDict
  cases data.burstMultiplier with
  | none => simp
  | some x =>
    by_cases hx : x = 2
    · simp [hx]
    · simp [hx]

theorem merge_eq_overlaid_iff (top : RateLimitConfig) (data : RateLimitData) :
    top.merge (.fromDict data) = top.overlaid data ↔ data.Kept top := by
  have hburst := merge_burst_iff top data
  simp only [RateLimitConfig.merge, RateLimitConfig.overlaid, RateLimitConfig.fromDict]
    at hburst
  simp only [RateLimitConfig.merge, RateLimitConfig.overlaid, RateLimitConfig.fromDict,
    RateLimitConfig.mk.injEq, orElse_eq_or_iff, hburst, RateLimitData.Kept]

theorem quotas_merge_eq_overlaid_iff (top data : QuotaConfig) :
    top.merge data = top.overlaid data ↔ top.Kept data := by
  simp only [QuotaConfig.merge, QuotaConfig.overlaid, QuotaConfig.mk.injEq, orElse_eq_or_iff,
    QuotaConfig.Kept]

/-! ## The deciding rule -/

theorem sortRules_eq (rules : List PolicyRule) :
    sortRules rules = byRank PolicyRule.priority rules := rfl

theorem firstMatch_policy (I : IpModule) (data : PolicyData) (c : Caller) :
    data.policy.firstMatch I c = (data.deciding I c).map PolicyRule.fromDict := by
  unfold Policy.firstMatch PolicyData.deciding
  rw [data.policy.sorted, sortRules_eq, find?_byRank]
  exact best_map PolicyRule.fromDict data.rules

theorem firstMatch_rateLimits (I : IpModule) (data : PolicyData) (c : Caller) :
    (data.policy.firstMatch I c).bind PolicyRule.rateLimits =
      ((data.deciding I c).bind RuleData.rateLimits).map RateLimitConfig.fromDict := by
  rw [firstMatch_policy, Option.bind_map, Option.map_bind]
  rfl

theorem firstMatch_quotas (I : IpModule) (data : PolicyData) (c : Caller) :
    (data.policy.firstMatch I c).bind PolicyRule.quotas =
      (data.deciding I c).bind RuleData.quotas := by
  rw [firstMatch_policy, Option.bind_map]
  rfl

theorem getRateLimits_iff (I : IpModule) (data : PolicyData) (c : Caller) :
    data.policy.getRateLimits I c = data.effectiveLimits I c ↔
      ∀ limits, (data.deciding I c).bind RuleData.rateLimits = some limits →
        limits.Kept (PolicyConfig.fromDict data).rateLimits := by
  unfold Policy.getRateLimits PolicyData.effectiveLimits
  rw [firstMatch_rateLimits]
  cases (data.deciding I c).bind RuleData.rateLimits with
  | none => simp [PolicyData.policy, Policy.new]
  | some limits =>
    have hmerge := merge_eq_overlaid_iff (PolicyConfig.fromDict data).rateLimits limits
    simpa [PolicyData.policy, Policy.new] using hmerge

theorem getQuotas_iff (I : IpModule) (data : PolicyData) (c : Caller) :
    data.policy.getQuotas I c = data.effectiveQuotas I c ↔
      ∀ quotas, (data.deciding I c).bind RuleData.quotas = some quotas →
        (PolicyConfig.fromDict data).quotas.Kept quotas := by
  unfold Policy.getQuotas PolicyData.effectiveQuotas
  rw [firstMatch_quotas]
  cases (data.deciding I c).bind RuleData.quotas with
  | none => simp [PolicyData.policy, Policy.new]
  | some quotas =>
    have hmerge := quotas_merge_eq_overlaid_iff (PolicyConfig.fromDict data).quotas quotas
    simpa [PolicyData.policy, Policy.new] using hmerge

/-- **Effective limits**: every limit and quota is what the deciding rule sets, or else the
top-level value, exactly when the deciding rule sets nothing to a value that reads as not
set: no limit and no quota to 0, unless the top-level value is 0 too, and no burst to 2,
unless the top-level burst is. -/
theorem limits_effective_iff (I : IpModule) (data : PolicyData) (c : Caller) :
    (data.policy.getRateLimits I c = data.effectiveLimits I c ∧
      data.policy.getQuotas I c = data.effectiveQuotas I c) ↔
      ∀ r, data.deciding I c = some r → r.Kept (PolicyConfig.fromDict data) := by
  rw [getRateLimits_iff, getQuotas_iff]
  cases data.deciding I c with
  | none => simp
  | some r => simp [RuleData.Kept]

/-- Everybody has 100 requests a second, and a burst of 3 times that; the guest's rule
sets 0 requests and a burst of 2. -/
def guestPolicy : PolicyData where
  rateLimits := some ⟨none, none, some 100, none, none, some 3⟩
  quotas := none
  rules := [⟨Dict.empty.set "identity" "guest",
    some ⟨none, none, some 0, none, none, some 2⟩, none, none⟩]

def guest : Caller := ⟨some "guest", none, none⟩

/-- The guest's rule decides, and the guest has the limits of everybody. -/
theorem guest_unlimited :
    (guestPolicy.effectiveLimits noAddresses guest).requestsPerSecond = some 0 ∧
    (guestPolicy.policy.getRateLimits noAddresses guest).requestsPerSecond = some 100 ∧
    (guestPolicy.effectiveLimits noAddresses guest).burstMultiplier = 2 ∧
    (guestPolicy.policy.getRateLimits noAddresses guest).burstMultiplier = 3 := by
  decide +kernel

end Wormhole.L4.Enterprise
