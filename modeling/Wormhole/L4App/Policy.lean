import Mathlib.Algebra.Ring.Rat
import Mathlib.Data.List.Sort
import Mathlib.Data.Rat.Defs
import Wormhole.Core.Dict

/-!
# Policies

`src/wh/enterprise/policy.py`: the limits and quotas that apply to a caller. The
rules are tried by falling priority, the first that matches is merged over the
defaults, and a value that is `None` or 0 counts as not set.

Python's `ipaddress` is the parameter `IpModule`; loading a policy from YAML and the
`allow`/`deny` lists are not modelled.
-/
namespace Wormhole.L4.Enterprise

/-! ## Configurations -/

/-- `a or b` on optional numbers: 0 is as good as `None`. -/
def orElse {α : Type} [Zero α] [DecidableEq α] (a b : Option α) : Option α :=
  match a with
  | none => b
  | some x => if x = 0 then b else some x

/-- `if x`: the number, unless it is `None` or 0. -/
def truthy {α : Type} [Zero α] [DecidableEq α] (a : Option α) : Option α :=
  a.filter (· ≠ 0)

/-- mirrors src/wh/enterprise/policy.py:49-57 -/
structure RateLimitConfig where
  connectionsPerMinute : Option Int
  connectionsPerHour : Option Int
  requestsPerSecond : Option ℚ
  requestsPerMinute : Option Int
  bandwidthMbps : Option ℚ
  burstMultiplier : ℚ
deriving DecidableEq

def RateLimitConfig.default : RateLimitConfig := ⟨none, none, none, none, none, 2⟩

/-- mirrors src/wh/enterprise/policy.py:59-68 -/
def RateLimitConfig.merge (self other : RateLimitConfig) : RateLimitConfig where
  connectionsPerMinute := orElse other.connectionsPerMinute self.connectionsPerMinute
  connectionsPerHour := orElse other.connectionsPerHour self.connectionsPerHour
  requestsPerSecond := orElse other.requestsPerSecond self.requestsPerSecond
  requestsPerMinute := orElse other.requestsPerMinute self.requestsPerMinute
  bandwidthMbps := orElse other.bandwidthMbps self.bandwidthMbps
  burstMultiplier := if other.burstMultiplier ≠ 2 then other.burstMultiplier
    else self.burstMultiplier

/-- mirrors src/wh/enterprise/policy.py:83-91 -/
structure QuotaConfig where
  maxConcurrentConnections : Option Int
  maxConnectionsPerDay : Option Int
  maxTransferBytesPerDay : Option Int
  maxTransferBytesPerMonth : Option Int
  maxSessionsPerIdentity : Option Int
  maxFileSizeBytes : Option Int
deriving DecidableEq

def QuotaConfig.default : QuotaConfig := ⟨none, none, none, none, none, none⟩

/-- mirrors src/wh/enterprise/policy.py:93-102 -/
def QuotaConfig.merge (self other : QuotaConfig) : QuotaConfig where
  maxConcurrentConnections :=
    orElse other.maxConcurrentConnections self.maxConcurrentConnections
  maxConnectionsPerDay := orElse other.maxConnectionsPerDay self.maxConnectionsPerDay
  maxTransferBytesPerDay := orElse other.maxTransferBytesPerDay self.maxTransferBytesPerDay
  maxTransferBytesPerMonth :=
    orElse other.maxTransferBytesPerMonth self.maxTransferBytesPerMonth
  maxSessionsPerIdentity := orElse other.maxSessionsPerIdentity self.maxSessionsPerIdentity
  maxFileSizeBytes := orElse other.maxFileSizeBytes self.maxFileSizeBytes

/-! ## Rules -/

/-- Who asks: the keyword arguments `identity`, `source_ip` and `namespace`. -/
structure Caller where
  identity : Option String
  sourceIp : Option String
  namespaceName : Option String
deriving DecidableEq

/-- Python's `ipaddress`, where `none` is `ValueError`: `ip_address`, `str` of an address,
`ip_network(.., strict=False)` and `address in network`. -/
structure IpModule where
  Address : Type
  Network : Type
  ipAddress : String → Option Address
  str : Address → String
  ipNetwork : String → Option Network
  within : Address → Network → Bool

/-- mirrors src/wh/enterprise/policy.py:169-182 -/
def matchPattern (value : Option String) (pattern : String) : Bool :=
  match value with
  | none => pattern = "*"
  | some v =>
    if pattern = "*" then true
    else if pattern.toList.head? = some '*' then pattern.toList.tail.isSuffixOf v.toList
    else if pattern.toList.getLast? = some '*' then
      pattern.toList.dropLast.isPrefixOf v.toList
    else v = pattern

/-- mirrors src/wh/enterprise/policy.py:184-198 -/
def matchIp (I : IpModule) (ip : Option String) (pattern : String) : Bool :=
  match ip with
  | none => pattern = "*"
  | some text =>
    if pattern = "*" then true
    else
      match I.ipAddress text with
      | none => false
      | some addr =>
        if '/' ∈ pattern.toList then (I.ipNetwork pattern).any (I.within addr)
        else I.str addr = pattern

/-- `allow` and `deny` are left out.
mirrors src/wh/enterprise/policy.py:140-148 -/
structure PolicyRule where
  conditions : Dict String String
  rateLimits : Option RateLimitConfig
  quotas : Option QuotaConfig
  priority : Int

/-- One condition; a key the code does not know asks for nothing. -/
def meets (I : IpModule) (c : Caller) (key pattern : String) : Bool :=
  if key = "identity" then matchPattern c.identity pattern
  else if key = "source_ip" then matchIp I c.sourceIp pattern
  else if key = "namespace" then matchPattern c.namespaceName pattern
  else true

/-- mirrors src/wh/enterprise/policy.py:150-167 -/
def PolicyRule.matches (I : IpModule) (r : PolicyRule) (c : Caller) : Bool :=
  r.conditions.entries.all fun e => meets I c e.1 e.2

/-! ## The policy -/

/-- `defaults` is left out.
mirrors src/wh/enterprise/policy.py:219-225 -/
structure PolicyConfig where
  rateLimits : RateLimitConfig
  quotas : QuotaConfig
  rules : List PolicyRule

/-- `sorted(rules, key=priority, reverse=True)`, which keeps the order of equal ones. -/
def sortRules (rules : List PolicyRule) : List PolicyRule :=
  rules.insertionSort fun r q => q.priority ≤ r.priority

structure Policy where
  config : PolicyConfig
  sortedRules : List PolicyRule
  sorted : sortedRules = sortRules config.rules

/-- mirrors src/wh/enterprise/policy.py:259-262 -/
def Policy.new (config : PolicyConfig) : Policy := ⟨config, sortRules config.rules, rfl⟩

/-- The rule that decides: the loops of `get_rate_limits` and `get_quotas` stop at it. -/
def Policy.firstMatch (I : IpModule) (p : Policy) (c : Caller) : Option PolicyRule :=
  p.sortedRules.find? (·.matches I c)

/-- mirrors src/wh/enterprise/policy.py:264-289 -/
def Policy.getRateLimits (I : IpModule) (p : Policy) (c : Caller) : RateLimitConfig :=
  match (p.firstMatch I c).bind PolicyRule.rateLimits with
  | some limits => p.config.rateLimits.merge limits
  | none => p.config.rateLimits

/-- mirrors src/wh/enterprise/policy.py:291-316 -/
def Policy.getQuotas (I : IpModule) (p : Policy) (c : Caller) : QuotaConfig :=
  match (p.firstMatch I c).bind PolicyRule.quotas with
  | some quotas => p.config.quotas.merge quotas
  | none => p.config.quotas

/-- A policy without rules gives everybody the defaults. -/
def Policy.ofDefaults (limits : RateLimitConfig) (quotas : QuotaConfig) : Policy :=
  .new ⟨limits, quotas, []⟩

@[simp] theorem getRateLimits_ofDefaults (I : IpModule) (limits : RateLimitConfig)
    (quotas : QuotaConfig) (c : Caller) :
    (Policy.ofDefaults limits quotas).getRateLimits I c = limits := rfl

@[simp] theorem getQuotas_ofDefaults (I : IpModule) (limits : RateLimitConfig)
    (quotas : QuotaConfig) (c : Caller) :
    (Policy.ofDefaults limits quotas).getQuotas I c = quotas := rfl

/-- No text is an address. A policy without rules on `source_ip` never asks. -/
def noAddresses : IpModule := ⟨String, String, fun _ => none, id, fun _ => none, fun _ _ => false⟩

/-! ## Names -/

/-- `if name`: an empty name is no name. -/
def named (name : Option String) : Option String := name.filter (· ≠ "")

end Wormhole.L4.Enterprise
