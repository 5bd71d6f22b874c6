import Wormhole.Core.Ranked
import Wormhole.L4App.Policy

/-!
# What a caller may do

`src/wh/enterprise/policy.py`: `is_action_allowed`, over the same sorted rules as the limits.
The loops of `get_rate_limits` and `get_quotas` end at the first rule that matches. This one
ends at the first that matches and names the action, so a rule that matches and says
nothing about the action leaves the decision to the rules below it.
-/
namespace Wormhole.L4.Enterprise

open Wormhole.Ranked (byRank best find?_byRank best_map)

/-- A rule with its lists of actions.
mirrors src/wh/enterprise/policy.py:140-148 -/
structure AccessRule extends PolicyRule where
  allow : List String
  deny : List String

structure AccessPolicy where
  rateLimits : RateLimitConfig
  quotas : QuotaConfig
  rules : List AccessRule

def AccessPolicy.sortedRules (p : AccessPolicy) : List AccessRule :=
  byRank (fun r => r.priority) p.rules

/-- `action in actions or "*" in actions` -/
def lists (actions : List String) (action : String) : Bool :=
  actions.contains action || actions.contains "*"

/-- The loop over the rules.
mirrors src/wh/enterprise/policy.py:337-347 -/
def allowedBy (I : IpModule) (action : String) (c : Caller) : List AccessRule → Bool
  | [] => true
  | r :: rest =>
    if r.matches I c then
      if lists r.deny action then false
      else if lists r.allow action then true
      else allowedBy I action c rest
    else allowedBy I action c rest

/-- mirrors src/wh/enterprise/policy.py:318-347 -/
def AccessPolicy.isActionAllowed (I : IpModule) (p : AccessPolicy) (action : String)
    (c : Caller) : Bool :=
  allowedBy I action c p.sortedRules

/-! ## The rule that decides the limits -/

/-- The rule at which the loops for the limits and quotas end. -/
def AccessPolicy.firstMatch (I : IpModule) (p : AccessPolicy) (c : Caller) :
    Option AccessRule :=
  p.sortedRules.find? fun r => r.matches I c

theorem matches_of_firstMatch {I : IpModule} {p : AccessPolicy} {c : Caller} {r : AccessRule}
    (h : p.firstMatch I c = some r) : r.matches I c = true := by
  unfold AccessPolicy.firstMatch at h
  have hfound := List.find?_some h
  exact hfound

/-- The same policy without the lists of actions: what the limits are read from. -/
def AccessPolicy.limits (p : AccessPolicy) : Policy :=
  .new ⟨p.rateLimits, p.quotas, p.rules.map AccessRule.toPolicyRule⟩

/-- The limits and quotas are those of `firstMatch`. -/
theorem limits_firstMatch (I : IpModule) (p : AccessPolicy) (c : Caller) :
    p.limits.firstMatch I c = (p.firstMatch I c).map AccessRule.toPolicyRule := by
  unfold Policy.firstMatch AccessPolicy.firstMatch AccessPolicy.sortedRules
  rw [find?_byRank]
  exact (find?_byRank _).trans (best_map AccessRule.toPolicyRule p.rules)

/-! ## Which rules say something -/

/-- The rule allows the action or denies it, by its name or by a star. -/
def AccessRule.Names (r : AccessRule) (action : String) : Prop :=
  lists r.deny action = true ∨ lists r.allow action = true

theorem allowedBy_of_none (I : IpModule) (action : String) (c : Caller) :
    ∀ {rules : List AccessRule}, rules.find? (fun r => r.matches I c) = none →
      allowedBy I action c rules = true
  | [], _ => rfl
  | r :: rest, h => by
    rw [List.find?_cons] at h
    by_cases hm : r.matches I c = true
    · simp [hm] at h
    · have hrest : rest.find? (fun r => r.matches I c) = none := by simpa [hm] using h
      simpa [allowedBy, hm] using allowedBy_of_none I action c hrest

/-- A first match that names the action decides. -/
theorem allowedBy_of_names (I : IpModule) (action : String) (c : Caller) {r : AccessRule}
    (hn : r.Names action) :
    ∀ {rules : List AccessRule}, rules.find? (fun r => r.matches I c) = some r →
      allowedBy I action c rules = !lists r.deny action
  | [], h => by simp at h
  | q :: rest, h => by
    rw [List.find?_cons] at h
    by_cases hm : q.matches I c = true
    · simp only [hm, Option.some.injEq] at h
      subst h
      rcases hn with hdeny | hallow
      · simp [allowedBy, hm, hdeny]
      · by_cases hdeny : lists q.deny action = true <;> simp [allowedBy, hm, hdeny, hallow]
    · have hrest : rest.find? (fun r => r.matches I c) = some r := by simpa [hm] using h
      simpa [allowedBy, hm] using allowedBy_of_names I action c hn hrest

/-! ## A rule that says nothing -/

/-- The rule `r` alone. -/
def AccessPolicy.alone (r : AccessRule) : AccessPolicy :=
  ⟨RateLimitConfig.default, QuotaConfig.default, [r]⟩

/-- The rule `r` over one with the same conditions that denies everything. -/
def AccessPolicy.overDenial (r : AccessRule) : AccessPolicy :=
  ⟨RateLimitConfig.default, QuotaConfig.default,
    [r, { r with allow := [], deny := ["*"], priority := r.priority - 1 }]⟩

theorem sortedRules_overDenial (r : AccessRule) :
    (AccessPolicy.overDenial r).sortedRules = (AccessPolicy.overDenial r).rules := by
  have hbelow : r.priority - 1 ≤ r.priority := by omega
  simp [AccessPolicy.sortedRules, AccessPolicy.overDenial, byRank, hbelow]

theorem firstMatch_alone {I : IpModule} {r : AccessRule} {c : Caller}
    (hm : r.matches I c = true) : (AccessPolicy.alone r).firstMatch I c = some r := by
  simp [AccessPolicy.firstMatch, AccessPolicy.sortedRules, AccessPolicy.alone, byRank, hm]

theorem firstMatch_overDenial {I : IpModule} {r : AccessRule} {c : Caller}
    (hm : r.matches I c = true) : (AccessPolicy.overDenial r).firstMatch I c = some r := by
  unfold AccessPolicy.firstMatch
  rw [sortedRules_overDenial]
  simp [AccessPolicy.overDenial, hm]

theorem alone_allows {I : IpModule} {r : AccessRule} {c : Caller} {action : String}
    (hn : ¬r.Names action) : (AccessPolicy.alone r).isActionAllowed I action c = true := by
  simp only [AccessRule.Names, not_or, Bool.not_eq_true] at hn
  simp [AccessPolicy.isActionAllowed, AccessPolicy.sortedRules, AccessPolicy.alone, byRank,
    allowedBy, hn]

theorem overDenial_denies {I : IpModule} {r : AccessRule} {c : Caller} {action : String}
    (hm : r.matches I c = true) (hn : ¬r.Names action) :
    (AccessPolicy.overDenial r).isActionAllowed I action c = false := by
  have hbelow : PolicyRule.matches I { r.toPolicyRule with priority := r.priority - 1 } c =
      true := hm
  have hstar : lists ["*"] action = true := by simp [lists]
  simp only [AccessRule.Names, not_or, Bool.not_eq_true] at hn
  unfold AccessPolicy.isActionAllowed
  rw [sortedRules_overDenial]
  simp [AccessPolicy.overDenial, allowedBy, hm, hn, hbelow, hstar]

/-- **Permissions follow the first match**: every policy with the same first match for a
caller decides alike, exactly when that rule, if there is one, names the action. -/
theorem decision_follows_first_match_iff (I : IpModule) (p : AccessPolicy) (c : Caller)
    (action : String) :
    (∀ q : AccessPolicy, q.firstMatch I c = p.firstMatch I c →
      q.isActionAllowed I action c = p.isActionAllowed I action c) ↔
      ∀ r, p.firstMatch I c = some r → r.Names action := by
  constructor
  · intro h r hr
    by_contra hn
    have hm : r.matches I c = true := matches_of_firstMatch hr
    have halone := h (AccessPolicy.alone r) ((firstMatch_alone hm).trans hr.symm)
    have hdenial := h (AccessPolicy.overDenial r) ((firstMatch_overDenial hm).trans hr.symm)
    rw [alone_allows hn] at halone
    rw [overDenial_denies hm hn, ← halone] at hdenial
    cases hdenial
  · intro h q hq
    cases hr : p.firstMatch I c with
    | none =>
      rw [hr] at hq
      exact (allowedBy_of_none I action c hq).trans (allowedBy_of_none I action c hr).symm
    | some r =>
      rw [hr] at hq
      have hn := h r hr
      exact (allowedBy_of_names I action c hn hq).trans
        (allowedBy_of_names I action c hn hr).symm

/-- The office rule gives its callers limits and says nothing about actions. -/
def officeRule : AccessRule where
  conditions := Dict.empty.set "namespace" "office"
  rateLimits := some RateLimitConfig.default
  quotas := none
  priority := 10
  allow := []
  deny := []

/-- Nobody may use ssh. -/
def denialRule : AccessRule where
  conditions := Dict.empty
  rateLimits := none
  quotas := none
  priority := 0
  allow := []
  deny := ["ssh"]

def officeCaller : Caller := ⟨some "alice", none, some "office"⟩

def officePolicy : AccessPolicy := ⟨RateLimitConfig.default, QuotaConfig.default, [officeRule]⟩

def deniedPolicy : AccessPolicy :=
  ⟨RateLimitConfig.default, QuotaConfig.default, [officeRule, denialRule]⟩

/-- A rule of lower priority changes the decision. -/
theorem lower_rule_denies :
    officePolicy.firstMatch noAddresses officeCaller =
      deniedPolicy.firstMatch noAddresses officeCaller ∧
    officePolicy.isActionAllowed noAddresses "ssh" officeCaller = true ∧
    deniedPolicy.isActionAllowed noAddresses "ssh" officeCaller = false := by
  have hm : officeRule.matches noAddresses officeCaller = true := by decide
  have hsorted : deniedPolicy.sortedRules = [officeRule, denialRule] := rfl
  refine ⟨?_, by decide, by decide⟩
  unfold AccessPolicy.firstMatch
  rw [hsorted]
  exact (firstMatch_alone hm).trans (by simp [hm])

end Wormhole.L4.Enterprise
