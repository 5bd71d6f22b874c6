import Wormhole.Core.Glob
import Wormhole.L4App.Policy

/-!
# What the conditions of a rule mean

`src/wh/enterprise/policy.py`: `PolicyRule.matches`, against a meaning of its conditions. A
pattern for an identity or a namespace is `*`, `prefix*`, `*suffix` or a plain text: a star
anywhere else stands for itself. A pattern for an address is `*`, a block, or an address,
which the code compares as text with the normal form of the caller's.

* `matches_iff_means`: a rule whose addresses stand in normal form matches a caller exactly
  when each of its conditions holds.
* `matchPattern_oneStar`: on patterns with one star at an end, a star stands for any text.
-/
namespace Wormhole.L4.Enterprise

open Glob (allStars edgeStars language OneStar)

/-! ## The meaning -/

/-- Reading the text of an address gives the address back. -/
def IpModule.RoundTrips (I : IpModule) : Prop := ∀ a, I.ipAddress (I.str a) = some a

/-- The value is one of the texts of the pattern, where the star in front, or else the one at
the end, stands for any text. No value is met by `*` alone. -/
def PatternMeans (value : Option String) (pattern : String) : Prop :=
  match value with
  | none => pattern = "*"
  | some v => v.toList ∈ language (edgeStars '*' pattern.toList)

/-- The address lies in the block, or is the address, that the pattern names. -/
def IpMeans (I : IpModule) (ip : Option String) (pattern : String) : Prop :=
  match ip with
  | none => pattern = "*"
  | some text =>
    pattern = "*" ∨ ∃ addr, I.ipAddress text = some addr ∧
      if '/' ∈ pattern.toList then
        ∃ block, I.ipNetwork pattern = some block ∧ I.within addr block = true
      else I.ipAddress pattern = some addr

/-- Every condition of the rule holds of the caller. -/
def PolicyRule.Means (I : IpModule) (r : PolicyRule) (c : Caller) : Prop :=
  (∀ p, r.conditions.get? "identity" = some p → PatternMeans c.identity p) ∧
  (∀ p, r.conditions.get? "source_ip" = some p → IpMeans I c.sourceIp p) ∧
  (∀ p, r.conditions.get? "namespace" = some p → PatternMeans c.namespaceName p)

/-- An address among the conditions is written the way `str` writes it. -/
def PolicyRule.Normal (I : IpModule) (r : PolicyRule) : Prop :=
  ∀ p, r.conditions.get? "source_ip" = some p → '/' ∉ p.toList →
    ∀ a, I.ipAddress p = some a → I.str a = p

/-! ## The patterns -/

theorem matchPattern_iff (value : Option String) (pattern : String) :
    matchPattern value pattern = true ↔ PatternMeans value pattern := by
  unfold matchPattern PatternMeans
  cases value with
  | none => simp
  | some v =>
    dsimp only
    rw [Glob.mem_edgeStars]
    by_cases hstar : pattern = "*"
    · simp [hstar]
    · by_cases hfront : pattern.toList.head? = some '*'
      · simp [hstar, hfront]
      · by_cases hback : pattern.toList.getLast? = some '*'
        · simp [hstar, hfront, hback]
        · simp [hstar, hfront, hback, String.ext_iff]

/-- The three forms with a star, and plain texts: here every star is one. -/
theorem matchPattern_oneStar {pattern : String} (h : OneStar '*' pattern.toList) (v : String) :
    matchPattern (some v) pattern = true ↔ v.toList ∈ language (allStars '*' pattern.toList) := by
  rw [matchPattern_iff, PatternMeans, Glob.edgeStars_eq_allStars '*' h]

theorem matchIp_iff {I : IpModule} (hI : I.RoundTrips) (ip : Option String) {pattern : String}
    (hn : '/' ∉ pattern.toList → ∀ a, I.ipAddress pattern = some a → I.str a = pattern) :
    matchIp I ip pattern = true ↔ IpMeans I ip pattern := by
  unfold matchIp IpMeans
  cases ip with
  | none => simp
  | some text =>
    dsimp only
    by_cases hstar : pattern = "*"
    · simp [hstar]
    · cases haddr : I.ipAddress text with
      | none => simp [hstar]
      | some addr =>
        by_cases hslash : '/' ∈ pattern.toList
        · cases hblock : I.ipNetwork pattern <;> simp [hstar, hslash]
        · have hsame : I.str addr = pattern ↔ I.ipAddress pattern = some addr :=
            ⟨fun h => h ▸ hI addr, hn hslash addr⟩
          simp [hstar, hslash, hsame]

/-! ## The rule -/

theorem matches_iff_meets (I : IpModule) (r : PolicyRule) (c : Caller) :
    r.matches I c = true ↔ ∀ k p, r.conditions.get? k = some p → meets I c k p = true := by
  unfold PolicyRule.matches
  rw [List.all_eq_true]
  constructor
  · intro h k p hp
    exact h (k, p) (Dict.mem_entries.mpr hp)
  · intro h e he
    exact h e.1 e.2 (Dict.mem_entries.mp he)

/-- **What a rule matches**: the callers of whom each of its conditions holds. -/
theorem matches_iff_means {I : IpModule} (hI : I.RoundTrips) {r : PolicyRule}
    (hr : r.Normal I) (c : Caller) : r.matches I c = true ↔ r.Means I c := by
  rw [matches_iff_meets]
  constructor
  · intro h
    refine ⟨fun p hp => ?_, fun p hp => ?_, fun p hp => ?_⟩
    · exact (matchPattern_iff _ p).mp (h "identity" p hp)
    · exact (matchIp_iff hI _ (hr p hp)).mp (h "source_ip" p hp)
    · exact (matchPattern_iff _ p).mp (h "namespace" p hp)
  · intro ⟨hidentity, hip, hnamespace⟩ k p hp
    unfold meets
    split
    · rename_i hk
      subst hk
      exact (matchPattern_iff _ p).mpr (hidentity p hp)
    · split
      · rename_i hk
        subst hk
        exact (matchIp_iff hI _ (hr p hp)).mpr (hip p hp)
      · split
        · rename_i hk
          subst hk
          exact (matchPattern_iff _ p).mpr (hnamespace p hp)
        · rfl

/-! ## A rule for an office network -/

def hostText (a : Fin 4) : String := "10.0.0." ++ toString a.val

def hostOf (text : String) : Option (Fin 4) :=
  (List.finRange 4).find? fun a => hostText a = text

theorem hostOf_hostText : ∀ a, hostOf (hostText a) = some a := by decide +kernel

/-- The hosts of `10.0.0.0/30`, in the usual spelling. -/
def officeHosts : IpModule where
  Address := Fin 4
  Network := Unit
  ipAddress := hostOf
  str := hostText
  ipNetwork text := if text = "10.0.0.0/30" then some () else none
  within _ _ := true

theorem officeHosts_roundTrips : officeHosts.RoundTrips := hostOf_hostText

/-- The administrators, from one address. -/
def adminRule : PolicyRule where
  conditions := (Dict.empty.set "identity" "admin@*").set "source_ip" "10.0.0.1"
  rateLimits := none
  quotas := none
  priority := 0

def administrator : Caller := ⟨some "admin@example.com", some "10.0.0.1", none⟩

theorem matches_iff_means_admin :
    adminRule.Normal officeHosts ∧ adminRule.Means officeHosts administrator := by
  have hnormal : adminRule.Normal officeHosts := by
    intro p hp _ a ha
    have hp' : p = "10.0.0.1" := by
      have hget : adminRule.conditions.get? "source_ip" = some "10.0.0.1" := by decide
      exact Option.some.inj (hp.symm.trans hget)
    subst hp'
    have haddr : hostOf "10.0.0.1" = some 1 := by decide +kernel
    have hone : a = (1 : Fin 4) := Option.some.inj (ha.symm.trans haddr)
    have htext : hostText 1 = "10.0.0.1" := by decide +kernel
    rw [hone]
    exact htext
  exact ⟨hnormal,
    (matches_iff_means officeHosts_roundTrips hnormal administrator).mp (by decide +kernel)⟩

/-- A star between two texts. -/
def middleRule : PolicyRule where
  conditions := Dict.empty.set "identity" "ci-*-bot"
  rateLimits := none
  quotas := none
  priority := 0

/-- Read as a star, it stands for the text between; the rule does not match. -/
theorem middle_star_literal :
    "ci-build-bot".toList ∈ language (allStars '*' "ci-*-bot".toList) ∧
    middleRule.matches noAddresses ⟨some "ci-build-bot", none, none⟩ = false ∧
    middleRule.matches noAddresses ⟨some "ci-*-bot", none, none⟩ = true := by
  refine ⟨?_, by decide +kernel, by decide +kernel⟩
  have hpieces : allStars '*' "ci-*-bot".toList =
      "ci-".toList.map .lit ++ .any :: "-bot".toList.map .lit := by decide +kernel
  rw [hpieces, Glob.mem_lits_append]
  refine ⟨"build-bot".toList, Glob.mem_any.mpr ⟨"-bot".toList, (Glob.mem_lits _).mpr rfl, ?_⟩, ?_⟩
  · exact ⟨"build".toList, by decide +kernel⟩
  · decide +kernel

end Wormhole.L4.Enterprise
