import Mathlib.Data.List.Forall2
import Wormhole.L4App.Names
import Wormhole.L4App.ScopedAddresses

/-!
# One spelling for each name

`parse_global_name` and `NameClaim.create` of `src/wh/wns/names.py` check a name and then
fold its case. `UnicodeData` is what `str.lower`, `isalnum` and `isdigit` know of single
characters, and `lower` is CPython's, with the final sigma.

* `canonical_names_iff`: a name that is returned or stored is valid, its own lower case, and read
  back from `wh://name.wns` if and only if there was no `İ` in what was spelled. Its lower
  case is two characters, and the second is no letter.
-/
namespace Wormhole.L4.Wns
open Wormhole.L1

/-! ## Lower case -/

/-- The character properties that the names depend on. -/
structure CharData where
  alnum : Char → Bool
  digit : Char → Bool
  /-- The full mapping of one character. -/
  lowerChar : Char → Chars
  cased : Char → Bool
  caseIgnorable : Char → Bool

namespace CharData

variable (D : CharData)

/-- A sigma after a cased character and before none, `before` read backwards. -/
def finalSigma (before rest : Chars) : Bool :=
  ((before.dropWhile D.caseIgnorable).head?.any D.cased) &&
    !((rest.dropWhile D.caseIgnorable).head?.any D.cased)

def lowerAt (before : Chars) (c : Char) (rest : Chars) : Chars :=
  if c = 'Σ' then [if D.finalSigma before rest then 'ς' else 'σ'] else D.lowerChar c

def lowerFrom (before : Chars) : Chars → Chars
  | [] => []
  | c :: rest => D.lowerAt before c rest ++ lowerFrom (c :: before) rest

/-- `s.lower()`. -/
def lower (cs : Chars) : Chars := D.lowerFrom [] cs

def py : PyUnicode where
  alnum := D.alnum
  digit := D.digit
  lower := D.lower

/-- What becomes of a character: a letter or digit stays one, and lower case stays as it is. -/
structure Folds (c d : Char) : Prop where
  ascii : isAscii c = true → d = c.toLower
  alnum : D.py.isAlnum c = true → D.py.isAlnum d = true
  digit : D.py.isDigit d = true → D.py.isDigit c = true
  stable : D.lowerChar d = [d]
  notSigma : d ≠ 'Σ'

end CharData

/-- The character database, as far as its properties matter here. -/
structure UnicodeData extends CharData where
  dotted : lowerChar 'İ' = ['i', '\u0307']
  combining : alnum '\u0307' = false
  folds : ∀ c, c ≠ 'İ' → ∃ d, lowerChar c = [d] ∧ toCharData.Folds c d
  sigma : toCharData.Folds 'Σ' 'σ' ∧ toCharData.Folds 'Σ' 'ς'

namespace UnicodeData

variable (D : UnicodeData)

/-- ASCII text has a path of its own. -/
theorem toLower_eq (cs : Chars) : D.py.toLower cs = D.lower cs := by
  unfold Unicode.toLower
  split
  · rename_i h
    have hfrom : ∀ before, D.lowerFrom before cs = cs.map Char.toLower := by
      induction cs with
      | nil => exact fun _ => rfl
      | cons c cs ih =>
        intro before
        rw [List.all_cons, Bool.and_eq_true] at h
        have hne : c ≠ 'Σ' ∧ c ≠ 'İ' := by
          constructor <;> rintro rfl <;> exact absurd h.1 (by decide)
        obtain ⟨d, hd, hfolds⟩ := D.folds c hne.2
        rw [CharData.lowerFrom, CharData.lowerAt, if_neg hne.1, hd, ih h.2, hfolds.ascii h.1]
        rfl
    exact (hfrom []).symm
  · rfl

theorem folds_lowerAt {c : Char} (h : c ≠ 'İ') (before rest : Chars) :
    ∃ d, D.lowerAt before c rest = [d] ∧ D.Folds c d := by
  unfold CharData.lowerAt
  by_cases hsigma : c = 'Σ'
  · rw [if_pos hsigma, hsigma]
    cases D.finalSigma before rest with
    | true => exact ⟨'ς', rfl, D.sigma.2⟩
    | false => exact ⟨'σ', rfl, D.sigma.1⟩
  · rw [if_neg hsigma]
    exact D.folds c h

/-- Without `İ`, the lower case has one character for each. -/
theorem folds_lowerFrom {cs : Chars} (h : 'İ' ∉ cs) (before : Chars) :
    List.Forall₂ D.Folds cs (D.lowerFrom before cs) := by
  induction cs generalizing before with
  | nil => exact .nil
  | cons c cs ih =>
    rw [List.mem_cons, not_or] at h
    obtain ⟨d, hd, hfolds⟩ := D.folds_lowerAt (Ne.symm h.1) before cs
    rw [CharData.lowerFrom, hd]
    exact .cons hfolds (ih h.2 (c :: before))

/-- Lower case is left alone. -/
theorem lowerFrom_stable {ds : Chars} (h : ∀ d ∈ ds, D.lowerChar d = [d] ∧ d ≠ 'Σ')
    (before : Chars) : D.lowerFrom before ds = ds := by
  induction ds generalizing before with
  | nil => rfl
  | cons d ds ih =>
    obtain ⟨hstable, hsigma⟩ := h d (List.mem_cons_self ..)
    rw [CharData.lowerFrom, CharData.lowerAt, if_neg hsigma, hstable,
      ih (fun x hx => h x (List.mem_cons_of_mem _ hx))]
    rfl

theorem exists_folds {cs ds : Chars} (h : List.Forall₂ D.Folds cs ds) {d : Char} (hd : d ∈ ds) :
    ∃ c ∈ cs, D.Folds c d := by
  induction h with
  | nil => cases hd
  | @cons c d' cs ds hfolds _ ih =>
    rcases List.mem_cons.mp hd with rfl | hd
    · exact ⟨c, List.mem_cons_self .., hfolds⟩
    · obtain ⟨x, hx, hfolds⟩ := ih hd
      exact ⟨x, List.mem_cons_of_mem _ hx, hfolds⟩

theorem exists_folded {cs ds : Chars} (h : List.Forall₂ D.Folds cs ds) {c : Char} (hc : c ∈ cs) :
    ∃ d ∈ ds, D.Folds c d := by
  induction h with
  | nil => cases hc
  | @cons c' d cs ds hfolds _ ih =>
    rcases List.mem_cons.mp hc with rfl | hc
    · exact ⟨d, List.mem_cons_self .., hfolds⟩
    · obtain ⟨x, hx, hfolds⟩ := ih hc
      exact ⟨x, List.mem_cons_of_mem _ hx, hfolds⟩

theorem lower_idem {cs : Chars} (h : 'İ' ∉ cs) : D.lower (D.lower cs) = D.lower cs := by
  apply D.lowerFrom_stable
  intro d hd
  obtain ⟨c, _, hfolds⟩ := D.exists_folds (D.folds_lowerFrom h []) hd
  exact ⟨hfolds.stable, hfolds.notSigma⟩

/-- `İ` leaves a combining dot behind. -/
theorem combining_mem {cs : Chars} (h : 'İ' ∈ cs) (before : Chars) :
    '\u0307' ∈ D.lowerFrom before cs := by
  induction cs generalizing before with
  | nil => cases h
  | cons c cs ih =>
    rw [CharData.lowerFrom, List.mem_append]
    rcases List.mem_cons.mp h with rfl | h
    · left
      rw [CharData.lowerAt, if_neg (by decide), D.dotted]
      decide
    · exact .inr (ih h _)

end UnicodeData

/-! ## Names -/

/-- A name that is valid, its own lower case, and the one that is read from its URI. -/
structure Canonical (U : PyUnicode) (n : Chars) : Prop where
  valid : isValidGlobalName U n = true
  lower : U.toLower n = n
  parses : parseGlobalName U (wirePrefix ++ n ++ wnsSuffix) = some n

/-- Every spelling that is valid and has this lower case names `n`, and is looked up under the
name that the file of `n` has. -/
def FoundBySpellings (U : PyUnicode) (n : Chars) : Prop :=
  ∀ spelling, isValidGlobalName U spelling = true → U.toLower spelling = n →
    ∃ name, parseGlobalName U (wirePrefix ++ spelling ++ wnsSuffix) = some name ∧
      U.toLower name = n

variable {U : PyUnicode}

theorem validName_iff (name : Chars) :
    validName U.toUnicode name = true ↔ (∃ c ∈ name, c ≠ '-' ∧ c ≠ '_') ∧
      ∀ c ∈ name, c ≠ '-' → c ≠ '_' → U.isAlnum c = true := by
  rw [validName, Bool.and_eq_true, Bool.not_eq_true', List.all_eq_true]
  apply and_congr
  · rw [← Bool.not_eq_true, List.isEmpty_iff, List.filter_eq_nil_iff]
    simp
  · simp only [List.mem_filter, decide_eq_true_eq, and_imp]

theorem isValidGlobalName_iff (name : Chars) :
    isValidGlobalName U name = true ↔
      (name ≠ [] ∧ name.length ≤ MAX_NAME_LENGTH) ∧ validName U.toUnicode name = true ∧
        String.ofList (U.toLower name) ∉ RESERVED_NAMES ∧
        ¬ (name.length = 26 ∧ (U.toLower name).all (· ∈ BASE32_ALPHABET.toList) = true) ∧
        ¬ (name.head?.any U.isDigit = true ∧ '-' ∈ name) := by
  unfold isValidGlobalName
  by_cases hlen : name = [] ∨ MAX_NAME_LENGTH < name.length
  · rw [if_pos hlen]
    simp only [Bool.false_eq_true, false_iff, not_and]
    intro h
    rcases hlen with hnil | hlong
    · exact absurd hnil h.1
    · exact absurd h.2 (Nat.not_le.mpr hlong)
  · rw [if_neg hlen]
    rw [not_or, Nat.not_lt] at hlen
    cases validName U.toUnicode name with
    | false => simp
    | true =>
      simp only [Bool.not_true, Bool.false_eq_true, if_false]
      by_cases hres : String.ofList (U.toLower name) ∈ RESERVED_NAMES
      · rw [if_pos hres]
        exact iff_of_false (by decide) fun h => h.2.2.1 hres
      rw [if_neg hres]
      by_cases hbase : name.length = 26 ∧
          (U.toLower name).all (· ∈ BASE32_ALPHABET.toList) = true
      · rw [if_pos hbase]
        exact iff_of_false (by decide) fun h => h.2.2.2.1 hbase
      rw [if_neg hbase, Bool.not_eq_true', Bool.and_eq_false_iff, ← Bool.not_eq_true,
        decide_eq_false_iff_not, ← not_and_or]
      exact ⟨fun h => ⟨hlen, trivial, hres, hbase, h⟩, fun h => h.2.2.2.2⟩

theorem pyRest_wire {n : Chars} (h : '@' ∉ n) : pyRest (wirePrefix ++ n ++ wnsSuffix) = n := by
  have huser := afterLast_strip_withUser h none
  rw [withUser] at huser
  rw [pyRest, huser, List.append_assoc, dropWh_wire, dropWns_wns]

theorem at_notMem_valid {n : Chars} (h : isValidGlobalName U n = true) : '@' ∉ n :=
  notMem_validName ((isValidGlobalName_iff n).mp h).2.1 (by decide) (by decide) (by decide)
    (by decide)

/-- What is read from the URI of a valid name. -/
theorem parse_wire {n : Chars} (h : isValidGlobalName U n = true) :
    parseGlobalName U (wirePrefix ++ n ++ wnsSuffix) = some (U.toLower n) := by
  have hdot : '.' ∉ n := dot_notMem_validName ((isValidGlobalName_iff n).mp h).2.1
  unfold parseGlobalName
  rw [pyRest_wire (at_notMem_valid h)]
  exact if_pos ⟨h, hdot⟩

theorem ne_of_isAlnum {c : Char} (h : U.isAlnum c = true) : c ≠ '-' ∧ c ≠ '_' := by
  constructor <;> rintro rfl <;> simp [Unicode.isAlnum, isAscii] at h

section
variable (D : UnicodeData) {name : Chars}

theorem validName_lower (h : validName D.py.toUnicode name = true) (hI : 'İ' ∉ name) :
    validName D.py.toUnicode (D.lower name) = true := by
  have hfolds := D.folds_lowerFrom hI []
  obtain ⟨⟨c, hc, hcore⟩, hall⟩ := (validName_iff name).mp h
  refine (validName_iff _).mpr ⟨?_, ?_⟩
  · obtain ⟨d, hd, hfold⟩ := D.exists_folded hfolds hc
    exact ⟨d, hd, ne_of_isAlnum (hfold.alnum (hall c hc hcore.1 hcore.2))⟩
  · intro d hd hdash hunder
    obtain ⟨x, hx, hfold⟩ := D.exists_folds hfolds hd
    apply hfold.alnum
    apply hall x hx
    · rintro rfl
      exact hdash (hfold.ascii (by decide))
    · rintro rfl
      exact hunder (hfold.ascii (by decide))

/-- Only a dash becomes a dash. -/
theorem dash_of_lower (h : validName D.py.toUnicode name = true) (hI : 'İ' ∉ name)
    (hdash : '-' ∈ D.lower name) : '-' ∈ name := by
  obtain ⟨_, hall⟩ := (validName_iff name).mp h
  obtain ⟨c, hc, hfold⟩ := D.exists_folds (D.folds_lowerFrom hI []) hdash
  by_cases hcdash : c = '-'
  · exact hcdash ▸ hc
  by_cases hunder : c = '_'
  · rw [hunder] at hfold
    exact absurd (hfold.ascii (by decide)) (by decide)
  · exact absurd rfl (ne_of_isAlnum (hfold.alnum (hall c hc hcdash hunder))).1

theorem digit_of_lower (hI : 'İ' ∉ name) (h : (D.lower name).head?.any D.py.isDigit = true) :
    name.head?.any D.py.isDigit = true := by
  have hfolds := D.folds_lowerFrom hI []
  rw [CharData.lower] at h
  generalize D.lowerFrom [] name = ds at hfolds h
  cases hfolds with
  | nil => exact h
  | cons hfold _ => exact hfold.digit h

theorem valid_lower (h : isValidGlobalName D.py name = true) (hI : 'İ' ∉ name) :
    isValidGlobalName D.py (D.lower name) = true := by
  obtain ⟨⟨hne, hlen⟩, hvalid, hreserved, hbase, hcode⟩ := (isValidGlobalName_iff name).mp h
  have hfolds := D.folds_lowerFrom hI []
  have hlength : (D.lower name).length = name.length := hfolds.length_eq.symm
  have hlower : D.py.toLower (D.lower name) = D.py.toLower name := by
    rw [D.toLower_eq, D.toLower_eq, D.lower_idem hI]
  refine (isValidGlobalName_iff _).mpr ⟨⟨?_, ?_⟩, ?_, ?_, ?_, ?_⟩
  · intro hnil
    rw [hnil, List.length_nil] at hlength
    exact hne (List.length_eq_zero_iff.mp hlength.symm)
  · rw [hlength]
    exact hlen
  · exact validName_lower D hvalid hI
  · rw [hlower]
    exact hreserved
  · rw [hlower, hlength]
    exact hbase
  · rintro ⟨hdigit, hdash⟩
    exact hcode ⟨digit_of_lower D hI hdigit, dash_of_lower D hvalid hI hdash⟩

theorem invalid_lower (hI : 'İ' ∈ name) : isValidGlobalName D.py (D.lower name) = false := by
  rw [← Bool.not_eq_true, isValidGlobalName_iff, validName_iff]
  rintro ⟨_, ⟨_, hall⟩, _⟩
  have halnum := hall '\u0307' (D.combining_mem hI []) (by decide) (by decide)
  rw [Unicode.isAlnum, if_neg (by decide)] at halnum
  exact absurd halnum (by simp [CharData.py, D.combining])

theorem canonical_lower_iff (h : isValidGlobalName D.py name = true) :
    Canonical D.py (D.lower name) ∧ FoundBySpellings D.py (D.lower name) ↔ 'İ' ∉ name := by
  constructor
  · rintro ⟨hcanonical, _⟩ hI
    have hvalid := hcanonical.valid
    rw [invalid_lower D hI] at hvalid
    cases hvalid
  · intro hI
    have hidem : D.py.toLower (D.lower name) = D.lower name := by
      rw [D.toLower_eq, D.lower_idem hI]
    have hvalid := valid_lower D h hI
    refine ⟨⟨hvalid, hidem, ?_⟩, ?_⟩
    · rw [parse_wire hvalid, hidem]
    · intro spelling hspelling hlower
      exact ⟨D.lower name, by rw [parse_wire hspelling, hlower], hidem⟩

end

/-- **Headline.** The name that is read from a URI, or stored in a claim, is valid, its own lower
case and the one its own URI names, and every spelling of it is looked up as it was stored, if
and only if there is no `İ` in what was spelled. -/
theorem canonical_names_iff (D : UnicodeData) :
    (∀ uri n, parseGlobalName D.py uri = some n →
      (Canonical D.py n ∧ FoundBySpellings D.py n ↔ 'İ' ∉ pyRest uri)) ∧
    ∀ (L : Lib) (C : Crypto) identity name ttlSeconds now claim,
      NameClaim.create D.py L C identity name ttlSeconds now = some claim →
      ∃ n, claim.name = .str (String.ofList n) ∧
        (Canonical D.py n ∧ FoundBySpellings D.py n ↔ 'İ' ∉ name.toList) := by
  constructor
  · intro uri n h
    unfold parseGlobalName at h
    dsimp only at h
    split at h
    · rename_i hvalid
      cases h
      rw [D.toLower_eq]
      exact canonical_lower_iff D hvalid.1
    · cases h
  · intro L C identity name ttlSeconds now claim h
    obtain ⟨seed, _, h⟩ := Option.bind_eq_some_iff.mp h
    obtain ⟨⟨⟩, hguard, h⟩ := Option.bind_eq_some_iff.mp h
    obtain ⟨expires, _, h⟩ := Option.bind_eq_some_iff.mp h
    have hvalid : isValidGlobalName D.py name.toList = true := by
      by_contra hinvalid
      rw [guard, if_neg hinvalid] at hguard
      cases hguard
    cases h
    refine ⟨D.lower name.toList, ?_, canonical_lower_iff D hvalid⟩
    rw [← D.toLower_eq]
    rfl

/-! ## Where it fails -/

/-- ASCII, the sigmas and `İ`. -/
def sampleChars : CharData where
  alnum c := c ∈ ['Σ', 'σ', 'ς', 'İ']
  digit _ := false
  lowerChar c :=
    if c = 'İ' then ['i', '\u0307'] else if c = 'Σ' then ['σ']
    else if isAscii c then [c.toLower] else [c]
  cased c := c.isAlpha
  caseIgnorable _ := false

theorem sample_ascii {c : Char} (h : isAscii c = true) :
    sampleChars.lowerChar c = [c.toLower] ∧ sampleChars.Folds c c.toLower := by
  have hall : ∀ n ∈ List.range 128,
      sampleChars.lowerChar (Char.ofNat n) = [(Char.ofNat n).toLower] ∧
      (sampleChars.py.isAlnum (Char.ofNat n) = true →
        sampleChars.py.isAlnum (Char.ofNat n).toLower = true) ∧
      (sampleChars.py.isDigit (Char.ofNat n).toLower = true →
        sampleChars.py.isDigit (Char.ofNat n) = true) ∧
      sampleChars.lowerChar (Char.ofNat n).toLower = [(Char.ofNat n).toLower] ∧
      (Char.ofNat n).toLower ≠ 'Σ' := by decide +kernel
  have hc := hall c.toNat (List.mem_range.mpr (of_decide_eq_true h))
  rw [Char.ofNat_toNat] at hc
  exact ⟨hc.1, fun _ => rfl, hc.2.1, hc.2.2.1, hc.2.2.2.1, hc.2.2.2.2⟩

theorem sample_sigma : sampleChars.Folds 'Σ' 'σ' ∧ sampleChars.Folds 'Σ' 'ς' :=
  ⟨⟨by decide, by decide, by decide, rfl, by decide⟩,
    ⟨by decide, by decide, by decide, rfl, by decide⟩⟩

theorem sample_folds (c : Char) (hI : c ≠ 'İ') :
    ∃ d, sampleChars.lowerChar c = [d] ∧ sampleChars.Folds c d := by
  by_cases hascii : isAscii c = true
  · exact ⟨c.toLower, sample_ascii hascii⟩
  by_cases hsigma : c = 'Σ'
  · rw [hsigma]
    exact ⟨'σ', rfl, sample_sigma.1⟩
  · have hlower : sampleChars.lowerChar c = [c] := by
      simp [sampleChars, hI, hsigma, hascii]
    exact ⟨c, hlower, fun h => absurd h hascii, id, id, hlower, hsigma⟩

def sampleData : UnicodeData where
  toCharData := sampleChars
  dotted := rfl
  combining := rfl
  folds := sample_folds
  sigma := sample_sigma

theorem canonical_names_iff_laptop :
    Canonical sampleData.py "laptop".toList ∧ FoundBySpellings sampleData.py "laptop".toList ↔
      'İ' ∉ pyRest "wh://LapTop.wns".toList :=
  (canonical_names_iff sampleData).1 "wh://LapTop.wns".toList "laptop".toList (by decide +kernel)

/-- **A name that is not valid.** `İzmir` is a name, and its lower case, which is stored and
looked up, has a combining dot in it and is none. -/
theorem dotted_not_canonical :
    parseGlobalName sampleData.py "wh://İzmir.wns".toList = some "i\u0307zmir".toList ∧
      isValidGlobalName sampleData.py "i\u0307zmir".toList = false ∧
      parseGlobalName sampleData.py "wh://i\u0307zmir.wns".toList = none := by
  decide +kernel

end Wormhole.L4.Wns
