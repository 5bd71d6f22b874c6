import Wormhole.L4App.ScopedAddresses

/-!
# Where the two URI parsers agree

`parse_scoped_wns_address` of `src/wh/wns/identity.py` reads the forms `UserFirst`,
`parseWNSAddress` of `discovery-site/src/lib/wns/identity.js` the forms `PrefixFirst` of the
URI in lower case. They differ in the white space at the ends, in the place and the number of
the `@`, in the case, and in the names.

`parsers_agree_iff`: they agree on a URI exactly when, if it has one of the forms, it has both
for one name and address.
-/
namespace Wormhole.L4.Wns
open Wormhole.L1

/-! ## The forms of a URI -/

/-- `middle`, between white space. -/
def Between (blank : Char → Bool) (text middle : Chars) : Prop :=
  ∃ lead trail, text = lead ++ middle ++ trail ∧ lead.all blank = true ∧ trail.all blank = true ∧
    (∀ c ∈ middle.head?, blank c = false) ∧ ∀ c ∈ middle.getLast?, blank c = false

/-- `[user@][wh://][name.]address[.wns]`. The user name may have any characters. -/
def UserFirst (U : Unicode) (uri : Chars) (x : Option Chars × Chars) : Prop :=
  ∃ user text, Between pyIsSpace uri (user ++ text) ∧
    (user = [] ∨ ∃ v, user = v ++ ['@']) ∧ Spells U x.1 x.2 text

/-- `[wh://][user@][name.]address[.wns]`. The user name has no `@`. -/
def PrefixFirst (text : Chars) (x : Option Chars × Chars) : Prop :=
  ∃ pre user suf, Between jsIsSpace text (pre ++ (user ++ spell x ++ suf)) ∧
    (pre = [] ∧ ¬ wirePrefix <+: user ++ spell x ++ suf ∨ pre = wirePrefix) ∧
    (suf = [] ∧ ¬ wnsSuffix <:+ user ++ spell x ∨ suf = wnsSuffix) ∧
    (user = [] ∧ '@' ∉ spell x ∨ ∃ v, user = v ++ ['@'] ∧ '@' ∉ v)

/-- An address up to its case, and any name without a dot. -/
def Loose (U : Unicode) (x : Option Chars × Chars) : Prop :=
  isValidAddress U x.2 = true ∧ '.' ∉ x.2 ∧ ∀ n, x.1 = some n → '.' ∉ n

/-- Same address and same scoped name. -/
def Agree (U : Unicode) (uri : Chars) : Prop :=
  ∀ name a, parseScopedWnsAddress U uri = some (name, a) ↔
    ∃ p, parseWNSAddress U uri = some p ∧ p.address = a ∧ p.scopedName = name

/-! ## What the parsers read -/

variable {U : Unicode}

theorem between_iff {blank : Char → Bool} {text middle : Chars} (hne : middle ≠ []) :
    Between blank text middle ↔ (text.dropWhile blank).rdropWhile blank = middle := by
  constructor
  · intro h
    obtain ⟨lead, trail, rfl, hlead, htrail, hfirst, hlast⟩ := h
    have hdrop : (lead ++ middle ++ trail).dropWhile blank = middle ++ trail := by
      rw [List.append_assoc, List.dropWhile_append_of_pos (List.all_eq_true.mp hlead)]
      cases middle with
      | nil => exact absurd rfl hne
      | cons c cs =>
        have hc : blank c = false := hfirst c rfl
        simp [hc]
    have hself : middle.rdropWhile blank = middle := by
      rw [List.rdropWhile_eq_self_iff]
      intro hl hblank
      rw [hlast _ (List.getLast?_eq_some_getLast hl)] at hblank
      cases hblank
    have hback : ∀ c ∈ trail.reverse, blank c = true := by
      intro c hc
      exact List.all_eq_true.mp htrail c (List.mem_reverse.mp hc)
    rw [hdrop, List.rdropWhile, List.reverse_append, List.dropWhile_append_of_pos hback]
    exact hself
  · intro h
    have hlead : (text.takeWhile blank).all blank = true := by
      rw [List.all_eq_true]
      exact fun c hc => List.mem_takeWhile_imp hc
    have htext := List.rdropWhile_append_rtakeWhile (p := blank)
      (l := text.dropWhile blank)
    refine ⟨text.takeWhile blank, (text.dropWhile blank).rtakeWhile blank, ?_, hlead, ?_, ?_, ?_⟩
    · rw [← h, List.append_assoc, htext, List.takeWhile_append_dropWhile]
    · rw [List.all_eq_true]
      exact fun c hc => List.mem_rtakeWhile_imp hc
    · intro c hc
      have hpre := List.rdropWhile_prefix blank (text.dropWhile blank)
      rw [h] at hpre
      obtain ⟨rest, hrest⟩ := hpre
      have hnot := List.head?_dropWhile_not blank text
      rw [← hrest, List.head?_append_of_ne_nil middle hne, Option.mem_def.mp hc] at hnot
      simpa using hnot
    · intro c hc
      have hnot := List.rdropWhile_last_not blank (text.dropWhile blank) (by rwa [h])
      have hlast : middle.getLast hne = c := by
        rw [List.getLast?_eq_some_getLast hne] at hc
        exact Option.some.inj hc
      simp only [h, hlast] at hnot
      simpa using hnot

theorem afterFirst_iff {c : Char} {text rest : Chars} :
    afterFirst c text = rest ↔
      (c ∉ text ∧ text = rest) ∨ ∃ front, text = front ++ c :: rest ∧ c ∉ front := by
  by_cases hc : c ∈ text
  · obtain ⟨front, back, rfl, hfront⟩ := List.eq_append_cons_of_mem hc
    unfold afterFirst
    rw [(dropWhile_mark hfront).1]
    constructor
    · intro h
      exact .inr ⟨front, by rw [← h], hfront⟩
    · intro h
      rcases h with ⟨hnot, -⟩ | ⟨front', heq, hfront'⟩
      · exact absurd hc hnot
      · have hcut := congrArg (fun cs => List.dropWhile (· ≠ c) cs) heq
        simp only [(dropWhile_mark hfront).1, (dropWhile_mark hfront').1] at hcut
        exact (List.cons.inj hcut).2
  · unfold afterFirst
    rw [dropWhile_no_mark hc]
    constructor
    · intro h
      exact .inl ⟨hc, h⟩
    · intro h
      rcases h with ⟨-, heq⟩ | ⟨front, rfl, -⟩
      · exact heq
      · exact absurd (by simp) hc

theorem exists_afterLast (c : Char) (text : Chars) :
    ∃ user, (user = [] ∨ ∃ v, user = v ++ [c]) ∧ text = user ++ afterLast c text := by
  by_cases hc : c ∈ text
  · obtain ⟨v, rest, rfl, hrest⟩ := split_last_mark hc
    refine ⟨v ++ [c], .inr ⟨v, rfl⟩, ?_⟩
    rw [afterLast, rtakeWhile_mark hrest, List.append_assoc]
    rfl
  · exact ⟨[], .inl rfl, (afterLast_of_notMem hc).symm⟩

theorem afterLast_user {c : Char} {user rest : Chars} (hrest : c ∉ rest)
    (huser : user = [] ∨ ∃ v, user = v ++ [c]) : afterLast c (user ++ rest) = rest := by
  rcases huser with rfl | ⟨v, rfl⟩
  · exact afterLast_of_notMem hrest
  · rw [List.append_assoc]
    exact rtakeWhile_mark hrest

theorem spells_ne {name : Option Chars} {a text : Chars} (h : Spells U name a text) :
    text ≠ [] := by
  obtain ⟨pre, suf, -, -, rfl, ha, -⟩ := h
  obtain ⟨front, hfront⟩ := exists_spell name a
  have hlen := length_base32 ha
  intro hnil
  rw [hfront] at hnil
  have hzero := congrArg List.length hnil
  simp only [List.length_append, List.length_nil] at hzero
  omega

/-- **What the Python parser reads.** -/
theorem userFirst_iff (uri : Chars) (x : Option Chars × Chars) :
    parseScopedWnsAddress U uri = some x ↔ UserFirst U uri x := by
  obtain ⟨name, a⟩ := x
  have hread := spells_iff (U := U) (afterLast '@' (strip uri)) name a
  unfold parseScopedWnsAddress pyRest
  rw [hread]
  constructor
  · intro h
    obtain ⟨user, huser, heq⟩ := exists_afterLast '@' (strip uri)
    refine ⟨user, afterLast '@' (strip uri), ?_, huser, h⟩
    have hne : user ++ afterLast '@' (strip uri) ≠ [] := by
      simp [spells_ne h]
    rw [between_iff hne, ← heq]
    rfl
  · intro h
    obtain ⟨user, text, hbetween, huser, hspells⟩ := h
    have hmark : '@' ∉ text := by
      obtain ⟨pre, suf, hpre, hsuf, rfl, ha, hname⟩ := hspells
      have hspell : '@' ∉ spell (name, a) :=
        notMem_spell ha hname (by decide) (by decide) (by decide) (by decide)
      simp only [List.mem_append, not_or]
      refine ⟨⟨?_, hspell⟩, ?_⟩
      · rcases hpre with rfl | rfl <;> decide
      · rcases hsuf with rfl | rfl <;> decide
    have hne : user ++ text ≠ [] := by simp [spells_ne hspells]
    rw [between_iff hne] at hbetween
    unfold strip
    rw [hbetween, afterLast_user hmark huser]
    exact hspells

theorem spell_ne {x : Option Chars × Chars} (h : Loose U x) : spell x ≠ [] := by
  obtain ⟨name, a⟩ := x
  obtain ⟨front, hfront⟩ := exists_spell name a
  have ha : a ≠ [] := by
    intro hnil
    have hvalid := h.1
    rw [hnil] at hvalid
    simp [isValidAddress, Unicode.toLower, isBase32] at hvalid
  simp [hfront, ha]

/-- What is left of a text is a name and an address. -/
theorem prefixFirst_iff {text : Chars} {x : Option Chars × Chars} (h : Loose U x) :
    afterFirst '@' (dropWns (dropWh (trim text))) = spell x ↔ PrefixFirst text x := by
  have hne := spell_ne h
  constructor
  · intro hrest
    obtain ⟨pre, hpre, hwire⟩ : ∃ pre, (pre = [] ∧ ¬ wirePrefix <+: dropWh (trim text) ∨
        pre = wirePrefix) ∧ trim text = pre ++ dropWh (trim text) := by
      by_cases hp : wirePrefix <+: trim text
      · obtain ⟨rest, hrest⟩ := hp
        exact ⟨wirePrefix, .inr rfl, by rw [← hrest, dropWh_wire]⟩
      · have hsame : dropWh (trim text) = trim text := if_neg hp
        exact ⟨[], .inl ⟨rfl, by rwa [hsame]⟩, hsame.symm⟩
    obtain ⟨suf, hsuf, hwns⟩ : ∃ suf, (suf = [] ∧ ¬ wnsSuffix <:+ dropWns (dropWh (trim text)) ∨
        suf = wnsSuffix) ∧ dropWh (trim text) = dropWns (dropWh (trim text)) ++ suf := by
      by_cases hs : wnsSuffix <:+ dropWh (trim text)
      · obtain ⟨front, hfront⟩ := hs
        exact ⟨wnsSuffix, .inr rfl, by rw [← hfront, dropWns_wns]⟩
      · have hsame : dropWns (dropWh (trim text)) = dropWh (trim text) := if_neg hs
        exact ⟨[], .inl ⟨rfl, by rwa [hsame]⟩, by rw [hsame, List.append_nil]⟩
    obtain ⟨user, huser, heq⟩ : ∃ user, (user = [] ∧ '@' ∉ spell x ∨
        ∃ v, user = v ++ ['@'] ∧ '@' ∉ v) ∧ dropWns (dropWh (trim text)) = user ++ spell x := by
      rcases afterFirst_iff.mp hrest with ⟨hmark, hsame⟩ | ⟨front, hfront, hmark⟩
      · exact ⟨[], .inl ⟨rfl, hsame ▸ hmark⟩, hsame⟩
      · exact ⟨front ++ ['@'], .inr ⟨front, rfl, hmark⟩, by simp [hfront]⟩
    rw [heq] at hwns hsuf
    rw [hwns] at hwire hpre
    refine ⟨pre, user, suf, ?_, hpre, hsuf, huser⟩
    rw [between_iff (by simp [hne]), ← hwire]
    rfl
  · intro hform
    obtain ⟨pre, user, suf, hbetween, hpre, hsuf, huser⟩ := hform
    rw [between_iff (by simp [hne])] at hbetween
    have hwh : dropWh (trim text) = user ++ spell x ++ suf := by
      unfold trim
      rw [hbetween]
      rcases hpre with ⟨rfl, hnot⟩ | rfl
      · exact if_neg hnot
      · exact dropWh_wire _
    have hwns : dropWns (dropWh (trim text)) = user ++ spell x := by
      rw [hwh]
      rcases hsuf with ⟨rfl, hnot⟩ | rfl
      · rw [List.append_nil]
        exact if_neg hnot
      · exact dropWns_wns _
    rw [hwns, afterFirst_iff]
    rcases huser with ⟨rfl, hmark⟩ | ⟨v, rfl, hmark⟩
    · exact .inl ⟨hmark, rfl⟩
    · exact .inr ⟨v, by simp, hmark⟩

/-- **What the JavaScript parser reads.** -/
theorem loose_prefixFirst_iff (uri : Chars) (x : Option Chars × Chars) :
    (∃ p, parseWNSAddress U uri = some p ∧ p.address = x.2 ∧ p.scopedName = x.1) ↔
      Loose U x ∧ PrefixFirst (U.toLower uri) x := by
  obtain ⟨name, a⟩ := x
  rw [parseWNSAddress_some, readParts_iff]
  constructor
  · intro h
    obtain ⟨hrest, hvalid, hdot, hname⟩ := h
    have hloose : Loose U (name, a) := ⟨hvalid, hdot, hname⟩
    exact ⟨hloose, (prefixFirst_iff hloose).mp hrest.symm⟩
  · intro h
    obtain ⟨hloose, hform⟩ := h
    exact ⟨((prefixFirst_iff hloose).mpr hform).symm, hloose.1, hloose.2.1, hloose.2.2⟩

/-- A name and an address that Python takes are ones that JavaScript takes. -/
theorem loose_of_userFirst {uri : Chars} {x : Option Chars × Chars} (h : UserFirst U uri x) :
    Loose U x := by
  obtain ⟨-, -, -, -, -, -, -, -, -, ha, hname⟩ := h
  exact ⟨base32_valid ha, dot_notMem_base32 ha, fun n hn => dot_notMem_validName (hname n hn)⟩

/-- One text has one form at most. -/
theorem prefixFirst_unique {uri : Chars} {x y : Option Chars × Chars}
    (hx : Loose U x ∧ PrefixFirst (U.toLower uri) x)
    (hy : Loose U y ∧ PrefixFirst (U.toLower uri) y) : x = y := by
  obtain ⟨p, hp, hpa, hpn⟩ := (loose_prefixFirst_iff uri x).mpr hx
  obtain ⟨q, hq, hqa, hqn⟩ := (loose_prefixFirst_iff uri y).mpr hy
  rw [hp] at hq
  cases hq
  exact Prod.ext (hpn.symm.trans hqn) (hpa.symm.trans hqa)

/-! ## Agreement -/

/-- **Headline.** The two parsers agree on a URI exactly when, if it is
`[user@][wh://][name.]address[.wns]` with an address in lower case and a name of letters, digits,
`-` and `_`, or in lower case `[wh://][user@][name.]address[.wns]` with one `@` at most and any
name without a dot, then it is both for one such name and address. -/
theorem parsers_agree_iff (U : Unicode) (uri : Chars) :
    Agree U uri ↔
      ((∃ x, UserFirst U uri x ∨ Loose U x ∧ PrefixFirst (U.toLower uri) x) →
        ∃ x, UserFirst U uri x ∧ PrefixFirst (U.toLower uri) x) := by
  have hpython : ∀ name a, parseScopedWnsAddress U uri = some (name, a) ↔
      UserFirst U uri (name, a) := fun name a => userFirst_iff uri (name, a)
  have hjs : ∀ name a, (∃ p, parseWNSAddress U uri = some p ∧ p.address = a ∧
      p.scopedName = name) ↔ Loose U (name, a) ∧ PrefixFirst (U.toLower uri) (name, a) :=
    fun name a => loose_prefixFirst_iff uri (name, a)
  simp only [Agree, hpython, hjs]
  constructor
  · intro h hone
    obtain ⟨⟨name, a⟩, hx | hx⟩ := hone
    · exact ⟨(name, a), hx, ((h name a).mp hx).2⟩
    · exact ⟨(name, a), (h name a).mpr hx, hx.2⟩
  · intro h name a
    constructor
    · intro hx
      obtain ⟨y, hy, hform⟩ := h ⟨(name, a), .inl hx⟩
      have hsame : y = (name, a) := by
        have hboth := (userFirst_iff uri y).mpr hy
        rw [(userFirst_iff uri (name, a)).mpr hx] at hboth
        exact (Option.some.inj hboth).symm
      exact ⟨loose_of_userFirst hx, hsame ▸ hform⟩
    · intro hx
      obtain ⟨y, hy, hform⟩ := h ⟨(name, a), .inr hx⟩
      have hsame := prefixFirst_unique ⟨loose_of_userFirst hy, hform⟩ hx
      exact hsame ▸ hy

def userFirst : Chars := "user@wh://abcdefghijklmnopqrstuvwxyz.wns".toList

/-- A user name in front of the prefix: only the Python parser strips both. -/
theorem user_before_prefix : ¬ ∀ (U : Unicode) (uri : Chars), Agree U uri := by
  intro h
  have hpy : parseScopedWnsAddress asciiUnicode userFirst =
      some (none, "abcdefghijklmnopqrstuvwxyz".toList) := by decide
  have hjs : parseWNSAddress asciiUnicode userFirst = none := by decide
  obtain ⟨p, hp, -⟩ := (h asciiUnicode userFirst _ _).mp hpy
  rw [hjs] at hp
  cases hp

end Wormhole.L4.Wns
