import Wormhole.L4App.Identity
import Wormhole.L4App.WnsUri

/-!
# What counts as an address

The texts that `parse_scoped_wns_address` of `src/wh/wns/identity.py` accepts, and those
that an identity prints.

* `parse_scoped_iff`: what is left after the last `@` is `[wh://][name.]address[.wns]`;
  and the printed addresses are read back, behind any user name.
-/
namespace Wormhole.L4.Wns
open Wormhole.L1

/-! ## Printed addresses -/

/-- mirrors src/wh/wns/identity.py:116-119 -/
def WNSIdentity.fullAddress (C : Crypto) (identity : WNSIdentity) : String :=
  "wh://" ++ (identity.address C).text ++ ".wns"

/-- mirrors src/wh/wns/identity.py:121-130 -/
def WNSIdentity.fullScopedAddress (C : Crypto) (identity : WNSIdentity) : Option String :=
  match identity.scopedName with
  | none => none
  | some name =>
    if name = "" then none else some ("wh://" ++ name ++ "." ++ (identity.address C).text ++ ".wns")

/-- `user@text`, or the text alone. -/
def withUser : Option Chars → Chars → Chars
  | none, text => text
  | some user, text => user ++ '@' :: text

/-- `[wh://][name.]address[.wns]`. -/
def Spells (U : Unicode) (name : Option Chars) (a text : Chars) : Prop :=
  ∃ pre suf, (pre = [] ∨ pre = wirePrefix) ∧ (suf = [] ∨ suf = wnsSuffix) ∧
    text = pre ++ spell (name, a) ++ suf ∧ isBase32 a = true ∧
      ∀ n, name = some n → validName U n = true

variable {U : Unicode}

/-! ## Stripping -/

theorem exists_dropWh (text : Chars) :
    ∃ pre, (pre = [] ∨ pre = wirePrefix) ∧ text = pre ++ dropWh text := by
  unfold dropWh
  split
  · rename_i h
    obtain ⟨rest, rfl⟩ := h
    exact ⟨wirePrefix, .inr rfl, rfl⟩
  · exact ⟨[], .inl rfl, rfl⟩

theorem exists_dropWns (text : Chars) :
    ∃ suf, (suf = [] ∨ suf = wnsSuffix) ∧ text = dropWns text ++ suf := by
  unfold dropWns
  split
  · rename_i h
    obtain ⟨rest, rfl⟩ := h
    refine ⟨wnsSuffix, .inr rfl, ?_⟩
    rw [List.length_append, show wnsSuffix.length = 4 from rfl, Nat.add_sub_cancel, List.take_left]
  · exact ⟨[], .inl rfl, (List.append_nil text).symm⟩

theorem dropWh_wire (text : Chars) : dropWh (wirePrefix ++ text) = text :=
  if_pos (List.prefix_append _ _)

theorem dropWns_wns (text : Chars) : dropWns (text ++ wnsSuffix) = text := by
  unfold dropWns
  rw [if_pos (List.suffix_append _ _), List.length_append, show wnsSuffix.length = 4 from rfl,
    Nat.add_sub_cancel, List.take_left]

/-- Without a colon in its first five characters a text has no prefix to drop. -/
theorem dropWh_of_notMem {front text : Chars} (hlen : 5 ≤ front.length) (h : ':' ∉ front) :
    dropWh (front ++ text) = front ++ text := by
  apply if_neg
  intro hpre
  have hfront : wirePrefix <+: front := by
    apply List.prefix_of_prefix_length_le hpre (List.prefix_append _ _)
    exact hlen
  exact h (hfront.subset (by decide))

/-- Without a dot in its last four characters a text has no suffix to drop. -/
theorem dropWns_of_notMem {text back : Chars} (hlen : 4 ≤ back.length) (h : '.' ∉ back) :
    dropWns (text ++ back) = text ++ back := by
  apply if_neg
  intro hsuf
  have hback : wnsSuffix <:+ back := by
    apply List.suffix_of_suffix_length_le hsuf (List.suffix_append _ _)
    exact hlen
  exact h (hback.subset (by decide))

theorem dropWh_of_noColon {text : Chars} (h : ':' ∉ text) : dropWh text = text :=
  if_neg fun hpre => h (hpre.subset (by decide))

theorem dropWns_of_noDot {text : Chars} (h : '.' ∉ text) : dropWns text = text :=
  if_neg fun hsuf => h (hsuf.subset (by decide))

theorem afterLast_of_notMem {c : Char} {text : Chars} (h : c ∉ text) : afterLast c text = text := by
  rw [afterLast, List.rtakeWhile_eq_self_iff]
  intro x hx
  exact decide_eq_true fun e => h (e ▸ hx)

theorem mem_of_mem_strip {c : Char} {text : Chars} (h : c ∈ strip text) : c ∈ text := by
  unfold strip at h
  exact (List.dropWhile_suffix _).subset ((List.rdropWhile_prefix _ _).subset h)

theorem notMem_validName {name : Chars} {c : Char} (h : validName U name = true)
    (hascii : isAscii c = true) (hc : c.isAlphanum = false) (hdash : c ≠ '-')
    (hunder : c ≠ '_') : c ∉ name := by
  intro hmem
  rw [validName, Bool.and_eq_true, List.all_eq_true] at h
  have hcore : c ∈ name.filter fun c => c ≠ '-' ∧ c ≠ '_' :=
    List.mem_filter.mpr ⟨hmem, decide_eq_true ⟨hdash, hunder⟩⟩
  have halnum := h.2 c hcore
  rw [Unicode.isAlnum, if_pos hascii, hc] at halnum
  cases halnum

theorem notMem_base32 {a : Chars} {c : Char} (h : isBase32 a = true)
    (hc : c ∉ BASE32_ALPHABET.toList) : c ∉ a := by
  rw [isBase32, Bool.and_eq_true, List.all_eq_true] at h
  exact fun hmem => hc (of_decide_eq_true (h.2 c hmem))

theorem length_base32 {a : Chars} (h : isBase32 a = true) : a.length = 26 := by
  rw [isBase32, Bool.and_eq_true] at h
  exact of_decide_eq_true h.1

/-- A name and an address have no character in them that would end them. -/
theorem notMem_spell {name : Option Chars} {a : Chars} {c : Char} (ha : isBase32 a = true)
    (hname : ∀ n, name = some n → validName U n = true) (hascii : isAscii c = true)
    (hc : c.isAlphanum = false) (hmarks : c ∉ ['-', '_', '.'])
    (hbase : c ∉ BASE32_ALPHABET.toList) : c ∉ spell (name, a) := by
  simp only [List.mem_cons, List.not_mem_nil, or_false, not_or] at hmarks
  obtain ⟨hdash, hunder, hdot⟩ := hmarks
  cases name with
  | none => exact notMem_base32 ha hbase
  | some n =>
    simp only [spell, List.mem_append, List.mem_cons, not_or]
    exact ⟨notMem_validName (hname n rfl) hascii hc hdash hunder, hdot, notMem_base32 ha hbase⟩

theorem exists_spell (name : Option Chars) (a : Chars) : ∃ front, spell (name, a) = front ++ a := by
  cases name with
  | none => exact ⟨[], rfl⟩
  | some n => exact ⟨n ++ ['.'], by simp [spell]⟩

/-- **The rest of a text is the name and the address** just when the text spells them. -/
theorem spells_iff (text : Chars) (name : Option Chars) (a : Chars) :
    readScoped U (dropWns (dropWh text)) = some (name, a) ↔ Spells U name a text := by
  rw [readScoped_iff]
  constructor
  · rintro ⟨hspell, ha, hname⟩
    obtain ⟨pre, hpre, htext⟩ := exists_dropWh text
    obtain ⟨suf, hsuf, hrest⟩ := exists_dropWns (dropWh text)
    refine ⟨pre, suf, hpre, hsuf, ?_, ha, hname⟩
    rw [hspell, List.append_assoc, ← hrest]
    exact htext
  · rintro ⟨pre, suf, hpre, hsuf, rfl, ha, hname⟩
    refine ⟨?_, ha, hname⟩
    obtain ⟨front, hfront⟩ := exists_spell name a
    have hlen := length_base32 ha
    have hcolon : ':' ∉ spell (name, a) :=
      notMem_spell ha hname (by decide) (by decide) (by decide) (by decide)
    have hwh : dropWh (pre ++ spell (name, a) ++ suf) = spell (name, a) ++ suf := by
      rw [List.append_assoc]
      rcases hpre with rfl | rfl
      · apply dropWh_of_notMem _ hcolon
        rw [hfront, List.length_append]
        omega
      · exact dropWh_wire _
    rw [hwh]
    rcases hsuf with rfl | rfl
    · rw [List.append_nil, hfront]
      exact (dropWns_of_notMem (by omega) (dot_notMem_base32 ha)).symm
    · exact (dropWns_wns _).symm

/-! ## Behind a user name -/

theorem strip_front (front back : Chars) {c x : Char} (hc : pyIsSpace c = false)
    (hx : pyIsSpace x = false) :
    ∃ front', strip (front ++ c :: (back ++ [x])) = front' ++ c :: (back ++ [x]) := by
  have hdrop : ∃ front', (front ++ c :: (back ++ [x])).dropWhile pyIsSpace =
      front' ++ c :: (back ++ [x]) := by
    induction front with
    | nil => exact ⟨[], by simp [hc]⟩
    | cons y front ih =>
      rw [List.cons_append, List.dropWhile_cons]
      split
      · exact ih
      · exact ⟨y :: front, rfl⟩
  obtain ⟨front', hfront⟩ := hdrop
  refine ⟨front', ?_⟩
  rw [strip, hfront, ← List.cons_append, ← List.append_assoc]
  exact List.rdropWhile_concat_neg _ _ _ (by simp [hx])

theorem strip_ends (back : Chars) {c x : Char} (hc : pyIsSpace c = false)
    (hx : pyIsSpace x = false) : strip (c :: (back ++ [x])) = c :: (back ++ [x]) := by
  have hdrop : (c :: (back ++ [x])).dropWhile pyIsSpace = c :: (back ++ [x]) := by simp [hc]
  rw [strip, hdrop, ← List.cons_append]
  exact List.rdropWhile_concat_neg _ _ _ (by simp [hx])

/-- A user name in front goes, and nothing else. -/
theorem afterLast_strip_withUser {text : Chars} (h : '@' ∉ text) (user : Option Chars) :
    afterLast '@' (strip (withUser user (wirePrefix ++ text ++ wnsSuffix))) =
      wirePrefix ++ text ++ wnsSuffix := by
  have hmark : '@' ∉ wirePrefix ++ text ++ wnsSuffix := by
    simp only [List.mem_append, not_or]
    exact ⟨⟨by decide, h⟩, by decide⟩
  cases user with
  | none =>
    have hstrip := strip_ends ('h' :: ':' :: '/' :: '/' :: (text ++ ['.', 'w', 'n'])) (c := 'w')
      (x := 's') (by decide) (by decide)
    have hwhole : strip (wirePrefix ++ text ++ wnsSuffix) = wirePrefix ++ text ++ wnsSuffix := by
      simpa [wirePrefix, wnsSuffix] using hstrip
    rw [withUser, hwhole, afterLast_of_notMem hmark]
  | some user =>
    obtain ⟨front, hfront⟩ := strip_front user (wirePrefix ++ text ++ ['.', 'w', 'n']) (c := '@')
      (x := 's') (by decide) (by decide)
    have hwhole : strip (withUser (some user) (wirePrefix ++ text ++ wnsSuffix)) =
        front ++ '@' :: (wirePrefix ++ text ++ wnsSuffix) := by
      simpa [withUser, wirePrefix, wnsSuffix] using hfront
    rw [hwhole, afterLast]
    exact rtakeWhile_mark hmark

theorem parse_withUser {name : Option Chars} {a : Chars} (ha : isBase32 a = true)
    (hname : ∀ n, name = some n → validName U n = true) (user : Option Chars) :
    parseScopedWnsAddress U (withUser user (wirePrefix ++ spell (name, a) ++ wnsSuffix)) =
      some (name, a) := by
  have hmark : '@' ∉ spell (name, a) :=
    notMem_spell ha hname (by decide) (by decide) (by decide) (by decide)
  rw [parseScopedWnsAddress, pyRest, afterLast_strip_withUser hmark, spells_iff]
  exact ⟨wirePrefix, wnsSuffix, .inr rfl, .inr rfl, rfl, ha, hname⟩

theorem Address.isBase32 (address : Address) : Wns.isBase32 address.text.toList = true := by
  rw [Wns.isBase32, Bool.and_eq_true, List.all_eq_true]
  refine ⟨decide_eq_true ?_, fun c hc => decide_eq_true (address.base32 c hc)⟩
  rw [String.length_toList]
  exact address.length_eq

/-- **Headline.** What is left of a text, without blanks and after the last `@`, is read as a name
and an address if and only if it spells them; so the addresses that an identity prints are read
as what they were made of, behind any user name. -/
theorem parse_scoped_iff (U : Unicode) :
    (∀ uri name a, parseScopedWnsAddress U uri = some (name, a) ↔
      Spells U name a (afterLast '@' (strip uri))) ∧
    ∀ (C : Crypto) (identity : WNSIdentity) (user : Option Chars),
      parseScopedWnsAddress U (withUser user (identity.fullAddress C).toList) =
        some (none, (identity.address C).text.toList) ∧
      ∀ name, identity.scopedName = some name → validName U name.toList = true →
        ∃ full, identity.fullScopedAddress C = some full ∧
          parseScopedWnsAddress U (withUser user full.toList) =
            some (some name.toList, (identity.address C).text.toList) := by
  constructor
  · intro uri name a
    exact spells_iff (afterLast '@' (strip uri)) name a
  · intro C identity user
    have ha := (identity.address C).isBase32
    constructor
    · have hfull : (identity.fullAddress C).toList =
          wirePrefix ++ spell (none, (identity.address C).text.toList) ++ wnsSuffix := by
        simp [WNSIdentity.fullAddress, spell, wirePrefix, wnsSuffix]
      rw [hfull]
      exact parse_withUser ha (fun n hn => by cases hn) user
    · intro name hscoped hname
      have hne : name ≠ "" := by
        rintro rfl
        cases hname
      refine ⟨"wh://" ++ name ++ "." ++ (identity.address C).text ++ ".wns", ?_, ?_⟩
      · simp only [WNSIdentity.fullScopedAddress, hscoped, if_neg hne]
      · have hfull : ("wh://" ++ name ++ "." ++ (identity.address C).text ++ ".wns").toList =
            wirePrefix ++ spell (some name.toList, (identity.address C).text.toList) ++
              wnsSuffix := by
          simp [spell, wirePrefix, wnsSuffix]
        rw [hfull]
        exact parse_withUser ha (fun n hn => by cases hn; exact hname) user

/-- The identity of a laptop, behind a user name. -/
def laptop : WNSIdentity := .fromPrivateKey .sample [1] (some "laptop")

theorem parse_scoped_laptop :
    ∃ full, laptop.fullScopedAddress .sample = some full ∧
      parseScopedWnsAddress asciiUnicode (withUser (some "alice".toList) full.toList) =
        some (some "laptop".toList, (laptop.address .sample).text.toList) :=
  ((parse_scoped_iff asciiUnicode).2 .sample laptop (some "alice".toList)).2 "laptop" rfl
    (by decide)

end Wormhole.L4.Wns
