import Mathlib.Data.List.Infix
import Wormhole.Core.Search
import Wormhole.L4App.ScopedAddresses

/-!
# scp operands

`parse_remote` of `src/wh/cli/scp.py` cuts `[user@]host:path` at a colon. In a text with
`wh://` somewhere in it that is the first colon after the first `.wns`, and in any other
text the first colon.

* `parse_remote_iff`: the operand of a code is cut into its parts if and only if there is
  no `wh://` from the host on, or a `.wns` in the user name; that of an address if and only
  if there is a `.wns` in the address and none in the user name.
-/
namespace Wormhole.L4.Wns
open Wormhole.L1 Wormhole.Search

/-! ## The parser -/

/-- The text before the colon that separates the path, and the path; `none` is a local path.
mirrors src/wh/cli/scp.py:88-107 -/
def splitRemote (path : Chars) : Option (Chars × Chars) :=
  if ':' ∉ path then none
  else if wirePrefix <:+: path then
    match path.dropInfix? wnsSuffix with
    | none => none
    | some (before, _) =>
      ((path.drop before.length).dropInfix? [':']).map fun q => (before ++ q.1, q.2)
  else path.dropInfix? [':']

/-- mirrors src/wh/cli/scp.py:109-114 -/
def readOperand (remotePart remotePath : Chars) : Option Chars × Option Chars × Chars :=
  if '@' ∈ remotePart then
    let code := afterLast '@' remotePart
    (some (remotePart.take (remotePart.length - code.length - 1)), some code, remotePath)
  else (none, some remotePart, remotePath)

/-- The user, the code and the path.
mirrors src/wh/cli/scp.py:78-114 -/
def parseRemote (path : Chars) : Option Chars × Option Chars × Chars :=
  match splitRemote path with
  | none => (none, none, path)
  | some (remotePart, remotePath) => readOperand remotePart remotePath

/-! ## Operands -/

/-- `number-words`. -/
def IsCode (host : Chars) : Prop :=
  ∃ number words, host = number ++ '-' :: words ∧ number ≠ [] ∧ words ≠ [] ∧
    (∀ c ∈ number, c.isDigit = true) ∧ ∀ c ∈ words, c.isAlphanum = true ∨ c = '-'

/-- `wh://[name.]address[.wns]`. -/
def IsWireAddress (U : Unicode) (host : Chars) : Prop :=
  ∃ name a suf, (suf = [] ∨ suf = wnsSuffix) ∧ host = wirePrefix ++ (spell (name, a) ++ suf) ∧
    isBase32 a = true ∧ ∀ n, name = some n → validName U n = true

/-- Neither `@` nor `:` is in a user name. -/
def IsUser (user : Chars) : Prop := '@' ∉ user ∧ ':' ∉ user

/-- The text is cut into the parts it was made of. -/
def ParsesBack (user : Option Chars) (host path : Chars) : Prop :=
  parseRemote (withUser user (host ++ ':' :: path)) = (user, some host, path)

/-! ## The user name -/

theorem withUser_append (user : Option Chars) (host rest : Chars) :
    withUser user (host ++ rest) = withUser user host ++ rest := by
  cases user with
  | none => rfl
  | some u => simp [withUser]

theorem readOperand_withUser {user : Option Chars} {host : Chars} (h : '@' ∉ host) (path : Chars) :
    readOperand (withUser user host) path = (user, some host, path) := by
  cases user with
  | none => exact if_neg h
  | some u =>
    have hlast : afterLast '@' (u ++ '@' :: host) = host := rtakeWhile_mark h
    have hlen : (u ++ '@' :: host).length - host.length - 1 = u.length := by
      simp only [List.length_append, List.length_cons]
      omega
    unfold readOperand withUser
    rw [if_pos (by simp)]
    simp only [hlast, hlen, List.take_left]

/-- The parts say what was cut. -/
theorem readOperand_eq {part rest path : Chars} {user : Option Chars} {host : Chars}
    (h : readOperand part rest = (user, some host, path)) :
    part = withUser user host ∧ rest = path := by
  unfold readOperand at h
  split at h
  · rename_i hat
    obtain ⟨name, a, rfl, ha⟩ := split_last_mark hat
    have hlast : afterLast '@' (name ++ '@' :: a) = a := rtakeWhile_mark ha
    have hlen : (name ++ '@' :: a).length - a.length - 1 = name.length := by
      simp only [List.length_append, List.length_cons]
      omega
    simp only [hlast, hlen, List.take_left, Prod.mk.injEq, Option.some.injEq] at h
    obtain ⟨rfl, rfl, rfl⟩ := h
    exact ⟨rfl, rfl⟩
  · cases h
    exact ⟨rfl, rfl⟩

theorem parsesBack_iff {user : Option Chars} {host path : Chars} (h : '@' ∉ host) :
    ParsesBack user host path ↔
      splitRemote (withUser user host ++ ':' :: path) = some (withUser user host, path) := by
  unfold ParsesBack parseRemote
  rw [withUser_append]
  constructor
  · intro hback
    cases hsplit : splitRemote (withUser user host ++ ':' :: path) with
    | none =>
      rw [hsplit] at hback
      cases hback
    | some q =>
      rw [hsplit] at hback
      obtain ⟨hpart, hrest⟩ := readOperand_eq hback
      rw [← hpart, ← hrest]
  · intro hsplit
    rw [hsplit]
    exact readOperand_withUser h path

/-! ## The colon -/

theorem splitRemote_plain {front path : Chars} (hwire : ¬ wirePrefix <:+: front ++ ':' :: path)
    (h : ':' ∉ front) : splitRemote (front ++ ':' :: path) = some (front, path) := by
  unfold splitRemote
  rw [if_neg (by simp), if_neg hwire]
  exact dropInfix?_singleton h path

/-- With `wh://` in the text, the colon is right just when the first `.wns` stands before it
and no other colon in between. -/
theorem splitRemote_wire {front path : Chars} (hwire : wirePrefix <:+: front ++ ':' :: path) :
    splitRemote (front ++ ':' :: path) = some (front, path) ↔
      ∃ p s, front.dropInfix? wnsSuffix = some (p, s) ∧ ':' ∉ s := by
  unfold splitRemote
  rw [if_neg (by simp), if_pos hwire]
  constructor
  · intro h
    split at h
    · cases h
    · rename_i before after hfirst
      obtain ⟨⟨between, rest⟩, hcolon, heq⟩ := Option.map_eq_some_iff.mp h
      have hfront : before ++ between = front := (Prod.mk.inj heq).1
      have hbetween := notMem_of_dropInfix?_singleton hcolon
      have hwns : wnsSuffix <+: between := by
        obtain ⟨htext, _⟩ := dropInfix?_eq_some.mp hfirst
        obtain ⟨hdrop, _⟩ := dropInfix?_eq_some.mp hcolon
        rw [htext, List.append_assoc, List.drop_left, List.append_assoc] at hdrop
        rcases List.append_eq_append_iff.mp hdrop with ⟨s, hs, _⟩ | ⟨t, ht, hrest⟩
        · exact ⟨s, hs.symm⟩
        · cases t with
          | nil => exact ⟨[], by rw [ht, List.append_nil, List.append_nil]⟩
          | cons x t =>
            cases hrest
            exact absurd (show ':' ∈ wnsSuffix by rw [ht]; simp) (by decide)
      have hin : wnsSuffix <:+: front := by
        rw [← hfront]
        exact hwns.isInfix.trans (List.suffix_append _ _).isInfix
      obtain ⟨s, hs⟩ := dropInfix?_of_append hin hfirst
      refine ⟨before, s, hs, fun hmem => hbetween ?_⟩
      obtain ⟨hsplit, _⟩ := dropInfix?_eq_some.mp hs
      rw [← hfront, List.append_assoc] at hsplit
      rw [List.append_cancel_left hsplit]
      exact List.mem_append_right _ hmem
  · rintro ⟨p, s, hfirst, hs⟩
    obtain ⟨hfront, _⟩ := dropInfix?_eq_some.mp hfirst
    have hcolon : ':' ∉ wnsSuffix ++ s := by
      rw [List.mem_append, not_or]
      exact ⟨by decide, hs⟩
    have hdrop : (front ++ ':' :: path).drop p.length = (wnsSuffix ++ s) ++ ':' :: path := by
      rw [hfront]
      simp
    rw [dropInfix?_append hfirst]
    dsimp only
    rw [hdrop, dropInfix?_singleton hcolon, Option.map_some, ← List.append_assoc, ← hfront]

/-! ## The two kinds of hosts -/

theorem code_notMem {host : Chars} (h : IsCode host) {c : Char} (hdigit : c.isDigit = false)
    (hc : c.isAlphanum = false) (hdash : c ≠ '-') : c ∉ host := by
  obtain ⟨number, words, rfl, _, _, hnumber, hwords⟩ := h
  rw [List.mem_append, List.mem_cons, not_or, not_or]
  refine ⟨?_, hdash, ?_⟩
  · intro hmem
    rw [hnumber c hmem] at hdigit
    cases hdigit
  · intro hmem
    rcases hwords c hmem with halnum | hc'
    · rw [halnum] at hc
      cases hc
    · exact hdash hc'

theorem address_notMem {U : Unicode} {host : Chars} (h : IsWireAddress U host) :
    '@' ∉ host ∧ wirePrefix <+: host ∧
      ∃ rest, host = ['w', 'h'] ++ ':' :: rest ∧ ':' ∉ rest := by
  obtain ⟨name, a, suf, hsuf, rfl, ha, hname⟩ := h
  have hnot : ∀ c, c ∉ spell (name, a) → c ∉ wnsSuffix → c ∉ spell (name, a) ++ suf := by
    intro c hspell hwns
    rw [List.mem_append, not_or]
    rcases hsuf with rfl | rfl
    · exact ⟨hspell, List.not_mem_nil⟩
    · exact ⟨hspell, hwns⟩
  have hat := hnot '@' (notMem_spell ha hname (by decide) (by decide) (by decide) (by decide))
    (by decide)
  have hcolon := hnot ':' (notMem_spell ha hname (by decide) (by decide) (by decide) (by decide))
    (by decide)
  refine ⟨?_, List.prefix_append _ _, '/' :: '/' :: (spell (name, a) ++ suf), rfl, ?_⟩
  · rw [List.mem_append, not_or]
    exact ⟨by decide, hat⟩
  · simp only [List.mem_cons, not_or]
    exact ⟨by decide, by decide, hcolon⟩


/-- What has no `@` in it is in the user name or in the host. -/
theorem infix_withUser_iff {i : Chars} (hi : '@' ∉ i) (user : Option Chars) (host : Chars) :
    i <:+: withUser user host ↔ (∃ u, user = some u ∧ i <:+: u) ∨ i <:+: host := by
  cases user with
  | none => simp [withUser]
  | some u => simp [withUser, infix_append_cons_iff hi]

theorem notMem_withUser {c : Char} {user : Option Chars} {host : Chars} (hc : c ≠ '@')
    (huser : ∀ u, user = some u → c ∉ u) (hhost : c ∉ host) : c ∉ withUser user host := by
  cases user with
  | none => exact hhost
  | some u =>
    rw [withUser, List.mem_append, List.mem_cons, not_or, not_or]
    exact ⟨huser u rfl, hc, hhost⟩

theorem parsesBack_code {user : Option Chars} {host path : Chars}
    (huser : ∀ u, user = some u → IsUser u) (hhost : IsCode host) :
    ParsesBack user host path ↔
      ¬ wirePrefix <:+: host ++ ':' :: path ∨ ∃ u, user = some u ∧ wnsSuffix <:+: u := by
  have hat : '@' ∉ host := code_notMem hhost (by decide) (by decide) (by decide)
  have hdot : '.' ∉ host := code_notMem hhost (by decide) (by decide) (by decide)
  have hcolon : ':' ∉ host := code_notMem hhost (by decide) (by decide) (by decide)
  have hfront : ':' ∉ withUser user host :=
    notMem_withUser (by decide) (fun u hu => (huser u hu).2) hcolon
  have hwire : wirePrefix <:+: withUser user host ++ ':' :: path ↔
      wirePrefix <:+: host ++ ':' :: path := by
    rw [← withUser_append, infix_withUser_iff (by decide)]
    apply or_iff_right
    rintro ⟨u, hu, hin⟩
    exact (huser u hu).2 (hin.subset (by decide))
  rw [parsesBack_iff hat, ← hwire]
  by_cases hin : wirePrefix <:+: withUser user host ++ ':' :: path
  · rw [splitRemote_wire hin]
    constructor
    · rintro ⟨p, s, hfirst, _⟩
      rcases (infix_withUser_iff (by decide) user host).mp (isInfix_of_dropInfix? hfirst) with
        hu | hh
      · exact .inr hu
      · exact absurd (hh.subset (by decide)) hdot
    · rintro (hnot | hu)
      · exact absurd hin hnot
      · obtain ⟨p, s, hfirst⟩ :=
          exists_dropInfix? ((infix_withUser_iff (by decide) user host).mpr (.inl hu))
        refine ⟨p, s, hfirst, fun hs => hfront ?_⟩
        rw [(dropInfix?_eq_some.mp hfirst).1]
        exact List.mem_append_right _ hs
  · exact iff_of_true (splitRemote_plain hin hfront) (.inl hin)

theorem parsesBack_address {U : Unicode} {user : Option Chars} {host path : Chars}
    (hhost : IsWireAddress U host) :
    ParsesBack user host path ↔
      wnsSuffix <:+: host ∧ ∀ u, user = some u → ¬ wnsSuffix <:+: u := by
  obtain ⟨hat, hpre, rest, hhost, hrest⟩ := address_notMem hhost
  have hwire : wirePrefix <:+: withUser user host ++ ':' :: path := by
    have hin := (infix_withUser_iff (by decide) user host).mpr (.inr hpre.isInfix)
    exact hin.trans (List.prefix_append _ _).isInfix
  -- The text up to the colon of `wh://`, and what is behind it.
  have hfront : withUser user host = withUser user ['w', 'h'] ++ ':' :: rest := by
    rw [hhost, withUser_append]
  have huser : wnsSuffix <:+: withUser user ['w', 'h'] ↔
      ∃ u, user = some u ∧ wnsSuffix <:+: u := by
    rw [infix_withUser_iff (by decide)]
    exact or_iff_left (by decide)
  have hhost' : wnsSuffix <:+: host ↔ wnsSuffix <:+: rest := by
    rw [hhost, infix_append_cons_iff (by decide)]
    exact or_iff_right (by decide)
  rw [parsesBack_iff hat, splitRemote_wire hwire, hfront, hhost']
  by_cases hin : wnsSuffix <:+: withUser user ['w', 'h']
  · refine iff_of_false ?_ ?_
    · rintro ⟨p, s, hfirst, hs⟩
      obtain ⟨p', s', hfirst'⟩ := exists_dropInfix? hin
      rw [dropInfix?_append hfirst'] at hfirst
      cases hfirst
      exact hs (List.mem_append_right _ (List.mem_cons_self ..))
    · rintro ⟨_, hnone⟩
      obtain ⟨u, hu, hwns⟩ := huser.mp hin
      exact hnone u hu hwns
  · rw [dropInfix?_skip (by decide) hin]
    constructor
    · rintro ⟨p, s, hfirst, _⟩
      obtain ⟨q, hq, _⟩ := Option.map_eq_some_iff.mp hfirst
      exact ⟨isInfix_of_dropInfix? hq, fun u hu hwns => hin (huser.mpr ⟨u, hu, hwns⟩)⟩
    · rintro ⟨hwns, _⟩
      obtain ⟨p, s, hfirst⟩ := exists_dropInfix? hwns
      refine ⟨_, s, by rw [hfirst]; rfl, fun hs => hrest ?_⟩
      rw [(dropInfix?_eq_some.mp hfirst).1]
      exact List.mem_append_right _ hs

/-- **Headline.** The operand of a code is cut into its parts if and only if there is no `wh://`
from the host on, or a `.wns` in the user name; that of an address if and only if there is a
`.wns` in the address and none in the user name. -/
theorem parse_remote_iff (U : Unicode) {user : Option Chars} (host path : Chars)
    (huser : ∀ u, user = some u → IsUser u) :
    (IsCode host → (ParsesBack user host path ↔
      ¬ wirePrefix <:+: host ++ ':' :: path ∨ ∃ u, user = some u ∧ wnsSuffix <:+: u)) ∧
    (IsWireAddress U host → (ParsesBack user host path ↔
      wnsSuffix <:+: host ∧ ∀ u, user = some u → ¬ wnsSuffix <:+: u)) :=
  ⟨fun hhost => parsesBack_code huser hhost, fun hhost => parsesBack_address hhost⟩

theorem guitar_isCode : IsCode "7-guitar-sunset".toList :=
  ⟨['7'], "guitar-sunset".toList, rfl, by simp, by simp,
    forall_mem_of_all (by decide +kernel), forall_mem_of_all (by decide +kernel)⟩

theorem parse_remote_iff_guitar :
    ParsesBack (some "bob".toList) "7-guitar-sunset".toList "/file.txt".toList :=
  ((parse_remote_iff asciiUnicode "7-guitar-sunset".toList "/file.txt".toList
    (fun u hu => by cases hu; exact ⟨by decide +kernel, by decide +kernel⟩)).1 guitar_isCode).mpr
    (.inl (by decide +kernel))

/-- **A path that hides its host.** With `wh://` in the path, a code's operand is no remote one. -/
theorem wire_in_path :
    IsCode "7-guitar-sunset".toList ∧
      parseRemote "7-guitar-sunset:/a/wh://b".toList =
        (none, none, "7-guitar-sunset:/a/wh://b".toList) ∧
      ¬ ParsesBack none "7-guitar-sunset".toList "/a/wh://b".toList :=
  ⟨guitar_isCode, by decide +kernel, by unfold ParsesBack; decide +kernel⟩

end Wormhole.L4.Wns
