import Mathlib.Data.List.DropRight
import Wormhole.L4App.SignMessages

/-!
# WNS URIs

`parse_scoped_wns_address` of `src/wh/wns/identity.py` and `parseWNSAddress` of
`discovery-site/src/lib/wns/identity.js`. Both strip blanks, `wh://`, `.wns` and
a user name and read `[name.]address` from the rest, but they strip in different
orders, and the JavaScript one folds the case first and takes any name.

`readScoped_iff` and `readParts_iff` say what the two read in what is left, and
`readParts_of_readScoped` that the JavaScript one reads whatever the Python one does.
-/
namespace Wormhole.L4.Wns
open Wormhole.L1

abbrev Chars := List Char

/-! ## Stripping -/

def wirePrefix : Chars := ['w', 'h', ':', '/', '/']

def wnsSuffix : Chars := ['.', 'w', 'n', 's']

def dropWh (cs : Chars) : Chars := if wirePrefix <+: cs then cs.drop 5 else cs

def dropWns (cs : Chars) : Chars := if wnsSuffix <:+ cs then cs.take (cs.length - 4) else cs

/-- What comes after the last `c`, everything when there is none. -/
def afterLast (c : Char) (cs : Chars) : Chars := cs.rtakeWhile (· ≠ c)

/-- What comes after the first `c`, everything when there is none. -/
def afterFirst (c : Char) (cs : Chars) : Chars :=
  match cs.dropWhile (· ≠ c) with
  | [] => cs
  | _ :: rest => rest

/-- White space and line terminators, which `String.prototype.trim` takes off. -/
def jsIsSpace (c : Char) : Bool :=
  let n := c.toNat
  (9 ≤ n && n ≤ 13) || n = 0x20 || n = 0xa0 || n = 0x1680 || (0x2000 ≤ n && n ≤ 0x200a) ||
    n = 0x2028 || n = 0x2029 || n = 0x202f || n = 0x205f || n = 0x3000 || n = 0xfeff

def trim (cs : Chars) : Chars := (cs.dropWhile jsIsSpace).rdropWhile jsIsSpace

/-- What `str.isalnum` and `toLowerCase` do outside ASCII. -/
structure Unicode where
  alnum : Char → Bool
  lower : Chars → Chars

def isAscii (c : Char) : Bool := c.toNat < 128

def Unicode.isAlnum (U : Unicode) (c : Char) : Bool :=
  if isAscii c then c.isAlphanum else U.alnum c

/-- `s.toLowerCase()`. -/
def Unicode.toLower (U : Unicode) (cs : Chars) : Chars :=
  if cs.all isAscii then cs.map Char.toLower else U.lower cs

variable (U : Unicode)

/-! ## The Python parser -/

def isBase32 (cs : Chars) : Bool := cs.length = 26 && cs.all (· ∈ BASE32_ALPHABET.toList)

/-- `scoped_name and scoped_name.replace("-", "").replace("_", "").isalnum()` -/
def validName (name : Chars) : Bool :=
  let core := name.filter fun c => c ≠ '-' ∧ c ≠ '_'
  !core.isEmpty && core.all U.isAlnum

/-- mirrors src/wh/wns/identity.py:431-449 -/
def readScoped (rest : Chars) : Option (Option Chars × Chars) :=
  let address := rest.rtakeWhile (· ≠ '.')
  let name := rest.take (rest.length - address.length - 1)
  if '.' ∈ rest ∧ validName U name ∧ isBase32 address then some (some name, address)
  else if isBase32 rest then some (none, rest)
  else none

/-- What is left of a URI.
mirrors src/wh/wns/identity.py:416-429 -/
def pyRest (uri : Chars) : Chars := dropWns (dropWh (afterLast '@' (strip uri)))

/-- mirrors src/wh/wns/identity.py:404-449 -/
def parseScopedWnsAddress (uri : Chars) : Option (Option Chars × Chars) := readScoped U (pyRest uri)

/-- mirrors src/wh/wns/identity.py:384-401 -/
def parseWnsAddress (uri : Chars) : Option Chars := (parseScopedWnsAddress U uri).map Prod.snd

/-! ## The JavaScript parser -/

/-- mirrors discovery-site/src/lib/wns/identity.js:228-233 -/
def isValidAddress (address : Chars) : Bool := isBase32 (U.toLower address)

structure Parsed where
  address : Chars
  scopedName : Option Chars
  username : Option Chars
  fullUrl : Chars
  deriving DecidableEq

def fullUrl (username scopedName : Option Chars) (address : Chars) : Chars :=
  let part (c : Char) : Option Chars → Chars
    | some (x :: xs) => x :: xs ++ [c]
    | _ => []
  wirePrefix ++ part '@' username ++ part '.' scopedName ++ address ++ wnsSuffix

def jsNormalized (url : Chars) : Chars := dropWns (dropWh (trim (U.toLower url)))

/-- What is left of a URL. -/
def jsRest (url : Chars) : Chars := afterFirst '@' (jsNormalized U url)

/-- `normalized.split('.')`, in at most two parts.
mirrors discovery-site/src/lib/wns/identity.js:196-218 -/
def readParts (rest : Chars) : Option (Option Chars × Chars) :=
  match rest.dropWhile (· ≠ '.') with
  | [] => if isValidAddress U rest then some (none, rest) else none
  | _ :: address =>
    if '.' ∈ address then none
    else if isValidAddress U address then some (some (rest.takeWhile (· ≠ '.')), address)
    else none

/-- mirrors discovery-site/src/lib/wns/identity.js:163-226 -/
def parseWNSAddress (url : Chars) : Option Parsed :=
  if url = [] then none
  else
    let normalized := jsNormalized U url
    let username :=
      if '@' ∈ normalized then some (normalized.takeWhile (· ≠ '@')) else none
    (readParts U (jsRest U url)).map fun (scopedName, address) =>
      ⟨address, scopedName, username, fullUrl username scopedName address⟩

/-! ## What is an address in the rest -/

/-- A name and an address as they stand in a URI. -/
def spell : Option Chars × Chars → Chars
  | (none, a) => a
  | (some name, a) => name ++ '.' :: a

variable {U}

theorem base32_ascii {cs : Chars} (h : isBase32 cs = true) : cs.all isAscii = true := by
  have hall : ∀ c ∈ BASE32_ALPHABET.toList, isAscii c = true := List.all_eq_true.mp (by decide)
  rw [isBase32, Bool.and_eq_true] at h
  rw [List.all_eq_true] at h ⊢
  exact fun c hc => hall c (of_decide_eq_true (h.2 c hc))

theorem base32_lower {cs : Chars} (h : isBase32 cs = true) : U.toLower cs = cs := by
  have hall : BASE32_ALPHABET.toList.all (fun c => c.toLower == c) = true := by decide
  rw [Unicode.toLower, if_pos (base32_ascii h)]
  rw [isBase32, Bool.and_eq_true, List.all_eq_true] at h
  refine (List.map_congr_left fun c hc =>
    eq_of_beq (List.all_eq_true.mp hall c (of_decide_eq_true (h.2 c hc)))).trans ?_
  exact List.map_id cs

theorem base32_valid {cs : Chars} (h : isBase32 cs = true) : isValidAddress U cs = true := by
  rw [isValidAddress, base32_lower h]
  exact h

theorem dot_notMem_base32 {cs : Chars} (h : isBase32 cs = true) : '.' ∉ cs := by
  rw [isBase32, Bool.and_eq_true, List.all_eq_true] at h
  intro hd
  have := of_decide_eq_true (h.2 '.' hd)
  revert this
  decide

theorem dot_notMem_validName {name : Chars} (h : validName U name = true) : '.' ∉ name := by
  intro hd
  rw [validName, Bool.and_eq_true, List.all_eq_true] at h
  have hcore : '.' ∈ name.filter fun c => c ≠ '-' ∧ c ≠ '_' :=
    List.mem_filter.mpr ⟨hd, by decide⟩
  have := h.2 '.' hcore
  revert this
  simp [Unicode.isAlnum, isAscii]

theorem rtakeWhile_mark {c : Char} {name a : Chars} (h : c ∉ a) :
    (name ++ c :: a).rtakeWhile (· ≠ c) = a := by
  have hr : (a.reverse ++ c :: name.reverse).takeWhile (· ≠ c) = a.reverse := by
    rw [List.takeWhile_append_of_pos]
    · simp
    · intro x hx
      refine decide_eq_true fun e => h ?_
      rw [← e]
      exact List.mem_reverse.mp hx
  simp only [List.rtakeWhile, List.reverse_append, List.reverse_cons, List.append_assoc,
    List.singleton_append, hr, List.reverse_reverse]

/-- A text with a mark in it, cut at the last one. -/
theorem split_last_mark {c : Char} {rest : Chars} (h : c ∈ rest) :
    ∃ name a, rest = name ++ c :: a ∧ c ∉ a := by
  obtain ⟨xs, ys, hr, hx⟩ := List.eq_append_cons_of_mem (List.mem_reverse.mpr h)
  refine ⟨ys.reverse, xs.reverse, ?_, fun hd => hx (List.mem_reverse.mp hd)⟩
  have := congrArg List.reverse hr
  simpa using this

/-! ## The results -/

theorem readScoped_iff (rest a : Chars) (name : Option Chars) :
    readScoped U rest = some (name, a) ↔ spell (name, a) = rest ∧ isBase32 a = true ∧
      ∀ n, name = some n → validName U n = true := by
  by_cases hdot : '.' ∈ rest
  · obtain ⟨n, b, rfl, hb⟩ := split_last_mark hdot
    have htake : (n ++ '.' :: b).take ((n ++ '.' :: b).length - b.length - 1) = n := by
      have hlen : (n ++ '.' :: b).length - b.length - 1 = n.length := by
        simp only [List.length_append, List.length_cons]
        omega
      rw [hlen, List.take_left]
    have hnot : isBase32 (n ++ '.' :: b) ≠ true := fun h => dot_notMem_base32 h hdot
    rw [readScoped]
    simp only [rtakeWhile_mark hb, htake, hdot, true_and, if_neg hnot]
    constructor
    · intro h
      split at h
      · rename_i hc
        cases h
        exact ⟨rfl, hc.2, fun n' hn => by cases hn; exact hc.1⟩
      · cases h
    · rintro ⟨hs, hb32, hv⟩
      cases name with
      | none =>
        dsimp only [spell] at hs
        rw [hs] at hb32
        exact absurd hb32 hnot
      | some n' =>
        dsimp only [spell] at hs
        have hcut := congrArg (fun cs => List.rtakeWhile (· ≠ '.') cs) hs
        simp only [rtakeWhile_mark hb, rtakeWhile_mark (dot_notMem_base32 hb32)] at hcut
        subst hcut
        have hname : n' = n := List.append_cancel_right hs
        subst hname
        rw [if_pos ⟨hv n' rfl, hb32⟩]
  · rw [readScoped]
    simp only [hdot, false_and, if_false]
    constructor
    · intro h
      split at h
      · rename_i hc
        cases h
        exact ⟨rfl, hc, fun n hn => by cases hn⟩
      · cases h
    · rintro ⟨hs, hb32, -⟩
      cases name with
      | none =>
        dsimp only [spell] at hs
        subst hs
        rw [if_pos hb32]
      | some n =>
        dsimp only [spell] at hs
        exact absurd (by rw [← hs]; simp) hdot

theorem dropWhile_mark {c : Char} {name rest : Chars} (h : c ∉ name) :
    (name ++ c :: rest).dropWhile (· ≠ c) = c :: rest ∧
      (name ++ c :: rest).takeWhile (· ≠ c) = name := by
  have hall : ∀ x ∈ name, decide (x ≠ c) = true := fun x hx =>
    decide_eq_true fun e => h (by rw [← e]; exact hx)
  constructor
  · rw [List.dropWhile_append_of_pos hall]
    simp
  · rw [List.takeWhile_append_of_pos hall]
    simp

theorem dropWhile_no_mark {c : Char} {rest : Chars} (h : c ∉ rest) :
    rest.dropWhile (· ≠ c) = [] := by
  rw [List.dropWhile_eq_nil_iff]
  exact fun x hx => decide_eq_true fun e => h (by rw [← e]; exact hx)

theorem readParts_iff (rest a : Chars) (name : Option Chars) :
    readParts U rest = some (name, a) ↔ spell (name, a) = rest ∧ isValidAddress U a = true ∧
      '.' ∉ a ∧ ∀ n, name = some n → '.' ∉ n := by
  by_cases hdot : '.' ∈ rest
  · obtain ⟨n, b, rfl, hn⟩ := List.eq_append_cons_of_mem hdot
    rw [readParts]
    simp only [(dropWhile_mark hn).1, (dropWhile_mark hn).2]
    constructor
    · intro h
      split at h
      · cases h
      · rename_i hb
        split at h
        · rename_i hv
          cases h
          exact ⟨rfl, hv, hb, fun n' hn' => by cases hn'; exact hn⟩
        · cases h
    · rintro ⟨hs, hv, ha, hname⟩
      cases name with
      | none =>
        dsimp only [spell] at hs
        rw [hs] at ha
        exact absurd hdot ha
      | some n' =>
        dsimp only [spell] at hs
        have hn' := hname n' rfl
        have hcut := congrArg (fun cs => List.takeWhile (· ≠ '.') cs) hs
        simp only [(dropWhile_mark hn).2, (dropWhile_mark hn').2] at hcut
        subst hcut
        have hab := List.append_cancel_left hs
        cases hab
        rw [if_neg ha, if_pos hv]
  · rw [readParts]
    simp only [dropWhile_no_mark hdot]
    constructor
    · intro h
      split at h
      · rename_i hv
        cases h
        exact ⟨rfl, hv, hdot, fun n hn => by cases hn⟩
      · cases h
    · rintro ⟨hs, hv, -, -⟩
      cases name with
      | none =>
        dsimp only [spell] at hs
        subst hs
        rw [if_pos hv]
      | some n =>
        dsimp only [spell] at hs
        exact absurd (by rw [← hs]; simp) hdot

/-- What the Python parser finds, the JavaScript one finds in the same text. -/
theorem readParts_of_readScoped {rest : Chars} {x : Option Chars × Chars}
    (h : readScoped U rest = some x) : readParts U rest = some x := by
  obtain ⟨name, a⟩ := x
  obtain ⟨hs, ha, hv⟩ := (readScoped_iff _ _ _).mp h
  exact (readParts_iff _ _ _).mpr ⟨hs, base32_valid ha, dot_notMem_base32 ha,
    fun n hn => dot_notMem_validName (hv n hn)⟩

theorem parseWNSAddress_some (url : Chars) (name : Option Chars) (a : Chars) :
    (∃ p, parseWNSAddress U url = some p ∧ p.address = a ∧ p.scopedName = name) ↔
      readParts U (jsRest U url) = some (name, a) := by
  rw [parseWNSAddress]
  split
  · rename_i hnil
    subst hnil
    have hrest : jsRest U [] = [] := by
      simp [jsRest, jsNormalized, Unicode.toLower, trim, dropWh, dropWns, wirePrefix, wnsSuffix,
        afterFirst]
    constructor
    · rintro ⟨p, hp, -⟩
      cases hp
    · intro h
      rw [hrest] at h
      obtain ⟨hs, hv, -⟩ := (readParts_iff _ _ _).mp h
      cases name with
      | none =>
        dsimp only [spell] at hs
        subst hs
        simp [isValidAddress, Unicode.toLower, isBase32] at hv
      | some n => simp [spell] at hs
  · cases hr : readParts U (jsRest U url) with
    | none => simp
    | some x =>
      obtain ⟨n, b⟩ := x
      constructor
      · rintro ⟨p, hp, rfl, rfl⟩
        cases hp
        rfl
      · intro h
        cases h
        exact ⟨_, rfl, rfl, rfl⟩

/-- ASCII only. -/
def asciiUnicode : Unicode := ⟨fun _ => false, id⟩

end Wormhole.L4.Wns
