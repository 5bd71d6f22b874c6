import Wormhole.Core.Regex
import Wormhole.Core.Search
import Wormhole.L4App.JsAdvertisement
import Wormhole.L4App.WormholeOpening

/-!
# What is taken for a wormhole code

The mailbox client generates codes of any number of words. `parseCode` and `isEphemeralCode`
read two words or more; the extension tells a code from an address with a pattern of two
words (`browser-extension/src/background.js`), in `parseWormholeUrl` and in `resolveAddress`.

The extension's `verifyAdvertisement` is a parameter, as are the network and the storage.

* `generated_code_recognised_iff`: a generated code is recognised everywhere if and only if
  it has two words and no other host is known under it.
-/
namespace Wormhole.L4.CodeRecognition
open Wormhole.L1 Wormhole.L4.WnsJs Wormhole.L4.Wns Wormhole.L4.WormholeOpening
open Wormhole.Regex Wormhole.Search RegularExpression

/-! ## The patterns -/

/-- `\d`. -/
def digits : Chars := "0123456789".toList

/-- `[a-z]` with `i`: without `u` no character outside ASCII is the other case of a letter. -/
def letters : Chars := "abcdefghijklmnopqrstuvwxyzABCDEFGHIJKLMNOPQRSTUVWXYZ".toList

/-- `-[a-z]+`. -/
def dashWord : RegularExpression Char := char '-' * many1 (oneOf letters)

/-- `/^\d+-[a-z]+-[a-z]+$/i`. -/
def twoWords : RegularExpression Char := many1 (oneOf digits) * (dashWord * dashWord)

/-- `/^\d+-[a-z]+-[a-z]+(-[a-z]+)*$/i`. -/
def twoWordsOrMore : RegularExpression Char :=
  many1 (oneOf digits) * (dashWord * (dashWord * star dashWord))

/-! ## The recognisers -/

/-- mirrors discovery-site/src/lib/wns/identity.js:272-277 -/
def isEphemeralCode (str : Chars) : Bool := !str.isEmpty && twoWordsOrMore.rmatch (trim str)

/-- The address and the path.
mirrors browser-extension/src/background.js:55-86 -/
def parseWormholeUrl (input : Chars) : Chars × Chars :=
  let cleaned := dropWh (trim input)
  let address := cleaned.takeWhile (· ≠ '/')
  let path := if '/' ∈ cleaned then cleaned.dropWhile (· ≠ '/') else ['/']
  let isWormholeCode := twoWords.rmatch address
  (if '.' ∉ address ∧ !isWormholeCode then address ++ wnsSuffix else address, path)

/-- `{ code, advertisement }`. -/
structure Resolution (Ad : Type) where
  code : Option Json
  advertisement : Option Ad

variable {Ad : Type}

/-- The resolution of a code that is its own address. -/
def Resolution.direct (address : Chars) : Resolution Ad :=
  ⟨some (.str (String.ofList address)), none⟩

/-- What the script reads when it resolves. -/
structure Resolver (Ad : Type) where
  isExpired : Ad → Bool
  /-- `knownHosts.get(address)`. -/
  knownHosts : Chars → Option (Resolution Ad)
  /-- What the well-known endpoint of the address serves, verified. -/
  wellKnown : Chars → Option (Resolution Ad)
  /-- `stored.addresses[address]`. -/
  stored : Chars → Option Json

/-- The known host, unless its advertisement is expired. -/
def Resolver.cached (R : Resolver Ad) (address : Chars) : Option (Resolution Ad) :=
  (R.knownHosts address).filter fun cached => !cached.advertisement.any R.isExpired

/-- The resolution, and what is set in `knownHosts` under the address.
mirrors browser-extension/src/background.js:96-152 -/
def Resolver.resolveAddress (R : Resolver Ad) (address : Chars) :
    Option (Resolution Ad) × Option (Resolution Ad) :=
  match R.cached address with
  | some cached => (some cached, none)
  | none =>
    if twoWords.rmatch address then (some (.direct address), none)
    else match R.wellKnown address with
      | some resolution => (some resolution, some resolution)
      | none =>
        (((R.stored address).filter truthy).map fun code => ⟨some code, none⟩, none)

/-- A nonempty string of digits. -/
def IsNumeric (nameplate : String) : Prop :=
  nameplate ≠ "" ∧ ∀ c ∈ nameplate.toList, c ∈ digits

/-- Every part of the system takes the code for one, `parseCode` with the nameplate. -/
structure Recognised (R : Resolver Ad) (nameplate code : String) : Prop where
  parsed : ∃ password, parseCode code = some (nameplate, password)
  ephemeral : isEphemeralCode code.toList = true
  unsuffixed : (parseWormholeUrl code.toList).1 = code.toList
  resolved : (R.resolveAddress code.toList).1 = some (.direct code.toList)

/-! ## The text of a code -/

/-- A nonempty string of letters. -/
def IsWord (w : String) : Prop := w.toList ≠ [] ∧ ∀ c ∈ w.toList, c ∈ letters

theorem isWord_ofList {cs : Chars} (h : (!cs.isEmpty && cs.all (· ∈ letters)) = true) :
    IsWord (String.ofList cs) := by
  rw [Bool.and_eq_true] at h
  unfold IsWord
  rw [String.toList_ofList]
  exact ⟨by simpa using h.1, forall_mem_of_all h.2⟩

theorem isWord_of_wordList : ∀ w ∈ wordList, IsWord w := by
  -- The letters as a list: reading them off the string for each word is slow.
  have hletters : letters = _ := String.toList_ofList
  have hword := @isWord_ofList
  rw [hletters] at hword
  unfold wordList
  iterate 32 refine List.forall_mem_cons.mpr ⟨hword (by decide +kernel), ?_⟩
  exact List.forall_mem_nil _

theorem isWord_of_selectable {numWords : Nat} {words : List String}
    (h : selectable numWords words = true) : ∀ w ∈ words, IsWord w := by
  unfold selectable at h
  rw [Bool.and_eq_true, List.all_eq_true] at h
  intro w hw
  apply isWord_of_wordList
  exact List.contains_iff_mem.mp (h.2 w hw)

theorem length_of_selectable {numWords : Nat} {words : List String}
    (h : selectable numWords words = true) : words.length = numWords := by
  unfold selectable at h
  rw [Bool.and_eq_true, decide_eq_true_eq] at h
  exact h.1

/-- The words, each behind its dash. -/
def dashed (words : List String) : List Chars := words.map fun w => '-' :: w.toList

theorem dash_intercalate (w : String) (words : List String) :
    '-' :: ("-".intercalate (w :: words)).toList = (dashed (w :: words)).flatten := by
  induction words generalizing w with
  | nil => simp [dashed]
  | cons v words ih =>
    rw [String.intercalate_cons_cons, String.toList_append, String.toList_append]
    have hv := ih v
    unfold dashed at hv ⊢
    rw [List.map_cons, List.flatten_cons, ← hv]
    simp

theorem toList_generateCode {words : List String} (nameplate : String) (h : words ≠ []) :
    (generateCode nameplate words).toList = nameplate.toList ++ (dashed words).flatten := by
  obtain ⟨w, words, rfl⟩ := List.exists_cons_of_ne_nil h
  rw [← dash_intercalate]
  simp [generateCode]

/-- The characters of a code. -/
def codeChars : Chars := '-' :: (digits ++ letters)

theorem of_codeChars : ∀ c ∈ codeChars, jsIsSpace c = false ∧ c ≠ '/' ∧ c ≠ '.' ∧ c ≠ ':' :=
  forall_mem_of_all (by decide +kernel)

theorem dash_notMem_digits : '-' ∉ digits := by decide +kernel

theorem dash_notMem_letters : '-' ∉ letters := by decide +kernel

theorem number_matches {nameplate : String} (hn : IsNumeric nameplate) :
    nameplate.toList ∈ (many1 (oneOf digits)).matches' := by
  apply mem_many1_oneOf.mpr
  exact ⟨by simpa using hn.1, hn.2⟩

theorem dashWord_matches {w : String} (hw : IsWord w) : '-' :: w.toList ∈ dashWord.matches' :=
  mem_char_mul.mpr ⟨w.toList, mem_many1_oneOf.mpr hw, rfl⟩

/-- One dash is in a word with its dash, none in a number. -/
theorem count_of_twoWords {cs : Chars} (h : twoWords.rmatch cs = true) : cs.count '-' = 2 := by
  have hword : ∀ w ∈ dashWord.matches', w.count '-' = 1 := by
    intro w hw
    obtain ⟨v, hv, rfl⟩ := mem_char_mul.mp hw
    have hnone : v.count '-' = 0 := by
      apply List.count_eq_zero.mpr
      intro hc
      exact dash_notMem_letters ((mem_many1_oneOf.mp hv).2 _ hc)
    rw [List.count_cons_self, hnone]
  rw [rmatch_iff_matches', twoWords, matches'_mul, Language.mem_mul] at h
  obtain ⟨number, hnumber, rest, hrest, rfl⟩ := h
  rw [matches'_mul, Language.mem_mul] at hrest
  obtain ⟨a, ha, b, hb, rfl⟩ := hrest
  have hnone : number.count '-' = 0 := by
    apply List.count_eq_zero.mpr
    intro hc
    exact dash_notMem_digits ((mem_many1_oneOf.mp hnumber).2 _ hc)
  rw [List.count_append, List.count_append, hword a ha, hword b hb, hnone]

section Generated

variable {nameplate : String} {words : List String} (hn : IsNumeric nameplate)
  (hwords : ∀ w ∈ words, IsWord w)
include hn hwords

theorem mem_codeChars : ∀ c ∈ nameplate.toList ++ (dashed words).flatten, c ∈ codeChars := by
  intro c hc
  unfold codeChars
  rw [List.mem_cons, List.mem_append]
  rcases List.mem_append.mp hc with hc | hc
  · exact .inr (.inl (hn.2 c hc))
  · obtain ⟨piece, hpiece, hc⟩ := List.mem_flatten.mp hc
    obtain ⟨w, hw, rfl⟩ := List.mem_map.mp hpiece
    rcases List.mem_cons.mp hc with hc | hc
    · exact .inl hc
    · exact .inr (.inr ((hwords w hw).2 c hc))

theorem count_dashes : (nameplate.toList ++ (dashed words).flatten).count '-' = words.length := by
  have hnumber : nameplate.toList.count '-' = 0 := by
    apply List.count_eq_zero.mpr
    intro hc
    exact dash_notMem_digits (hn.2 _ hc)
  rw [List.count_append, hnumber, Nat.zero_add]
  clear hnumber hn
  induction words with
  | nil => rfl
  | cons w words ih =>
    rw [List.forall_mem_cons] at hwords
    have hw : w.toList.count '-' = 0 := by
      apply List.count_eq_zero.mpr
      intro hc
      exact dash_notMem_letters (hwords.1.2 _ hc)
    unfold dashed at ih ⊢
    rw [List.map_cons, List.flatten_cons, List.count_append, List.count_cons_self, hw,
      ih hwords.2, List.length_cons]
    omega

/-! ## The mailbox client and the site -/

theorem parseCode_generated (h : 2 ≤ words.length) :
    parseCode (generateCode nameplate words) = some (nameplate, "-".intercalate words) := by
  have hne : words ≠ [] := by
    rintro rfl
    exact absurd h (by decide)
  have hcode : generateCode nameplate words = "-".intercalate (nameplate :: words) := by
    rw [String.intercalate_cons_of_ne_nil hne]
    rfl
  have hsplit : splitDashes (generateCode nameplate words) = nameplate :: words := by
    unfold splitDashes
    rw [hcode, String.toList_intercalate]
    rw [show "-".toList = ['-'] from rfl, List.splitOn_intercalate _ ?_ (by simp)]
    · simp
    · intro l hl
      obtain ⟨s, hs, rfl⟩ := List.mem_map.mp hl
      rcases List.mem_cons.mp hs with rfl | hs
      · exact fun hc => dash_notMem_digits (hn.2 _ hc)
      · exact fun hc => dash_notMem_letters ((hwords s hs).2 _ hc)
  unfold parseCode
  rw [hsplit]
  exact if_neg (by omega)

theorem twoWords_iff :
    twoWords.rmatch (nameplate.toList ++ (dashed words).flatten) = true ↔ words.length = 2 := by
  constructor
  · intro h
    rw [← count_dashes hn hwords]
    exact count_of_twoWords h
  · intro h
    obtain ⟨a, b, rfl⟩ := List.length_eq_two.mp h
    simp only [List.forall_mem_cons] at hwords
    have hflat : (dashed [a, b]).flatten = ('-' :: a.toList) ++ ('-' :: b.toList) := by
      simp [dashed]
    rw [rmatch_iff_matches', twoWords, matches'_mul, matches'_mul, hflat]
    apply Language.append_mem_mul (number_matches hn)
    exact Language.append_mem_mul (dashWord_matches hwords.1) (dashWord_matches hwords.2.1)

theorem twoWordsOrMore_generated (h : 2 ≤ words.length) :
    twoWordsOrMore.rmatch (nameplate.toList ++ (dashed words).flatten) = true := by
  match words, h, hwords with
  | a :: b :: rest, _, hwords =>
    simp only [List.forall_mem_cons] at hwords
    have hflat : (dashed (a :: b :: rest)).flatten =
        ('-' :: a.toList) ++ (('-' :: b.toList) ++ (dashed rest).flatten) := by
      simp [dashed]
    have hrest : ∀ piece ∈ dashed rest, piece ∈ dashWord.matches' := by
      intro piece hpiece
      obtain ⟨w, hw, rfl⟩ := List.mem_map.mp hpiece
      exact dashWord_matches (hwords.2.2 w hw)
    rw [rmatch_iff_matches', twoWordsOrMore, matches'_mul, matches'_mul, matches'_mul, hflat]
    apply Language.append_mem_mul (number_matches hn)
    apply Language.append_mem_mul (dashWord_matches hwords.1)
    exact Language.append_mem_mul (dashWord_matches hwords.2.1) (flatten_mem_star hrest)

end Generated

/-! ## Texts of a code's characters -/

theorem trim_of_codeChars {cs : Chars} (h : ∀ c ∈ cs, c ∈ codeChars) : trim cs = cs := by
  have hspace : ∀ c ∈ cs, ¬ jsIsSpace c = true := by
    intro c hc
    rw [(of_codeChars c (h c hc)).1]
    exact Bool.false_ne_true
  unfold trim
  rw [List.dropWhile_eq_self_iff.mpr, List.rdropWhile_eq_self_iff.mpr]
  · intro hne
    exact hspace _ (List.getLast_mem hne)
  · intro hpos
    exact hspace _ (List.getElem_mem hpos)

theorem parseWormholeUrl_of_codeChars {cs : Chars} (h : ∀ c ∈ cs, c ∈ codeChars) :
    parseWormholeUrl cs = (if twoWords.rmatch cs then cs else cs ++ wnsSuffix, ['/']) := by
  have hwire : dropWh cs = cs := by
    apply if_neg
    intro hpre
    have hcolon : ':' ∈ cs := hpre.subset (by decide)
    exact (of_codeChars _ (h _ hcolon)).2.2.2 rfl
  have haddress : cs.takeWhile (· ≠ '/') = cs := by
    rw [List.takeWhile_eq_self_iff]
    intro c hc
    exact decide_eq_true (of_codeChars c (h c hc)).2.1
  have hslash : '/' ∉ cs := fun hc => (of_codeChars _ (h _ hc)).2.1 rfl
  have hdot : '.' ∉ cs := fun hc => (of_codeChars _ (h _ hc)).2.2.1 rfl
  unfold parseWormholeUrl
  rw [trim_of_codeChars h, hwire]
  simp only [haddress, if_neg hslash]
  cases twoWords.rmatch cs with
  | true => simp
  | false => simp [hdot]

theorem isEphemeralCode_of_codeChars {cs : Chars} (h : ∀ c ∈ cs, c ∈ codeChars)
    (hmatch : twoWordsOrMore.rmatch cs = true) : isEphemeralCode cs = true := by
  unfold isEphemeralCode
  rw [trim_of_codeChars h, hmatch, Bool.and_true]
  cases cs with
  | nil => cases hmatch
  | cons c cs => rfl

theorem resolveAddress_twoWords (R : Resolver Ad) {cs : Chars} (h : twoWords.rmatch cs = true) :
    (R.resolveAddress cs).1 = some (.direct cs) ↔
      ∀ cached, R.cached cs = some cached → cached = .direct cs := by
  unfold Resolver.resolveAddress
  cases R.cached cs with
  | none => simp [h]
  | some cached => simp

/-- **Headline.** A generated code is recognised everywhere if and only if it has two words and
no other live host is known under it. -/
theorem generated_code_recognised_iff (R : Resolver Ad) {nameplate : String} {numWords : Nat}
    {words : List String} (hn : IsNumeric nameplate) (h2 : 2 ≤ numWords)
    (hwords : selectable numWords words = true) :
    Recognised R nameplate (generateCode nameplate words) ↔
      numWords = 2 ∧ ∀ cached, R.cached (generateCode nameplate words).toList = some cached →
        cached = .direct (generateCode nameplate words).toList := by
  have hlen := length_of_selectable hwords
  have hw := isWord_of_selectable hwords
  have hlong : 2 ≤ words.length := by omega
  have hne : words ≠ [] := List.ne_nil_of_length_pos (by omega)
  have htext := toList_generateCode nameplate hne
  have hchars : ∀ c ∈ (generateCode nameplate words).toList, c ∈ codeChars :=
    htext ▸ mem_codeChars hn hw
  have htwo : twoWords.rmatch (generateCode nameplate words).toList = true ↔ numWords = 2 := by
    rw [htext, twoWords_iff hn hw, hlen]
  constructor
  · intro h
    have hmatch : twoWords.rmatch (generateCode nameplate words).toList = true := by
      have hurl := h.unsuffixed
      rw [parseWormholeUrl_of_codeChars hchars] at hurl
      by_contra hno
      rw [if_neg hno] at hurl
      have hlen := congrArg List.length hurl
      simp [wnsSuffix] at hlen
    exact ⟨htwo.mp hmatch, (resolveAddress_twoWords R hmatch).mp h.resolved⟩
  · intro h
    have hmatch := htwo.mpr h.1
    have hmore : twoWordsOrMore.rmatch (generateCode nameplate words).toList = true :=
      htext ▸ twoWordsOrMore_generated hn hw hlong
    exact {
      parsed := ⟨_, parseCode_generated hn hw hlong⟩
      ephemeral := isEphemeralCode_of_codeChars hchars hmore
      unsuffixed := by rw [parseWormholeUrl_of_codeChars hchars, if_pos hmatch]
      resolved := (resolveAddress_twoWords R hmatch).mpr h.2 }

/-- Nothing is known, served or stored. -/
def blankResolver : Resolver Unit := ⟨fun _ => false, fun _ => none, fun _ => none, fun _ => none⟩

theorem generated_code_recognised_iff_guitar :
    Recognised blankResolver "7" (generateCode "7" ["guitar", "sunset"]) :=
  (generated_code_recognised_iff blankResolver
    ⟨by decide, forall_mem_of_all (by decide +kernel)⟩ (le_refl 2) (by decide +kernel)).mpr
    ⟨rfl, by simp [Resolver.cached, blankResolver]⟩

theorem resolveAddress_blank {cs : Chars} (h : twoWords.rmatch cs = false) :
    (blankResolver.resolveAddress cs).1 = none := by
  unfold Resolver.resolveAddress
  simp [Resolver.cached, blankResolver, h]

/-- **A code taken for an address.** With three words it is given a suffix, and not resolved. -/
theorem three_words_not_recognised :
    selectable 3 ["guitar", "sunset", "river"] = true ∧
      generateCode "7" ["guitar", "sunset", "river"] = "7-guitar-sunset-river" ∧
      parseWormholeUrl "7-guitar-sunset-river".toList =
        ("7-guitar-sunset-river.wns".toList, ['/']) ∧
      (blankResolver.resolveAddress "7-guitar-sunset-river".toList).1 = none ∧
      ¬ Recognised blankResolver "7" "7-guitar-sunset-river" := by
  have hno : twoWords.rmatch "7-guitar-sunset-river".toList = false := by
    apply Bool.eq_false_iff.mpr
    intro h
    exact absurd (count_of_twoWords h) (by decide +kernel)
  have hnone := resolveAddress_blank hno
  refine ⟨by decide +kernel, by decide +kernel, ?_, hnone, ?_⟩
  · rw [parseWormholeUrl_of_codeChars (forall_mem_of_all (by decide +kernel)), hno]
    rfl
  · intro h
    rw [h.resolved] at hnone
    cases hnone

end Wormhole.L4.CodeRecognition
