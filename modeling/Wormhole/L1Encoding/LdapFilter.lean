import Mathlib.Data.List.Infix
import Wormhole.L1Encoding.PyBytes

/-!
# LDAP search filters

The filters of a directory search: how a text is read as one, and which entries it selects,
in three-valued logic. An asserted value is written with escaped octets; between asterisks
stand the pieces of a substring match.

* `components_plain`: a text without `*` and `\` asserts itself.
* `join_components_eq`: nothing else does.
* `hasPieces_join`: whatever is put for the asterisks is a value that matches.
* `ofString_item`: an item is read up to the first `)`, so a text that is put between
  `(attribute=` and `)` is read as one asserted value or the filter is refused.
* `eval_equal`, `eval_join`: what an equality and a substring match select.
-/
namespace Wormhole.L1.Ldap

/-! ## Asserted values -/

/-- The bytes of a text. -/
def utf8 (cs : List Char) : Bytes := cs.flatMap String.utf8EncodeChar

def hexDigit (c : Char) : Option Nat :=
  if c.isDigit then some (c.toNat - 48)
  else if 97 ≤ c.toNat ∧ c.toNat ≤ 102 then some (c.toNat - 87)
  else if 65 ≤ c.toNat ∧ c.toNat ≤ 70 then some (c.toNat - 55)
  else none

/-- The byte of an escape. -/
def hexByte (high low : Char) : Option UInt8 :=
  (hexDigit high).bind fun a => (hexDigit low).map fun b => UInt8.ofNat (a * 16 + b)

/-- The pieces of an asserted value: what stands before the first asterisk, and what follows
each of them. `none` is a text that is no value. -/
def components : List Char → Option (Bytes × List Bytes)
  | [] => some ([], [])
  | c :: cs =>
    if c = '*' then (components cs).map fun p => ([], p.1 :: p.2)
    else if c = '\\' then
      match cs with
      | high :: low :: cs =>
        (hexByte high low).bind fun b => (components cs).map fun p => (b :: p.1, p.2)
      | _ => none
    else if c = '(' ∨ c = ')' ∨ c.toNat = 0 then none
    else (components cs).map fun p => (String.utf8EncodeChar c ++ p.1, p.2)

/-- The pieces with one filler for each asterisk. -/
def join {α : Type} (filler : α) (first : List α) (rest : List (List α)) : List α :=
  first ++ rest.flatMap (filler :: ·)

/-- No character of the text has a meaning of its own in a value. -/
def Plain (cs : List Char) : Prop := '*' ∉ cs ∧ '\\' ∉ cs

instance (cs : List Char) : Decidable (Plain cs) := inferInstanceAs (Decidable (_ ∧ _))

theorem utf8_cons (c : Char) (cs : List Char) :
    utf8 (c :: cs) = String.utf8EncodeChar c ++ utf8 cs := List.flatMap_cons

theorem utf8_append (cs ds : List Char) : utf8 (cs ++ ds) = utf8 cs ++ utf8 ds :=
  List.flatMap_append

theorem encode_eq_utf8 (s : String) : encode s = utf8 s.toList := by
  conv_lhs => rw [← String.ofList_toList (s := s)]
  exact encode_ofList s.toList

/-- The four ways a text begins that is a value. -/
inductive Piece : List Char → Bytes × List Bytes → Prop
  | done : Piece [] ([], [])
  | star (cs : List Char) (p : Bytes × List Bytes) (h : components cs = some p) :
      Piece ('*' :: cs) ([], p.1 :: p.2)
  | escape (high low : Char) (b : UInt8) (cs : List Char) (p : Bytes × List Bytes)
      (hb : hexByte high low = some b) (h : components cs = some p) :
      Piece ('\\' :: high :: low :: cs) (b :: p.1, p.2)
  | char (c : Char) (cs : List Char) (p : Bytes × List Bytes) (hstar : c ≠ '*')
      (hescape : c ≠ '\\') (hclose : c ≠ ')') (h : components cs = some p) :
      Piece (c :: cs) (String.utf8EncodeChar c ++ p.1, p.2)

theorem piece {cs : List Char} {p : Bytes × List Bytes} (h : components cs = some p) :
    Piece cs p := by
  cases cs with
  | nil =>
    cases h
    exact .done
  | cons c cs =>
    rw [components.eq_def] at h
    dsimp only at h
    split at h
    · rename_i hstar
      obtain ⟨q, hq, rfl⟩ := Option.map_eq_some_iff.mp h
      subst hstar
      exact .star cs q hq
    · rename_i hstar
      split at h
      · rename_i hescape
        subst hescape
        split at h
        · rename_i high low ds
          obtain ⟨b, hb, h⟩ := Option.bind_eq_some_iff.mp h
          obtain ⟨q, hq, rfl⟩ := Option.map_eq_some_iff.mp h
          exact .escape high low b ds q hb hq
        · cases h
      · rename_i hescape
        split at h
        · cases h
        · rename_i hparen
          obtain ⟨q, hq, rfl⟩ := Option.map_eq_some_iff.mp h
          exact .char c cs q hstar hescape (fun hc => hparen (.inr (.inl hc))) hq

/-- The induction over the text that the pieces are read from. -/
theorem components_induction {I : List Char → Bytes × List Bytes → Prop} (done : I [] ([], []))
    (star : ∀ cs p, components cs = some p → I cs p → I ('*' :: cs) ([], p.1 :: p.2))
    (escape : ∀ high low b cs p, hexByte high low = some b → components cs = some p → I cs p →
      I ('\\' :: high :: low :: cs) (b :: p.1, p.2))
    (char : ∀ c cs p, c ≠ '*' ∧ c ≠ '\\' ∧ c ≠ ')' → I cs p →
      I (c :: cs) (String.utf8EncodeChar c ++ p.1, p.2)) :
    ∀ {cs p}, components cs = some p → I cs p := by
  intro cs
  induction h : cs.length using Nat.strongRecOn generalizing cs with
  | ind n ih =>
    subst h
    intro p hp
    cases piece hp with
    | done => exact done
    | star cs q hq => exact star cs q hq (ih _ (by simp) rfl hq)
    | escape high low b cs q hb hq =>
      exact escape high low b cs q hb hq (ih _ (by simp only [List.length_cons]; omega) rfl hq)
    | char c cs q hstar hescape hclose hq =>
      exact char c cs q ⟨hstar, hescape, hclose⟩ (ih _ (by simp) rfl hq)

theorem hexByte_ne_close {high low : Char} {b : UInt8} (h : hexByte high low = some b) :
    high ≠ ')' ∧ low ≠ ')' := by
  have hclose : hexDigit ')' = none := by decide
  obtain ⟨a, ha, h⟩ := Option.bind_eq_some_iff.mp h
  obtain ⟨d, hd, _⟩ := Option.map_eq_some_iff.mp h
  constructor
  · rintro rfl
    rw [hclose] at ha
    cases ha
  · rintro rfl
    rw [hclose] at hd
    cases hd

/-- No value has a `)` in it. -/
theorem close_notMem {cs : List Char} {p : Bytes × List Bytes} (h : components cs = some p) :
    ')' ∉ cs := by
  refine components_induction (I := fun cs _ => ')' ∉ cs) List.not_mem_nil ?_ ?_ ?_ h
  · intro cs _ _ ih
    simp [ih]
  · intro high low b cs _ hb _ ih
    have hne := hexByte_ne_close hb
    simp [ih, hne.1.symm, hne.2.symm]
  · intro c cs _ hc ih
    simp [ih, hc.2.2.symm]

/-- **A plain text asserts itself.** -/
theorem components_plain {cs : List Char} {p : Bytes × List Bytes} (hplain : Plain cs)
    (h : components cs = some p) : p = (utf8 cs, []) := by
  refine components_induction (I := fun cs p => Plain cs → p = (utf8 cs, [])) ?_ ?_ ?_ ?_ h hplain
  · exact fun _ => rfl
  · exact fun cs _ _ _ hplain => absurd List.mem_cons_self hplain.1
  · exact fun high low b cs _ _ _ _ hplain => absurd List.mem_cons_self hplain.2
  · intro c cs p _ ih hplain
    have htail := ih ⟨fun hm => hplain.1 (List.mem_cons_of_mem c hm),
      fun hm => hplain.2 (List.mem_cons_of_mem c hm)⟩
    rw [htail, utf8_cons]

theorem length_utf8EncodeChar_pos (c : Char) : 0 < (String.utf8EncodeChar c).length := by
  rw [String.length_utf8EncodeChar]
  exact c.utf8Size_pos

/-- One byte for each asterisk makes the value no longer than its text. -/
theorem length_join_components {cs : List Char} {p : Bytes × List Bytes}
    (h : components cs = some p) (filler : UInt8) :
    (join filler p.1 p.2).length ≤ (utf8 cs).length := by
  refine components_induction
    (I := fun cs p => (join filler p.1 p.2).length ≤ (utf8 cs).length) ?_ ?_ ?_ ?_ h
  · exact Nat.le_refl 0
  · intro cs p _ ih
    have := length_utf8EncodeChar_pos '*'
    simp only [join, List.nil_append, List.flatMap_cons, List.cons_append, List.length_cons,
      utf8_cons, List.length_append] at ih ⊢
    omega
  · intro high low b cs p _ _ ih
    have := length_utf8EncodeChar_pos '\\'
    simp only [join, List.cons_append, List.length_cons, utf8_cons, List.length_append] at ih ⊢
    omega
  · intro c cs p _ ih
    simp only [join, List.append_assoc, List.length_append, utf8_cons] at ih ⊢
    omega

/-- **Only a plain text asserts itself**: when the asterisks are filled with another
character, what comes out is another text. -/
theorem join_components_eq {cs : List Char} {p : Bytes × List Bytes} {filler : UInt8}
    (hfiller : filler ≠ 42) (h : components cs = some p)
    (heq : join filler p.1 p.2 = utf8 cs) : Plain cs := by
  refine components_induction
    (I := fun cs p => join filler p.1 p.2 = utf8 cs → Plain cs) ?_ ?_ ?_ ?_ h heq
  · exact fun _ => ⟨List.not_mem_nil, List.not_mem_nil⟩
  · intro cs p _ _ heq
    have hstar : String.utf8EncodeChar '*' = [42] := by decide
    rw [utf8_cons, hstar] at heq
    simp only [join, List.nil_append, List.flatMap_cons, List.cons_append] at heq
    exact absurd (List.cons.inj heq).1 hfiller
  · intro high low b cs p _ hp _ heq
    -- an escape takes three bytes or more and stands for one
    have hlen := length_join_components hp filler
    have hescape := length_utf8EncodeChar_pos '\\'
    have hhigh := length_utf8EncodeChar_pos high
    have heq := congrArg List.length heq
    simp only [join, List.cons_append, List.length_cons, utf8_cons, List.length_append] at heq hlen
    omega
  · intro c cs p hc ih heq
    rw [utf8_cons] at heq
    simp only [join, List.append_assoc] at heq
    have htail := ih (List.append_cancel_left heq)
    exact ⟨by simp [hc.1.symm, htail.1], by simp [hc.2.1.symm, htail.2]⟩

/-! ## Matching the pieces -/

/-- The pieces follow each other, each after a gap, to the end of the value. -/
def follows {α : Type} [DecidableEq α] : List (List α) → List α → Bool
  | [], w => w.isEmpty
  | c :: cs, w => w.tails.any fun t => c.isPrefixOf t && follows cs (t.drop c.length)

/-- The value begins with the first piece and the others follow. -/
def hasPieces {α : Type} [DecidableEq α] (first : List α) (rest : List (List α)) (w : List α) :
    Bool :=
  first.isPrefixOf w && follows rest (w.drop first.length)

theorem follows_flatMap {α : Type} [DecidableEq α] (filler : α) :
    ∀ rest : List (List α), follows rest (rest.flatMap (filler :: ·)) = true
  | [] => rfl
  | c :: cs => by
    have ih := follows_flatMap filler cs
    refine List.any_eq_true.mpr ⟨c ++ cs.flatMap (filler :: ·), ?_, ?_⟩
    · rw [List.mem_tails, List.flatMap_cons]
      exact List.suffix_cons filler _
    · rw [List.drop_left, ih, Bool.and_true, List.isPrefixOf_iff_prefix]
      exact List.prefix_append c _

/-- **Whatever is put for the asterisks matches.** -/
theorem hasPieces_join {α : Type} [DecidableEq α] (filler : α) (first : List α)
    (rest : List (List α)) : hasPieces first rest (join filler first rest) = true := by
  unfold hasPieces join
  rw [List.drop_left, follows_flatMap, Bool.and_true, List.isPrefixOf_iff_prefix]
  exact List.prefix_append first _

/-! ## Decoding the pieces -/

/-- The pieces as texts; `none` when one of them is not UTF-8. -/
def decodePieces (p : Bytes × List Bytes) : Option (String × List String) :=
  (decode p.1).bind fun first => (p.2.mapM decode).map fun rest => (first, rest)

theorem map_encode_of_mapM {bss : List Bytes} {ss : List String} (h : bss.mapM decode = some ss) :
    ss.map encode = bss := by
  induction bss generalizing ss with
  | nil =>
    cases h
    rfl
  | cons bs bss ih =>
    simp only [List.mapM_cons, Option.bind_eq_bind, Option.bind_eq_some_iff, Option.pure_def,
      Option.some.injEq] at h
    obtain ⟨s, hs, ss', hss, rfl⟩ := h
    rw [List.map_cons, decode_eq_some.mp hs, ih hss]

theorem utf8_join (filler : Char) (first : List Char) (rest : List (List Char)) (b : UInt8)
    (hb : String.utf8EncodeChar filler = [b]) :
    utf8 (join filler first rest) = join b (utf8 first) (rest.map utf8) := by
  unfold join
  rw [utf8_append]
  congr 1
  induction rest with
  | nil => rfl
  | cons c cs ih =>
    rw [List.flatMap_cons, utf8_append, utf8_cons, hb, ih, List.map_cons, List.flatMap_cons]
    rfl

/-- The pieces as texts have the bytes of the pieces. -/
theorem utf8_join_decoded {p : Bytes × List Bytes} {first : String} {rest : List String}
    (h : decodePieces p = some (first, rest)) {filler : Char} {b : UInt8}
    (hb : String.utf8EncodeChar filler = [b]) :
    utf8 (join filler first.toList (rest.map String.toList)) = join b p.1 p.2 := by
  obtain ⟨s, hs, h⟩ := Option.bind_eq_some_iff.mp h
  obtain ⟨ss, hss, h⟩ := Option.map_eq_some_iff.mp h
  cases h
  have hrest : (rest.map String.toList).map utf8 = p.2 := by
    rw [← map_encode_of_mapM hss, List.map_map]
    exact List.map_congr_left fun t _ => (encode_eq_utf8 t).symm
  rw [utf8_join _ _ _ b hb, hrest, ← encode_eq_utf8, decode_eq_some.mp hs]

/-! ## Filters -/

inductive Filter
  | and (fs : List Filter)
  | or (fs : List Filter)
  | not (f : Filter)
  | equal (attr : String) (value : Bytes)
  | approx (attr : String) (value : Bytes)
  | greaterOrEqual (attr : String) (value : Bytes)
  | lessOrEqual (attr : String) (value : Bytes)
  | present (attr : String)
  | substrings (attr : String) (pieces : Bytes × List Bytes)
  | extensible (attr : Option String) (dn : Bool) (rule : Option String) (value : Bytes)

/-- A short name: a letter, then letters, digits and hyphens. -/
def isKeystring : List Char → Bool
  | c :: cs => c.isAlpha && cs.all fun c => c.isAlphanum || c = '-'
  | [] => false

def isNumber (cs : List Char) : Bool :=
  cs = ['0'] || (cs.all Char.isDigit && cs.head?.any (· ≠ '0'))

/-- An object identifier, by its name or in numbers. -/
def isOid (cs : List Char) : Bool :=
  isKeystring cs || (2 ≤ (cs.splitOn '.').length && (cs.splitOn '.').all isNumber)

/-- An attribute with its options. -/
def isDescription (cs : List Char) : Bool :=
  match cs.splitOn ';' with
  | oid :: options =>
    isOid oid && options.all fun o => o ≠ [] && o.all fun c => c.isAlphanum || c = '-'
  | [] => false

/-- The characters that may stand in a description. -/
def isDescriptionChar (c : Char) : Bool := c.isAlphanum || c = '-' || c = '.' || c = ';'

/-- A value without asterisks. -/
def assertion (cs : List Char) : Option Bytes :=
  match components cs with
  | some (value, []) => some value
  | _ => none

/-- What the pieces behind `attribute=` ask for. -/
def Filter.ofPieces (attr : String) (p : Bytes × List Bytes) : Filter :=
  match p with
  | (value, []) => .equal attr value
  | ([], [[]]) => .present attr
  | p => .substrings attr p

/-- `[attribute][:dn][:rule]:=value` behind the attribute. -/
def extensibleItem (attr : Option String) (cs : List Char) : Option Filter :=
  let dn := [':', 'd', 'n', ':'].isPrefixOf cs
  let cs := if dn then cs.drop 3 else cs
  match cs with
  | ':' :: '=' :: value =>
    if attr.isSome then (assertion value).map (.extensible attr dn none) else none
  | ':' :: cs =>
    let rule := cs.takeWhile isDescriptionChar
    match cs.drop rule.length with
    | ':' :: '=' :: value =>
      if isOid rule then
        (assertion value).map (.extensible attr dn (some (String.ofList rule)))
      else none
    | _ => none
  | _ => none

/-- One item, without its parentheses. -/
def item (cs : List Char) : Option Filter :=
  let name := cs.takeWhile isDescriptionChar
  let attr := String.ofList name
  let cs := cs.drop name.length
  if name = [] then extensibleItem none cs
  else if !isDescription name then none
  else
    match cs with
    | '=' :: value => (components value).map (.ofPieces attr)
    | '~' :: '=' :: value => (assertion value).map (.approx attr)
    | '>' :: '=' :: value => (assertion value).map (.greaterOrEqual attr)
    | '<' :: '=' :: value => (assertion value).map (.lessOrEqual attr)
    | cs => extensibleItem (some attr) cs

/-- What stands in front of a closing parenthesis. -/
def closed {α : Type} : Option (α × List Char) → Option (α × List Char)
  | some (a, ')' :: cs) => some (a, cs)
  | _ => none

mutual

/-- A filter at the beginning of a text, and what follows it; the first argument bounds
how deep filters are nested. -/
def parse : Nat → List Char → Option (Filter × List Char)
  | depth + 1, '(' :: '&' :: cs => closed ((parseList depth cs).map fun p => (.and p.1, p.2))
  | depth + 1, '(' :: '|' :: cs => closed ((parseList depth cs).map fun p => (.or p.1, p.2))
  | depth + 1, '(' :: '!' :: cs => closed ((parse depth cs).map fun p => (.not p.1, p.2))
  | _ + 1, '(' :: cs =>
    closed ((item (cs.takeWhile (· ≠ ')'))).map fun f => (f, cs.dropWhile (· ≠ ')')))
  | _, _ => none

/-- One filter or more. -/
def parseList : Nat → List Char → Option (List Filter × List Char)
  | depth + 1, cs =>
    (parse depth cs).map fun p =>
      match parseList depth p.2 with
      | some q => (p.1 :: q.1, q.2)
      | none => ([p.1], p.2)
  | 0, _ => none

end

/-- The filter that a text is. Every second level of nesting takes a character. -/
def Filter.ofString (s : String) : Option Filter :=
  match parse (2 * s.length + 2) s.toList with
  | some (f, []) => some f
  | _ => none

theorem parse_item {c : Char} (cs : List Char) (depth : Nat) (hc : isDescriptionChar c = true) :
    parse (depth + 1) ('(' :: c :: cs) =
      closed ((item ((c :: cs).takeWhile (· ≠ ')'))).map fun f =>
        (f, (c :: cs).dropWhile (· ≠ ')'))) := by
  have hand : c ≠ '&' := by rintro rfl; revert hc; decide
  have hor : c ≠ '|' := by rintro rfl; revert hc; decide
  have hnot : c ≠ '!' := by rintro rfl; revert hc; decide
  simp [parse, hand, hor, hnot]

theorem item_eq {name value : List Char} (hname : isDescription name = true)
    (hchars : ∀ c ∈ name, isDescriptionChar c = true) :
    item (name ++ '=' :: value) =
      (components value).map (.ofPieces (String.ofList name)) := by
  have hne : name ≠ [] := by rintro rfl; revert hname; decide
  have htake : (name ++ '=' :: value).takeWhile isDescriptionChar = name := by
    rw [List.takeWhile_append_of_pos hchars, List.takeWhile_cons_of_neg (by decide),
      List.append_nil]
  unfold item
  dsimp only
  rw [htake, if_neg hne, List.drop_left, hname]
  rfl

/-- An item ends at the first closing parenthesis. -/
theorem parse_eq {name value rest : List Char} (depth : Nat) (hname : isDescription name = true)
    (hchars : ∀ c ∈ name, isDescriptionChar c = true) (hvalue : ')' ∉ value) :
    parse (depth + 1) ('(' :: (name ++ '=' :: (value ++ ')' :: rest))) =
      (components value).map fun p => (.ofPieces (String.ofList name) p, rest) := by
  have hopen : ∀ c ∈ name ++ '=' :: value, decide (c ≠ ')') = true := by
    intro c hc
    refine decide_eq_true ?_
    rintro rfl
    rcases List.mem_append.mp hc with hc | hc
    · exact absurd (hchars _ hc) (by decide)
    · rcases List.mem_cons.mp hc with hc | hc
      · exact absurd hc (by decide)
      · exact hvalue hc
  have hassoc : name ++ '=' :: (value ++ ')' :: rest) =
      (name ++ '=' :: value) ++ ')' :: rest := by simp
  obtain ⟨c, cs, hcs⟩ : ∃ c cs, name = c :: cs := by
    cases name with
    | nil => exact absurd hname (by decide)
    | cons c cs => exact ⟨c, cs, rfl⟩
  have hfirst : isDescriptionChar c = true := hchars c (hcs ▸ List.mem_cons_self)
  have hitem := parse_item (cs ++ '=' :: (value ++ ')' :: rest)) depth hfirst
  rw [← List.cons_append, ← hcs] at hitem
  rw [hitem, hassoc, List.takeWhile_append_of_pos hopen, List.dropWhile_append_of_pos hopen,
    List.takeWhile_cons_of_neg (by decide), List.dropWhile_cons_of_neg (by decide),
    List.append_nil, item_eq hname hchars]
  cases components value <;> rfl

/-- **A value put into an item stays a value.** Whatever text stands between `(name=` and
`)`, the whole is one item about the attribute or no filter at all. -/
theorem ofString_item {name value : List Char} (hname : isDescription name = true)
    (hchars : ∀ c ∈ name, isDescriptionChar c = true) :
    Filter.ofString (String.ofList ('(' :: (name ++ '=' :: (value ++ [')'])))) =
      (components value).map (.ofPieces (String.ofList name)) := by
  unfold Filter.ofString
  rw [String.toList_ofList]
  by_cases hvalue : ')' ∈ value
  · -- what follows the first parenthesis is left over
    have hnone : components value = none := by
      cases hv : components value with
      | none => rfl
      | some p => exact absurd hvalue (close_notMem hv)
    obtain ⟨a, b, rfl, ha⟩ := List.eq_append_cons_of_mem hvalue
    rw [hnone, List.append_assoc, List.cons_append, parse_eq _ hname hchars ha]
    cases components a with
    | none => rfl
    | some p => cases b <;> rfl
  · rw [parse_eq _ hname hchars hvalue]
    cases components value <;> rfl

/-! ## The entries a filter selects -/

/-- An entry of a directory and the values of its attributes. -/
structure Entry where
  dn : String
  values : String → List String

/-- How a directory compares values: the attributes it knows, what is insignificant in a
value, and the rules that are not about equality. -/
structure Schema where
  knows : String → Bool
  prepare : String → String → String
  approx : String → String → String → Bool
  le : String → String → String → Bool
  extensible : Option String → Bool → Option String → String → Entry → Option Bool

/-- Values are compared as they are. -/
def Schema.exact : Schema where
  knows _ := true
  prepare _ v := v
  approx _ a v := a = v
  le _ a v := a ≤ v
  extensible _ _ _ _ _ := none

/-- Two values that the directory does not tell apart. -/
def Schema.Same (S : Schema) (attr v w : String) : Prop :=
  S.prepare attr v = S.prepare attr w

/-- A test of the values of an attribute the directory knows. -/
def Schema.test (S : Schema) (e : Entry) (attr : String) (value : Option (String → Bool)) :
    Option Bool :=
  if S.knows attr then value.map fun f => (e.values attr).any f else none

def kleeneAnd : Option Bool → Option Bool → Option Bool
  | some false, _ | _, some false => some false
  | some true, some true => some true
  | _, _ => none

def kleeneOr : Option Bool → Option Bool → Option Bool
  | some true, _ | _, some true => some true
  | some false, some false => some false
  | _, _ => none

mutual

/-- Whether a filter selects an entry; `none` is Undefined. -/
def Filter.eval (S : Schema) (e : Entry) : Filter → Option Bool
  | .and fs => evalAll S e fs
  | .or fs => evalAny S e fs
  | .not f => (f.eval S e).map (!·)
  | .equal a value =>
    S.test e a ((decode value).map fun v w => S.prepare a w = S.prepare a v)
  | .approx a value => S.test e a ((decode value).map (S.approx a))
  | .greaterOrEqual a value => S.test e a ((decode value).map fun v w => S.le a v w)
  | .lessOrEqual a value => S.test e a ((decode value).map fun v w => S.le a w v)
  | .present a => if S.knows a then some (e.values a ≠ []) else none
  | .substrings a pieces =>
    S.test e a ((decodePieces pieces).map fun p w =>
      hasPieces (S.prepare a p.1).toList (p.2.map fun v => (S.prepare a v).toList)
        (S.prepare a w).toList)
  | .extensible a dn rule value => (decode value).bind fun v => S.extensible a dn rule v e

def evalAll (S : Schema) (e : Entry) : List Filter → Option Bool
  | [] => some true
  | f :: fs => kleeneAnd (f.eval S e) (evalAll S e fs)

def evalAny (S : Schema) (e : Entry) : List Filter → Option Bool
  | [] => some false
  | f :: fs => kleeneOr (f.eval S e) (evalAny S e fs)

end

theorem test_eq_true {S : Schema} {e : Entry} {a : String} {value : Option (String → Bool)} :
    S.test e a value = some true ↔
      S.knows a = true ∧ ∃ f, value = some f ∧ ∃ w ∈ e.values a, f w = true := by
  unfold Schema.test
  cases S.knows a with
  | false => simp
  | true =>
    cases value with
    | none => simp
    | some f => simp

/-- An equality item selects the entries with a value the directory does not tell from the
asserted one. -/
theorem eval_equal {S : Schema} {e : Entry} {a v : String} :
    (Filter.equal a (encode v)).eval S e = some true ↔
      S.knows a = true ∧ ∃ w ∈ e.values a, S.Same a w v := by
  rw [Filter.eval, test_eq_true, decode_encode]
  simp [Schema.Same]

/-- Pieces that are not UTF-8 select nothing. -/
theorem decodePieces_of_eval {S : Schema} {e : Entry} {a : String} {p : Bytes × List Bytes}
    (h : (Filter.ofPieces a p).eval S e = some true) : (decodePieces p).isSome = true := by
  unfold Filter.ofPieces at h
  split at h
  · rw [Filter.eval, test_eq_true] at h
    obtain ⟨_, f, hf, _⟩ := h
    obtain ⟨v, hv, _⟩ := Option.map_eq_some_iff.mp hf
    simp [decodePieces, hv]
  · decide
  · rw [Filter.eval, test_eq_true] at h
    obtain ⟨_, f, hf, _⟩ := h
    obtain ⟨q, hq, _⟩ := Option.map_eq_some_iff.mp hf
    rw [hq]
    rfl

/-- Where values are compared as they are, a value with something put for each asterisk is
selected. -/
theorem eval_join {e : Entry} {a first : String} {rest : List String} {p : Bytes × List Bytes}
    (hp : decodePieces p = some (first, rest)) (filler : Char)
    (hw : String.ofList (join filler first.toList (rest.map String.toList)) ∈ e.values a) :
    (Filter.ofPieces a p).eval .exact e = some true := by
  have hmatch := hasPieces_join filler first.toList (rest.map String.toList)
  unfold Filter.ofPieces
  split
  · rename_i value
    obtain ⟨v, hv, h⟩ := Option.bind_eq_some_iff.mp hp
    obtain ⟨_, hnil, h⟩ := Option.map_eq_some_iff.mp h
    cases hnil
    cases h
    rw [Filter.eval, test_eq_true, hv]
    refine ⟨rfl, _, rfl, _, hw, ?_⟩
    simp [join, Schema.exact]
  · have hne := List.ne_nil_of_mem hw
    simp [Filter.eval, Schema.exact, hne]
  · rw [Filter.eval, test_eq_true, hp]
    refine ⟨rfl, _, rfl, _, hw, ?_⟩
    simpa [Schema.exact, String.toList_ofList] using hmatch

end Wormhole.L1.Ldap
