import Wormhole.L1Encoding.Doubles

/-!
# Reading what was written

A reader that takes a writer's escapes and numbers for what they are (`Inverse`)
reads back every value that the writer has written, whatever white space it puts
in (`loads_dumps`).

* `pyEscape_reads`, `jsEscape_reads`: the escapes of Python and of JavaScript.
* `pyReader_readsInt`, `jsReader_readsInt`: the integers, where they are not cut
  off or rounded.
-/
namespace Wormhole.L1.JsonText

/-! ## Strings -/

theorem consUnit_some (u : Nat) (x : Option (List Nat × Text)) :
    consUnit (some u) x = x.map fun p => (u :: p.1, p.2) := by
  cases x with
  | none => rfl
  | some p => rfl

theorem hexValue_digitChar {d : Nat} (h : d < 16) : hexValue d.digitChar.toNat = some d := by
  have hall : ∀ e ∈ List.range 16, hexValue e.digitChar.toNat = some e := by decide
  exact hall d (List.mem_range.mpr h)

theorem units_unitEscape {u : Nat} (h : u < 65536) (rest : Text) :
    units (unitEscape u ++ rest) = (units rest).map fun p => (u :: p.1, p.2) := by
  have hu : hexUnit (u / 4096 % 16).digitChar (u / 256 % 16).digitChar (u / 16 % 16).digitChar
      (u % 16).digitChar = some u := by
    have hd : ((u / 4096 % 16 * 16 + u / 256 % 16) * 16 + u / 16 % 16) * 16 + u % 16 = u := by omega
    simp [hexUnit, hexValue_digitChar (Nat.mod_lt _ (by decide : 0 < 16)), hd]
  rw [← consUnit_some, ← hu]
  rfl

theorem units_shortEscape {c e : Char} (h : shortEscape c = some e) (rest : Text) :
    units ('\\' :: e :: rest) = (units rest).map fun p => (c.toNat :: p.1, p.2) := by
  rw [← consUnit_some]
  unfold shortEscape at h
  split at h
  · subst_vars; cases h; rfl
  split at h
  · subst_vars; cases h; rfl
  split at h
  · subst_vars; cases h; rfl
  split at h
  · subst_vars; cases h; rfl
  split at h
  · subst_vars; cases h; rfl
  split at h
  · subst_vars; cases h; rfl
  split at h
  · subst_vars; cases h; rfl
  · cases h

theorem units_quote (rest : Text) : units ('\x22' :: rest) = some ([], rest) := by
  rw [units.eq_def]
  rfl

theorem units_literal {c : Char} (h : shortEscape c = none) (hc : 0x20 ≤ c.toNat) (rest : Text) :
    units (c :: rest) = (units rest).map fun p => (c.toNat :: p.1, p.2) := by
  have hq : c ≠ '\x22' := by
    rintro rfl
    cases h
  have hb : c ≠ '\\' := by
    rintro rfl
    cases h
  rw [← consUnit_some, units.eq_def]
  simp only
  rw [if_neg hq, if_neg hb, if_neg (by omega)]

/-- A character is no half of a surrogate pair. -/
theorem combine_char (c : Char) (us : List Nat) :
    combine (c.toNat :: us) = (combine us).map (c :: ·) := by
  have hv : c.toNat < 0xD800 ∨ 0xDFFF < c.toNat ∧ c.toNat < 0x110000 := c.valid
  have hhigh : isHigh c.toNat = false := by
    simp only [isHigh, Bool.and_eq_false_iff, decide_eq_false_iff_not]
    omega
  have hlow : isLow c.toNat = false := by
    simp only [isLow, Bool.and_eq_false_iff, decide_eq_false_iff_not]
    omega
  rw [combine.eq_def]
  simp [hhigh, hlow, Char.ofNat_toNat]

theorem combine_pair {c : Char} (h : ¬ c.toNat < 0x10000) (us : List Nat) :
    combine (charUnits c ++ us) = (combine us).map (c :: ·) := by
  have hv : c.toNat < 0xD800 ∨ 0xDFFF < c.toNat ∧ c.toNat < 0x110000 := c.valid
  have hhigh : isHigh (0xD800 + (c.toNat - 0x10000) / 0x400) = true := by
    simp only [isHigh, Bool.and_eq_true, decide_eq_true_eq]
    omega
  have hlow : isLow (0xDC00 + (c.toNat - 0x10000) % 0x400) = true := by
    simp only [isLow, Bool.and_eq_true, decide_eq_true_eq]
    omega
  have hchar : 0x10000 + (0xD800 + (c.toNat - 0x10000) / 0x400 - 0xD800) * 0x400 +
      (0xDC00 + (c.toNat - 0x10000) % 0x400 - 0xDC00) = c.toNat := by omega
  rw [charUnits, if_neg h]
  simp only [List.cons_append, List.nil_append, combine, hhigh, hlow, if_true, hchar,
    Char.ofNat_toNat]

/-- What is written for a character is read as this character. -/
def Reads (escape : Char → Text) (c : Char) : Prop :=
  ∃ us, (∀ rest, units (escape c ++ rest) = (units rest).map fun p => (us ++ p.1, p.2)) ∧
    ∀ vs, combine (us ++ vs) = (combine vs).map (c :: ·)

theorem Reads.of_single {escape : Char → Text} {c : Char}
    (h : ∀ rest, units (escape c ++ rest) = (units rest).map fun p => (c.toNat :: p.1, p.2)) :
    Reads escape c :=
  ⟨[c.toNat], h, combine_char c⟩

theorem jsEscape_reads (c : Char) : Reads jsEscape c := by
  refine .of_single fun rest => ?_
  unfold jsEscape
  split
  · rename_i e he
    exact units_shortEscape he rest
  · rename_i hnone
    split
    · exact units_unitEscape (by omega) rest
    · exact units_literal hnone (by omega) rest

theorem pyEscape_reads (c : Char) : Reads pyEscape c := by
  cases he : shortEscape c with
  | some e =>
    refine .of_single fun rest => ?_
    rw [pyEscape, he]
    exact units_shortEscape he rest
  | none =>
    by_cases hprint : ' ' ≤ c ∧ c ≤ '~'
    · refine .of_single fun rest => ?_
      rw [pyEscape, he]
      simp only [hprint, and_self, if_true]
      exact units_literal he hprint.1 rest
    · have hesc : pyEscape c = (charUnits c).flatMap unitEscape := by
        rw [pyEscape, he]
        exact if_neg hprint
      by_cases hbmp : c.toNat < 0x10000
      · refine .of_single fun rest => ?_
        rw [hesc, charUnits, if_pos hbmp, List.flatMap_singleton]
        exact units_unitEscape hbmp rest
      · refine ⟨charUnits c, fun rest => ?_, combine_pair hbmp⟩
        have hv : c.toNat < 0xD800 ∨ 0xDFFF < c.toNat ∧ c.toNat < 0x110000 := c.valid
        rw [hesc, charUnits, if_neg hbmp]
        simp only [List.flatMap_cons, List.flatMap_nil, List.append_nil, List.append_assoc]
        rw [units_unitEscape (by omega), units_unitEscape (by omega)]
        simp [Function.comp_def]

theorem scanString_quoted {escape : Char → Text} (h : ∀ c, Reads escape c) (s : String)
    (rest : Text) :
    scanString (s.toList.flatMap escape ++ '\x22' :: rest) = some (s, rest) := by
  have hread : ∀ cs : Text, ∃ us, units (cs.flatMap escape ++ '\x22' :: rest) = some (us, rest) ∧
      combine us = some cs := by
    intro cs
    induction cs with
    | nil => exact ⟨[], units_quote rest, rfl⟩
    | cons c cs ih =>
      obtain ⟨us, hus, hcs⟩ := ih
      obtain ⟨vs, hvs, hc⟩ := h c
      refine ⟨vs ++ us, ?_, ?_⟩
      · rw [List.flatMap_cons, List.append_assoc, hvs, hus]
        rfl
      · rw [hc, hcs]
        rfl
  obtain ⟨us, hus, hcs⟩ := hread s.toList
  simp [scanString, hus, hcs]

/-! ## White space -/

theorem skip_cons {c : Char} (h : isBlank c = false) (s : Text) : skip (c :: s) = c :: s := by
  simp [skip, h]

theorem skip_blanks {bs : Text} (h : ∀ b ∈ bs, isBlank b = true) (s : Text) :
    skip (bs ++ s) = skip s := by
  induction bs with
  | nil => rfl
  | cons b bs ih =>
    have hb : isBlank b = true := h b List.mem_cons_self
    have hbs : skip (bs ++ s) = skip s := ih fun c hc => h c (List.mem_cons_of_mem b hc)
    rw [← hbs]
    simp [skip, hb]

theorem blank_of_mem_replicate {n : Nat} {b : Char} (h : b ∈ List.replicate n ' ') :
    isBlank b = true := by
  rw [List.eq_of_mem_replicate h]
  rfl

theorem skip_newline (W : Writer) (level : Nat) (s : Text) :
    skip (W.newline level ++ s) = skip s := by
  refine skip_blanks (fun b hb => ?_) s
  unfold Writer.newline at hb
  split at hb
  · cases hb
  · rcases List.mem_cons.mp hb with rfl | hb
    · rfl
    · exact blank_of_mem_replicate hb

/-! ## Integers -/

/-- The text does not go on with what belongs to a number. -/
def Stops : Text → Prop
  | [] => True
  | c :: _ => c.isDigit = false ∧ c ≠ '.' ∧ c ≠ 'e' ∧ c ≠ 'E'

/-- The parts of an integer's text. -/
def intNumber (n : Int) : Number := ⟨n < 0, Nat.toDigits 10 n.natAbs, [], none⟩

/-- The text does not go on with a digit. -/
def EndsDigits : Text → Prop
  | [] => True
  | c :: _ => c.isDigit = false

theorem Stops.endsDigits {rest : Text} (h : Stops rest) : EndsDigits rest := by
  cases rest with
  | nil => trivial
  | cons c rest => exact h.1

theorem takeWhile_digits {ds rest : Text} (hd : ∀ c ∈ ds, c.isDigit = true) (h : EndsDigits rest) :
    (ds ++ rest).takeWhile Char.isDigit = ds ∧ (ds ++ rest).dropWhile Char.isDigit = rest := by
  have htake : rest.takeWhile Char.isDigit = [] ∧ rest.dropWhile Char.isDigit = rest := by
    cases rest with
    | nil => exact ⟨rfl, rfl⟩
    | cons c rest =>
      have hc : c.isDigit = false := h
      simp [hc]
  rw [List.takeWhile_append_of_pos hd, List.dropWhile_append_of_pos hd, htake.1, htake.2]
  exact ⟨List.append_nil ds, rfl⟩

/-- Digits without a leading zero, but for zero itself. -/
theorem toDigits_cases (k : Nat) :
    ∃ c ds, Nat.toDigits 10 k = c :: ds ∧ c.isDigit = true ∧ (∀ d ∈ ds, d.isDigit = true) ∧
      (c = '0' → ds = []) := by
  have hall : ∀ d ∈ Nat.toDigits 10 k, d.isDigit = true := fun d hd =>
    Nat.isDigit_of_mem_toDigits (by decide) (by decide) hd
  induction k using Nat.strongRecOn with
  | ind k ih =>
    by_cases hk : k < 10
    · rw [Nat.toDigits_of_lt_base hk] at hall ⊢
      exact ⟨k.digitChar, [], rfl, hall _ List.mem_cons_self, by simp, fun _ => rfl⟩
    · rw [Nat.toDigits_of_base_le (by decide) (by omega)] at hall ⊢
      obtain ⟨c, ds, hcd, hc, hds, hzero⟩ := ih (k / 10) (by omega) fun d hd =>
        hall d (List.mem_append_left _ hd)
      rw [hcd] at hall ⊢
      refine ⟨c, ds ++ [(k % 10).digitChar], rfl, hc, ?_, ?_⟩
      · intro d hd
        exact hall d (List.mem_cons_of_mem c hd)
      · intro h0
        have hds0 := hzero h0
        subst h0 hds0
        have hval : Nat.ofDigitChars 10 (Nat.toDigits 10 (k / 10)) 0 = k / 10 :=
          Nat.ofDigitChars_ten_toDigits
        rw [hcd] at hval
        have : Nat.ofDigitChars 10 ['0'] 0 = 0 := rfl
        omega

theorem scanInt_toDigits (k : Nat) {rest : Text} (h : EndsDigits rest) :
    scanInt (Nat.toDigits 10 k ++ rest) = some (Nat.toDigits 10 k, rest) := by
  obtain ⟨c, ds, hcd, hc, hds, hzero⟩ := toDigits_cases k
  obtain ⟨htake, hdrop⟩ := takeWhile_digits hds h
  rw [hcd, List.cons_append, scanInt, if_pos hc]
  split
  · rename_i h0
    rw [hzero h0, h0]
    rfl
  · rw [htake, hdrop]

theorem scanSign_intText (n : Int) (rest : Text) :
    scanSign (Writer.intText n ++ rest) = (decide (n < 0), Nat.toDigits 10 n.natAbs ++ rest) := by
  unfold Writer.intText
  split
  · rename_i hn
    simp [scanSign, hn]
  · rename_i hn
    obtain ⟨c, ds, hcd, hc, -, -⟩ := toDigits_cases n.natAbs
    rw [hcd]
    unfold scanSign
    split
    · rename_i heq
      cases heq
      cases hc
    · simp [hn]

theorem scanNumber_intText (n : Int) {rest : Text} (h : Stops rest) :
    scanNumber (Writer.intText n ++ rest) = some (intNumber n, rest) := by
  have hfrac : scanFrac rest = ([], rest) := by
    unfold scanFrac
    split
    · exact absurd rfl h.2.1
    · rfl
  have hexp : scanExp rest = (none, rest) := by
    cases rest with
    | nil => rfl
    | cons c rest => simp [scanExp, h.2.2.1, h.2.2.2]
  rw [scanNumber, scanSign_intText]
  simp only [scanInt_toDigits n.natAbs h.endsDigits, hfrac, hexp]
  rfl

/-! ## Objects -/

/-- An object without repeated keys keeps all its fields. -/
theorem ofPairs_of_nodup {pairs : List (String × Json)} (h : (pairs.map Prod.fst).Nodup) :
    ofPairs pairs = pairs := by
  have hgen : ∀ (rest acc : List (String × Json)), ((acc ++ rest).map Prod.fst).Nodup →
      rest.foldl (fun fields f => Dict.assign f.1 f.2 fields) acc = acc ++ rest := by
    intro rest
    induction rest with
    | nil => simp
    | cons f rest ih =>
      intro acc hnd
      have hnew : f.1 ∉ acc.map Prod.fst := by
        rw [List.map_append, List.map_cons] at hnd
        intro hmem
        exact (List.nodup_append.mp hnd).2.2 _ hmem _ List.mem_cons_self rfl
      rw [List.foldl_cons, Dict.assign_of_notMem hnew, ih _ (by simpa using hnd)]
      simp
  exact hgen pairs [] h

/-! ## Values -/

mutual

/-- The numbers have `P`, and no object repeats a key. -/
def Plain (P : Json → Prop) : Json → Prop
  | .int n => P (.int n)
  | .float f => P (.float f)
  | .arr xs => PlainItems P xs
  | .obj fields => (fields.map Prod.fst).Nodup ∧ PlainFields P fields
  | .null => True
  | .bool _ => True
  | .str _ => True

def PlainItems (P : Json → Prop) : List Json → Prop
  | [] => True
  | x :: xs => Plain P x ∧ PlainItems P xs

def PlainFields (P : Json → Prop) : List (String × Json) → Prop
  | [] => True
  | (_, x) :: fields => Plain P x ∧ PlainFields P fields

end

def Writer.numberText (W : Writer) : Json → Text
  | .int n => Writer.intText n
  | .float f => W.float f
  | _ => []

/-- A character that may open a value, and opens neither a string nor a list nor
an object. -/
def OpensScalar (c : Char) : Prop :=
  isBlank c = false ∧ c ≠ ']' ∧ c ≠ '\x7d' ∧ c ≠ '\x22' ∧ c ≠ '[' ∧ c ≠ '\x7b'

/-- The reader takes a number's text for this number. -/
structure Reader.ReadsNumber (R : Reader) (W : Writer) (x : Json) : Prop where
  head : ∃ c tl, W.numberText x = c :: tl ∧ OpensScalar c
  read : ∀ rest, Stops rest → R.scalar (W.numberText x ++ rest) = some (x, rest)

/-- The reader takes the writer's escapes, and numbers with `P`, for what they
are. -/
structure Inverse (R : Reader) (W : Writer) (P : Json → Prop) : Prop where
  escape : ∀ c, Reads W.escape c
  number : ∀ x, P x → R.ReadsNumber W x

variable {W : Writer} {R : Reader} {P : Json → Prop}

theorem head_intText (n : Int) : ∃ c tl, Writer.intText n = c :: tl ∧ OpensScalar c := by
  unfold Writer.intText
  split
  · exact ⟨'-', _, rfl, by decide, by decide, by decide, by decide, by decide, by decide⟩
  · obtain ⟨c, ds, hcd, hc, -, -⟩ := toDigits_cases n.natAbs
    have hne : ∀ d, d.isDigit = false → c ≠ d := by
      rintro d hd rfl
      rw [hc] at hd
      cases hd
    refine ⟨c, ds, hcd, ?_, hne _ (by decide), hne _ (by decide), hne _ (by decide),
      hne _ (by decide), hne _ (by decide)⟩
    simp [isBlank, hne ' ' (by decide), hne '\t' (by decide), hne '\n' (by decide),
      hne '\r' (by decide)]

/-- A value's text begins with a character that ends nothing. -/
theorem write_head (hi : Inverse R W P) {x : Json} (h : Plain P x) (level : Nat) :
    ∃ c tl, W.write level x = c :: tl ∧ isBlank c = false ∧ c ≠ ']' ∧ c ≠ '\x7d' := by
  cases x with
  | null => exact ⟨'n', _, by rw [Writer.write], by decide, by decide, by decide⟩
  | bool b =>
    cases b with
    | true => exact ⟨'t', _, by rw [Writer.write], by decide, by decide, by decide⟩
    | false => exact ⟨'f', _, by rw [Writer.write], by decide, by decide, by decide⟩
  | int n =>
    obtain ⟨c, tl, hc, hopens⟩ := (hi.number _ h).head
    exact ⟨c, tl, by rw [Writer.write]; exact hc, hopens.1, hopens.2.1, hopens.2.2.1⟩
  | float f =>
    obtain ⟨c, tl, hc, hopens⟩ := (hi.number _ h).head
    exact ⟨c, tl, by rw [Writer.write]; exact hc, hopens.1, hopens.2.1, hopens.2.2.1⟩
  | str s =>
    exact ⟨'\x22', _, by rw [Writer.write, Writer.quote], by decide, by decide, by decide⟩
  | arr xs =>
    cases xs with
    | nil => exact ⟨'[', _, by rw [Writer.write], by decide, by decide, by decide⟩
    | cons x xs => exact ⟨'[', _, by rw [Writer.write], by decide, by decide, by decide⟩
  | obj fs =>
    cases fs with
    | nil => exact ⟨'\x7b', _, by rw [Writer.write], by decide, by decide, by decide⟩
    | cons f fs =>
      obtain ⟨k, x⟩ := f
      exact ⟨'\x7b', _, by rw [Writer.write], by decide, by decide, by decide⟩

theorem skip_write (hi : Inverse R W P) {x : Json} (h : Plain P x) (level : Nat) (rest : Text) :
    skip (W.write level x ++ rest) = W.write level x ++ rest := by
  obtain ⟨c, tl, hw, hb, -, -⟩ := write_head hi h level
  rw [hw]
  exact skip_cons hb _

theorem stops_newline (level : Nat) {c : Char} (hc : Stops [c]) (rest : Text) :
    Stops (W.newline level ++ c :: rest) := by
  unfold Writer.newline
  split
  · exact hc
  · exact ⟨by decide, by decide, by decide, by decide⟩

theorem stops_writeItems (level : Nat) (xs : List Json) (rest : Text) :
    Stops (W.writeItems level xs ++ rest) := by
  cases xs with
  | nil =>
    rw [Writer.writeItems, List.append_assoc]
    exact stops_newline level ⟨by decide, by decide, by decide, by decide⟩ rest
  | cons x xs =>
    rw [Writer.writeItems]
    exact ⟨by decide, by decide, by decide, by decide⟩

theorem stops_writeFields (level : Nat) (fs : List (String × Json)) (rest : Text) :
    Stops (W.writeFields level fs ++ rest) := by
  cases fs with
  | nil =>
    rw [Writer.writeFields, List.append_assoc]
    exact stops_newline level ⟨by decide, by decide, by decide, by decide⟩ rest
  | cons f fs =>
    rw [Writer.writeFields]
    exact ⟨by decide, by decide, by decide, by decide⟩

theorem skip_comma (level : Nat) (s : Text) :
    skip (W.comma level ++ s) =
      ',' :: (List.replicate W.afterComma ' ' ++ (W.newline level ++ s)) := by
  rw [Writer.comma, List.cons_append, skip_cons (by decide), List.append_assoc]

theorem skip_afterComma (level : Nat) (s : Text) :
    skip (List.replicate W.afterComma ' ' ++ (W.newline level ++ s)) = skip s := by
  rw [skip_blanks fun b hb => blank_of_mem_replicate hb, skip_newline]

theorem skip_colon (s : Text) :
    skip (W.colon ++ s) = ':' :: (List.replicate W.afterColon ' ' ++ s) := by
  rw [Writer.colon, List.cons_append, skip_cons (by decide)]

section RoundTrip

theorem scalar_literal {l : Text × Json} (h : l ∈ literals) (rest : Text) :
    R.scalar (l.1 ++ rest) = some (l.2, rest) := by
  have hmem : l = (['n', 'u', 'l', 'l'], .null) ∨ l = (['t', 'r', 'u', 'e'], .bool true) ∨
      l = (['f', 'a', 'l', 's', 'e'], .bool false) := by
    simpa [literals] using h
  rcases hmem with rfl | rfl | rfl
  · rfl
  · rfl
  · rfl

/-- A value that opens neither a string nor a list nor an object. -/
theorem value_scalar {c : Char} (hc : c ≠ '\x22' ∧ c ≠ '[' ∧ c ≠ '\x7b') (n : Nat) (tl : Text) :
    R.value (n + 1) (c :: tl) = R.scalar (c :: tl) := by
  rw [Reader.value, if_neg hc.1, if_neg hc.2.1, if_neg hc.2.2]

theorem value_arr {n : Nat} {s : Text} {xs : List Json} {rest tl : Text} {c : Char}
    (hs : skip s = c :: tl) (hc : c ≠ ']') (h : R.items n (c :: tl) = some (xs, rest)) :
    R.value (n + 1) ('[' :: s) = some (.arr xs, rest) := by
  rw [Reader.value, if_neg (by decide), if_pos rfl, hs]
  split
  · rename_i heq
    cases heq
    exact absurd rfl hc
  · rw [h]
    rfl

theorem value_obj {n : Nat} {s : Text} {fs : List (String × Json)} {rest tl : Text}
    (hs : skip s = '\x22' :: tl) (h : R.fields n ('\x22' :: tl) = some (fs, rest))
    (hnd : (fs.map Prod.fst).Nodup) :
    R.value (n + 1) ('\x7b' :: s) = some (.obj fs, rest) := by
  rw [Reader.value, if_neg (by decide), if_neg (by decide), if_pos rfl, hs]
  split
  · rename_i heq
    cases heq
  · rw [h, Option.map_some, ofPairs_of_nodup hnd]

theorem items_last {n : Nat} {x : Json} {s rest tl : Text} (hx : R.value n s = some (x, rest))
    (hr : skip rest = ']' :: tl) : R.items (n + 1) s = some ([x], tl) := by
  rw [Reader.items, hx]
  simp only [hr]

theorem items_more {n : Nat} {x : Json} {xs : List Json} {s rest tl tl' : Text}
    (hx : R.value n s = some (x, rest)) (hr : skip rest = ',' :: tl)
    (hxs : R.items n (skip tl) = some (xs, tl')) : R.items (n + 1) s = some (x :: xs, tl') := by
  rw [Reader.items, hx]
  simp only [hr, hxs, Option.map_some]

theorem skip_writeItems_nil (level : Nat) (rest : Text) :
    skip (W.writeItems level [] ++ rest) = ']' :: rest := by
  rw [Writer.writeItems, List.append_assoc, skip_newline]
  exact skip_cons (by decide) rest

theorem skip_writeItems_cons (level : Nat) (x : Json) (xs : List Json) (rest : Text) :
    skip (W.writeItems level (x :: xs) ++ rest) = ',' :: (List.replicate W.afterComma ' ' ++
      (W.newline (level + 1) ++ (W.write (level + 1) x ++ (W.writeItems level xs ++ rest)))) := by
  rw [Writer.writeItems, List.append_assoc, List.append_assoc, skip_comma]

theorem skip_writeFields_nil (level : Nat) (rest : Text) :
    skip (W.writeFields level [] ++ rest) = '\x7d' :: rest := by
  rw [Writer.writeFields, List.append_assoc, skip_newline]
  exact skip_cons (by decide) rest

theorem skip_writeFields_cons (level : Nat) (k : String) (x : Json) (fs : List (String × Json))
    (rest : Text) :
    skip (W.writeFields level ((k, x) :: fs) ++ rest) = ',' :: (List.replicate W.afterComma ' ' ++
      (W.newline (level + 1) ++ (W.quote k ++ (W.colon ++ (W.write (level + 1) x ++
        (W.writeFields level fs ++ rest)))))) := by
  rw [Writer.writeFields]
  simp only [List.append_assoc]
  rw [skip_comma]

section Fields

variable {n : Nat} {k : String} {x : Json} {s rest tl : Text}

theorem skip_quote (k : String) (s : Text) : skip (W.quote k ++ s) = W.quote k ++ s := by
  rw [Writer.quote, List.cons_append]
  exact skip_cons (by decide) _

theorem skip_afterColon (s : Text) : skip (List.replicate W.afterColon ' ' ++ s) = skip s :=
  skip_blanks (fun _ hb => blank_of_mem_replicate hb) s

theorem fields_last (hesc : ∀ c, Reads W.escape c) (hx : R.value n (skip s) = some (x, rest))
    (hr : skip rest = '\x7d' :: tl) :
    R.fields (n + 1) (W.quote k ++ (W.colon ++ s)) = some ([(k, x)], tl) := by
  rw [Writer.quote, List.cons_append, Reader.fields]
  simp only [List.append_assoc, List.singleton_append, scanString_quoted hesc, skip_colon,
    skip_afterColon, hx, hr]

theorem fields_more (hesc : ∀ c, Reads W.escape c) (hx : R.value n (skip s) = some (x, rest))
    (hr : skip rest = ',' :: tl) {fs : List (String × Json)} {tl' : Text}
    (hfs : R.fields n (skip tl) = some (fs, tl')) :
    R.fields (n + 1) (W.quote k ++ (W.colon ++ s)) = some ((k, x) :: fs, tl') := by
  rw [Writer.quote, List.cons_append, Reader.fields]
  simp only [List.append_assoc, List.singleton_append, scanString_quoted hesc, skip_colon,
    skip_afterColon, hx, hr, hfs, Option.map_some]

end Fields

/-- A number's text is read as the number. -/
theorem value_number (hi : Inverse R W P) {x : Json} (h : P x) {rest : Text} (hr : Stops rest)
    (n : Nat) : R.value (n + 1) (W.numberText x ++ rest) = some (x, rest) := by
  obtain ⟨⟨c, tl, hc, hopens⟩, hread⟩ := hi.number x h
  rw [← hread rest hr, hc]
  exact value_scalar hopens.2.2.2 n _

mutual

/-- A value's own text is read as the value, whatever follows that ends it. -/
theorem value_write (hi : Inverse R W P) : ∀ (x : Json) (level n : Nat) (rest : Text), Plain P x →
    (W.write level x).length ≤ n → Stops rest → R.value n (W.write level x ++ rest) = some (x, rest)
  | x, level, 0, rest, hx, hn, _ => by
    obtain ⟨c, tl, hw, -⟩ := write_head hi hx level
    rw [hw] at hn
    cases hn
  | .null, level, n + 1, rest, _, _, _ => by
    rw [Writer.write]
    exact (value_scalar (by decide) n _).trans
      (scalar_literal (l := (['n', 'u', 'l', 'l'], .null)) (by simp [literals]) rest)
  | .bool true, level, n + 1, rest, _, _, _ => by
    rw [Writer.write]
    exact (value_scalar (by decide) n _).trans
      (scalar_literal (l := (['t', 'r', 'u', 'e'], .bool true)) (by simp [literals]) rest)
  | .bool false, level, n + 1, rest, _, _, _ => by
    rw [Writer.write]
    exact (value_scalar (by decide) n _).trans
      (scalar_literal (l := (['f', 'a', 'l', 's', 'e'], .bool false)) (by simp [literals]) rest)
  | .int i, level, n + 1, rest, hx, _, hr => by
    rw [Plain] at hx
    rw [Writer.write]
    exact value_number hi hx hr n
  | .float f, level, n + 1, rest, hx, _, hr => by
    rw [Plain] at hx
    rw [Writer.write]
    exact value_number hi hx hr n
  | .str s, level, n + 1, rest, _, _, _ => by
    rw [Writer.write, Writer.quote, List.cons_append, Reader.value, if_pos rfl, List.append_assoc,
      List.singleton_append, scanString_quoted hi.escape]
    rfl
  | .arr [], level, n + 1, rest, _, _, _ => by
    rw [Writer.write]
    rfl
  | .arr (x :: xs), level, n + 1, rest, hx, hn, _ => by
    rw [Plain] at hx
    obtain ⟨c, tl, hw, -, hc, -⟩ := write_head hi hx.1 (level + 1)
    rw [Writer.write] at hn ⊢
    simp only [List.length_cons, List.length_append] at hn
    have hitems := items_write hi x xs level n rest hx (by
      simp only [List.length_append]
      omega)
    simp only [List.cons_append, List.append_assoc]
    refine value_arr (?_ : skip _ = c :: (tl ++ (W.writeItems level xs ++ rest))) hc ?_
    · rw [skip_newline, skip_write hi hx.1, hw, List.cons_append]
    · rw [← List.cons_append, ← hw]
      exact hitems
  | .obj [], level, n + 1, rest, _, _, _ => by
    rw [Writer.write]
    rfl
  | .obj ((k, x) :: fs), level, n + 1, rest, hx, hn, _ => by
    rw [Plain] at hx
    rw [Writer.write] at hn ⊢
    simp only [List.length_cons, List.length_append] at hn
    have hfields := fields_write hi k x fs level n rest hx.2 (by
      simp only [List.length_append]
      omega)
    simp only [List.cons_append, List.append_assoc]
    refine value_obj (s := W.newline (level + 1) ++ _) ?_ hfields hx.1
    rw [skip_newline, skip_quote]
    rfl
termination_by x => sizeOf x

theorem items_write (hi : Inverse R W P) : ∀ (x : Json) (xs : List Json) (level n : Nat)
    (rest : Text), PlainItems P (x :: xs) →
    (W.write (level + 1) x ++ W.writeItems level xs).length ≤ n →
    R.items n (W.write (level + 1) x ++ (W.writeItems level xs ++ rest)) = some (x :: xs, rest)
  | x, xs, level, 0, rest, hx, hn => by
    obtain ⟨c, tl, hw, -⟩ := write_head hi hx.1 (level + 1)
    rw [hw] at hn
    cases hn
  | x, [], level, n + 1, rest, hx, hn => by
    rw [Writer.writeItems] at hn
    simp only [List.length_append, List.length_singleton] at hn
    exact items_last (value_write hi x (level + 1) n _ hx.1 (by omega)
      (stops_writeItems level [] rest)) (skip_writeItems_nil level rest)
  | x, y :: ys, level, n + 1, rest, hx, hn => by
    rw [Writer.writeItems, Writer.comma] at hn
    simp only [List.length_append, List.length_cons] at hn
    have hys := items_write hi y ys level n rest hx.2 (by
      simp only [List.length_append]
      omega)
    refine items_more (value_write hi x (level + 1) n _ hx.1 (by omega)
      (stops_writeItems level (y :: ys) rest)) (skip_writeItems_cons level y ys rest) ?_
    rw [skip_afterComma, skip_write hi hx.2.1]
    exact hys
termination_by x xs => sizeOf x + sizeOf xs + 1

theorem fields_write (hi : Inverse R W P) : ∀ (k : String) (x : Json)
    (fs : List (String × Json)) (level n : Nat) (rest : Text), PlainFields P ((k, x) :: fs) →
    (W.quote k ++ (W.colon ++ (W.write (level + 1) x ++ W.writeFields level fs))).length ≤ n →
    R.fields n (W.quote k ++ (W.colon ++ (W.write (level + 1) x ++
      (W.writeFields level fs ++ rest)))) = some ((k, x) :: fs, rest)
  | k, x, fs, level, 0, rest, hx, hn => by
    cases hn
  | k, x, [], level, n + 1, rest, hx, hn => by
    rw [Writer.quote, Writer.colon] at hn
    simp only [List.length_append, List.length_cons] at hn
    have hvalue : R.value n (skip (W.write (level + 1) x ++ (W.writeFields level [] ++ rest))) =
        some (x, W.writeFields level [] ++ rest) := by
      rw [skip_write hi hx.1]
      exact value_write hi x (level + 1) n _ hx.1 (by omega) (stops_writeFields level [] rest)
    exact fields_last hi.escape hvalue (skip_writeFields_nil level rest)
  | k, x, (k', y) :: fs, level, n + 1, rest, hx, hn => by
    rw [Writer.quote, Writer.colon, Writer.writeFields, Writer.comma] at hn
    simp only [List.length_append, List.length_cons] at hn
    have hfs := fields_write hi k' y fs level n rest hx.2 (by
      simp only [List.length_append]
      omega)
    have hvalue :
        R.value n (skip (W.write (level + 1) x ++ (W.writeFields level ((k', y) :: fs) ++ rest))) =
          some (x, W.writeFields level ((k', y) :: fs) ++ rest) := by
      rw [skip_write hi hx.1]
      exact value_write hi x (level + 1) n _ hx.1 (by omega)
        (stops_writeFields level ((k', y) :: fs) rest)
    refine fields_more hi.escape hvalue (skip_writeFields_cons level k' y fs rest) ?_
    rw [skip_afterComma, skip_quote]
    exact hfs
termination_by _ x fs => sizeOf x + sizeOf fs + 1

end

/-- **Headline.** What a writer has written is read as what it was. -/
theorem loads_dumps (hi : Inverse R W P) {x : Json} (h : Plain P x) :
    R.loads (W.dumps x) = some x := by
  have hvalue := value_write hi x 0 ((W.write 0 x).length + 1) [] h (by omega) trivial
  rw [List.append_nil] at hvalue
  have hskip : skip (W.write 0 x) = W.write 0 x := by
    simpa using skip_write hi h 0 []
  rw [Reader.loads, Writer.dumps, String.toList_ofList, hskip, String.length_ofList, hvalue]
  rfl

end RoundTrip

/-! ## Python and JavaScript -/

theorem digits_intNumber (n : Int) : (intNumber n).digits = n.natAbs := by
  rw [Number.digits, intNumber, List.append_nil]
  exact Nat.ofDigitChars_ten_toDigits

theorem toInt_intNumber (n : Int) : (intNumber n).toInt = n := by
  rw [Number.toInt, digits_intNumber, intNumber]
  simp only [decide_eq_true_eq]
  split
  · omega
  · omega

/-- An integer's text begins with none of these. -/
theorem find?_intText (n : Int) (rest : Text) {ls : List (Text × Json)}
    (h : ∀ l ∈ ls, ∃ c d tl, l.1 = c :: d :: tl ∧ c.isDigit = false ∧ (c = '-' → d = 'I')) :
    ls.find? (fun l => l.1.isPrefixOf (Writer.intText n ++ rest)) = none := by
  rw [List.find?_eq_none]
  intro l hl hp
  obtain ⟨c, d, tl, hcd, hc, hminus⟩ := h l hl
  obtain ⟨e, ds, hds, he, -, -⟩ := toDigits_cases n.natAbs
  rw [hcd] at hp
  unfold Writer.intText at hp
  split at hp
  · rw [hds] at hp
    simp only [List.cons_append, List.isPrefixOf, Bool.and_eq_true, beq_iff_eq] at hp
    obtain ⟨hc0, hd0, -⟩ := hp
    rw [← hd0, hminus hc0] at he
    cases he
  · rw [hds] at hp
    simp only [List.cons_append, List.isPrefixOf, Bool.and_eq_true, beq_iff_eq] at hp
    rw [hp.1, he] at hc
    cases hc

theorem pyReader_readsInt {n : Int} (h : (Nat.toDigits 10 n.natAbs).length ≤ 4300) :
    pyReader.ReadsNumber W (.int n) := by
  refine ⟨head_intText n, fun rest hr => ?_⟩
  have hfind : (literals ++ pyReader.constants).find?
      (fun l => l.1.isPrefixOf (Writer.intText n ++ rest)) = none := by
    refine find?_intText n rest fun l hl => ?_
    have hmem : l ∈ literals ++ pyReader.constants := hl
    simp only [literals, pyReader, List.cons_append, List.nil_append, List.mem_cons,
      List.not_mem_nil, or_false] at hmem
    rcases hmem with rfl | rfl | rfl | rfl | rfl | rfl <;>
      exact ⟨_, _, _, rfl, by decide, by decide⟩
  have hnum : pyReader.number (intNumber n) = some (.int n) := by
    have hplain : (intNumber n).frac = [] ∧ (intNumber n).exp = none := ⟨rfl, rfl⟩
    have hint : (intNumber n).int.length ≤ 4300 := h
    simp only [pyReader, hplain, hint, and_self, if_true, toInt_intNumber]
  rw [Writer.numberText, Reader.scalar, hfind]
  simp only [scanNumber_intText n hr, hnum, Option.map_some]

theorem toFloat_intNumber {n : Int} (h : n.natAbs < 2 ^ 53) :
    (intNumber n).toFloat = .fin (n : Rat) := by
  have hexp : (intNumber n).exponent = 0 := rfl
  have hround : roundDouble ((intNumber n).digits * 10 ^ (intNumber n).exponent) =
      some (n.natAbs : Rat) := by
    rw [digits_intNumber, hexp, zpow_zero, mul_one]
    exact roundDouble_nat h
  rw [Number.toFloat, hround]
  by_cases hn : n < 0
  · have hne : (n.natAbs : Rat) ≠ 0 := by
      rw [Nat.cast_ne_zero]
      omega
    have hcast : -(n.natAbs : Rat) = n := by
      rw [← Int.cast_natCast, Int.ofNat_natAbs_of_nonpos hn.le, Int.cast_neg, neg_neg]
    simp only [intNumber, hn, decide_true, if_true, hne, if_false, hcast]
  · have hcast : (n.natAbs : Rat) = n := by
      rw [← Int.cast_natCast, Int.natAbs_of_nonneg (not_lt.mp hn)]
    simp [intNumber, hn, hcast]

theorem jsReader_literals : ∀ l ∈ literals ++ jsReader.constants,
    ∃ c d tl, l.1 = c :: d :: tl ∧ c.isDigit = false ∧ (c = '-' → d = 'I') := by
  intro l hl
  simp only [literals, jsReader, List.append_nil, List.mem_cons, List.not_mem_nil,
    or_false] at hl
  rcases hl with rfl | rfl | rfl <;> exact ⟨_, _, _, rfl, by decide, by decide⟩

theorem jsReader_readsInt {n : Int} (h : n.natAbs < 2 ^ 53) :
    jsReader.ReadsNumber W (.int n) := by
  refine ⟨head_intText n, fun rest hr => ?_⟩
  have hfind : (literals ++ jsReader.constants).find?
      (fun l => l.1.isPrefixOf (Writer.intText n ++ rest)) = none :=
    find?_intText n rest jsReader_literals
  have hnum : jsReader.number (intNumber n) = some (.int n) := by
    simp only [jsReader, toFloat_intNumber h, jsNumber, Rat.den_intCast, Rat.num_intCast, h,
      and_self, if_true]
  rw [Writer.numberText, Reader.scalar, hfind]
  simp only [scanNumber_intText n hr, hnum, Option.map_some]

end Wormhole.L1.JsonText
