import Wormhole.L1Encoding.PyBytes

/-!
# `Uint8Array`, hex and `TextDecoder`

The byte codecs of the JavaScript packages: the hex helpers at the end of
`packages/mailbox/src/index.js` and the `TextEncoder`/`TextDecoder` calls they
make. A JavaScript string is a Lean `String` here; where the source indexes a
string by UTF-16 code unit (`length`, `substr`) the model goes through `units`.

* `hexToBytes_bytesToHex`: the hex codec loses nothing.
* `isHex_bytesToHex`: the receiver's test for hex takes every encoded body but
  the empty one.
* `length_hexToBytes`: two code units make one byte, whatever they are.
-/
namespace Wormhole.L1

/-! ## Hex digits -/

/-- `s.padStart(n, c)`. -/
def padStart (n : Nat) (c : Char) (s : List Char) : List Char :=
  List.replicate (n - s.length) c ++ s

/-- `b.toString(16).padStart(2, '0')`. -/
def byteHex (b : UInt8) : List Char := padStart 2 '0' (Nat.toDigits 16 b.toNat)

/-- mirrors packages/mailbox/src/index.js:466-470 (`bytesToHex`) -/
def bytesToHex (bytes : Bytes) : String := String.ofList (bytes.flatMap byteHex)

/-- mirrors packages/mailbox/src/index.js:460-464 (`stringToHex`) -/
def stringToHex (str : String) : String := bytesToHex (encode str)

/-- The UTF-16 code units of a character. -/
def charUnits (c : Char) : List Nat :=
  if c.toNat < 0x10000 then [c.toNat]
  else [0xD800 + (c.toNat - 0x10000) / 0x400, 0xDC00 + (c.toNat - 0x10000) % 0x400]

/-- The UTF-16 code units of a string, what `length` and `substr` count. -/
def units (s : String) : List Nat := s.toList.flatMap charUnits

/-! ## `parseInt(s, 16)` -/

/-- White space and line terminators. -/
def isSpace (u : Nat) : Bool :=
  [0x9, 0xA, 0xB, 0xC, 0xD, 0x20, 0xA0, 0x1680, 0x2028, 0x2029, 0x202F, 0x205F, 0x3000,
    0xFEFF].contains u || (0x2000 ≤ u && u ≤ 0x200A)

def hexValue (u : Nat) : Option Nat :=
  if 48 ≤ u ∧ u ≤ 57 then some (u - 48)
  else if 97 ≤ u ∧ u ≤ 102 then some (u - 87)
  else if 65 ≤ u ∧ u ≤ 70 then some (u - 55)
  else none

/-- The value of the longest prefix of hex digits after what was read so far;
`none` is `NaN`. -/
def hexPrefix : Option Nat → List Nat → Option Nat
  | acc, [] => acc
  | acc, u :: us =>
    match hexValue u with
    | some d => hexPrefix (some (acc.getD 0 * 16 + d)) us
    | none => acc

/-- `0x` or `0X` in front of the digits is skipped. -/
def skip0x : List Nat → List Nat
  | 48 :: x :: us => if x = 120 ∨ x = 88 then us else 48 :: x :: us
  | us => us

/-- `parseInt(s, 16)`; `none` is `NaN`. -/
def parseInt16 (us : List Nat) : Option Int :=
  match us.dropWhile isSpace with
  | 45 :: r => (hexPrefix none (skip0x r)).map fun n => -(n : Int)
  | 43 :: r => (hexPrefix none (skip0x r)).map fun n => (n : Int)
  | r => (hexPrefix none (skip0x r)).map fun n => (n : Int)

/-- What storing a number in a `Uint8Array` keeps of it: the value modulo 256,
0 for `NaN`. -/
def toUint8 (n : Option Int) : UInt8 := UInt8.ofNat ((n.getD 0) % 256).toNat

/-- Two code units make one byte; the write for an odd one out is past the end
of the array and has no effect. -/
def unitBytes : List Nat → Bytes
  | a :: b :: us => toUint8 (parseInt16 [a, b]) :: unitBytes us
  | _ => []

/-- mirrors packages/mailbox/src/index.js:472-478 (`hexToBytes`) -/
def hexToBytes (hex : String) : Bytes := unitBytes (units hex)

theorem length_unitBytes : ∀ us : List Nat, (unitBytes us).length = us.length / 2
  | [] => rfl
  | [_] => by simp [unitBytes]
  | a :: b :: us => by
    rw [unitBytes, List.length_cons, length_unitBytes us]
    simp only [List.length_cons]
    omega

theorem length_hexToBytes (s : String) : (hexToBytes s).length = (units s).length / 2 :=
  length_unitBytes _

/-! ## `TextDecoder` -/

/-- A leading byte order mark is not part of the text. -/
def dropBom : List Char → List Char
  | c :: cs => if c = '\ufeff' then cs else c :: cs
  | [] => []

/-- `new TextDecoder('utf-8', { fatal: true }).decode(bytes)`; `none` is the
`TypeError`. -/
def textDecode (bytes : Bytes) : Option String :=
  (decode bytes).map fun s => String.ofList (dropBom s.toList)

/-- mirrors packages/mailbox/src/index.js:480-484 (`hexToString`) -/
def hexToString (hex : String) : Option String := textDecode (hexToBytes hex)

/-- What a byte at the start of a character is. -/
inductive Lead
  | char (c : Char)
  | sequence (needed point lower upper : Nat)
  | invalid

/-- The bounds are those of the next continuation byte. -/
def lead (b : UInt8) : Lead :=
  let n := b.toNat
  if n ≤ 0x7F then .char (Char.ofNat n)
  else if 0xC2 ≤ n ∧ n ≤ 0xDF then .sequence 1 (n - 0xC0) 0x80 0xBF
  else if 0xE0 ≤ n ∧ n ≤ 0xEF then
    .sequence 2 (n - 0xE0) (if n = 0xE0 then 0xA0 else 0x80) (if n = 0xED then 0x9F else 0xBF)
  else if 0xF0 ≤ n ∧ n ≤ 0xF4 then
    .sequence 3 (n - 0xF0) (if n = 0xF0 then 0x90 else 0x80) (if n = 0xF4 then 0x8F else 0xBF)
  else .invalid

/-- Decoding with U+FFFD for each sequence that is cut short. `needed` is the
number of continuation bytes the current character still lacks. -/
def replaceInvalid (needed point lower upper : Nat) : Bytes → List Char
  | [] => if needed = 0 then [] else ['\ufffd']
  | b :: bs =>
    if needed ≠ 0 ∧ lower ≤ b.toNat ∧ b.toNat ≤ upper then
      let point := point * 64 + b.toNat % 64
      if needed = 1 then Char.ofNat point :: replaceInvalid 0 0 0x80 0xBF bs
      else replaceInvalid (needed - 1) point 0x80 0xBF bs
    else
      (if needed = 0 then [] else ['\ufffd']) ++
        match lead b with
        | .char c => c :: replaceInvalid 0 0 0x80 0xBF bs
        | .sequence needed point lower upper => replaceInvalid needed point lower upper bs
        | .invalid => '\ufffd' :: replaceInvalid 0 0 0x80 0xBF bs

theorem replaceInvalid_nil (needed point lower upper : Nat) :
    replaceInvalid needed point lower upper [] = if needed = 0 then [] else ['\ufffd'] := by
  rw [replaceInvalid]

theorem replaceInvalid_cons (needed point lower upper : Nat) (b : UInt8) (bs : Bytes) :
    replaceInvalid needed point lower upper (b :: bs) =
      if needed ≠ 0 ∧ lower ≤ b.toNat ∧ b.toNat ≤ upper then
        if needed = 1 then
          Char.ofNat (point * 64 + b.toNat % 64) :: replaceInvalid 0 0 0x80 0xBF bs
        else replaceInvalid (needed - 1) (point * 64 + b.toNat % 64) 0x80 0xBF bs
      else
        (if needed = 0 then [] else ['\ufffd']) ++
          match lead b with
          | .char c => c :: replaceInvalid 0 0 0x80 0xBF bs
          | .sequence needed point lower upper => replaceInvalid needed point lower upper bs
          | .invalid => '\ufffd' :: replaceInvalid 0 0 0x80 0xBF bs := by
  rw [replaceInvalid]

/-- `new TextDecoder().decode(bytes)`. -/
def textDecodeLossy (bytes : Bytes) : String :=
  match decode bytes with
  | some s => String.ofList (dropBom s.toList)
  | none => String.ofList (dropBom (replaceInvalid 0 0 0x80 0xBF bytes))

/-- A byte that no character starts with, and a sequence cut short by `A`. -/
example : textDecodeLossy [0xC0, 0xE2, 0x82, 0x41] = "\ufffd\ufffdA" := by decide +kernel

/-- `/^[0-9a-fA-F]+$/.test(s)`. -/
def isHex (s : String) : Bool :=
  !s.toList.isEmpty && s.toList.all fun c => (hexValue c.toNat).isSome

/-! ## The hex codec -/

/-- The two digits of a byte. -/
def HexPair (b : UInt8) : Prop :=
  unitBytes ((byteHex b).flatMap charUnits) = [b] ∧
    ((byteHex b).flatMap charUnits).length = 2 ∧
    byteHex b ≠ [] ∧ (byteHex b).all (fun c => (hexValue c.toNat).isSome) = true

instance (b : UInt8) : Decidable (HexPair b) := inferInstanceAs (Decidable (_ ∧ _ ∧ _ ∧ _))

theorem byteHex_eq (b : UInt8) :
    byteHex b = [Nat.digitChar (b.toNat / 16), Nat.digitChar (b.toNat % 16)] := by
  have hlt := b.toNat_lt
  unfold byteHex padStart
  by_cases h : b.toNat < 16
  · rw [Nat.toDigits_of_lt_base h, Nat.div_eq_of_lt h, Nat.mod_eq_of_lt h]
    rfl
  · have hdiv : b.toNat / 16 < 16 := by omega
    rw [Nat.toDigits_of_base_le (by decide) (by omega), Nat.toDigits_of_lt_base hdiv]
    rfl

/-- A digit is its own code unit, no space, no sign and no `x`. -/
theorem digitChar_spec {d : Nat} (h : d < 16) : charUnits d.digitChar = [d.digitChar.toNat] ∧
    isSpace d.digitChar.toNat = false ∧ hexValue d.digitChar.toNat = some d ∧
    d.digitChar.toNat ∉ [43, 45, 120, 88] := by
  have hall : ∀ e : Fin 16, charUnits e.val.digitChar = [e.val.digitChar.toNat] ∧
      isSpace e.val.digitChar.toNat = false ∧ hexValue e.val.digitChar.toNat = some e.val ∧
      e.val.digitChar.toNat ∉ [43, 45, 120, 88] := by decide +kernel
  exact hall ⟨d, h⟩

theorem skip0x_pair {a b : Nat} (h : b ≠ 120 ∧ b ≠ 88) : skip0x [a, b] = [a, b] := by
  unfold skip0x
  split
  · next x us heq =>
    cases heq
    rw [if_neg (by omega)]
  · rfl

theorem parseInt16_digits {d e : Nat} (hd : d < 16) (he : e < 16) :
    parseInt16 [d.digitChar.toNat, e.digitChar.toNat] = some ((d * 16 + e : Nat) : Int) := by
  obtain ⟨-, hspace, hvalue, hsign⟩ := digitChar_spec hd
  obtain ⟨-, -, hvalue', hx⟩ := digitChar_spec he
  simp only [List.mem_cons, List.not_mem_nil, or_false, not_or] at hsign hx
  have hread : hexPrefix none [d.digitChar.toNat, e.digitChar.toNat] = some (d * 16 + e) := by
    simp [hexPrefix, hvalue, hvalue']
  unfold parseInt16
  rw [List.dropWhile_cons_of_neg (by simp [hspace])]
  split
  · next r heq => exact absurd (List.cons.inj heq).1 hsign.2.1
  · next r heq => exact absurd (List.cons.inj heq).1 hsign.1
  · rw [skip0x_pair ⟨hx.2.2.1, hx.2.2.2⟩, hread]
    rfl

theorem byteHex_spec (b : UInt8) : HexPair b := by
  have hlt := b.toNat_lt
  have hd : b.toNat / 16 < 16 := by omega
  have he : b.toNat % 16 < 16 := Nat.mod_lt _ (by decide)
  obtain ⟨hunits, -, hvalue, -⟩ := digitChar_spec hd
  obtain ⟨hunits', -, hvalue', -⟩ := digitChar_spec he
  have hb : toUint8 (parseInt16
      [(b.toNat / 16).digitChar.toNat, (b.toNat % 16).digitChar.toNat]) = b := by
    have hmod : ((b.toNat : Int) % 256).toNat = b.toNat := by omega
    rw [parseInt16_digits hd he, Nat.div_add_mod', toUint8, Option.getD_some, hmod,
      UInt8.ofNat_toNat]
  refine ⟨?_, ?_, ?_, ?_⟩
  · rw [byteHex_eq]
    simp [hunits, hunits', unitBytes, hb]
  · simp [byteHex_eq, hunits, hunits']
  · simp [byteHex_eq]
  · simp [byteHex_eq, hvalue, hvalue']

theorem unitBytes_append {us : List Nat} (vs : List Nat) (h : us.length = 2) :
    unitBytes (us ++ vs) = unitBytes us ++ unitBytes vs := by
  match us, h with
  | [a, b], _ => rfl

theorem hexToBytes_bytesToHex (bytes : Bytes) : hexToBytes (bytesToHex bytes) = bytes := by
  unfold hexToBytes units bytesToHex
  rw [String.toList_ofList]
  induction bytes with
  | nil => rfl
  | cons b bytes ih =>
    obtain ⟨hb, hlen, -⟩ := byteHex_spec b
    rw [List.flatMap_cons, List.flatMap_append, unitBytes_append _ hlen, hb, ih]
    rfl

theorem isHex_bytesToHex (bytes : Bytes) : isHex (bytesToHex bytes) = true ↔ bytes ≠ [] := by
  unfold isHex bytesToHex
  rw [String.toList_ofList]
  cases bytes with
  | nil => simp
  | cons b bytes =>
    have hne : byteHex b ≠ [] := (byteHex_spec b).2.2.1
    have hall : ∀ c ∈ (b :: bytes).flatMap byteHex, (hexValue c.toNat).isSome = true := by
      intro c hc
      obtain ⟨d, -, hcd⟩ := List.mem_flatMap.mp hc
      exact List.all_eq_true.mp (byteHex_spec d).2.2.2 c hcd
    rw [List.all_eq_true.mpr hall, Bool.and_true, Bool.not_eq_true', List.isEmpty_eq_false_iff]
    exact iff_of_true (by simp [hne]) (List.cons_ne_nil b bytes)

/-! ## Lengths -/

theorem length_charUnits_le (c : Char) : (charUnits c).length ≤ c.utf8Size := by
  have hpos := c.utf8Size_pos
  unfold charUnits
  split
  · simp only [List.length_singleton]
    omega
  · rename_i h
    have hne : c.utf8Size ≠ 1 := by
      intro h1
      have hle := UInt32.le_iff_toNat_le.mp (Char.utf8Size_eq_one_iff.mp h1)
      have hnat : c.val.toNat = c.toNat := rfl
      have h127 : (127 : UInt32).toNat = 127 := rfl
      omega
    simp only [List.length_cons, List.length_nil]
    omega

/-- A string has at most as many code units as its UTF-8 form has bytes. -/
theorem length_units_le (s : String) : (units s).length ≤ (encode s).length := by
  have hs : encode s = s.toList.flatMap String.utf8EncodeChar := by
    rw [← encode_ofList, String.ofList_toList]
  rw [hs, units]
  induction s.toList with
  | nil => exact Nat.le_refl _
  | cons c cs ih =>
    have hc := length_charUnits_le c
    simp only [List.flatMap_cons, List.length_append, String.length_utf8EncodeChar]
    omega

theorem length_units_dropBom (s : String) :
    (units (String.ofList (dropBom s.toList))).length ≤ (units s).length := by
  unfold units
  rw [String.toList_ofList]
  cases s.toList with
  | nil => exact Nat.le_refl _
  | cons c cs =>
    simp only [dropBom]
    split
    · simp
    · exact Nat.le_refl _

/-- Text read as hex again is at most half as long as the bytes it came from. -/
theorem length_hexToBytes_textDecode {bytes : Bytes} {t : String} (h : textDecode bytes = some t) :
    2 * (hexToBytes t).length ≤ bytes.length := by
  unfold textDecode at h
  obtain ⟨s, hs, ht⟩ := Option.map_eq_some_iff.mp h
  have henc : encode s = bytes := decode_eq_some.mp hs
  have h1 := length_units_dropBom s
  have h2 := length_units_le s
  rw [henc] at h2
  rw [length_hexToBytes, ← ht]
  omega

end Wormhole.L1
