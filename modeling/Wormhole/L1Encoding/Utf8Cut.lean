import Wormhole.L1Encoding.JsBytes

/-!
# `TextDecoder` on the front of a text

`new TextDecoder().decode` on bytes that were cut off somewhere. Inside a character it gives U+FFFD
for what is there of it.

* `textDecodeLossy_encode`: a whole text is decoded as it is.
* `decodeFrom_prefix`: a cut text is decoded to the characters that are there as a whole, with
  at most one U+FFFD behind them.
-/
namespace Wormhole.L1.Utf8Cut

open String (utf8EncodeChar)

/-- The decoder between two characters. -/
abbrev decodeFrom (bytes : Bytes) : List Char := replaceInvalid 0 0 0x80 0xBF bytes

/-! ## Sequences -/

section
variable {needed point lower upper : Nat} {b : UInt8}

theorem decode_more (hb : lower ≤ b.toNat ∧ b.toNat ≤ upper) (bs : Bytes) :
    replaceInvalid (needed + 2) point lower upper (b :: bs) =
      replaceInvalid (needed + 1) (point * 64 + b.toNat % 64) 0x80 0xBF bs := by
  rw [replaceInvalid_cons, if_pos ⟨by omega, hb⟩, if_neg (by omega)]
  rfl

theorem decode_last (hb : lower ≤ b.toNat ∧ b.toNat ≤ upper) (bs : Bytes) :
    replaceInvalid 1 point lower upper (b :: bs) =
      Char.ofNat (point * 64 + b.toNat % 64) :: decodeFrom bs := by
  rw [replaceInvalid_cons, if_pos ⟨by omega, hb⟩, if_pos rfl]

theorem decode_cut (needed point lower upper : Nat) :
    replaceInvalid (needed + 1) point lower upper [] = ['\ufffd'] := by
  rw [replaceInvalid_nil, if_neg (by omega)]

theorem decode_lead {c : Char} (h : lead b = .char c) (bs : Bytes) :
    decodeFrom (b :: bs) = c :: decodeFrom bs := by
  unfold decodeFrom
  rw [replaceInvalid_cons, if_neg (fun h => h.1 rfl), if_pos rfl, h]
  rfl

theorem decode_sequence (h : lead b = .sequence needed point lower upper) (bs : Bytes) :
    decodeFrom (b :: bs) = replaceInvalid needed point lower upper bs := by
  unfold decodeFrom
  rw [replaceInvalid_cons, if_neg (fun h => h.1 rfl), if_pos rfl, h]
  rfl

end

/-- The rest of the bytes of a character. -/
def Tail (c : Char) : Nat → Nat → Nat → Nat → Bytes → Prop
  | 1, point, lower, upper, [b] =>
    (lower ≤ b.toNat ∧ b.toNat ≤ upper) ∧ Char.ofNat (point * 64 + b.toNat % 64) = c
  | needed + 2, point, lower, upper, b :: bs =>
    (lower ≤ b.toNat ∧ b.toNat ≤ upper) ∧
      Tail c (needed + 1) (point * 64 + b.toNat % 64) 0x80 0xBF bs
  | _, _, _, _, _ => False

theorem tail_decodes {c : Char} {tail : Bytes} :
    ∀ {needed point lower upper : Nat}, Tail c needed point lower upper tail →
      (∀ bs, replaceInvalid needed point lower upper (tail ++ bs) = c :: decodeFrom bs) ∧
      ∀ front, front <+: tail → front ≠ tail →
        replaceInvalid needed point lower upper front = ['\ufffd'] := by
  induction tail with
  | nil =>
    intro needed point lower upper h
    match needed, h with
    | 0, h => cases h
    | 1, h => cases h
    | n + 2, h => cases h
  | cons b tail ih =>
    intro needed point lower upper h
    match needed, tail, h with
    | 0, _, h => cases h
    | 1, [], h =>
      obtain ⟨hb, hc⟩ := h
      constructor
      · intro bs
        rw [List.singleton_append, decode_last hb, hc]
      · intro front hf hne
        cases front with
        | nil => exact decode_cut 0 point lower upper
        | cons a front =>
          obtain ⟨rfl, hnil⟩ := List.cons_prefix_cons.mp hf
          rw [List.prefix_nil.mp hnil] at hne
          exact absurd rfl hne
    | 1, _ :: _, h => cases h
    | n + 2, tail, h =>
      obtain ⟨hb, htail⟩ := h
      obtain ⟨hchar, hcut⟩ := ih htail
      constructor
      · intro bs
        rw [List.cons_append, decode_more hb]
        exact hchar bs
      · intro front hf hne
        cases front with
        | nil => exact decode_cut (n + 1) point lower upper
        | cons a front =>
          obtain ⟨rfl, hfront⟩ := List.cons_prefix_cons.mp hf
          rw [decode_more hb]
          refine hcut front hfront ?_
          rintro rfl
          exact hne rfl

/-! ## Characters -/

/-- The bytes of one character: it is decoded as it is, and U+FFFD stands for a part of it. -/
structure Whole (c : Char) (bytes : Bytes) : Prop where
  char : ∀ bs, decodeFrom (bytes ++ bs) = c :: decodeFrom bs
  cut : ∀ front, front <+: bytes → front ≠ [] → front ≠ bytes → decodeFrom front = ['\ufffd']

theorem whole_lead {c : Char} {b : UInt8} (h : lead b = .char c) : Whole c [b] := by
  refine ⟨fun bs => decode_lead h bs, ?_⟩
  intro front hf hnil hne
  cases front with
  | nil => exact absurd rfl hnil
  | cons a front =>
    obtain ⟨rfl, hfront⟩ := List.cons_prefix_cons.mp hf
    rw [List.prefix_nil.mp hfront] at hne
    exact absurd rfl hne

theorem whole_sequence {c : Char} {b : UInt8} {needed point lower upper : Nat} {tail : Bytes}
    (h : lead b = .sequence needed point lower upper)
    (ht : Tail c needed point lower upper tail) : Whole c (b :: tail) := by
  obtain ⟨hchar, hcut⟩ := tail_decodes ht
  constructor
  · intro bs
    rw [List.cons_append, decode_sequence h]
    exact hchar bs
  · intro front hf hnil hne
    cases front with
    | nil => exact absurd rfl hnil
    | cons a front =>
      obtain ⟨rfl, hfront⟩ := List.cons_prefix_cons.mp hf
      rw [decode_sequence h]
      refine hcut front hfront ?_
      rintro rfl
      exact hne rfl

theorem toNat_byte {n : Nat} (h : n < 256) : (UInt8.ofNat n).toNat = n := by
  rw [UInt8.toNat_ofNat']
  exact Nat.mod_eq_of_lt h

/-- No surrogates, and nothing above U+10FFFF. -/
theorem scalar_bounds (c : Char) :
    c.toNat < 0xD800 ∨ 0xDFFF < c.toNat ∧ c.toNat < 0x110000 := c.valid

section
variable {c : Char} {n : Nat}

theorem whole_one (h : n ≤ 0x7F) (hc : Char.ofNat n = c) : Whole c [UInt8.ofNat n] := by
  apply whole_lead
  simp only [lead]
  rw [toNat_byte (by omega), if_pos h, hc]

theorem whole_two (h1 : ¬n ≤ 0x7F) (h2 : n ≤ 0x7FF) (hc : Char.ofNat n = c) :
    Whole c [UInt8.ofNat (n / 64 % 0x20 + 0xC0), UInt8.ofNat (n % 0x40 + 0x80)] := by
  have hlead : lead (UInt8.ofNat (n / 64 % 0x20 + 0xC0)) =
      .sequence 1 (n / 64) 0x80 0xBF := by
    have hpoint : n / 64 % 0x20 + 0xC0 - 0xC0 = n / 64 := by omega
    simp only [lead]
    rw [toNat_byte (by omega), if_neg (by omega), if_pos (by omega), hpoint]
  refine whole_sequence hlead ⟨?_, ?_⟩
  · rw [toNat_byte (by omega)]
    omega
  · refine (congrArg Char.ofNat ?_).trans hc
    rw [toNat_byte (by omega)]
    omega

/-- The second byte of `E0` is not below `A0`, that of `ED` not above `9F`. -/
theorem whole_three (h2 : ¬n ≤ 0x7FF) (h3 : n ≤ 0xFFFF) (hs : n < 0xD800 ∨ 0xDFFF < n)
    (hc : Char.ofNat n = c) :
    Whole c [UInt8.ofNat (n / 4096 % 0x10 + 0xE0), UInt8.ofNat (n / 64 % 0x40 + 0x80),
      UInt8.ofNat (n % 0x40 + 0x80)] := by
  have hlead : lead (UInt8.ofNat (n / 4096 % 0x10 + 0xE0)) =
      .sequence 2 (n / 4096) (if n / 4096 = 0 then 0xA0 else 0x80)
        (if n / 4096 = 0xD then 0x9F else 0xBF) := by
    have hpoint : n / 4096 % 0x10 + 0xE0 - 0xE0 = n / 4096 := by omega
    have hlow : n / 4096 % 0x10 + 0xE0 = 0xE0 ↔ n / 4096 = 0 := by omega
    have hhigh : n / 4096 % 0x10 + 0xE0 = 0xED ↔ n / 4096 = 0xD := by omega
    simp only [lead]
    rw [toNat_byte (by omega), if_neg (by omega), if_neg (by omega), if_pos (by omega), hpoint,
      if_congr hlow rfl rfl, if_congr hhigh rfl rfl]
  refine whole_sequence hlead ⟨?_, ?_, ?_⟩
  · rw [toNat_byte (by omega)]
    split <;> split <;> omega
  · rw [toNat_byte (by omega)]
    omega
  · refine (congrArg Char.ofNat ?_).trans hc
    rw [toNat_byte (by omega), toNat_byte (by omega)]
    omega

/-- The second byte of `F0` is not below `90`, that of `F4` not above `8F`. -/
theorem whole_four (h3 : ¬n ≤ 0xFFFF) (h4 : n < 0x110000) (hc : Char.ofNat n = c) :
    Whole c [UInt8.ofNat (n / 262144 % 0x08 + 0xF0), UInt8.ofNat (n / 4096 % 0x40 + 0x80),
      UInt8.ofNat (n / 64 % 0x40 + 0x80), UInt8.ofNat (n % 0x40 + 0x80)] := by
  have hlead : lead (UInt8.ofNat (n / 262144 % 0x08 + 0xF0)) =
      .sequence 3 (n / 262144) (if n / 262144 = 0 then 0x90 else 0x80)
        (if n / 262144 = 4 then 0x8F else 0xBF) := by
    have hpoint : n / 262144 % 0x08 + 0xF0 - 0xF0 = n / 262144 := by omega
    have hlow : n / 262144 % 0x08 + 0xF0 = 0xF0 ↔ n / 262144 = 0 := by omega
    have hhigh : n / 262144 % 0x08 + 0xF0 = 0xF4 ↔ n / 262144 = 4 := by omega
    simp only [lead]
    rw [toNat_byte (by omega), if_neg (by omega), if_neg (by omega), if_neg (by omega),
      if_pos (by omega), hpoint, if_congr hlow rfl rfl, if_congr hhigh rfl rfl]
  refine whole_sequence hlead ⟨?_, ?_, ?_, ?_⟩
  · rw [toNat_byte (by omega)]
    split <;> split <;> omega
  · rw [toNat_byte (by omega)]
    omega
  · rw [toNat_byte (by omega)]
    omega
  · refine (congrArg Char.ofNat ?_).trans hc
    rw [toNat_byte (by omega), toNat_byte (by omega), toNat_byte (by omega)]
    omega

end

theorem whole_utf8EncodeChar (c : Char) : Whole c (utf8EncodeChar c) := by
  have hv : c.val.toNat = c.toNat := rfl
  have hbounds := scalar_bounds c
  have hc : Char.ofNat c.toNat = c := Char.ofNat_toNat c
  unfold utf8EncodeChar
  rw [hv]
  dsimp only
  split
  · rename_i h1
    exact whole_one h1 hc
  · rename_i h1
    split
    · rename_i h2
      exact whole_two h1 h2 hc
    · rename_i h2
      split
      · rename_i h3
        exact whole_three h2 h3 (by omega) hc
      · rename_i h3
        exact whole_four h3 (by omega) hc

/-! ## Texts -/

theorem decodeFrom_utf8 (cs : List Char) (bs : Bytes) :
    decodeFrom (cs.flatMap utf8EncodeChar ++ bs) = cs ++ decodeFrom bs := by
  induction cs with
  | nil => rfl
  | cons c cs ih =>
    rw [List.flatMap_cons, List.append_assoc, (whole_utf8EncodeChar c).char, ih]
    rfl

theorem decodeFrom_nil : decodeFrom [] = [] := by
  unfold decodeFrom
  rw [replaceInvalid_nil, if_pos rfl]

/-- Where a text is cut, U+FFFD stands for the part of a character that is there. -/
theorem decodeFrom_prefix {cs : List Char} {front : Bytes}
    (h : front <+: cs.flatMap utf8EncodeChar) :
    ∃ text, text <+: cs ∧ (decodeFrom front = text ∨ decodeFrom front = text ++ ['\ufffd']) := by
  induction cs generalizing front with
  | nil =>
    rw [List.prefix_nil.mp h, decodeFrom_nil]
    exact ⟨[], List.nil_prefix, .inl rfl⟩
  | cons c cs ih =>
    rw [List.flatMap_cons] at h
    rcases Nat.lt_or_ge front.length (utf8EncodeChar c).length with hlt | hge
    · have hpart : front <+: utf8EncodeChar c :=
        List.prefix_of_prefix_length_le h (List.prefix_append _ _) hlt.le
      refine ⟨[], List.nil_prefix, ?_⟩
      by_cases hnil : front = []
      · rw [hnil, decodeFrom_nil]
        exact .inl rfl
      · refine .inr ((whole_utf8EncodeChar c).cut front hpart hnil ?_)
        rintro rfl
        exact Nat.lt_irrefl _ hlt
    · obtain ⟨rest, rfl⟩ := List.prefix_of_prefix_length_le (List.prefix_append _ _) h hge
      obtain ⟨text, ht, hdec⟩ := ih ((List.prefix_append_right_inj _).mp h)
      rw [(whole_utf8EncodeChar c).char]
      refine ⟨c :: text, List.cons_prefix_cons.mpr ⟨rfl, ht⟩, ?_⟩
      rcases hdec with hdec | hdec
      · exact .inl (by rw [hdec])
      · exact .inr (by rw [hdec]; rfl)

theorem encode_eq (s : String) : encode s = s.toList.flatMap utf8EncodeChar := by
  rw [← encode_ofList, String.ofList_toList]

theorem textDecodeLossy_eq (bytes : Bytes) :
    textDecodeLossy bytes = String.ofList (dropBom (decodeFrom bytes)) := by
  unfold textDecodeLossy
  split
  · rename_i s hs
    have hall := decodeFrom_utf8 s.toList []
    rw [List.append_nil, decodeFrom_nil, List.append_nil, ← encode_eq, decode_eq_some.mp hs] at hall
    rw [hall]
  · rfl

theorem textDecodeLossy_encode (cs : List Char) :
    textDecodeLossy (cs.flatMap utf8EncodeChar) = String.ofList (dropBom cs) := by
  have hall := decodeFrom_utf8 cs []
  rw [List.append_nil, decodeFrom_nil, List.append_nil] at hall
  rw [textDecodeLossy_eq, hall]

end Wormhole.L1.Utf8Cut
