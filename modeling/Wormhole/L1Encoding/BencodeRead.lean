import Wormhole.L1Encoding.BencodeTotal

/-!
# What the bencode decoder reads

The two leaves of the format, wherever they stand in the data: decimal text is
read as the number it was written for (`pyInt_intBytes`), an encoded integer
(`reads_int`) and an encoded byte string, whatever its bytes are (`reads_bytes`),
as what they encode, up to where they end.
-/
namespace Wormhole.L1.Bencode

/-! ## Decimal text -/

/-- The byte of a digit or a sign. -/
def charByte (c : Char) : UInt8 := UInt8.ofNat c.toNat

theorem charByte_toNat {c : Char} (h : c.toNat < 128) : (charByte c).toNat = c.toNat := by
  unfold charByte
  rw [UInt8.toNat_ofNat']
  omega

theorem utf8EncodeChar_ascii {c : Char} (h : c.toNat < 128) :
    String.utf8EncodeChar c = [charByte c] := by
  have hsize : c.utf8Size = 1 := by
    rw [Char.utf8Size_eq_one_iff, UInt32.le_iff_toNat_le]
    have hval : c.val.toNat = c.toNat := rfl
    have h127 : (0x7f : UInt32).toNat = 127 := rfl
    omega
  rw [String.utf8EncodeChar_eq_singleton hsize]
  rfl

theorem isDigit_range {c : Char} (h : c.isDigit = true) : 48 ≤ c.toNat ∧ c.toNat ≤ 57 := by
  unfold Char.isDigit at h
  simp only [Bool.and_eq_true, decide_eq_true_eq, ge_iff_le, UInt32.le_iff_toNat_le] at h
  exact h

/-- The decimal digits of a number, as bytes. -/
def decimal (n : Nat) : Bytes := (Nat.toDigits 10 n).map charByte

theorem mem_decimal {n : Nat} {b : UInt8} (h : b ∈ decimal n) : 48 ≤ b.toNat ∧ b.toNat ≤ 57 := by
  obtain ⟨c, hc, rfl⟩ := List.mem_map.mp h
  have hd := isDigit_range (Nat.isDigit_of_mem_toDigits (by decide) (by decide) hc)
  rw [charByte_toNat (by omega)]
  exact hd

theorem decimal_ne_nil (n : Nat) : decimal n ≠ [] := by
  unfold decimal
  rw [Ne, List.map_eq_nil_iff]
  exact Nat.toDigits_ne_nil

theorem encode_toString_nat (n : Nat) : encode (toString n) = decimal n := by
  have hs : toString n = String.ofList (Nat.toDigits 10 n) := Nat.repr_eq_ofList_toDigits
  rw [hs, encode_ofList]
  unfold decimal
  have hall : ∀ c ∈ Nat.toDigits 10 n, String.utf8EncodeChar c = [charByte c] := by
    intro c hc
    have hd := isDigit_range (Nat.isDigit_of_mem_toDigits (by decide) (by decide) hc)
    exact utf8EncodeChar_ascii (by omega)
  generalize Nat.toDigits 10 n = ds at hall
  induction ds with
  | nil => rfl
  | cons c ds ih =>
    rw [List.flatMap_cons, hall c List.mem_cons_self,
      ih fun d hd => hall d (List.mem_cons_of_mem c hd)]
    rfl

theorem intBytes_eq (n : Int) :
    intBytes n = if n < 0 then 45 :: decimal n.natAbs else decimal n.natAbs := by
  unfold intBytes
  cases n with
  | ofNat n => exact encode_toString_nat n
  | negSucc n =>
    have hs : toString (Int.negSucc n) = "-" ++ toString (n + 1) := rfl
    rw [hs, encode_append, encode_toString_nat]
    have hminus : encode "-" = [45] := by decide
    rw [hminus, if_pos (Int.negSucc_lt_zero n)]
    rfl

theorem lengthPrefixed_eq (bs : Bytes) : lengthPrefixed bs = decimal bs.length ++ 58 :: bs := by
  have hcolon : encode ":" = [58] := by decide
  rw [lengthPrefixed, encode_append, encode_toString_nat, hcolon, List.append_assoc]
  rfl

theorem digitRun_digits (ds : List Char) (hd : ∀ c ∈ ds, c.isDigit = true) (b : Bool)
    (h : b = true ∨ ds ≠ []) :
    digitRun b (ds.map charByte) = some (ds.map fun c => c.toNat - 48) := by
  induction ds generalizing b with
  | nil =>
    have hb : b = true := h.resolve_right fun hne => hne rfl
    subst hb
    rfl
  | cons c ds ih =>
    have hc := isDigit_range (hd c List.mem_cons_self)
    have hbyte := charByte_toNat (c := c) (by omega)
    have hrange : 48 ≤ charByte c ∧ charByte c ≤ 57 := by
      simp only [UInt8.le_iff_toNat_le, hbyte]
      exact hc
    simp only [List.map_cons, digitRun, if_pos hrange, hbyte,
      ih (fun d hd' => hd d (List.mem_cons_of_mem c hd')) true (.inl rfl), Option.map_some]

/-- A text without white space at its ends is read as it is. -/
theorem strip_of_ends {bs : Bytes} (hne : bs ≠ []) (h : ∀ b ∈ bs, isSpaceByte b = false) :
    (bs.dropWhile isSpaceByte).rdropWhile isSpaceByte = bs := by
  have hdrop : bs.dropWhile isSpaceByte = bs := by
    cases bs with
    | nil => rfl
    | cons b bs => rw [List.dropWhile_cons_of_neg (by simp [h b List.mem_cons_self])]
  rw [hdrop]
  exact List.rdropWhile_eq_self_iff.mpr fun hn => by simp [h _ (List.getLast_mem hn)]

theorem not_space {b : UInt8} (h : b = 45 ∨ 48 ≤ b.toNat ∧ b.toNat ≤ 57) :
    isSpaceByte b = false := by
  rcases h with rfl | h
  · decide
  · unfold isSpaceByte
    have h32 : b ≠ 32 := by rintro rfl; revert h; decide
    have h13 : ¬ b ≤ 13 := by
      rw [UInt8.le_iff_toNat_le]
      have : (13 : UInt8).toNat = 13 := rfl
      omega
    simp [h32, h13]

/-- The number of digits that is left to `int()`. -/
theorem length_decimal (n : Nat) : (decimal n).length = (toString n).length := by
  have hs : (toString n).toList = Nat.toDigits 10 n := Nat.toList_repr
  rw [decimal, List.length_map, ← hs, String.length_toList]

/-- Decimal text is read as the number it was written for. -/
theorem pyInt_intBytes {n : Int} (h : (toString n.natAbs).length ≤ maxStrDigits) :
    pyInt (intBytes n) = some n := by
  have hbytes := intBytes_eq n
  have hmem : ∀ b ∈ intBytes n, b = 45 ∨ 48 ≤ b.toNat ∧ b.toNat ≤ 57 := by
    intro b hb
    rw [hbytes] at hb
    split at hb
    · rcases List.mem_cons.mp hb with rfl | hb
      · exact .inl rfl
      · exact .inr (mem_decimal hb)
    · exact .inr (mem_decimal hb)
  have hne : intBytes n ≠ [] := by
    rw [hbytes]
    split
    · exact List.cons_ne_nil _ _
    · exact decimal_ne_nil _
  have hstrip := strip_of_ends hne fun b hb => not_space (hmem b hb)
  have hall : ∀ c ∈ Nat.toDigits 10 n.natAbs, c.isDigit = true := fun c hc =>
    Nat.isDigit_of_mem_toDigits (by decide) (by decide) hc
  have hrun : digitRun false (decimal n.natAbs) =
      some ((Nat.toDigits 10 n.natAbs).map fun c => c.toNat - 48) :=
    digitRun_digits _ hall false (.inr Nat.toDigits_ne_nil)
  have hlen : ¬ maxStrDigits < (Nat.toDigits 10 n.natAbs).length := by
    have := length_decimal n.natAbs
    rw [decimal, List.length_map] at this
    omega
  have hvalue : ((Nat.toDigits 10 n.natAbs).map fun c => c.toNat - 48).foldl
      (fun n d => 10 * n + d) 0 = n.natAbs := by
    rw [List.foldl_map]
    exact Nat.ofDigitChars_ten_toDigits
  unfold pyInt
  rw [hstrip, hbytes]
  by_cases hneg : n < 0
  · rw [if_pos hneg]
    simp only [hrun, Option.bind_some, List.length_map, hlen, if_false, hvalue, if_true]
    congr 1
    omega
  · rw [if_neg hneg]
    have hplain : ∀ rest, decimal n.natAbs ≠ 45 :: rest ∧ decimal n.natAbs ≠ 43 :: rest := by
      intro rest
      constructor
      all_goals
        intro he
        have := mem_decimal (n := n.natAbs) (he ▸ List.mem_cons_self)
        revert this
        decide
    dsimp only
    split
    · rename_i rest he
      exact absurd he (hplain rest).1
    · rename_i rest he
      exact absurd he (hplain rest).2
    · simp only [hrun, Option.bind_some, List.length_map, hlen, if_false, hvalue,
        Bool.false_eq_true]
      congr 1
      omega

/-! ## Positions in the middle of the data -/

theorem sliceIndex_of_le {length n : Nat} (h : n ≤ length) : sliceIndex length n = n := by
  unfold sliceIndex
  rw [if_neg (by omega), Int.toNat_natCast, Nat.min_eq_left h]

theorem slice_middle (pre bs rest : Bytes) {i j : Int} (hi : i = pre.length)
    (hj : j = pre.length + bs.length) : slice (pre ++ (bs ++ rest)) i j = bs := by
  subst hi hj
  have h1 : sliceIndex (pre ++ (bs ++ rest)).length pre.length = pre.length :=
    sliceIndex_of_le (by simp only [List.length_append]; omega)
  have h2 : sliceIndex (pre ++ (bs ++ rest)).length (pre.length + bs.length) =
      pre.length + bs.length :=
    sliceIndex_of_le (n := pre.length + bs.length) (by simp only [List.length_append]; omega)
  have hlen : pre.length + bs.length - pre.length = bs.length := by omega
  simp only [slice, h1, h2, List.drop_left, hlen, List.take_left]

/-- The byte at a position. -/
theorem slice_head (pre : Bytes) (b : UInt8) (rest : Bytes) :
    slice (pre ++ b :: rest) pre.length (pre.length + 1) = [b] :=
  slice_middle pre [b] rest rfl rfl

theorem index_middle (pre bs rest : Bytes) {c : UInt8} (h : c ∉ bs) :
    index (pre ++ (bs ++ c :: rest)) c pre.length = some (pre.length + bs.length) := by
  have h1 : sliceIndex (pre ++ (bs ++ c :: rest)).length pre.length = pre.length :=
    sliceIndex_of_le (by simp only [List.length_append]; omega)
  have hall : ∀ b ∈ bs, (decide (b ≠ c)) = true := by
    intro b hb
    rw [decide_eq_true_eq]
    rintro rfl
    exact h hb
  have hskip : (bs ++ c :: rest).takeWhile (fun b => decide (b ≠ c)) = bs := by
    rw [List.takeWhile_append_of_pos hall, List.takeWhile_cons_of_neg (by simp), List.append_nil]
  simp only [index, h1, List.drop_left, hskip]
  rw [if_neg (by simp only [List.length_append]; omega),
    if_pos (by simp only [List.length_append, List.length_cons]; omega)]

/-! ## One item -/

/-- What a byte string of items is read as, wherever it stands, once there are
calls enough: `depth` is what the recursion takes. -/
def ReadsAs (depth : Nat) (bs : Bytes) (v : Value) : Prop :=
  ∃ n, ∀ pre rest fuel d, n ≤ fuel → depth ≤ d →
    decodeItem (pre ++ (bs ++ rest)) fuel d pre.length = .done (v, pre.length + bs.length)

theorem reads_int {n : Int} (h : (toString n.natAbs).length ≤ maxStrDigits) :
    ReadsAs 1 (encode "i" ++ intBytes n ++ encode "e") (.int n) := by
  refine ⟨1, fun pre rest fuel d hfuel hd => ?_⟩
  obtain ⟨fuel, rfl⟩ := Nat.exists_eq_add_of_le' hfuel
  obtain ⟨d, rfl⟩ := Nat.exists_eq_add_of_le' hd
  have hi : encode "i" = [105] := by decide
  have he : encode "e" = [101] := by decide
  have hmem : (101 : UInt8) ∉ 105 :: intBytes n := by
    rw [intBytes_eq]
    intro hm
    rcases List.mem_cons.mp hm with hm | hm
    · revert hm; decide
    · have hdigit : (101 : UInt8) ∉ decimal n.natAbs := fun hm => by
        have := mem_decimal hm
        revert this
        decide
      split at hm
      · rcases List.mem_cons.mp hm with hm | hm
        · revert hm; decide
        · exact hdigit hm
      · exact hdigit hm
  have hdata : pre ++ (encode "i" ++ intBytes n ++ encode "e" ++ rest) =
      pre ++ ((105 :: intBytes n) ++ 101 :: rest) := by
    simp only [hi, he, List.append_assoc, List.cons_append, List.nil_append]
  have hhead : slice (pre ++ ((105 :: intBytes n) ++ 101 :: rest)) pre.length (pre.length + 1) =
      [105] := slice_head pre 105 (intBytes n ++ 101 :: rest)
  have htext : slice (pre ++ ((105 :: intBytes n) ++ 101 :: rest)) (pre.length + 1)
      (pre.length + (105 :: intBytes n).length : Nat) = intBytes n := by
    have := slice_middle (pre ++ [105]) (intBytes n) (101 :: rest) (i := pre.length + 1)
      (j := (pre.length + (105 :: intBytes n).length : Nat)) (by simp) (by simp; omega)
    simpa using this
  rw [hdata, decodeItem, hhead, if_pos hi.symm, decodeInt, index_middle _ _ _ hmem]
  simp only [Option.bind_some, htext, pyInt_intBytes h, Option.map_some, Decoded.ofOption]
  congr 2
  simp [hi, he]
  omega

theorem reads_bytes {bs : Bytes} (h : (toString bs.length).length ≤ maxStrDigits) :
    ReadsAs 1 (lengthPrefixed bs) (.bytes bs) := by
  refine ⟨1, fun pre rest fuel d hfuel hd => ?_⟩
  obtain ⟨fuel, rfl⟩ := Nat.exists_eq_add_of_le' hfuel
  obtain ⟨d, rfl⟩ := Nat.exists_eq_add_of_le' hd
  have hmem : (58 : UInt8) ∉ decimal bs.length := fun hm => by
    have := mem_decimal hm
    revert this
    decide
  have hdata : pre ++ (lengthPrefixed bs ++ rest) =
      pre ++ (decimal bs.length ++ 58 :: (bs ++ rest)) := by
    rw [lengthPrefixed_eq, List.append_assoc, List.cons_append]
  -- a length begins with a digit
  have hhead : ∃ b, 48 ≤ b.toNat ∧ b.toNat ≤ 57 ∧
      slice (pre ++ (decimal bs.length ++ 58 :: (bs ++ rest))) pre.length (pre.length + 1) =
        [b] := by
    cases hdec : decimal bs.length with
    | nil => exact absurd hdec (decimal_ne_nil _)
    | cons b ds =>
      have hb := mem_decimal (n := bs.length) (hdec ▸ List.mem_cons_self)
      exact ⟨b, hb.1, hb.2, slice_head pre b (ds ++ 58 :: (bs ++ rest))⟩
  obtain ⟨b, hb1, hb2, hhead⟩ := hhead
  have hnot : ∀ c : UInt8, 57 < c.toNat → [b] ≠ [c] := by
    rintro c hc he
    cases he
    omega
  have hi : encode "i" = [105] := by decide
  have hl : encode "l" = [108] := by decide
  have hd' : encode "d" = [100] := by decide
  have hlength : pyInt (slice (pre ++ (decimal bs.length ++ 58 :: (bs ++ rest))) pre.length
      (pre.length + (decimal bs.length).length : Nat)) = some (bs.length : Int) := by
    rw [slice_middle pre (decimal bs.length) _ rfl (by simp)]
    have hint := pyInt_intBytes (n := (bs.length : Int)) (by simpa using h)
    rw [intBytes_eq, if_neg (by omega)] at hint
    exact hint
  have hbody : slice (pre ++ (decimal bs.length ++ 58 :: (bs ++ rest)))
      ((pre.length + (decimal bs.length).length : Nat) + 1)
      ((pre.length + (decimal bs.length).length : Nat) + 1 + bs.length) = bs := by
    have := slice_middle (pre ++ (decimal bs.length ++ [58])) bs rest
      (i := (pre.length + (decimal bs.length).length : Nat) + 1)
      (j := (pre.length + (decimal bs.length).length : Nat) + 1 + bs.length)
      (by simp; omega) (by simp; omega)
    simpa using this
  have hbytes : decodeBytes (pre ++ (decimal bs.length ++ 58 :: (bs ++ rest))) pre.length =
      some (Value.bytes bs,
        ((pre.length + (decimal bs.length).length : Nat) : Int) + 1 + bs.length) :=
    decodeBytes_eq_some.mpr ⟨_, _, index_middle _ _ _ hmem, hlength, by rw [hbody], rfl⟩
  rw [hdata, decodeItem, hhead, if_neg (hi ▸ hnot 105 (by decide)),
    if_neg (hl ▸ hnot 108 (by decide)), if_neg (hd' ▸ hnot 100 (by decide)), hbytes]
  simp only [Decoded.ofOption]
  congr 2
  simp [lengthPrefixed_eq]
  omega

end Wormhole.L1.Bencode
