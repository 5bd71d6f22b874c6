import Mathlib.Algebra.Group.Nat.Defs
import Mathlib.Data.List.Basic
import Mathlib.Data.List.DropRight

/-!
# `bytes`, `struct`, UTF-8 and `strip`

The byte-level operations the wire formats are written with: `str.encode`,
`bytes.decode` and the big-endian integers of `struct.pack`. A `str` is a
Lean `String`, that is, a sequence of Unicode scalar values together with its
UTF-8 bytes, so `encode` reads the bytes off and `decode` succeeds exactly on
the byte strings that some `str` encodes to (`decode_eq_some`).
-/
namespace Wormhole.L1

abbrev Bytes := List UInt8

/-! ## UTF-8 -/

/-- `s.encode()`. -/
def encode (s : String) : Bytes := s.toByteArray.data.toList

/-- `bs.decode()`; `none` is `UnicodeDecodeError`. -/
def decode (bs : Bytes) : Option String := String.fromUTF8? ⟨bs.toArray⟩

theorem decode_eq_some {bs : Bytes} {s : String} : decode bs = some s ↔ encode s = bs := by
  unfold decode encode String.fromUTF8?
  constructor
  · intro h
    split at h
    · cases h; simp [String.fromUTF8]
    · cases h
  · rintro rfl
    have he : (⟨s.toByteArray.data.toList.toArray⟩ : ByteArray) = s.toByteArray := by simp
    rw [he, dif_pos s.isValidUTF8]
    rfl

theorem decode_encode (s : String) : decode (encode s) = some s := decode_eq_some.mpr rfl

theorem encode_inj {s t : String} (h : encode s = encode t) : s = t := by
  have := decode_encode s
  rw [h, decode_encode] at this
  exact (Option.some.inj this).symm

theorem encode_ofList (cs : List Char) :
    encode (String.ofList cs) = cs.flatMap String.utf8EncodeChar := by
  unfold encode
  rw [String.toByteArray_ofList, List.utf8Encode]
  simp

theorem encode_append (s t : String) : encode (s ++ t) = encode s ++ encode t := by
  unfold encode
  rw [String.toByteArray_append, ByteArray.data_append, Array.toList_append]

/-! ## White space -/

/-- The characters `str.strip` removes. -/
def pyIsSpace (c : Char) : Bool :=
  (9 ≤ c.toNat && c.toNat ≤ 13) || (28 ≤ c.toNat && c.toNat ≤ 32) ||
  (0x2000 ≤ c.toNat && c.toNat ≤ 0x200a) ||
  c.toNat ∈ [0x85, 0xa0, 0x1680, 0x2028, 0x2029, 0x202f, 0x205f, 0x3000]

/-- `s.strip()` on the characters of `s`. -/
def strip (cs : List Char) : List Char := (cs.dropWhile pyIsSpace).rdropWhile pyIsSpace

/-! ## Decimal integers -/

/-- `str(n)` in Python, `String(n)` in JavaScript. -/
theorem toString_inj {n k : Nat} (h : toString n = toString k) : n = k := by
  have hd : Nat.toDigits 10 n = Nat.toDigits 10 k := by
    rw [← Nat.toList_repr, ← Nat.toList_repr]
    exact congrArg String.toList h
  rw [← Nat.ofDigitChars_toDigits (b := 10) (n := n) (by decide) (by decide), hd,
    Nat.ofDigitChars_toDigits (by decide) (by decide)]

/-! ## Big-endian integers -/

/-- The `w` low bytes of `n`, most significant first. -/
def beBytes : Nat → Nat → Bytes
  | 0, _ => []
  | w + 1, n => beBytes w (n / 256) ++ [UInt8.ofNat n]

/-- `struct.pack` of one unsigned big-endian integer of `w` bytes (`>B`, `>H`,
`>I` for 1, 2, 4); `none` is `struct.error`. -/
def pack (w n : Nat) : Option Bytes := if n < 256 ^ w then some (beBytes w n) else none

/-- `struct.unpack` of one unsigned big-endian integer of all the bytes given. -/
def unpack (bs : Bytes) : Nat := bs.foldl (fun n b => n * 256 + b.toNat) 0

@[simp] theorem length_beBytes (w n : Nat) : (beBytes w n).length = w := by
  induction w generalizing n with
  | zero => rfl
  | succ w ih => simp [beBytes, ih]

theorem unpack_append_singleton (bs : Bytes) (b : UInt8) :
    unpack (bs ++ [b]) = unpack bs * 256 + b.toNat := by
  simp [unpack]

theorem unpack_beBytes (w n : Nat) : unpack (beBytes w n) = n % 256 ^ w := by
  induction w generalizing n with
  | zero => simp [beBytes, unpack, Nat.mod_one]
  | succ w ih =>
    have hlow : (UInt8.ofNat n).toNat = n % 256 := UInt8.toNat_ofNat'
    rw [beBytes, unpack_append_singleton, ih, hlow, Nat.pow_succ', Nat.mod_mul]
    omega

theorem pack_eq_some {w n : Nat} {bs : Bytes} (h : pack w n = some bs) :
    bs = beBytes w n ∧ bs.length = w ∧ unpack bs = n := by
  unfold pack at h
  split at h
  · rename_i hn
    cases h
    exact ⟨rfl, length_beBytes w n, by rw [unpack_beBytes, Nat.mod_eq_of_lt hn]⟩
  · cases h

theorem pack_of_lt {w n : Nat} (h : n < 256 ^ w) : pack w n = some (beBytes w n) := if_pos h

/-! ## Reading in blocks -/

/-- What `f.read(size)` returns until it returns nothing; `n` bounds the reads. -/
def reads (size : Nat) : Nat → Bytes → List Bytes
  | 0, _ => []
  | n + 1, bs => if bs = [] then [] else bs.take size :: reads size n (bs.drop size)

theorem flatten_reads {size n : Nat} {bs : Bytes} (hs : 0 < size) (h : bs.length ≤ n) :
    (reads size n bs).flatten = bs := by
  induction n generalizing bs with
  | zero => simp [reads, List.length_eq_zero_iff.mp (Nat.le_zero.mp h)]
  | succ n ih =>
    rw [reads]
    split
    · rename_i hb; simp [hb]
    · rename_i hb
      have hpos : 0 < bs.length := List.length_pos_iff.mpr hb
      rw [List.flatten_cons, ih (by simp only [List.length_drop]; omega), List.take_append_drop]

theorem length_of_mem_reads {size n : Nat} {bs c : Bytes} (h : c ∈ reads size n bs) :
    c.length ≤ size := by
  induction n generalizing bs with
  | zero => cases h
  | succ n ih =>
    rw [reads] at h
    split at h
    · cases h
    · obtain rfl | h := List.mem_cons.mp h
      · exact List.length_take_le ..
      · exact ih h

end Wormhole.L1
