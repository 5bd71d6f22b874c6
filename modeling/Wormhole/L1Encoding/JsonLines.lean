import Wormhole.L1Encoding.JsonRoundTrip
import Wormhole.L1Encoding.PyBytes
import Mathlib.Data.Nat.Digits.Defs

/-!
# JSON texts on a line

`json.dumps` without an indent: its text is one line, so a newline behind it ends it.

* `newline_notMem_line`: no byte of the encoded text is a newline.
* `loads_line`: reading it back gives the value.
-/
namespace Wormhole.L1.JsonText

/-! ## No newline -/

section
variable {W : Writer} {P : Json → Prop}

/-- The writer puts no newline into strings and numbers, and has no indent. -/
structure Writer.OneLine (W : Writer) (P : Json → Prop) : Prop where
  escape : ∀ c, '\n' ∉ W.escape c
  number : ∀ x, P x → '\n' ∉ W.numberText x
  indent : W.indent = none

theorem Writer.OneLine.quote (h : W.OneLine P) (s : String) : '\n' ∉ W.quote s := by
  unfold Writer.quote
  simp only [List.mem_cons, List.mem_append, List.mem_flatMap, List.not_mem_nil, or_false, not_or,
    not_exists, not_and]
  exact ⟨by decide, fun c _ => h.escape c, by decide⟩

theorem Writer.OneLine.newline (h : W.OneLine P) (level : Nat) : W.newline level = [] := by
  rw [Writer.newline, h.indent]

theorem notMem_blanks (n : Nat) : '\n' ∉ List.replicate n ' ' :=
  fun h => absurd (List.eq_of_mem_replicate h) (by decide)

theorem Writer.OneLine.comma (h : W.OneLine P) (level : Nat) : '\n' ∉ W.comma level := by
  unfold Writer.comma
  rw [h.newline, List.append_nil]
  exact List.not_mem_cons_of_ne_of_not_mem (by decide) (notMem_blanks _)

theorem notMem_colon (W : Writer) : '\n' ∉ W.colon :=
  List.not_mem_cons_of_ne_of_not_mem (by decide) (notMem_blanks _)

mutual

theorem newline_notMem_write (h : W.OneLine P) : ∀ (x : Json) (level : Nat), Plain P x →
    '\n' ∉ W.write level x
  | .null, level, _ => by rw [Writer.write]; decide
  | .bool true, level, _ => by rw [Writer.write]; decide
  | .bool false, level, _ => by rw [Writer.write]; decide
  | .int n, level, hx => by
    rw [Plain] at hx
    rw [Writer.write]
    exact h.number _ hx
  | .float f, level, hx => by
    rw [Plain] at hx
    rw [Writer.write]
    exact h.number _ hx
  | .str s, level, _ => by
    rw [Writer.write]
    exact h.quote s
  | .arr [], level, _ => by rw [Writer.write]; decide
  | .arr (x :: xs), level, hx => by
    rw [Plain, PlainItems] at hx
    rw [Writer.write, h.newline, List.nil_append]
    simp only [List.mem_cons, List.mem_append, not_or]
    exact ⟨by decide, newline_notMem_write h x _ hx.1, newline_notMem_writeItems h xs _ hx.2⟩
  | .obj [], level, _ => by rw [Writer.write]; decide
  | .obj ((k, x) :: fs), level, hx => by
    rw [Plain, PlainFields] at hx
    rw [Writer.write, h.newline, List.nil_append]
    simp only [List.mem_cons, List.mem_append, not_or]
    exact ⟨by decide, h.quote k, notMem_colon W, newline_notMem_write h x _ hx.2.1,
      newline_notMem_writeFields h fs _ hx.2.2⟩

theorem newline_notMem_writeItems (h : W.OneLine P) : ∀ (xs : List Json) (level : Nat),
    PlainItems P xs → '\n' ∉ W.writeItems level xs
  | [], level, _ => by
    rw [Writer.writeItems, h.newline]
    decide
  | x :: xs, level, hx => by
    rw [PlainItems] at hx
    rw [Writer.writeItems]
    simp only [List.mem_append, not_or]
    exact ⟨h.comma _, newline_notMem_write h x _ hx.1, newline_notMem_writeItems h xs _ hx.2⟩

theorem newline_notMem_writeFields (h : W.OneLine P) : ∀ (fs : List (String × Json))
    (level : Nat), PlainFields P fs → '\n' ∉ W.writeFields level fs
  | [], level, _ => by
    rw [Writer.writeFields, h.newline]
    decide
  | (k, x) :: fs, level, hx => by
    rw [PlainFields] at hx
    rw [Writer.writeFields]
    simp only [List.mem_append, not_or]
    exact ⟨h.comma _, h.quote k, notMem_colon W, newline_notMem_write h x _ hx.1,
      newline_notMem_writeFields h fs _ hx.2⟩

end

end

/-! ## Python -/

/-- An integer that `str` prints. -/
def Printed : Json → Prop
  | .int n => (Nat.toDigits 10 n.natAbs).length ≤ 4300
  | _ => False

theorem printed_of_lt {n : Nat} (h : n < 2 ^ 63) : Printed (.int n) :=
  (Nat.toDigits_length 10 n 20 (by decide) (h.trans_le (by decide))).trans (by decide)

variable (repr : PyFloat → Text)

theorem newline_notMem_pyEscape (c : Char) : '\n' ∉ pyEscape c := by
  have hdigit : ∀ n : Nat, '\n' ≠ (n % 16).digitChar := by
    have hall : ∀ d ∈ List.range 16, '\n' ≠ d.digitChar := by decide
    exact fun n => hall _ (List.mem_range.mpr (Nat.mod_lt _ (by decide)))
  unfold pyEscape
  split
  · rename_i e he
    have hall : '\n' ≠ e := by
      unfold shortEscape at he
      split_ifs at he <;> cases he <;> decide
    simp [hall]
  · split
    · rename_i h
      rintro hm
      rw [← List.mem_singleton.mp hm] at h
      exact absurd h.1 (by decide)
    · simp only [List.mem_flatMap, not_exists, not_and]
      intro u _
      simp [unitEscape, hdigit]

theorem py_oneLine : (pyWriter repr).OneLine Printed where
  escape := newline_notMem_pyEscape
  number x hx := by
    cases x with
    | int n =>
      have hall : '\n' ∉ Nat.toDigits 10 n.natAbs := fun hm =>
        absurd (Nat.isDigit_of_mem_toDigits (by decide) (by decide) hm) (by decide)
      show '\n' ∉ Writer.intText n
      unfold Writer.intText
      split
      · exact List.not_mem_cons_of_ne_of_not_mem (by decide) hall
      · exact hall
    | _ => cases hx
  indent := rfl

theorem py_reads_line : Inverse pyReader (pyWriter repr) Printed where
  escape := pyEscape_reads
  number x hx := by
    cases x with
    | int n => exact pyReader_readsInt hx
    | _ => cases hx

/-- `json.dumps(x).encode('utf-8')` -/
def line (x : Json) : Bytes := encode ((pyWriter repr).dumps x)

/-- Only an ASCII character has an ASCII byte in its encoding. -/
theorem toNat_of_mem_utf8EncodeChar {c : Char} {b : UInt8} (hb : b.toNat < 128)
    (h : b ∈ String.utf8EncodeChar c) : c.toNat = b.toNat := by
  have hne : ∀ n : Nat, 128 ≤ n → n < 256 → b ≠ UInt8.ofNat n := by
    intro n h1 h2 he
    have hn := congrArg UInt8.toNat he
    rw [UInt8.toNat_ofNat', Nat.mod_eq_of_lt h2] at hn
    omega
  unfold String.utf8EncodeChar at h
  simp only at h
  split at h
  · rename_i hv
    have hn := congrArg UInt8.toNat (List.mem_singleton.mp h)
    rw [UInt8.toNat_ofNat', Nat.mod_eq_of_lt (by omega)] at hn
    exact hn.symm
  · split at h
    · simp only [List.mem_cons, List.not_mem_nil, or_false] at h
      rcases h with h | h
      · exact absurd h (hne _ (by omega) (by omega))
      · exact absurd h (hne _ (by omega) (by omega))
    · split at h
      · simp only [List.mem_cons, List.not_mem_nil, or_false] at h
        rcases h with h | h | h
        · exact absurd h (hne _ (by omega) (by omega))
        · exact absurd h (hne _ (by omega) (by omega))
        · exact absurd h (hne _ (by omega) (by omega))
      · simp only [List.mem_cons, List.not_mem_nil, or_false] at h
        rcases h with h | h | h | h
        · exact absurd h (hne _ (by omega) (by omega))
        · exact absurd h (hne _ (by omega) (by omega))
        · exact absurd h (hne _ (by omega) (by omega))
        · exact absurd h (hne _ (by omega) (by omega))

theorem newline_notMem_encode {cs : Text} (h : '\n' ∉ cs) : 10 ∉ encode (String.ofList cs) := by
  rw [encode_ofList]
  simp only [List.mem_flatMap, not_exists, not_and]
  intro c hc hm
  have hnewline : c = '\n' := Char.toNat_inj.mp (toNat_of_mem_utf8EncodeChar (by decide) hm)
  rw [hnewline] at hc
  exact h hc

theorem newline_notMem_line {x : Json} (h : Plain Printed x) : 10 ∉ line repr x :=
  newline_notMem_encode (newline_notMem_write (py_oneLine repr) x 0 h)

/-- `json.loads(bs.decode('utf-8'))` -/
def loadsLine (bs : Bytes) : Option Json := (decode bs).bind pyReader.loads

theorem loads_line {x : Json} (h : Plain Printed x) : loadsLine (line repr x) = some x := by
  rw [loadsLine, line, decode_encode, Option.bind_some]
  exact loads_dumps (py_reads_line repr) h

end Wormhole.L1.JsonText
