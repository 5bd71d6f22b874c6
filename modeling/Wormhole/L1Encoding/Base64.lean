import Wormhole.L1Encoding.PyBytes

/-!
# Base 64

`b64encode` and `btoa` write the same text. `b64decode` skips what is not in the
alphabet and stops at the padding, `atob` drops white space and takes the text
with or without padding; both read back what was written.
-/
namespace Wormhole.L1.Base64

/-! ## The alphabet -/

/-- The character of six bits. -/
def charOf (n : Nat) : Char :=
  if n < 26 then Char.ofNat (65 + n)
  else if n < 52 then Char.ofNat (71 + n)
  else if n < 62 then Char.ofNat (n - 4)
  else if n = 62 then '+'
  else '/'

def valueOf (c : Char) : Option Nat :=
  let u := c.toNat
  if 65 ≤ u ∧ u ≤ 90 then some (u - 65)
  else if 97 ≤ u ∧ u ≤ 122 then some (u - 71)
  else if 48 ≤ u ∧ u ≤ 57 then some (u + 4)
  else if c = '+' then some 62
  else if c = '/' then some 63
  else none

/-- White space that `atob` drops. -/
def isSpace (c : Char) : Bool :=
  c = ' ' || c = '\t' || c = '\n' || c = '\x0c' || c = '\r'

theorem charOf_spec {n : Nat} (h : n < 64) :
    valueOf (charOf n) = some n ∧ charOf n ≠ '=' ∧ isSpace (charOf n) = false ∧
      (charOf n).toNat < 128 := by
  have hall : ∀ k ∈ List.range 64, valueOf (charOf k) = some k ∧ charOf k ≠ '=' ∧
      isSpace (charOf k) = false ∧ (charOf k).toNat < 128 := by decide
  exact hall n (List.mem_range.mpr h)

/-! ## Writing -/

/-- The bits in groups of six; the last group is filled up with zeros. -/
def sextets : Bytes → List Nat
  | a :: b :: c :: rest =>
    a.toNat / 4 :: (a.toNat % 4 * 16 + b.toNat / 16) :: (b.toNat % 16 * 4 + c.toNat / 64) ::
      c.toNat % 64 :: sextets rest
  | [a, b] => [a.toNat / 4, a.toNat % 4 * 16 + b.toNat / 16, b.toNat % 16 * 4]
  | [a] => [a.toNat / 4, a.toNat % 4 * 16]
  | [] => []

def padding (bs : Bytes) : Nat := (3 - bs.length % 3) % 3

/-- `base64.b64encode(bs).decode()`, `btoa(String.fromCharCode(...bs))`. -/
def b64encode (bs : Bytes) : List Char :=
  (sextets bs).map charOf ++ List.replicate (padding bs) '='

/-! ## Reading -/

/-- `binascii.a2b_base64`: `quad` is the position in a group of four, `left` the
bits left over, `pads` the padding that was seen. -/
def a2b (quad left pads : Nat) : List Char → Option Bytes
  | [] => if quad = 0 then some [] else none
  | c :: rest =>
    if c = '=' then
      if 2 ≤ quad ∧ 4 ≤ quad + (pads + 1) then some []
      else a2b quad left (if 2 ≤ quad then pads + 1 else pads) rest
    else
      match valueOf c with
      | none => a2b quad left pads rest
      | some v =>
        match quad with
        | 0 => a2b 1 v 0 rest
        | 1 => (a2b 2 (v % 16) 0 rest).map (UInt8.ofNat (left * 4 + v / 16) :: ·)
        | 2 => (a2b 3 (v % 4) 0 rest).map (UInt8.ofNat (left * 16 + v / 4) :: ·)
        | _ => (a2b 0 0 0 rest).map (UInt8.ofNat (left * 64 + v) :: ·)

/-- `base64.b64decode(s)` of a `str`; `none` is an exception. -/
def b64decode (s : List Char) : Option Bytes :=
  if s.all fun c => c.toNat < 128 then a2b 0 0 0 s else none

def ofSextets : List Nat → Bytes
  | a :: b :: c :: d :: rest =>
    UInt8.ofNat (a * 4 + b / 16) :: UInt8.ofNat (b % 16 * 16 + c / 4) ::
      UInt8.ofNat (c % 4 * 64 + d) :: ofSextets rest
  | [a, b, c] => [UInt8.ofNat (a * 4 + b / 16), UInt8.ofNat (b % 16 * 16 + c / 4)]
  | [a, b] => [UInt8.ofNat (a * 4 + b / 16)]
  | _ => []

/-- At most two `=` are taken off the end. -/
def stripPadding (s : List Char) : List Char :=
  s.take (s.length - min 2 (s.reverse.takeWhile (· = '=')).length)

/-- `atob(s)`, with its string as bytes; `none` is an exception. -/
def atob (s : List Char) : Option Bytes :=
  let s := s.filter fun c => !isSpace c
  let s := if s.length % 4 = 0 then stripPadding s else s
  if s.length % 4 = 1 then none else (s.mapM valueOf).map ofSextets

/-! ## Round trips -/

theorem sextets_lt (bs : Bytes) : ∀ n ∈ sextets bs, n < 64 := by
  fun_induction sextets bs with
  | case1 a b c rest ih =>
    have ha := a.toNat_lt
    have hb := b.toNat_lt
    have hc := c.toNat_lt
    simp only [List.mem_cons, forall_eq_or_imp]
    exact ⟨by omega, by omega, by omega, by omega, ih⟩
  | case2 a b =>
    have ha := a.toNat_lt
    have hb := b.toNat_lt
    simp only [List.mem_cons, forall_eq_or_imp, List.not_mem_nil, false_implies, implies_true]
    exact ⟨by omega, by omega, by omega, trivial⟩
  | case3 a =>
    have ha := a.toNat_lt
    simp only [List.mem_cons, forall_eq_or_imp, List.not_mem_nil, false_implies, implies_true]
    exact ⟨by omega, by omega, trivial⟩
  | case4 => simp

section Groups

variable {v : Nat} (left pads : Nat) (rest : List Char)

theorem a2b_zero (hv : v < 64) : a2b 0 left pads (charOf v :: rest) = a2b 1 v 0 rest := by
  obtain ⟨hval, hne, -, -⟩ := charOf_spec hv
  simp only [a2b, if_neg hne, hval]

theorem a2b_one (hv : v < 64) : a2b 1 left pads (charOf v :: rest) =
    (a2b 2 (v % 16) 0 rest).map (UInt8.ofNat (left * 4 + v / 16) :: ·) := by
  obtain ⟨hval, hne, -, -⟩ := charOf_spec hv
  simp only [a2b, if_neg hne, hval]

theorem a2b_two (hv : v < 64) : a2b 2 left pads (charOf v :: rest) =
    (a2b 3 (v % 4) 0 rest).map (UInt8.ofNat (left * 16 + v / 4) :: ·) := by
  obtain ⟨hval, hne, -, -⟩ := charOf_spec hv
  simp only [a2b, if_neg hne, hval]

theorem a2b_three (hv : v < 64) : a2b 3 left pads (charOf v :: rest) =
    (a2b 0 0 0 rest).map (UInt8.ofNat (left * 64 + v) :: ·) := by
  obtain ⟨hval, hne, -, -⟩ := charOf_spec hv
  simp only [a2b, if_neg hne, hval]

end Groups

theorem ofNat_eq {n : Nat} {a : UInt8} (h : n = a.toNat) : UInt8.ofNat n = a := by
  rw [h, UInt8.ofNat_toNat]

theorem a2b_encoded (bs : Bytes) : a2b 0 0 0 (b64encode bs) = some bs := by
  unfold b64encode
  fun_induction sextets bs with
  | case1 a b c rest ih =>
    have ha := a.toNat_lt
    have hb := b.toNat_lt
    have hc := c.toNat_lt
    have hpad : padding (a :: b :: c :: rest) = padding rest := by
      simp only [padding, List.length_cons]
      omega
    rw [hpad]
    simp only [List.map_cons, List.cons_append]
    rw [a2b_zero _ _ _ (by omega), a2b_one _ _ _ (by omega), a2b_two _ _ _ (by omega),
      a2b_three _ _ _ (by omega), ih]
    simp only [Option.map_some]
    rw [ofNat_eq (a := a) (by omega), ofNat_eq (a := b) (by omega), ofNat_eq (a := c) (by omega)]
  | case2 a b =>
    have ha := a.toNat_lt
    have hb := b.toNat_lt
    have hend : a2b 3 (b.toNat % 16 * 4 % 4) 0 (List.replicate (padding [a, b]) '=') = some [] :=
      rfl
    simp only [List.map_cons, List.cons_append, List.map_nil, List.nil_append]
    rw [a2b_zero _ _ _ (by omega), a2b_one _ _ _ (by omega), a2b_two _ _ _ (by omega), hend]
    simp only [Option.map_some]
    rw [ofNat_eq (a := a) (by omega), ofNat_eq (a := b) (by omega)]
  | case3 a =>
    have ha := a.toNat_lt
    have hend : a2b 2 (a.toNat % 4 * 16 % 16) 0 (List.replicate (padding [a]) '=') = some [] := rfl
    simp only [List.map_cons, List.cons_append, List.map_nil, List.nil_append]
    rw [a2b_zero _ _ _ (by omega), a2b_one _ _ _ (by omega), hend]
    simp only [Option.map_some]
    rw [ofNat_eq (a := a) (by omega)]
  | case4 => rfl

/-- **Python reads back what was written.** -/
theorem b64decode_b64encode (bs : Bytes) : b64decode (b64encode bs) = some bs := by
  have hascii : (b64encode bs).all (fun c => c.toNat < 128) = true := by
    rw [List.all_eq_true]
    intro c hc
    rcases List.mem_append.mp hc with hchar | hpad
    · obtain ⟨n, hn, rfl⟩ := List.mem_map.mp hchar
      exact decide_eq_true (charOf_spec (sextets_lt bs n hn)).2.2.2
    · rw [List.eq_of_mem_replicate hpad]
      rfl
  rw [b64decode, if_pos hascii]
  exact a2b_encoded bs

theorem ofSextets_sextets (bs : Bytes) : ofSextets (sextets bs) = bs := by
  fun_induction sextets bs with
  | case1 a b c rest ih =>
    have ha := a.toNat_lt
    have hb := b.toNat_lt
    have hc := c.toNat_lt
    rw [ofSextets, ih, ofNat_eq (a := a) (by omega), ofNat_eq (a := b) (by omega),
      ofNat_eq (a := c) (by omega)]
  | case2 a b =>
    have ha := a.toNat_lt
    have hb := b.toNat_lt
    rw [ofSextets, ofNat_eq (a := a) (by omega), ofNat_eq (a := b) (by omega)]
  | case3 a =>
    have ha := a.toNat_lt
    rw [ofSextets, ofNat_eq (a := a) (by omega)]
  | case4 => rfl

theorem length_sextets (bs : Bytes) :
    ((sextets bs).length + padding bs) % 4 = 0 ∧ (sextets bs).length % 4 ≠ 1 := by
  fun_induction sextets bs with
  | case1 a b c rest ih =>
    have hpad : padding (a :: b :: c :: rest) = padding rest := by
      simp only [padding, List.length_cons]
      omega
    simp only [List.length_cons, hpad]
    omega
  | case2 a b => simp [padding]
  | case3 a => simp [padding]
  | case4 => simp [padding]

theorem stripPadding_append {s : List Char} (h : '=' ∉ s) {k : Nat} (hk : k < 3) :
    stripPadding (s ++ List.replicate k '=') = s := by
  have hnone : s.reverse.takeWhile (· = '=') = [] := by
    cases hs : s.reverse with
    | nil => rfl
    | cons c r =>
      have hc : c ≠ '=' := by
        rintro rfl
        exact h (List.mem_reverse.mp (by rw [hs]; exact List.mem_cons_self))
      simp [hc]
  have hrun : ((s ++ List.replicate k '=').reverse.takeWhile (· = '=')).length = k := by
    rw [List.reverse_append, List.reverse_replicate, List.takeWhile_append_of_pos, hnone]
    · simp
    · intro c hc
      rw [List.eq_of_mem_replicate hc]
      rfl
  have hcut : (s ++ List.replicate k '=').length - min 2 k = s.length := by
    rw [List.length_append, List.length_replicate]
    omega
  rw [stripPadding, hrun, hcut, List.take_left]

theorem mapM_valueOf {ns : List Nat} (h : ∀ n ∈ ns, n < 64) :
    (ns.map charOf).mapM valueOf = some ns := by
  induction ns with
  | nil => rfl
  | cons n ns ih =>
    have hn := (charOf_spec (h n List.mem_cons_self)).1
    have hns := ih fun k hk => h k (List.mem_cons_of_mem n hk)
    rw [List.map_cons, List.mapM_cons, hn, hns]
    rfl

/-- **JavaScript reads back what was written.** -/
theorem atob_b64encode (bs : Bytes) : atob (b64encode bs) = some bs := by
  obtain ⟨hlen, hone⟩ := length_sextets bs
  have hfilter : (b64encode bs).filter (fun c => !isSpace c) = b64encode bs := by
    rw [List.filter_eq_self]
    intro c hc
    rcases List.mem_append.mp hc with hchar | hpad
    · obtain ⟨n, hn, rfl⟩ := List.mem_map.mp hchar
      simp [(charOf_spec (sextets_lt bs n hn)).2.2.1]
    · rw [List.eq_of_mem_replicate hpad]
      rfl
  have hlength : (b64encode bs).length % 4 = 0 := by
    simpa [b64encode] using hlen
  have hstrip : stripPadding (b64encode bs) = (sextets bs).map charOf := by
    refine stripPadding_append ?_ (Nat.mod_lt _ (by decide))
    intro hmem
    obtain ⟨n, hn, heq⟩ := List.mem_map.mp hmem
    exact (charOf_spec (sextets_lt bs n hn)).2.1 heq
  have hvalues := mapM_valueOf (sextets_lt bs)
  simp only [atob, hfilter, hlength, if_true, hstrip, List.length_map, hone, if_false, hvalues,
    Option.map_some, ofSextets_sextets]

end Wormhole.L1.Base64
