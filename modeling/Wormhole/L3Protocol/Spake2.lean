import Mathlib.Data.ZMod.Basic
import Mathlib.Data.String.Basic
import Wormhole.L3Protocol.PhaseBox

/-!
# Symmetric SPAKE2 (`packages/spake2/src/index.js`)

Both sides blind their public element with `pw * M`, where `pw` is hashed from
the password, send it, take the blinding off what they received, and hash a
transcript of five 32-byte parts: the hashes of password and identity, the two
messages in an order both sides agree on, and the shared element.

The curve comes from `@noble/ed25519`. `Curve` is an abelian group with a
canonical 32-byte encoding of its elements; nothing here depends on its order.

* `finish_of_start`: once both sides have started, both finish.
* `sorted_comm`: the order of the two messages does not depend on the side.
* `keys_equal_iff`: the derived keys agree exactly when password and identity do.
-/
namespace Wormhole.L3.Spake2
open Wormhole.L1

/-- Ed25519 as the source uses it. -/
structure Curve where
  Point : Type
  [group : AddCommGroup Point]
  base : Point
  toRawBytes : Point → Bytes
  /-- `none` is a throw -/
  fromHex : Bytes → Option Point
  length_toRawBytes : ∀ p, (toRawBytes p).length = 32
  fromHex_toRawBytes : ∀ p, fromHex (toRawBytes p) = some p

attribute [instance] Curve.group

/-- Group order. -/
def L : Nat := 2 ^ 252 + 27742317777372353535851937790883648493

/-- Curve field prime. -/
def Q : Nat := 2 ^ 255 - 19

/-- mirrors packages/spake2/src/index.js:20-26 -/
def bytesToNumberLE (bytes : Bytes) : Nat := bytes.foldr (fun b n => n * 256 + b.toNat) 0

/-- mirrors packages/spake2/src/index.js:31-37 -/
def bytesToNumberBE (bytes : Bytes) : Nat := bytes.foldl (fun n b => n * 256 + b.toNat) 0

/-- mirrors packages/spake2/src/index.js:42-49 -/
def numberToBytesLE : Nat → Nat → Bytes
  | _, 0 => []
  | num, length + 1 => UInt8.ofNat num :: numberToBytesLE (num / 256) length

/-- What is thrown: an error of our own or one of the curve library's. -/
inductive SpakeError
  | error (message : String)
  | typeError
  | rangeError
  | curve
  deriving DecidableEq

/-- `point.multiply(n)`: the library takes scalars from 1 to the group order. -/
def multiply {C : Curve} (p : C.Point) (n : Nat) : Except SpakeError C.Point :=
  if 0 < n ∧ n < L then .ok (n • p) else .error .curve

variable (C : Curve) (P : Crypto)

/-- One attempt of the loop: `y + plus` with the sign bit cleared, times the
cofactor. A throw is caught and the next attempt made. -/
def tryPoint (y plus : Nat) : Option C.Point :=
  let yBytes := numberToBytesLE ((y + plus) % Q) 32
  let yBytes := yBytes.take 31 ++ (yBytes.drop 31).map (· &&& 0x7F)
  (C.fromHex yBytes).bind fun point => (multiply point 8).toOption

/-- mirrors packages/spake2/src/index.js:73-108 (`arbitraryElement`) -/
def arbitraryElement (seed : Bytes) : Except SpakeError C.Point :=
  let expanded := P.hkdf seed [] (encode "SPAKE2 arbitrary element") (32 + 16)
  let y := bytesToNumberBE expanded % Q
  match (List.range 1000).findSome? (tryPoint C y) with
  | some point => .ok point
  | none => .error (.error "Failed to find valid curve point after 1000 attempts")

/-- mirrors packages/spake2/src/index.js:115-122 -/
def getM : Except SpakeError C.Point := arbitraryElement C P (encode "symmetric")

/-- mirrors packages/spake2/src/index.js:134-145 (`passwordToScalar`) -/
def passwordToScalar (password : Bytes) : Bytes :=
  let oversized := P.hkdf password [] (encode "SPAKE2 pw") (32 + 16)
  numberToBytesLE (bytesToNumberBE oversized % L) 32

inductive State
  | init
  | started
  | finished
  deriving DecidableEq

/-- mirrors packages/spake2/src/index.js:158-170 (`SPAKE2_Symmetric`) -/
structure Spake where
  password : Bytes
  idSymmetric : Bytes
  x : Nat
  X : Option C.Point
  outbound : Bytes
  Y : Option C.Point
  inbound : Bytes
  sharedKey : Option Bytes
  state : State

/-- The constructor. -/
def create (password idSymmetric : Bytes) : Spake C :=
  ⟨password, idSymmetric, 0, none, [], none, [], none, .init⟩

/-- `array.set(source, offset)`; a source that does not fit is a `RangeError`. -/
def setAt (array source : Bytes) (offset : Nat) : Except SpakeError Bytes :=
  if offset + source.length ≤ array.length then
    .ok (array.take offset ++ source ++ array.drop (offset + source.length))
  else .error .rangeError

/-- Our random scalar: reduced, and never zero. -/
def scalarOf (xBytes : Bytes) : Nat :=
  let x := bytesToNumberLE xBytes % L
  if x = 0 then 1 else x

/-- mirrors packages/spake2/src/index.js:175-209 (`start`) -/
def start (s : Spake C) (xBytes : Bytes) : Except SpakeError (Spake C × Bytes) := do
  if s.state ≠ .init then throw (.error "SPAKE2 already started")
  let x := scalarOf xBytes
  let pw := bytesToNumberLE (passwordToScalar P s.password)
  let M ← getM C P
  let xG ← multiply C.base x
  let pwM ← multiply M pw
  let X := xG + pwM
  let outbound ← setAt (List.replicate 33 0) [0x53] 0
  let outbound ← setAt outbound (C.toRawBytes X) 1
  return ({ s with x := x, X := some X, outbound := outbound, state := .started }, outbound)

/-- The two messages, without their side byte, in transcript order. -/
def sorted (outMsg inMsg : Bytes) : Bytes × Bytes :=
  if bytesToHex outMsg < bytesToHex inMsg then (outMsg, inMsg) else (inMsg, outMsg)

/-- The 160 bytes that are hashed. -/
def transcript (s : Spake C) (kBytes : Bytes) : Except SpakeError Bytes := do
  let (first, second) := sorted (s.outbound.drop 1) (s.inbound.drop 1)
  let t ← setAt (List.replicate 160 0) (P.sha256 s.password) 0
  let t ← setAt t (P.sha256 s.idSymmetric) 32
  let t ← setAt t first 64
  let t ← setAt t second 96
  setAt t kBytes 128

/-- mirrors packages/spake2/src/index.js:272-314 (`_deriveKey`) -/
def deriveKey (s : Spake C) (kBytes : Bytes) : Except SpakeError Bytes := do
  return P.sha256 (← transcript C P s kBytes)

/-- mirrors packages/spake2/src/index.js:216-258 (`finish`) -/
def finish (s : Spake C) (inboundMessage : Bytes) : Except SpakeError (Spake C × Bytes) := do
  if s.state ≠ .started then throw (.error "SPAKE2 not started")
  let s := { s with inbound := inboundMessage }
  match inboundMessage with
  | [] => throw .typeError
  | side :: yBytes =>
    if side ≠ 0x53 then
      throw (.error ("Invalid side indicator: expected 'S' (0x53), got 0x" ++
        String.ofList (Nat.toDigits 16 side.toNat)))
    match C.fromHex yBytes with
    | none => throw .curve
    | some yBlinded =>
      let pw := bytesToNumberLE (passwordToScalar P s.password)
      let M ← getM C P
      let pwM ← multiply M pw
      let Y := yBlinded + -pwM
      let K ← multiply Y s.x
      let sharedKey ← deriveKey C P { s with Y := some Y } (C.toRawBytes K)
      return ({ s with Y := some Y, sharedKey := some sharedKey, state := .finished }, sharedKey)

/-! ## What the two calls do -/

theorem bind_eq_ok {α β : Type} {x : Except SpakeError α} {f : α → Except SpakeError β} {b : β}
    (h : x >>= f = .ok b) : ∃ a, x = .ok a ∧ f a = .ok b := by
  cases x with
  | error e => cases h
  | ok a => exact ⟨a, rfl, h⟩

theorem multiply_eq_ok {p q : C.Point} {n : Nat} (h : multiply p n = .ok q) :
    (0 < n ∧ n < L) ∧ q = n • p := by
  unfold multiply at h
  split at h
  · rename_i hn
    cases h
    exact ⟨hn, rfl⟩
  · cases h

theorem multiply_of_lt (p : C.Point) {n : Nat} (hn : 0 < n ∧ n < L) :
    multiply p n = .ok (n • p) := if_pos hn

theorem scalarOf_range (xBytes : Bytes) : 0 < scalarOf xBytes ∧ scalarOf xBytes < L := by
  have hmod : bytesToNumberLE xBytes % L < L := Nat.mod_lt _ (by decide)
  have hone : 1 < L := by decide
  unfold scalarOf
  dsimp only
  split <;> omega

/-- Filling an array from the front. -/
theorem setAt_fill (done source : Bytes) {n : Nat} (h : source.length ≤ n) :
    setAt (done ++ List.replicate n 0) source done.length =
      .ok (done ++ source ++ List.replicate (n - source.length) 0) := by
  unfold setAt
  rw [if_pos (by simp only [List.length_append, List.length_replicate]; omega), List.take_left,
    List.drop_append, List.drop_eq_nil_of_le (by omega), List.drop_replicate, List.nil_append,
    Nat.add_sub_cancel_left]

/-- The blinded element a side sends. -/
def blinded (M : C.Point) (x pw : Nat) : C.Point := x • C.base + pw • M

/-- The password as a scalar. -/
def scalar (password : Bytes) : Nat := bytesToNumberLE (passwordToScalar P password)

theorem outbound_eq (p : C.Point) :
    (setAt (List.replicate 33 0) [0x53] 0 >>= fun outbound =>
      setAt outbound (C.toRawBytes p) 1) = .ok (0x53 :: C.toRawBytes p) := by
  have hlen := C.length_toRawBytes p
  have h1 := setAt_fill [] [0x53] (n := 33) (by decide)
  have h2 := setAt_fill [0x53] (C.toRawBytes p) (n := 32) (by omega)
  rw [hlen, Nat.sub_self] at h2
  calc (setAt (List.replicate 33 0) [0x53] 0 >>= fun outbound =>
          setAt outbound (C.toRawBytes p) 1)
      = (Except.ok ([] ++ [0x53] ++ List.replicate 32 0) >>= fun outbound =>
          setAt outbound (C.toRawBytes p) 1) := congrArg (· >>= _) h1
    _ = .ok ([0x53] ++ C.toRawBytes p ++ List.replicate 0 0) := h2
    _ = .ok (0x53 :: C.toRawBytes p) := by simp

/-- The message of an instance whose element is blinded with `M`. -/
def message (s : Spake C) (M : C.Point) (xBytes : Bytes) : Bytes :=
  0x53 :: C.toRawBytes (blinded C M (scalarOf xBytes) (scalar P s.password))

/-- What `start` leaves behind. -/
def started (s : Spake C) (M : C.Point) (xBytes : Bytes) : Spake C :=
  { s with
    x := scalarOf xBytes
    X := some (blinded C M (scalarOf xBytes) (scalar P s.password))
    outbound := message C P s M xBytes
    state := .started }

theorem start_eq_ok {s a : Spake C} {xBytes m : Bytes} (h : start C P s xBytes = .ok (a, m)) :
    ∃ M, getM C P = .ok M ∧ (0 < scalar P s.password ∧ scalar P s.password < L) ∧
      m = message C P s M xBytes ∧ a = started C P s M xBytes := by
  unfold start at h
  split at h
  · cases h
  · obtain ⟨-, -, h⟩ := bind_eq_ok h
    obtain ⟨M, hM, h⟩ := bind_eq_ok h
    obtain ⟨xG, hxG, h⟩ := bind_eq_ok h
    obtain ⟨pwM, hpwM, h⟩ := bind_eq_ok h
    obtain ⟨o1, ho1, h⟩ := bind_eq_ok h
    obtain ⟨o2, ho2, h⟩ := bind_eq_ok h
    obtain ⟨-, hG⟩ := multiply_eq_ok C hxG
    obtain ⟨hpw, hPM⟩ := multiply_eq_ok C hpwM
    subst hG hPM
    have hout := outbound_eq C (blinded C M (scalarOf xBytes) (scalar P s.password))
    rw [ho1] at hout
    have ho : (Except.ok o2 : Except SpakeError Bytes) = .ok _ := ho2.symm.trans hout
    cases ho
    cases h
    exact ⟨M, hM, hpw, rfl, rfl⟩

/-- `start` goes through when the password's scalar is one the library takes. -/
theorem start_ok {s : Spake C} {M : C.Point} (xBytes : Bytes) (hs : s.state = .init)
    (hM : getM C P = .ok M) (hpw : 0 < scalar P s.password ∧ scalar P s.password < L) :
    start C P s xBytes = .ok (started C P s M xBytes, message C P s M xBytes) := by
  have hxG := multiply_of_lt C C.base (scalarOf_range xBytes)
  have hpwM : multiply M (bytesToNumberLE (passwordToScalar P s.password)) = .ok _ :=
    multiply_of_lt C M hpw
  have hout := outbound_eq C (blinded C M (scalarOf xBytes) (scalar P s.password))
  obtain ⟨o1, ho1, hout⟩ := bind_eq_ok hout
  have hout' : setAt o1 (C.toRawBytes (scalarOf xBytes • C.base +
      bytesToNumberLE (passwordToScalar P s.password) • M)) 1 = .ok _ := hout
  unfold start
  rw [if_neg (not_not_intro hs)]
  simp only [bind, Except.bind, pure, Except.pure, hM, hxG, hpwM, ho1, hout']
  rfl

/-! ## The transcript -/

/-- Both sides put the two messages in the same order. -/
theorem sorted_comm (m m' : Bytes) : sorted m m' = sorted m' m := by
  unfold sorted
  split
  · rename_i h
    rw [if_neg (String.lt_asymm h)]
  · rename_i h
    split
    · rfl
    · rename_i h'
      have heq : bytesToHex m = bytesToHex m' := String.le_antisymm h' h
      have hm : m = m' := by
        rw [← hexToBytes_bytesToHex m, heq, hexToBytes_bytesToHex]
      rw [hm]

theorem length_sorted {m m' : Bytes} (h : m.length = 32) (h' : m'.length = 32) :
    (sorted m m').1.length = 32 ∧ (sorted m m').2.length = 32 := by
  unfold sorted
  split
  · exact ⟨h, h'⟩
  · exact ⟨h', h⟩

/-- Five parts of 32 bytes. -/
def parts (password idSymmetric m m' kBytes : Bytes) : Bytes :=
  P.sha256 password ++ P.sha256 idSymmetric ++ (sorted m m').1 ++ (sorted m m').2 ++ kBytes

theorem parts_inj {pw pw' id id' m m' n n' k k' : Bytes}
    (h : parts P pw id m m' k = parts P pw' id' n n' k') :
    P.sha256 pw = P.sha256 pw' ∧ P.sha256 id = P.sha256 id' := by
  unfold parts at h
  simp only [List.append_assoc] at h
  have hpw : (P.sha256 pw).length = (P.sha256 pw').length :=
    (P.length_sha256 pw).trans (P.length_sha256 pw').symm
  have hid : (P.sha256 id).length = (P.sha256 id').length :=
    (P.length_sha256 id).trans (P.length_sha256 id').symm
  obtain ⟨h1, hrest⟩ := List.append_inj h hpw
  exact ⟨h1, (List.append_inj hrest hid).1⟩

theorem transcript_eq {s : Spake C} {kBytes : Bytes} (ho : (s.outbound.drop 1).length = 32)
    (hi : (s.inbound.drop 1).length = 32) (hk : kBytes.length = 32) :
    transcript C P s kBytes =
      .ok (parts P s.password s.idSymmetric (s.outbound.drop 1) (s.inbound.drop 1) kBytes) := by
  obtain ⟨h1, h2⟩ := length_sorted ho hi
  have hpw := P.length_sha256 s.password
  have hid := P.length_sha256 s.idSymmetric
  have s1 := setAt_fill [] (P.sha256 s.password) (n := 160) (by omega)
  have s2 := setAt_fill (P.sha256 s.password) (P.sha256 s.idSymmetric) (n := 128) (by omega)
  have s3 := setAt_fill (P.sha256 s.password ++ P.sha256 s.idSymmetric)
    (sorted (s.outbound.drop 1) (s.inbound.drop 1)).1 (n := 96) (by omega)
  have s4 := setAt_fill (P.sha256 s.password ++ P.sha256 s.idSymmetric ++
    (sorted (s.outbound.drop 1) (s.inbound.drop 1)).1)
    (sorted (s.outbound.drop 1) (s.inbound.drop 1)).2 (n := 64) (by omega)
  have s5 := setAt_fill (P.sha256 s.password ++ P.sha256 s.idSymmetric ++
    (sorted (s.outbound.drop 1) (s.inbound.drop 1)).1 ++
    (sorted (s.outbound.drop 1) (s.inbound.drop 1)).2) kBytes (n := 32) (by omega)
  simp only [List.length_append, List.length_nil, List.nil_append, hpw, hid, h1, h2, hk,
    Nat.reduceAdd, Nat.reduceSub, List.replicate_zero, List.append_nil] at s1 s2 s3 s4 s5
  unfold transcript parts
  simp only [bind, Except.bind, s1, s2, s3, s4, s5]

/-- The shared element of the side with scalar `x` and password scalar `pw` that
received `Z`. -/
def shared (M : C.Point) (x pw : Nat) (Z : C.Point) : C.Point := x • (Z + -(pw • M))

/-- What an instance that has finished has hashed with SHA-256. -/
def hashed (s : Spake C) : Set Bytes :=
  {b | b = s.password ∨ b = s.idSymmetric ∨
    ∃ Y, s.Y = some Y ∧ transcript C P s (C.toRawBytes (s.x • Y)) = .ok b}

/-- What `finish` makes of a peer's blinded element. -/
theorem finish_ok {s : Spake C} {M X Z : C.Point} {t : Bytes} (hs : s.state = .started)
    (hM : getM C P = .ok M) (hpw : 0 < scalar P s.password ∧ scalar P s.password < L)
    (hx : 0 < s.x ∧ s.x < L) (ho : s.outbound = 0x53 :: C.toRawBytes X)
    (ht : t = parts P s.password s.idSymmetric (C.toRawBytes X) (C.toRawBytes Z)
      (C.toRawBytes (shared C M s.x (scalar P s.password) Z))) :
    ∃ s', finish C P s (0x53 :: C.toRawBytes Z) = .ok (s', P.sha256 t) ∧
      hashed C P s' = {s.password, s.idSymmetric, t} := by
  have hpwM : multiply M (bytesToNumberLE (passwordToScalar P s.password)) =
      .ok (scalar P s.password • M) := multiply_of_lt C M hpw
  have hK := multiply_of_lt C (Z + -(scalar P s.password • M)) hx
  have hX : s.outbound.drop 1 = C.toRawBytes X := by rw [ho]; rfl
  have htr : ∀ key state, transcript C P
      { s with inbound := 0x53 :: C.toRawBytes Z, Y := some (Z + -(scalar P s.password • M)),
               sharedKey := key, state := state }
      (C.toRawBytes (s.x • (Z + -(scalar P s.password • M)))) = .ok t := by
    intro key state
    rw [ht, ← hX]
    exact transcript_eq C P (by rw [hX]; exact C.length_toRawBytes X) (C.length_toRawBytes Z)
      (C.length_toRawBytes _)
  refine ⟨{ s with inbound := 0x53 :: C.toRawBytes Z, Y := some (Z + -(scalar P s.password • M)),
                   sharedKey := some (P.sha256 t), state := .finished }, ?_, ?_⟩
  · unfold finish deriveKey
    rw [if_neg (not_not_intro hs)]
    simp only [bind, Except.bind, pure, Except.pure, C.fromHex_toRawBytes, hM, hpwM, hK, ne_eq,
      not_true_eq_false, if_false, htr]
  · ext b
    simp only [hashed, Set.mem_ofPred_eq, Set.mem_insert_iff, Set.mem_singleton_iff]
    refine or_congr Iff.rfl (or_congr Iff.rfl ⟨?_, ?_⟩)
    · intro ⟨Y, hY, hb⟩
      cases hY
      exact Except.ok.inj (hb.symm.trans (htr _ _))
    · intro hb
      rw [hb]
      exact ⟨_, rfl, htr _ _⟩

/-! ## Agreement -/

/-- Taking off the blinding of the same password leaves both sides with the
same element. -/
theorem shared_comm (M : C.Point) (x x' pw : Nat) :
    shared C M x pw (blinded C M x' pw) = shared C M x' pw (blinded C M x pw) := by
  unfold shared blinded
  rw [add_neg_cancel_right, add_neg_cancel_right]
  exact nsmul_left_comm C.base x' x

/-- With one password and one identity the two sides hash the same bytes. -/
theorem parts_comm (pw id : Bytes) (M : C.Point) (x x' : Nat) :
    parts P pw id (C.toRawBytes (blinded C M x (scalar P pw)))
        (C.toRawBytes (blinded C M x' (scalar P pw)))
        (C.toRawBytes (shared C M x (scalar P pw) (blinded C M x' (scalar P pw)))) =
      parts P pw id (C.toRawBytes (blinded C M x' (scalar P pw)))
        (C.toRawBytes (blinded C M x (scalar P pw)))
        (C.toRawBytes (shared C M x' (scalar P pw) (blinded C M x (scalar P pw)))) := by
  unfold parts
  rw [sorted_comm, shared_comm]

/-- **Agreement.** Once two instances have started, both finish on each other's
message, and as far as SHA-256 is injective on what the two hashed, their keys
are equal exactly when their passwords and identities are. -/
theorem keys_equal_iff {pw pw' id id' xBytes xBytes' m m' : Bytes} {a b : Spake C}
    (ha : start C P (create C pw id) xBytes = .ok (a, m))
    (hb : start C P (create C pw' id') xBytes' = .ok (b, m')) :
    ∃ a' b' k k', finish C P a m' = .ok (a', k) ∧ finish C P b m = .ok (b', k') ∧
      (Set.InjOn P.sha256 (hashed C P a' ∪ hashed C P b') →
        (k = k' ↔ pw = pw' ∧ id = id')) := by
  obtain ⟨M, hM, hpw, hm, ha⟩ := start_eq_ok C P ha
  obtain ⟨M', hM', hpw', hm', hb⟩ := start_eq_ok C P hb
  cases hM.symm.trans hM'
  subst ha hb hm hm'
  obtain ⟨a', hfa, hha⟩ := finish_ok C P (s := started C P (create C pw id) M xBytes)
    (Z := blinded C M (scalarOf xBytes') (scalar P pw'))
    rfl hM hpw (scalarOf_range xBytes) rfl rfl
  obtain ⟨b', hfb, hhb⟩ := finish_ok C P (s := started C P (create C pw' id') M xBytes')
    (Z := blinded C M (scalarOf xBytes) (scalar P pw))
    rfl hM hpw' (scalarOf_range xBytes') rfl rfl
  refine ⟨a', b', _, _, hfa, hfb, fun hinj => ⟨?_, ?_⟩⟩
  · intro hk
    have ht := hinj (by rw [hha, hhb]; simp) (by rw [hha, hhb]; simp) hk
    obtain ⟨h1, h2⟩ := parts_inj P ht
    have hp := hinj (by rw [hha, hhb]; simp) (by rw [hha, hhb]; simp) h1
    have hi := hinj (by rw [hha, hhb]; simp) (by rw [hha, hhb]; simp) h2
    exact ⟨hp, hi⟩
  · intro ⟨hp, hi⟩
    subst hp hi
    exact congrArg P.sha256 (parts_comm C P pw id M (scalarOf xBytes) (scalarOf xBytes'))

/-! ## A group to run it in -/

instance : NeZero L := ⟨by decide⟩

/-- The integers modulo `L`, as 32 bytes each. -/
def Curve.flat : Curve where
  Point := ZMod L
  base := 1
  toRawBytes p := beBytes 32 p.val
  fromHex bytes := if bytes.length = 32 then some (unpack bytes : ZMod L) else none
  length_toRawBytes p := length_beBytes 32 p.val
  fromHex_toRawBytes p := by
    have hlt : p.val < 256 ^ 32 := Nat.lt_trans p.val_lt (by decide)
    rw [if_pos (length_beBytes 32 p.val), unpack_beBytes, Nat.mod_eq_of_lt hlt,
      ZMod.natCast_zmod_val]

theorem length_numberToBytesLE (num length : Nat) :
    (numberToBytesLE num length).length = length := by
  induction length generalizing num with
  | zero => rfl
  | succ length ih => rw [numberToBytesLE, List.length_cons, ih]

theorem getM_flat : ∃ M, getM .flat .plain = .ok M := by
  have hfirst : ∀ y, ∃ M, tryPoint .flat y 0 = some M := by
    intro y
    have hlen := length_numberToBytesLE ((y + 0) % Q) 32
    have h8 := fun p : Curve.flat.Point => multiply_of_lt .flat p (n := 8) (by decide)
    unfold tryPoint
    dsimp only [Curve.flat]
    rw [if_pos (by simp only [List.length_append, List.length_map, List.length_take,
      List.length_drop]; omega), Option.bind_some]
    exact ⟨_, congrArg Except.toOption (h8 _)⟩
  unfold getM arbitraryElement
  obtain ⟨M, hM⟩ := hfirst (bytesToNumberBE (Crypto.plain.hkdf (encode "symmetric") []
    (encode "SPAKE2 arbitrary element") (32 + 16)) % Q)
  have hrange : List.range 1000 = 0 :: (List.range 999).map Nat.succ := List.range_succ_eq_map
  dsimp only
  rw [hrange, List.findSome?_cons, hM]
  exact ⟨M, rfl⟩

theorem length_parts {pw id m m' k : Bytes} (hm : m.length = 32) (hm' : m'.length = 32)
    (hk : k.length = 32) : (parts P pw id m m' k).length = 160 := by
  obtain ⟨h1, h2⟩ := length_sorted hm hm'
  have hpw := P.length_sha256 pw
  have hid := P.length_sha256 id
  unfold parts
  simp only [List.length_append]
  omega

/-- The password and the identity are one byte each, the transcript is not. -/
theorem plain_injOn {t : Bytes} (ht : t.length = 160) :
    Set.InjOn Crypto.plain.sha256 {[1], [2], t} := by
  have hne : ∀ b, Crypto.plain.sha256 t ≠ Crypto.plain.sha256 [b] := by
    intro b h
    have hlen := (plain_sha256_inj (by rw [ht]; decide) (by simp) h).1
    rw [ht] at hlen
    cases hlen
  intro u hu v hv h
  simp only [Set.mem_insert_iff, Set.mem_singleton_iff] at hu hv
  rcases hu with hu | hu | hu <;> rcases hv with hv | hv | hv <;> rw [hu, hv] at h ⊢
  · exact absurd h (by decide)
  · exact absurd h.symm (hne 1)
  · exact absurd h (by decide)
  · exact absurd h.symm (hne 2)
  · exact absurd h (hne 1)
  · exact absurd h (hne 2)

theorem keys_equal_flat : ∃ a b m m' a' b' k k',
    start .flat .plain (create .flat [1] [2]) [3] = .ok (a, m) ∧
    start .flat .plain (create .flat [1] [2]) [4] = .ok (b, m') ∧
    finish .flat .plain a m' = .ok (a', k) ∧ finish .flat .plain b m = .ok (b', k') ∧
    (k = k' ↔ ([1] : Bytes) = [1] ∧ ([2] : Bytes) = [2]) := by
  obtain ⟨M, hM⟩ := getM_flat
  have hpw : 0 < scalar .plain [1] ∧ scalar .plain [1] < L := by decide +kernel
  have ha := start_ok .flat .plain (s := create .flat [1] [2]) [3] rfl hM hpw
  have hb := start_ok .flat .plain (s := create .flat [1] [2]) [4] rfl hM hpw
  obtain ⟨a', b', k, k', hfa, hfb, hkeys⟩ := keys_equal_iff .flat .plain ha hb
  refine ⟨_, _, _, _, a', b', k, k', ha, hb, hfa, hfb, hkeys ?_⟩
  obtain ⟨t, ht⟩ : ∃ t, t = parts .plain [1] [2]
      (Curve.flat.toRawBytes (blinded .flat M (scalarOf [3]) (scalar .plain [1])))
      (Curve.flat.toRawBytes (blinded .flat M (scalarOf [4]) (scalar .plain [1])))
      (Curve.flat.toRawBytes (shared .flat M (scalarOf [3]) (scalar .plain [1])
        (blinded .flat M (scalarOf [4]) (scalar .plain [1])))) := ⟨_, rfl⟩
  obtain ⟨a'', hfa', hha⟩ := finish_ok .flat .plain
    (s := started .flat .plain (create .flat [1] [2]) M [3]) rfl hM hpw (scalarOf_range [3]) rfl ht
  obtain ⟨b'', hfb', hhb⟩ := finish_ok .flat .plain
    (s := started .flat .plain (create .flat [1] [2]) M [4]) rfl hM hpw (scalarOf_range [4]) rfl
    (ht.trans (parts_comm .flat .plain [1] [2] M (scalarOf [3]) (scalarOf [4])))
  cases hfa.symm.trans hfa'
  cases hfb.symm.trans hfb'
  have hlen : t.length = 160 := ht ▸ length_parts .plain (Curve.length_toRawBytes _ _)
    (Curve.length_toRawBytes _ _) (Curve.length_toRawBytes _ _)
  rw [hha, hhb]
  exact (plain_injOn hlen).mono (Set.union_subset (fun _ h => h) (fun _ h => h))

end Wormhole.L3.Spake2
