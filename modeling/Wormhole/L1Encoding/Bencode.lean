import Mathlib.Data.List.Sort
import Wormhole.Core.Dict
import Wormhole.L1Encoding.PyBytes

/-!
# Bencode

The codec of `src/wh/wns/dht.py`. The decoder goes through the datagram by
position, with Python's slices: a negative length is not refused, and takes the
position back. It then may not come to an end, so the decoder here counts its
calls and rounds (`Decoded.running`); `depth` is what is left of the recursion
limit.
-/
namespace Wormhole.L1.Bencode

/-! ## Values -/

/-- What a decoded dict can have as a key. -/
inductive Key
  | int (n : Int)
  | bytes (bs : Bytes)
  deriving DecidableEq, Repr

inductive Value
  | int (n : Int)
  | bytes (bs : Bytes)
  | list (xs : List Value)
  | dict (entries : List (Key × Value))
  deriving Repr

/-- `none` is `TypeError: unhashable type`. -/
def Value.key : Value → Option Key
  | .int n => some (.int n)
  | .bytes bs => some (.bytes bs)
  | .list _ => none
  | .dict _ => none

/-- `v == bs`. -/
def Value.isBytes (bs : Bytes) : Value → Bool
  | .bytes cs => cs = bs
  | _ => false

/-- `d.get(name)`. -/
def get (entries : List (Key × Value)) (name : String) : Option Value :=
  Dict.lookup (.bytes (encode name)) entries

mutual

/-- The calls that are nested when the value is encoded or read. -/
def Value.depth : Value → Nat
  | .int _ => 1
  | .bytes _ => 1
  | .list xs => 1 + depthItems xs
  | .dict es => 1 + depthEntries es

def depthItems : List Value → Nat
  | [] => 0
  | x :: xs => max x.depth (depthItems xs)

def depthEntries : List (Key × Value) → Nat
  | [] => 0
  | (_, v) :: es => max v.depth (depthEntries es)

end

/-! ## Encoding -/

/-- The limit of `int` to `str` and back. -/
def maxStrDigits : Nat := 4300

def intBytes (n : Int) : Bytes := encode (toString n)

def lengthPrefixed (bs : Bytes) : Bytes := encode (toString bs.length ++ ":") ++ bs

/-- `sorted(obj.items(), key=...)`, of entries already encoded. -/
def sortItems (items : List (Bytes × Bytes)) : List (Bytes × Bytes) :=
  items.insertionSort fun a b => a.1 ≤ b.1

mutual

/-- `none` where it raises, but for the recursion limit: who sends compares it with `Value.depth`.
mirrors src/wh/wns/dht.py:947-966 -/
def bencode : Value → Option Bytes
  | .int n =>
    if (toString n.natAbs).length ≤ maxStrDigits then
      some (encode "i" ++ intBytes n ++ encode "e") else none
  | .bytes bs => some (lengthPrefixed bs)
  | .list xs => (bencodeItems xs).map fun bs => encode "l" ++ bs ++ encode "e"
  | .dict entries => (bencodeEntries entries).map fun items =>
      encode "d" ++ (sortItems items).flatMap (fun e => lengthPrefixed e.1 ++ e.2) ++ encode "e"

def bencodeItems : List Value → Option Bytes
  | [] => some []
  | x :: xs => (bencode x).bind fun bs => (bencodeItems xs).map fun cs => bs ++ cs

/-- A key that is no byte string has no `encode`. -/
def bencodeEntries : List (Key × Value) → Option (List (Bytes × Bytes))
  | [] => some []
  | (.int _, _) :: _ => none
  | (.bytes k, v) :: es =>
    (bencode v).bind fun bs => (bencodeEntries es).map fun items => (k, bs) :: items

end

mutual

/-- The length of the encoding. -/
def Value.size : Value → Nat
  | .int n => (intBytes n).length + 2
  | .bytes bs => (lengthPrefixed bs).length
  | .list xs => sizeItems xs + 2
  | .dict es => sizeEntries es + 2

def sizeItems : List Value → Nat
  | [] => 0
  | x :: xs => x.size + sizeItems xs

def sizeEntries : List (Key × Value) → Nat
  | [] => 0
  | (.int _, v) :: es => v.size + sizeEntries es
  | (.bytes k, v) :: es => (lengthPrefixed k).length + v.size + sizeEntries es

end

theorem length_sortItems (items : List (Bytes × Bytes)) :
    ((sortItems items).flatMap fun e => lengthPrefixed e.1 ++ e.2).length =
      (items.flatMap fun e => lengthPrefixed e.1 ++ e.2).length := by
  have hperm : (sortItems items).Perm items := List.perm_insertionSort _ items
  exact (hperm.flatMap_right _).length_eq

mutual

theorem size_eq : (v : Value) → {bs : Bytes} → bencode v = some bs → bs.length = v.size
  | .int n, bs, h => by
    rw [bencode] at h
    split at h
    · cases h
      simp only [List.length_append, Value.size]
      have hi : (encode "i").length = 1 := rfl
      have he : (encode "e").length = 1 := rfl
      omega
    · cases h
  | .bytes cs, bs, h => by
    rw [bencode] at h
    cases h
    rfl
  | .list xs, bs, h => by
    rw [bencode] at h
    obtain ⟨cs, hcs, rfl⟩ := Option.map_eq_some_iff.mp h
    have hl : (encode "l").length = 1 := rfl
    have he : (encode "e").length = 1 := rfl
    have := sizeItems_eq xs hcs
    simp only [List.length_append, Value.size]
    omega
  | .dict es, bs, h => by
    rw [bencode] at h
    obtain ⟨items, hitems, rfl⟩ := Option.map_eq_some_iff.mp h
    have hd : (encode "d").length = 1 := rfl
    have he : (encode "e").length = 1 := rfl
    have := sizeEntries_eq es hitems
    simp only [List.length_append, Value.size, length_sortItems]
    omega

theorem sizeItems_eq : (xs : List Value) → {bs : Bytes} → bencodeItems xs = some bs →
    bs.length = sizeItems xs
  | [], bs, h => by
    cases h
    rfl
  | x :: xs, bs, h => by
    rw [bencodeItems] at h
    obtain ⟨cs, hcs, h⟩ := Option.bind_eq_some_iff.mp h
    obtain ⟨ds, hds, rfl⟩ := Option.map_eq_some_iff.mp h
    rw [List.length_append, sizeItems, size_eq x hcs, sizeItems_eq xs hds]

theorem sizeEntries_eq : (es : List (Key × Value)) → {items : List (Bytes × Bytes)} →
    bencodeEntries es = some items →
    (items.flatMap fun e => lengthPrefixed e.1 ++ e.2).length = sizeEntries es
  | [], items, h => by
    cases h
    rfl
  | (.int _, _) :: _, items, h => by cases h
  | (.bytes k, v) :: es, items, h => by
    rw [bencodeEntries] at h
    obtain ⟨bs, hbs, h⟩ := Option.bind_eq_some_iff.mp h
    obtain ⟨rest, hrest, rfl⟩ := Option.map_eq_some_iff.mp h
    rw [List.flatMap_cons, List.length_append, List.length_append, sizeEntries, size_eq v hbs,
      sizeEntries_eq es hrest]

end

/-! ## Decoding -/

/-- An index of a slice, with the negative ones counted from the end. -/
def sliceIndex (length : Nat) (i : Int) : Nat :=
  if i < 0 then (i + length).toNat else min i.toNat length

/-- `data[i:j]`. -/
def slice (data : Bytes) (i j : Int) : Bytes :=
  let start := sliceIndex data.length i
  (data.drop start).take (sliceIndex data.length j - start)

/-- `data.index(c, pos)`; `none` is `ValueError`. -/
def index (data : Bytes) (c : UInt8) (pos : Int) : Option Nat :=
  if data.length < pos then none
  else
    let start := sliceIndex data.length pos
    let skipped := ((data.drop start).takeWhile (· ≠ c)).length
    if start + skipped < data.length then some (start + skipped) else none

def isSpaceByte (b : UInt8) : Bool := b = 32 || (9 ≤ b && b ≤ 13)

/-- Digits, with single underscores between them. -/
def digitRun : Bool → Bytes → Option (List Nat)
  | afterDigit, [] => if afterDigit then some [] else none
  | afterDigit, b :: bs =>
    if 48 ≤ b ∧ b ≤ 57 then (digitRun true bs).map fun ds => (b.toNat - 48) :: ds
    else if b = 95 ∧ afterDigit then digitRun false bs
    else none

/-- `int(bs)`; `none` is `ValueError`. -/
def pyInt (bs : Bytes) : Option Int :=
  let text := (bs.dropWhile isSpaceByte).rdropWhile isSpaceByte
  let (negative, body) := match text with
    | 45 :: rest => (true, rest)
    | 43 :: rest => (false, rest)
    | _ => (false, text)
  (digitRun false body).bind fun ds =>
    if maxStrDigits < ds.length then none
    else
      let n : Nat := ds.foldl (fun n d => 10 * n + d) 0
      some (if negative then -n else n)

inductive Decoded (α : Type)
  | running
  | raised
  | done (a : α)
  deriving Repr

def Decoded.bind {α β : Type} (x : Decoded α) (f : α → Decoded β) : Decoded β :=
  match x with
  | .running => .running
  | .raised => .raised
  | .done a => f a

def Decoded.ofOption {α : Type} : Option α → Decoded α
  | none => .raised
  | some a => .done a

/-- `i...e`. -/
def decodeInt (data : Bytes) (pos : Int) : Option (Value × Int) :=
  (index data 101 pos).bind fun stop =>
    (pyInt (slice data (pos + 1) stop)).map fun n => (.int n, (stop : Int) + 1)

/-- `<length>:...`. -/
def decodeBytes (data : Bytes) (pos : Int) : Option (Value × Int) :=
  (index data 58 pos).bind fun colon =>
    (pyInt (slice data pos colon)).map fun length =>
      let start : Int := colon + 1
      (.bytes (slice data start (start + length)), start + length)

mutual

/-- mirrors src/wh/wns/dht.py:972-1004 (`_bdecode_item`) -/
def decodeItem (data : Bytes) : Nat → Nat → Int → Decoded (Value × Int)
  | 0, _, _ => .running
  | _ + 1, 0, _ => .raised
  | fuel + 1, depth + 1, pos =>
    let head := slice data pos (pos + 1)
    if head = encode "i" then .ofOption (decodeInt data pos)
    else if head = encode "l" then
      (decodeItems data fuel depth (pos + 1)).bind fun r => .done (.list r.1, r.2)
    else if head = encode "d" then
      (decodeEntries data fuel depth [] (pos + 1)).bind fun r => .done (.dict r.1, r.2)
    else .ofOption (decodeBytes data pos)

/-- The loop over a list. -/
def decodeItems (data : Bytes) : Nat → Nat → Int → Decoded (List Value × Int)
  | 0, _, _ => .running
  | fuel + 1, depth, pos =>
    if slice data pos (pos + 1) = encode "e" then .done ([], pos + 1)
    else (decodeItem data fuel depth pos).bind fun r =>
      (decodeItems data fuel depth r.2).bind fun rs => .done (r.1 :: rs.1, rs.2)

/-- The loop over a dict. -/
def decodeEntries (data : Bytes) :
    Nat → Nat → List (Key × Value) → Int → Decoded (List (Key × Value) × Int)
  | 0, _, _, _ => .running
  | fuel + 1, depth, entries, pos =>
    if slice data pos (pos + 1) = encode "e" then .done (entries, pos + 1)
    else (decodeItem data fuel depth pos).bind fun k =>
      (decodeItem data fuel depth k.2).bind fun v =>
        match k.1.key with
        | none => .raised
        | some key => decodeEntries data fuel depth (Dict.assign key v.1 entries) v.2

end

/-- mirrors src/wh/wns/dht.py:967-970 -/
def bdecode (fuel depth : Nat) (data : Bytes) : Decoded Value :=
  (decodeItem data fuel depth 0).bind fun r => .done r.1

example : bdecode 9 9 (encode "d1:ai3e1:bl2:xyee") matches .done (.dict
    [(.bytes [97], .int 3), (.bytes [98], .list [.bytes [120, 121]])]) := by decide

end Wormhole.L1.Bencode
