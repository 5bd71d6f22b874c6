import Wormhole.Core.Dict
import Wormhole.L1Encoding.JsBytes
import Wormhole.L1Encoding.Json

/-!
# JSON texts

The texts of JSON values, as `json.dumps` and `JSON.stringify` write them and as
`json.loads` and `JSON.parse` read them. What differs between the writers (the
escapes, the texts of floats, the white space) is a `Writer`, what differs
between the readers (the constants, the value of a number) is a `Reader`.

A recursion limit is not modelled. A text with an unpaired surrogate escape is
not read, for there is no `String` for it.
-/
namespace Wormhole.L1.JsonText

abbrev Text := List Char

/-! ## Writing -/

structure Writer where
  escape : Char → Text
  float : PyFloat → Text
  /-- Blanks after a comma and after a colon. -/
  afterComma : Nat
  afterColon : Nat
  indent : Option Nat

namespace Writer

variable (W : Writer)

def quote (s : String) : Text := '\x22' :: (s.toList.flatMap W.escape ++ ['\x22'])

/-- With an indent, every item stands on a line of its own. -/
def newline (level : Nat) : Text :=
  match W.indent with
  | none => []
  | some width => '\n' :: List.replicate (width * level) ' '

def comma (level : Nat) : Text := ',' :: (List.replicate W.afterComma ' ' ++ W.newline level)

def colon : Text := ':' :: List.replicate W.afterColon ' '

/-- `str(n)`. -/
def intText (n : Int) : Text :=
  if n < 0 then '-' :: Nat.toDigits 10 n.natAbs else Nat.toDigits 10 n.natAbs

mutual

def write (level : Nat) : Json → Text
  | .null => ['n', 'u', 'l', 'l']
  | .bool true => ['t', 'r', 'u', 'e']
  | .bool false => ['f', 'a', 'l', 's', 'e']
  | .int n => intText n
  | .float x => W.float x
  | .str s => W.quote s
  | .arr [] => ['[', ']']
  | .arr (x :: xs) =>
    '[' :: (W.newline (level + 1) ++ (write (level + 1) x ++ writeItems level xs))
  | .obj [] => ['\x7b', '\x7d']
  | .obj ((k, x) :: xs) =>
    '\x7b' :: (W.newline (level + 1) ++ (W.quote k ++ (W.colon ++
      (write (level + 1) x ++ writeFields level xs))))

/-- The items after the first, and the end of the list. -/
def writeItems (level : Nat) : List Json → Text
  | [] => W.newline level ++ [']']
  | x :: xs => W.comma (level + 1) ++ (write (level + 1) x ++ writeItems level xs)

/-- The fields after the first, and the end of the object. -/
def writeFields (level : Nat) : List (String × Json) → Text
  | [] => W.newline level ++ ['\x7d']
  | (k, x) :: xs =>
    W.comma (level + 1) ++ (W.quote k ++ (W.colon ++ (write (level + 1) x ++ writeFields level xs)))

end

/-- The text of a whole document. -/
def dumps (x : Json) : String := String.ofList (W.write 0 x)

end Writer

/-! ## Strings -/

def isBlank (c : Char) : Bool := c = ' ' || c = '\t' || c = '\n' || c = '\r'

def skip (s : Text) : Text := s.dropWhile isBlank

/-- The code unit of `\uabcd`. -/
def hexUnit (a b c d : Char) : Option Nat := do
  let a ← hexValue a.toNat
  let b ← hexValue b.toNat
  let c ← hexValue c.toNat
  let d ← hexValue d.toNat
  return ((a * 16 + b) * 16 + c) * 16 + d

/-- The code of a short escape. -/
def shortUnit (c : Char) : Option Nat :=
  if c = '\x22' then some 0x22
  else if c = '\\' then some 0x5C
  else if c = '/' then some 0x2F
  else if c = 'b' then some 0x08
  else if c = 'f' then some 0x0C
  else if c = 'n' then some 0x0A
  else if c = 'r' then some 0x0D
  else if c = 't' then some 0x09
  else none

def consUnit : Option Nat → Option (List Nat × Text) → Option (List Nat × Text)
  | some u, some (us, rest) => some (u :: us, rest)
  | _, _ => none

/-- The codes of a string up to its closing quote; what `\u` gives may be half
of a surrogate pair. -/
def units : Text → Option (List Nat × Text)
  | [] => none
  | c :: rest =>
    if c = '\x22' then some ([], rest)
    else if c = '\\' then
      match rest with
      | 'u' :: a :: b :: c :: d :: rest => consUnit (hexUnit a b c d) (units rest)
      | e :: rest => consUnit (shortUnit e) (units rest)
      | [] => none
    else if c.toNat < 0x20 then none
    else consUnit (some c.toNat) (units rest)

def isHigh (u : Nat) : Bool := 0xD800 ≤ u && u < 0xDC00

def isLow (u : Nat) : Bool := 0xDC00 ≤ u && u < 0xE000

/-- The characters of codes: a surrogate pair is one. -/
def combine : List Nat → Option Text
  | [] => some []
  | u :: us =>
    if isHigh u then
      match us with
      | [] => none
      | v :: us =>
        if isLow v then
          (combine us).map (Char.ofNat (0x10000 + (u - 0xD800) * 0x400 + (v - 0xDC00)) :: ·)
        else none
    else if isLow u then none
    else (combine us).map (Char.ofNat u :: ·)

/-- The string after an opening quote. -/
def scanString (s : Text) : Option (String × Text) :=
  match units s with
  | none => none
  | some (us, rest) => (combine us).map fun cs => (String.ofList cs, rest)

/-! ## Numbers -/

/-- The parts of a number's text. -/
structure Number where
  neg : Bool
  int : Text
  frac : Text
  exp : Option (Bool × Text)
  deriving DecidableEq, Repr

def scanSign : Text → Bool × Text
  | '-' :: rest => (true, rest)
  | s => (false, s)

/-- Digits; a leading zero stands alone. -/
def scanInt : Text → Option (Text × Text)
  | [] => none
  | c :: rest =>
    if c = '0' then some (['0'], rest)
    else if c.isDigit then
      some (c :: rest.takeWhile Char.isDigit, rest.dropWhile Char.isDigit)
    else none

def scanFrac (s : Text) : Text × Text :=
  match s with
  | '.' :: rest =>
    match rest.takeWhile Char.isDigit with
    | [] => ([], s)
    | ds => (ds, rest.dropWhile Char.isDigit)
  | _ => ([], s)

def scanExpSign : Text → Bool × Text
  | '-' :: rest => (true, rest)
  | '+' :: rest => (false, rest)
  | s => (false, s)

def scanExp (s : Text) : Option (Bool × Text) × Text :=
  match s with
  | [] => (none, s)
  | c :: rest =>
    if c = 'e' ∨ c = 'E' then
      let (neg, rest) := scanExpSign rest
      match rest.takeWhile Char.isDigit with
      | [] => (none, s)
      | ds => (some (neg, ds), rest.dropWhile Char.isDigit)
    else (none, s)

def scanNumber (s : Text) : Option (Number × Text) :=
  let (neg, s) := scanSign s
  match scanInt s with
  | none => none
  | some (int, s) =>
    let (frac, s) := scanFrac s
    let (exp, s) := scanExp s
    some (⟨neg, int, frac, exp⟩, s)

/-! ## Values -/

/-- An object keeps the last of a key's values, in the place of the first. -/
def ofPairs (pairs : List (String × Json)) : Fields :=
  pairs.foldl (fun fields f => Dict.assign f.1 f.2 fields) []

def literals : List (Text × Json) :=
  [(['n', 'u', 'l', 'l'], .null), (['t', 'r', 'u', 'e'], .bool true),
    (['f', 'a', 'l', 's', 'e'], .bool false)]

structure Reader where
  constants : List (Text × Json)
  number : Number → Option Json

namespace Reader

variable (R : Reader)

/-- A constant or a number. -/
def scalar (s : Text) : Option (Json × Text) :=
  match (literals ++ R.constants).find? fun c => c.1.isPrefixOf s with
  | some c => some (c.2, s.drop c.1.length)
  | none =>
    match scanNumber s with
    | none => none
    | some (num, rest) => (R.number num).map fun x => (x, rest)

mutual

/-- A value at the head of the text, with at most `n` nested calls. -/
def value : Nat → Text → Option (Json × Text)
  | 0, _ => none
  | _ + 1, [] => none
  | n + 1, c :: rest =>
    if c = '\x22' then (scanString rest).map fun p => (.str p.1, p.2)
    else if c = '[' then
      match skip rest with
      | ']' :: rest => some (.arr [], rest)
      | s => (items n s).map fun p => (.arr p.1, p.2)
    else if c = '\x7b' then
      match skip rest with
      | '\x7d' :: rest => some (.obj [], rest)
      | s => (fields n s).map fun p => (.obj (ofPairs p.1), p.2)
    else R.scalar (c :: rest)

/-- The items of a list that has some. -/
def items : Nat → Text → Option (List Json × Text)
  | 0, _ => none
  | n + 1, s =>
    match value n s with
    | none => none
    | some (x, rest) =>
      match skip rest with
      | ',' :: rest => (items n (skip rest)).map fun p => (x :: p.1, p.2)
      | ']' :: rest => some ([x], rest)
      | _ => none

/-- The fields of an object that has some, as they stand in the text. -/
def fields : Nat → Text → Option (List (String × Json) × Text)
  | 0, _ => none
  | n + 1, s =>
    match s with
    | '\x22' :: rest =>
      match scanString rest with
      | none => none
      | some (k, rest) =>
        match skip rest with
        | ':' :: rest =>
          match value n (skip rest) with
          | none => none
          | some (x, rest) =>
            match skip rest with
            | ',' :: rest => (fields n (skip rest)).map fun p => ((k, x) :: p.1, p.2)
            | '\x7d' :: rest => some ([(k, x)], rest)
            | _ => none
        | _ => none
    | _ => none

end

/-- The value of a whole document. -/
def loads (s : String) : Option Json :=
  match R.value (s.length + 1) (skip s.toList) with
  | none => none
  | some (x, rest) => if skip rest = [] then some x else none

end Reader

/-! ## Floats -/

def roundEven (q : Rat) : Int :=
  let n := q.floor
  if q - n < 1 / 2 then n
  else if 1 / 2 < q - n then n + 1
  else if n % 2 = 0 then n
  else n + 1

/-- The distance of the doubles around a positive number. -/
def ulp (q : Rat) : Rat :=
  let e : Int := Nat.log2 q.num.natAbs - Nat.log2 q.den
  let e := if q < (2 : Rat) ^ e then e - 1 else e
  2 ^ (max e (-1022) - 52)

/-- The double nearest to a number's absolute value; `none` is infinity. -/
def roundDouble (q : Rat) : Option Rat :=
  if q = 0 then some 0
  else
    let r := roundEven (q / ulp q) * ulp q
    if r < 2 ^ 1024 then some r else none

/-- The digits before the exponent, as one integer. -/
def Number.digits (x : Number) : Nat := Nat.ofDigitChars 10 (x.int ++ x.frac) 0

def Number.exponent (x : Number) : Int :=
  let e : Int :=
    match x.exp with
    | none => 0
    | some (neg, ds) => if neg then -Nat.ofDigitChars 10 ds 0 else Nat.ofDigitChars 10 ds 0
  e - x.frac.length

/-- `float(text)`. -/
def Number.toFloat (x : Number) : PyFloat :=
  match roundDouble (x.digits * 10 ^ x.exponent) with
  | none => if x.neg then .negInf else .inf
  | some q =>
    if x.neg then (if q = 0 then .negZero else .fin (-q)) else .fin q

/-- `int(text)`, for a text without fraction and exponent. -/
def Number.toInt (x : Number) : Int := if x.neg then -x.digits else x.digits

/-! ## Python and JavaScript -/

def shortEscape (c : Char) : Option Char :=
  if c = '\x22' then some '\x22'
  else if c = '\\' then some '\\'
  else if c = '\x08' then some 'b'
  else if c = '\x0c' then some 'f'
  else if c = '\n' then some 'n'
  else if c = '\r' then some 'r'
  else if c = '\t' then some 't'
  else none

/-- `\uabcd`, with `'%04x'`. -/
def unitEscape (u : Nat) : Text :=
  ['\\', 'u', (u / 4096 % 16).digitChar, (u / 256 % 16).digitChar, (u / 16 % 16).digitChar,
    (u % 16).digitChar]

/-- `ensure_ascii`: what is not printable ASCII is escaped by its code units. -/
def pyEscape (c : Char) : Text :=
  match shortEscape c with
  | some e => ['\\', e]
  | none => if ' ' ≤ c ∧ c ≤ '~' then [c] else (charUnits c).flatMap unitEscape

/-- Control characters are escaped. -/
def jsEscape (c : Char) : Text :=
  match shortEscape c with
  | some e => ['\\', e]
  | none => if c.toNat < 0x20 then unitEscape c.toNat else [c]

/-- `json.dumps(x)`; `repr` is `float.__repr__`. -/
def pyWriter (repr : PyFloat → Text) : Writer := ⟨pyEscape, repr, 1, 1, none⟩

/-- `json.dumps(x, indent=width)`. -/
def pyIndented (repr : PyFloat → Text) (width : Nat) : Writer := ⟨pyEscape, repr, 0, 1, some width⟩

/-- A number in a text of `JSON.stringify`; `text` is `Number::toString`. -/
def jsFloat (text : PyFloat → Text) : PyFloat → Text
  | .fin q => text (.fin q)
  | .negZero => ['0']
  | .inf | .negInf | .nan => ['n', 'u', 'l', 'l']

/-- `JSON.stringify(x)`. -/
def jsWriter (text : PyFloat → Text) : Writer := ⟨jsEscape, jsFloat text, 0, 0, none⟩

/-- `json.loads`. An integer of more than 4300 digits is refused. -/
def pyReader : Reader where
  constants := [(['N', 'a', 'N'], .float .nan),
    (['I', 'n', 'f', 'i', 'n', 'i', 't', 'y'], .float .inf),
    (['-', 'I', 'n', 'f', 'i', 'n', 'i', 't', 'y'], .float .negInf)]
  number x :=
    if x.frac = [] ∧ x.exp = none then
      if x.int.length ≤ 4300 then some (.int x.toInt) else none
    else some (.float x.toFloat)

/-- A JavaScript number: a safe integer is an `.int` here, and `-0` is `0`, which
`===` does not tell apart. -/
def jsNumber : PyFloat → Json
  | .fin q => if q.den = 1 ∧ q.num.natAbs < 2 ^ 53 then .int q.num else .float (.fin q)
  | .negZero => .int 0
  | x => .float x

/-- `JSON.parse`. -/
def jsReader : Reader := ⟨[], fun x => some (jsNumber x.toFloat)⟩

end Wormhole.L1.JsonText
