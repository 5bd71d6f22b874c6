import Mathlib.Data.Rat.Defs

/-!
# JSON values as Python objects

What `json.loads` returns, with the three things the servers do with it:
`data.get`, truth testing, and using a value as a dict key or set element.

Dict keys are compared with `==` after hashing, so `1`, `1.0` and `True` are
one key and a list or an object is none at all (`TypeError: unhashable type`);
`Key` is a value up to that comparison. `json.loads` returns one and the same
object for every `NaN`, which a dict finds by identity.

A `str` is a Lean `String`: a lone surrogate, which `json.loads` can return,
is treated by the servers like any other character and has no counterpart.
-/
namespace Wormhole.L1

/-- A Python `float`. -/
inductive PyFloat
  | fin (q : Rat)
  | negZero
  | inf
  | negInf
  | nan
  deriving DecidableEq

/-- What `json.loads` returns. An object has its keys in the order of the text. -/
inductive Json
  | null
  | bool (b : Bool)
  | int (n : Int)
  | float (f : PyFloat)
  | str (s : String)
  | arr (xs : List Json)
  | obj (fields : List (String × Json))

/-- The fields of an object. -/
abbrev Fields := List (String × Json)

/-- `data.get(key, default)`. -/
def Fields.get (data : Fields) (key : String) (default : Json := .null) : Json :=
  ((data.find? fun f => f.1 = key).map Prod.snd).getD default

/-- `bool(x)`. -/
def Json.truthy : Json → Bool
  | .null => false
  | .bool b => b
  | .int n => n ≠ 0
  | .float (.fin q) => q ≠ 0
  | .float .negZero => false
  | .float _ => true
  | .str s => s ≠ ""
  | .arr xs => !xs.isEmpty
  | .obj fields => !fields.isEmpty

/-- A hashable value, up to the comparison a dict makes. -/
inductive Key
  | none
  | num (q : Rat)
  | inf
  | negInf
  | nan
  | str (s : String)
  deriving DecidableEq

/-- The key of a value; `none` is `TypeError: unhashable type`. -/
def Json.key : Json → Option Key
  | .null => some .none
  | .bool b => some (.num (if b then 1 else 0))
  | .int n => some (.num n)
  | .float (.fin q) => some (.num q)
  | .float .negZero => some (.num 0)
  | .float .inf => some .inf
  | .float .negInf => some .negInf
  | .float .nan => some .nan
  | .str s => some (.str s)
  | .arr _ => none
  | .obj _ => none

/-- `type(x).__name__`. -/
def Json.typeName : Json → String
  | .null => "NoneType"
  | .bool _ => "bool"
  | .int _ => "int"
  | .float _ => "float"
  | .str _ => "str"
  | .arr _ => "list"
  | .obj _ => "dict"

/-- The truth of the values that share a key. -/
def Key.truthy : Key → Bool
  | .none => false
  | .num q => q ≠ 0
  | .str s => s ≠ ""
  | _ => true

/-- `1`, `1.0` and `true` are one key. -/
example : (Json.int 1).key = (Json.float (.fin 1)).key ∧ (Json.int 1).key = (Json.bool true).key :=
  ⟨rfl, rfl⟩

end Wormhole.L1
