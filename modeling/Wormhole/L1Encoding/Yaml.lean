import Wormhole.L1Encoding.Json

/-!
# YAML documents

`yaml.safe_dump` and `yaml.safe_load`, as far as the configuration files rest on them: the
values are those of JSON, and what is dumped is loaded as what it was. The text of a
document is left open.
-/
namespace Wormhole.L1

structure Yaml where
  Text : Type
  dump : Json → Text
  /-- `none` is an exception. -/
  load : Text → Option Json
  load_dump : ∀ v, load (dump v) = some v

/-- For runs: a document is its value. -/
def Yaml.plain : Yaml where
  Text := Json
  dump v := v
  load v := some v
  load_dump _ := rfl

end Wormhole.L1
