import ProductLock.Yaml.Plain
import ProductLock.Yaml.Reader

namespace ProductLock.Yaml

/-- Why a document has no value: it is not well formed, or one of its scalars is at fault. -/
inductive Stop where
  | malformed
  | failure (f : Failure)

/-- Collections are no keys. -/
def isKey : Value → Bool
  | .list _ | .set _ | .map _ | .again _ => false
  | _ => true

/-- The words for a merged map and for a default value, for which there are no values. -/
def isSpecial (s : String) : Bool :=
  s == "<<" || s == "="

/-- The word for a default value is a text where it is a key. -/
def isDefaultKey : Node → Bool
  | .plain s => s == "="
  | _ => false

mutual

def construct : Node → Except Stop Value
  | .plain s =>
    if isSpecial s then .error .malformed else (Plain.resolve s).mapError .failure
  | .quoted ps => .ok (Value.ofPoints ps)
  | .list items => (constructItems items).map .list
  | .map entries => (constructEntries entries []).map .map

def constructItems : List Node → Except Stop (List Value)
  | [] => .ok []
  | n :: ns => do
    let v ← construct n
    return v :: (← constructItems ns)

/-- Of two entries with one key the last wins. -/
def constructEntries : List (Node × Node) → List (Value × Value) → Except Stop (List (Value × Value))
  | [], held => .ok held
  | (key, value) :: rest, held => do
    let k ← if isDefaultKey key then .ok (.text "=") else construct key
    if ¬ isKey k then throw .malformed
    let v ← construct value
    constructEntries rest (Value.put k v held)

end

/-- The value of a text; a text without a document is null. -/
def parse (s : String) : Except Stop Value :=
  match readText s with
  | none => .error .malformed
  | some none => .ok .null
  | some (some node) => construct node

end ProductLock.Yaml
