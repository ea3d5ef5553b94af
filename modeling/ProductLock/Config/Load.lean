import ProductLock.Config.Basic
import ProductLock.Text.Decode
import ProductLock.Yaml.Document

namespace ProductLock.Config

/-- A document without a value, or with one that counts as nothing, is an empty configuration. -/
def isNothing : Value → Bool
  | .null | .bool false | .text "" | .bytes [] | .list [] | .set [] | .map [] => true
  | .int i => i == 0
  | .double x => x.isZero
  | _ => false

def ofDocument (path : Path) (v : Value) : Except Failure Config :=
  match if isNothing v then .map [] else v with
  | .map entries => do
    match ← ofValue (.map entries) with
    | .ok config => return config.within path.parent
    | .error issues => throw (.config path (.invalid issues))
  | _ => .error (.config path .notMapping)

def ofParsed (path : Path) : Except Yaml.Stop Value → Except Failure Config
  | .error .malformed => .error (.config path .syntaxError)
  | .error (.failure f) => .error f
  | .ok v => ofDocument path v

/-- The configuration in the file at a path, given what reading the file gave and how the value of
a text is found. -/
def loadBy (parse : String → Except Yaml.Stop Value) (path : Path)
    (r : Except FileFault ByteArray) : Except Failure Config :=
  match r with
  | .error .missing => .error (.config path .missing)
  | .error fault => .error (.file fault)
  | .ok bytes =>
    match Text.decode bytes with
    | some s => ofParsed path (parse s)
    | none => .error .notText

def load (path : Path) (r : Except FileFault ByteArray) : Except Failure Config :=
  loadBy Yaml.parse path r

end ProductLock.Config
