import ProductLock.Json.Writer
import ProductLock.Plan
import ProductLock.Report

namespace ProductLock

inductive ProductType where
  | service
  | daemon
  | asset
deriving DecidableEq, Repr

namespace ProductType

def all : List ProductType :=
  [.service, .daemon, .asset]

def name : ProductType → String
  | .service => "service.v1"
  | .daemon => "daemon.v1"
  | .asset => "asset.v1"

def ofName (s : String) : Except Failure ProductType :=
  match all.find? fun t => t.name == s with
  | some t => .ok t
  | none => .error (.unknownChoice s .productType)

end ProductType

namespace Manifest

def dependenciesKey : String := "product-dependencies"

/-- The keys that extensions may not set. -/
def reservedKeys : List String :=
  ["manifest-version", "product-type", "product-group", "product-name", "product-version",
    dependenciesKey]

/-- The document form of a dependency. -/
def entry (d : Dependency) : Value :=
  let field (name : String) (v : Value) := (Value.text name, v)
  .map <| [field "product-group" (.text d.product.group), field "product-name" (.text d.product.name),
      field "minimum-version" (.text d.minimum), field "maximum-version" (.text d.maximum)] ++
    (match d.recommended with
      | none => []
      | some v => [field "recommended-version" (.text v)]) ++
    [field "optional" (.bool d.optional)]

def entries (r : Report) : Value :=
  .list (r.dependencies.map entry)

def header (product : ProductId) (type : ProductType) (version : String) (r : Report) :
    List (String × Value) :=
  [("manifest-version", .text "1.0"), ("product-type", .text type.name),
    ("product-group", .text product.group), ("product-name", .text product.name),
    ("product-version", .text version), (dependenciesKey, entries r)]

def isNull : Value → Bool
  | .null => true
  | _ => false

def keyLe (a b : String × Value) : Bool :=
  Ord.compare a.1 b.1 != .gt

/-- The extensions that have a value, in the order of their keys. -/
def extras (extensions : List (String × Value)) : List (String × Value) :=
  (Sorting.sort keyLe extensions).filter fun e => !isNull e.2

/-- A reserved key among the extensions comes before every other complaint. -/
def build (product : ProductId) (type version : String) (r : Report)
    (extensions : List (String × Value)) : Plan (List (String × Value)) := do
  if let some key := reservedKeys.find? fun key => extensions.any fun e => e.1 == key then
    Plan.fail (.reservedExtension key)
  else if ¬ Version.isValid version then
    Plan.fail (.version version .product (some (.product product)))
  else
    if ¬ Version.isOrderable version then
      Plan.note (.unorderedProduct product version)
    let type ← Plan.ofResult (ProductType.ofName type)
    return header product type version r ++ extras extensions

def toValue (document : List (String × Value)) : Value :=
  .map (document.map fun (key, v) => (.text key, v))

def render (document : List (String × Value)) : Except Failure String :=
  (Json.render? .page (toValue document)).map (· ++ "\n")

def write (path : Path) (document : List (String × Value)) : Plan Unit := do
  let text ← Plan.ofResult (render document)
  Plan.act (.write path text)
  Plan.note (.wroteManifest path)

/-- The list of dependencies by itself. -/
def renderReport (r : Report) : String :=
  Json.render .page (toValue [(dependenciesKey, entries r)]) ++ "\n"

end Manifest

end ProductLock
