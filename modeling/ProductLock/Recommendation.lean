import ProductLock.Json.Writer
import ProductLock.Plan
import ProductLock.Schema.Entry
import ProductLock.Text.Decode

namespace ProductLock.Recommendation

open Schema

def listKey : String := "recommended-product-dependencies"

/-- What an artifact carries: a text, or something that cannot hold a document. -/
inductive Blob where
  | text (s : String)
  | other

def isMergeableMaximum (s : String) : Bool :=
  Version.isOrderable s || Version.isMatcher s

/-- A recommendation must be one that merging can compute with. -/
def entryRules : EntryRules where
  model := .entry
  part s := if isIdPart s then none else some (.idPart s)
  minimum s := if Version.isOrderable s then none else some (.minimum s)
  maximum s := if isMergeableMaximum s then none else some (.maximum s)
  recommended s := if Version.isOrderable s then none else some (.recommended s)

def readDocument : Value → Checked (List Dependency.Fields)
  | .map entries =>
    required listKey "recommended_product_dependencies" (readList (readEntry entryRules)) entries
  | _ => refuse (.notModel .blob)

/-- The entries of a blob. Only a number that is too long is more than a fault of the blob. -/
def readBlob : Blob → Except Failure (Except BlobFault (List Dependency.Fields))
  | .other => .ok (.error .notText)
  | .text s =>
    match Json.parse s with
    | .error (.digits n) => .error (.digits (some n))
    | .error (.syntaxError complaint rest) =>
      .ok (.error (.syntaxError complaint (Json.position s rest)))
    | .ok v => .ok ((readDocument v).mapError .invalid)

def announce (source : Option String) : List Dependency.Fields → Plan (List Dependency)
  | [] => pure []
  | f :: fs => do
    let d ← Plan.ofResult f.check
    Plan.note (.recommendation source d)
    return d :: (← announce source fs)

/-- The recommendations of one blob; a blob that cannot be used has none. -/
def parse (source : Option String) (blob : Blob) : Plan (List Dependency) := do
  match ← Plan.ofResult (readBlob blob) with
  | .error fault =>
    Plan.note (.unusableBlob source fault)
    return []
  | .ok fields => announce source fields

/-- The recommendations of all artifacts, in their order. -/
def discover : List (String × Option Blob) → Plan (List Dependency)
  | [] => pure []
  | (source, none) :: rest => do
    Plan.note (.noBlob source)
    discover rest
  | (source, some blob) :: rest => do
    let ds ← parse (some source) blob
    return ds ++ (← discover rest)

/-- The blobs among files that were read. A file that cannot be read is passed over; one that holds
no text ends everything. -/
def ofFiles : List (Path × Except FileFault ByteArray) → Plan (List (String × Option Blob))
  | [] => pure []
  | (path, .error fault) :: rest => do
    Plan.note (.unreadableBlob path fault)
    ofFiles rest
  | (path, .ok bytes) :: rest =>
    match Text.decode bytes with
    | none => Plan.fail .notText
    | some s => do return (path.text, some (.text s)) :: (← ofFiles rest)

def field (name : String) (v : Value) : Value × Value :=
  (.text name, v)

/-- One entry of a blob, its fields in the order of their names. -/
def entry (d : Dependency) : Value :=
  .map <| [field "maximum-version" (.text d.maximum), field "minimum-version" (.text d.minimum)] ++
    (if d.optional then [field "optional" (.bool true)] else []) ++
    [field "product-group" (.text d.product.group), field "product-name" (.text d.product.name)] ++
    match d.recommended with
    | none => []
    | some v => [field "recommended-version" (.text v)]

/-- The blob that a product embeds to recommend dependencies. -/
def render (ds : List Dependency) : String :=
  Json.render .line (.map [field listKey (.list (ds.map entry))])

end ProductLock.Recommendation
