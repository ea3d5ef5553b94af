import ProductLock.Lockfile.Basic
import ProductLock.Manifest
import ProductLock.Resolution
import ProductLock.Schema.Entry

namespace ProductLock

/-- All that a product's configuration says. The dependencies and the product's own id are as they
were written. -/
structure Config where
  group : String
  name : String
  version : String
  type : ProductType
  dependencies : List Dependency.Fields
  ignored : List ProductId
  optional : List ProductId
  inRepo : List ProductId
  policy : Policy
  extensions : List (String × Value)
  lockfile : Path
  manifest : Path

namespace Config

open Schema

def defaultManifest : String := "build/deployment/manifest.yml"

def names : List (String × String) :=
  [("product-group", "product_group"), ("product-name", "product_name"),
    ("product-version", "product_version"), ("product-type", "product_type"),
    ("product-dependencies", "product_dependencies"),
    ("ignored-product-dependencies", "ignored_product_dependencies"),
    ("optional-product-dependencies", "optional_product_dependencies"),
    ("in-repo-products", "in_repo_products"),
    ("optional-conflict-policy", "optional_conflict_policy"),
    ("manifest-extensions", "manifest_extensions"), ("lockfile", "lockfile"),
    ("manifest", "manifest")]

/-- The text of a group or a name. -/
def partText : Value → Except Failure String
  | .text s => .ok s
  | .points ps => .ok (Value.textOfPoints ps)
  | _ => .error .wrongType

def isPoints : Value → Bool
  | .points _ => true
  | _ => false

/-- An id as it is read, or nothing when it has an unpaired surrogate: it is none of a product then,
since those are texts. -/
def unlessPoints (hasPoints : Bool) (id : ProductId) : Option ProductId :=
  if hasPoints then none else some id

/-- The name is looked at only after a good group. -/
def idOfParts (group name : Value) : Except Failure (Option ProductId) := do
  let groupText ← partText group
  if ¬ isIdPart groupText then throw (.id (.part .group groupText))
  let nameText ← partText name
  let id ← (ProductId.ofParts groupText nameText).mapError .id
  return unlessPoints (isPoints group || isPoints name) id

/-- What an id that is written as a mapping has under one of its keys. -/
def idPart (key : String) (entries : Entries) : Value :=
  (Value.lookup key entries).getD (.text "")

/-- An id is written as a mapping with a group and a name, or as a text; what is neither is read
as it would be shown. -/
def readId : Value → Except Failure (Option ProductId)
  | .id i => .ok (some i)
  | .map entries => idOfParts (idPart "product-group" entries) (idPart "product-name" entries)
  | v =>
    if v.isOverlong then .error (.digits none)
    else ((ProductId.parse v.shown).mapError .id).map (unlessPoints (isPoints v))

/-- The first faulty id stands for the whole list. Only a group or name that is no text goes beyond
an issue of the document. -/
def readIds : Value → Except Failure (Checked (List ProductId))
  | .list vs =>
    match vs.mapM readId with
    | .ok ids => .ok (.ok (ids.filterMap id))
    | .error (.id fault) => .ok (refuse (.refused (.id fault)))
    | .error (.digits _) => .ok (refuse (.refused .overlong))
    | .error failure => .error failure
  | _ => .ok (refuse (.refused .idList))

def idsField (name other : String) (entries : Entries) : Except Failure (Checked (List ProductId)) :=
  match find name other entries with
  | none => .ok (.ok [])
  | some v => (readIds v).map (under (.key name))

def readChoice (options : List α) (label : α → String) (v : Value) : Checked α :=
  let issue := refuse (.notAmong (options.map label))
  match readText v with
  | .ok s =>
    match options.find? fun o => label o == s with
    | some o => .ok o
    | none => issue
  | .error _ => issue

def readPath : Value → Checked Path
  | .text s => .ok (.ofString s)
  | _ => refuse .notPath

def readExtension (key v : Value) : Checked (String × Value) :=
  under (segmentOfKey key) <| under (.key "[key]") <| (readText key).map fun k => (k, v)

def readExtensionEntries : Entries → Checked (List (String × Value))
  | [] => .ok []
  | (key, v) :: rest =>
    (both (readExtension key v) (readExtensionEntries rest)).map fun (e, es) => e :: es

def readExtensions : Value → Checked (List (String × Value))
  | .map entries => readExtensionEntries entries
  | _ => refuse .notMap

/-- A set does for a list. -/
def readSeries (read : Value → Checked α) : Value → Checked (List α)
  | .set vs => readItemsFrom read 0 vs
  | v => readList read v

def dependencyRules : EntryRules where
  model := .configDependency
  closed := true

/-- Everything but the lists of ids, which are read before. -/
def readEntries (entries : Entries) (ignored optionals inRepo : Checked (List ProductId)) :
    Checked Config := do
  let all :=
    both (required "product-group" "product_group" readSomeText entries) <|
    both (required "product-name" "product_name" readSomeText entries) <|
    both (required "product-version" "product_version" readText entries) <|
    both (defaulted "product-type" "product_type" .service
      (readChoice ProductType.all ProductType.name) entries) <|
    both (defaulted "product-dependencies" "product_dependencies" []
      (readSeries (readEntry dependencyRules)) entries) <|
    both ignored <| both optionals <| both inRepo <|
    both (defaulted "optional-conflict-policy" "optional_conflict_policy" .reject
      (readChoice Policy.all Policy.name) entries) <|
    both (defaulted "manifest-extensions" "manifest_extensions" [] readExtensions entries) <|
    both (defaulted "lockfile" "lockfile" (Path.ofString Lockfile.defaultName) readPath entries) <|
    both (defaulted "manifest" "manifest" (Path.ofString defaultManifest) readPath entries) <|
    noExtras names entries
  let (group, name, version, type, dependencies, ignored, optional, inRepo, policy, extensions,
    lockfile, manifest, _) ← all
  return { group, name, version, type, dependencies, ignored, optional, inRepo, policy, extensions,
           lockfile, manifest }

def ofValue : Value → Except Failure (Checked Config)
  | .map entries => do
    let ignored ← idsField "ignored-product-dependencies" "ignored_product_dependencies" entries
    let optional ← idsField "optional-product-dependencies" "optional_product_dependencies" entries
    let inRepo ← idsField "in-repo-products" "in_repo_products" entries
    return readEntries entries ignored optional inRepo
  | _ => .ok (refuse (.notModel .config))

def product (c : Config) : Except Failure ProductId :=
  (ProductId.ofParts c.group c.name).mapError .id

def declared (c : Config) : Except Failure (List Dependency) :=
  c.dependencies.mapM Dependency.Fields.check

def resolver (c : Config) : Except Failure Resolver := do
  return { product := ← c.product, ignored := c.ignored, optional := c.optional, policy := c.policy }

def workspace (c : Config) : Lockfile.Workspace :=
  ⟨c.inRepo, some c.version⟩

/-- The paths of the configuration as seen from the directory that holds it. -/
def within (base : Path) (c : Config) : Config :=
  { c with lockfile := base.within c.lockfile, manifest := base.within c.manifest }

end Config

end ProductLock
