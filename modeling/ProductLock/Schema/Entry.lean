import ProductLock.Dependency.Fields
import ProductLock.Schema.Reader
import ProductLock.Schema.Extra

namespace ProductLock.Schema

/-- What is asked of the fields of a dependency beyond being texts, and whether it may have no
other fields. -/
structure EntryRules where
  model : Model
  part : String → Option Reason := fun _ => none
  minimum : String → Option Reason := fun _ => none
  maximum : String → Option Reason := fun _ => none
  recommended : String → Option Reason := fun _ => none
  closed : Bool := false

def entryNames : List (String × String) :=
  [("product-group", "product_group"), ("product-name", "product_name"),
    ("minimum-version", "minimum_version"), ("maximum-version", "maximum_version"),
    ("recommended-version", "recommended_version"), ("optional", "optional")]

def readRecommended (reason? : String → Option Reason) (v : Value) : Checked (Option String) := do
  match ← readTextOrNull v with
  | none => return none
  | some s => return some (← checkText reason? s)

def readEntries (rules : EntryRules) (entries : Entries) : Checked Dependency.Fields := do
  let part v := do checkText rules.part (← readSomeText v)
  let version (reason? : String → Option Reason) v := do checkText reason? (← readText v)
  let all :=
    both (required "product-group" "product_group" part entries) <|
    both (required "product-name" "product_name" part entries) <|
    both (required "minimum-version" "minimum_version" (version rules.minimum) entries) <|
    both (required "maximum-version" "maximum_version" (version rules.maximum) entries) <|
    both (defaulted "recommended-version" "recommended_version" none
      (readRecommended rules.recommended) entries) <|
    both (defaulted "optional" "optional" false readBool entries) <|
    if rules.closed then noExtras entryNames entries else .ok ()
  let (group, name, minimum, maximum, recommended, isOptional, _) ← all
  return { group, name, minimum, maximum, recommended, optional := isOptional }

def readEntry (rules : EntryRules) : Value → Checked Dependency.Fields
  | .map entries => readEntries rules entries
  | _ => refuse (.notModel rules.model)

end ProductLock.Schema
