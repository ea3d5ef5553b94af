import ProductLock.Dependency.Basic
import ProductLock.Path
import ProductLock.Schema.Issue

namespace ProductLock

/-- What a version text was required to be. -/
inductive Expected where
  | orderable
  | orderableOrMatcher
  | matcher
  | minimum
  | maximum
  | recommended
  | orderableMinimum
  | orderableOrMatcherMaximum
  | orderableRecommended
  | product
deriving DecidableEq, Repr

def Expected.text : Expected → String
  | .orderable => "an orderable"
  | .orderableOrMatcher => "an orderable or matcher"
  | .matcher => "a matcher"
  | .minimum => "a valid minimum"
  | .maximum => "a valid maximum"
  | .recommended => "a valid recommended"
  | .orderableMinimum => "an orderable minimum"
  | .orderableOrMatcherMaximum => "an orderable or matcher maximum"
  | .orderableRecommended => "an orderable recommended"
  | .product => "a valid product"

/-- Whose version it was. -/
inductive Subject where
  | dependency (id : ProductId)
  | declared (id : ProductId)
  | product (id : ProductId)
deriving DecidableEq, Repr

def Subject.text : Subject → String
  | .dependency id => "product dependency on '" ++ id.text ++ "'"
  | .declared id => "declared product dependency on '" ++ id.text ++ "'"
  | .product id => "product '" ++ id.text ++ "'"

/-- The settings that take one of a few fixed words. -/
inductive Choice where
  | advisoryKind
  | productType
  | conflictPolicy
deriving DecidableEq, Repr

/-- The names by which the messages call the settings. -/
def Choice.label : Choice → String
  | .advisoryKind => "AdvisoryKind"
  | .productType => "ProductType"
  | .conflictPolicy => "OptionalConflictPolicy"

inductive FileFault where
  | missing
  | exists
  | busy
  | notDirectory
  | isDirectory
  | other (number : Nat)
  /-- The path has a NUL character, and the system is not even asked. -/
  | unnamable
deriving DecidableEq, Repr

/-- The system's number for the fault. -/
def FileFault.number : FileFault → Nat
  | .missing => 2
  | .busy => 16
  | .exists => 17
  | .notDirectory => 20
  | .isDirectory => 21
  | .unnamable => 22
  | .other number => number

def FileFault.message : FileFault → String
  | .unnamable => "embedded null byte"
  | fault => "[Errno " ++ toString fault.number ++ "]"

/-- The fault of that number. -/
def FileFault.ofNumber (number : Nat) : FileFault :=
  ([.missing, .busy, .exists, .notDirectory, .isDirectory].find? fun f : FileFault =>
    f.number == number).getD (.other number)

/-- A plain scalar that has the form of a date, a time or a number and is none. -/
inductive ScalarFault where
  | year (y : Nat)
  | month
  | day
  | hour
  | minute
  | second
  | offset
  | noDigits (base : Nat)
deriving DecidableEq, Repr

def ScalarFault.message : ScalarFault → String
  | .year y => "year " ++ toString y ++ " is out of range"
  | .month => "month must be in 1..12"
  | .day => "day is out of range for month"
  | .hour => "hour must be in 0..23"
  | .minute => "minute must be in 0..59"
  | .second => "second must be in 0..59"
  | .offset => "offset must be strictly between minus and plus 24 hours"
  | .noDigits base => "invalid literal for int() with base " ++ toString base ++ ": ''"

inductive ConfigProblem where
  | missing
  | syntaxError
  | notMapping
  | invalid (issues : List Schema.Issue)
deriving DecidableEq, Repr

inductive LockfileState where
  | missing
  | stale
  | unwanted
deriving DecidableEq, Repr

inductive Failure where
  | version (text : String) (expected : Expected) (subject : Option Subject)
  | id (fault : IdFault)
  /-- A number too long to read, with the count of its digits, or too long to write. -/
  | digits (count : Option Nat)
  | unknownChoice (text : String) (choice : Choice)
  | differentProducts (a b : ProductId)
  | selfDependency (dependency : Dependency)
  | duplicateDeclaration (first second : Dependency)
  | ignoredConflict (dependency : Dependency)
  | optionalConflict (dependency : Dependency)
  | rangeConflict (first second : Dependency) (minimum maximum : String)
  | reservedExtension (key : String)
  | lockfile (state : LockfileState) (path : Path) (diff : String)
  | lockfileLine (path : Option Path) (number : Nat) (line : String)
  | config (path : Path) (problem : ConfigProblem)
  | file (fault : FileFault)
  /-- The bytes of a file are not UTF-8 text. -/
  | notText
  /-- A value where its type has no meaning. -/
  | wrongType
  | scalar (fault : ScalarFault)
  /-- A collection within itself, where it should be written out. -/
  | circular
  /-- A line whose marks close what is not open. -/
  | marks
deriving DecidableEq

def LockfileState.advice : LockfileState → String
  | .missing =>
    " does not exist, please run `productdeps resolve --write-locks` and commit the resultant file"
  | .stale => " is out of date, please run `productdeps resolve --write-locks` to update it"
  | .unwanted => " must not exist, please run `productdeps resolve --write-locks` to delete it"

def ConfigProblem.message (path : Path) : ConfigProblem → String
  | .missing => "Configuration file " ++ path.text ++ " not found"
  | .syntaxError => "Invalid YAML in " ++ path.text
  | .notMapping => "Configuration file " ++ path.text ++ " must contain a mapping"
  | .invalid _ => "Invalid configuration in " ++ path.text ++ ":"

def bothOnLines (first second : Dependency) : String :=
  "\n\t" ++ first.text ++ "\n\t" ++ second.text

def Failure.message : Failure → String
  | .version text expected subject =>
    "Expected " ++ expected.text ++ " version but got " ++ Text.quote text ++
      (match subject with
        | none => ""
        | some s => " (" ++ s.text ++ ")")
  | .id fault => fault.message
  | .digits count => Numeral.limitMessage count
  | .unknownChoice text choice => Text.quote text ++ " is not a valid " ++ choice.label
  | .differentProducts a b =>
    "Cannot merge product dependencies on '" ++ a.text ++ "' and '" ++ b.text ++ "'"
  | .selfDependency d =>
    "Invalid for product to declare an explicit dependency on itself, please remove: " ++ d.text
  | .duplicateDeclaration first second =>
    "Encountered duplicate declared product dependencies for '" ++ first.product.text ++ "':" ++
      bothOnLines first second
  | .ignoredConflict d =>
    "Encountered product dependency declaration that was also ignored for '" ++ d.product.text ++
      "', either remove the dependency or ignore"
  | .optionalConflict d =>
    "Encountered product dependency declaration that was also declared as optional for '" ++
      d.product.text ++ "', either remove the dependency or optional declaration"
  | .rangeConflict first second minimum maximum =>
    "Could not merge product dependencies for '" ++ first.product.text ++ "': minimum version " ++
      minimum ++ " is greater than maximum version " ++ maximum ++ bothOnLines first second
  | .reservedExtension key =>
    "Manifest extensions must not define '" ++ key ++ "'" ++
      (if key = "product-dependencies" then ", use the product-dependencies configuration instead"
        else "")
  | .lockfile state path diff =>
    path.text ++ state.advice ++ (if diff = "" then "" else ":\n" ++ diff)
  | .lockfileLine _ number line =>
    "Malformed lockfile line " ++ toString number ++ ": " ++ Text.quote line
  | .config path problem => problem.message path
  | .file fault => fault.message
  | .scalar fault => fault.message
  | .notText => "a file does not hold UTF-8 text"
  | .wrongType => "a value has the wrong type"
  | .circular => "Circular reference detected"
  | .marks => "a closing mark has nothing to close"

/-- The failures that the command line explains; it gives up on the others. -/
def Failure.isExplained : Failure → Bool
  | .digits _ | .unknownChoice _ _ | .differentProducts _ _ | .notText | .wrongType
  | .scalar _ | .circular | .marks | .file .unnamable | .id (.malformed _) => false
  | _ => true

end ProductLock
