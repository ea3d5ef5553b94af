import ProductLock.CommandLine.Services
import ProductLock.CommandLine.Table
import ProductLock.Json.Writer
import ProductLock.Plan
import ProductLock.Sorting
import ProductLock.Version.Grammar

namespace ProductLock.CommandLine

open Version

/-- Each version once, where it was first named. -/
def distinct (versions : List String) : List String :=
  versions.foldl (fun seen v => if seen.contains v then seen else seen ++ [v]) []

def kindNames (version : String) : List String :=
  Sorting.sort (fun a b => Ord.compare a b != .gt) ((classify version).map Kind.name)

def kindsDocument (versions : List String) : Value :=
  .map (versions.map fun v => (.text v, .list ((kindNames v).map .text)))

/-- In a table marks are read in a version. -/
def kindsRow (services : Services) (version : String) : Except Failure Table.Row := do
  let shown ← services.unmark version
  return Table.cell shown :: Kind.all.map fun kind =>
    Table.cell (if (classify version).contains kind then "yes" else "")

def kindsTable (services : Services) (versions : List String) : Except Failure (List String) := do
  return Table.draw (Table.cell "version" :: Kind.all.map fun kind => Table.cell kind.name)
    (← versions.mapM (kindsRow services))

/-- Whether any version is of no kind. -/
def anyInvalid (versions : List String) : Bool :=
  versions.any fun v => (classify v).contains .invalid

def classifyPlan (services : Services) (versions : List String) (asJson : Bool) : Plan Unit := do
  let versions := distinct versions
  let lines ← Plan.ofResult <|
    if asJson then .ok [Json.render ⟨true, false⟩ (kindsDocument versions)]
    else kindsTable services versions
  ⟨lines.map .say, .ok ()⟩

end ProductLock.CommandLine
