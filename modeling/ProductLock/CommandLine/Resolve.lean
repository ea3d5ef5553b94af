import ProductLock.CommandLine.Request
import ProductLock.CommandLine.Screen
import ProductLock.CommandLine.Services
import ProductLock.Config.Load
import ProductLock.Lockfile.Sync
import ProductLock.Recommendation

namespace ProductLock.CommandLine

/-- How a change of the lockfile is told. -/
def outcomeLine (path : Path) : Lockfile.Outcome → Option String
  | .created => some ("Created " ++ path.text)
  | .updated => some ("Updated " ++ path.text)
  | .deleted => some ("Deleted " ++ path.text)
  | .unchanged | .absent => none

/-- A line is printed unless its marks make no sense. -/
def say (services : Services) (line : String) : Plan Unit := do
  Plan.act (.say (Screen.shown (← Plan.ofResult (services.unmark line))))

def noteAll (ns : List Note) : Plan Unit :=
  ⟨ns.map .note, .ok ()⟩

/-- What a run has read: the configuration, the blob files, and the lockfile with its path. -/
structure Sources where
  config : Config
  blobs : List (Path × Except FileFault ByteArray)
  lockfile : Path
  existing : Except FileFault ByteArray

/-- The resolution of a configuration, and the manifest that shows it. -/
def prepare (s : Sources) : Plan (ProductId × Report × List (String × Value)) := do
  let resolver ← Plan.ofResult s.config.resolver
  let declared ← Plan.ofResult s.config.declared
  let discovered ← Recommendation.discover (← Recommendation.ofFiles s.blobs)
  let resolution ← Plan.ofResult (resolver.resolve declared discovered)
  noteAll (resolution.advisories.map .advice)
  let manifest ← Manifest.build resolver.product s.config.type.name s.config.version
    resolution.report s.config.extensions
  return (resolver.product, resolution.report, manifest)

/-- How it is told that all is written. -/
def closingLine (product : ProductId) (report : Report) (output : Path) : String :=
  "Resolved " ++ toString report.size ++ " product dependencies for " ++ product.text ++
    ", wrote " ++ output.text

/-- The manifest is complete before the lockfile is touched, and written after it. -/
def resolvePlan (services : Services) (o : ResolveOptions) (s : Sources) : Plan Unit := do
  let (product, report, manifest) ← prepare s
  let existing ← Plan.ofResult (Lockfile.contents s.existing)
  let mode := if o.writeLocks then Lockfile.Mode.write else .check
  let outcome ← Lockfile.sync mode s.lockfile existing
    (Lockfile.render s.config.workspace report)
  if let some line := outcomeLine s.lockfile outcome then
    say services line
  let output := o.manifest.getD s.config.manifest
  Manifest.write output manifest
  if let some path := o.report then
    Plan.act (.write path (Manifest.renderReport report))
  say services (closingLine product report output)

/-- Reads all that a run needs before anything is written. -/
def resolveReading {m : Type → Type} [Monad m] (services : Services)
    (read : Path → m (Except FileFault ByteArray)) (o : ResolveOptions) : m (Plan Unit) := do
  match Config.loadBy services.value o.config (← read o.config) with
  | .error f => return Plan.fail f
  | .ok config =>
    let blobs ← o.discovered.mapM fun path => do return (path, ← read path)
    let lockfile := o.lockfile.getD config.lockfile
    let existing ← read lockfile
    return resolvePlan services o { config, blobs, lockfile, existing }

end ProductLock.CommandLine
