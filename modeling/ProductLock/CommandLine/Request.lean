import ProductLock.CommandLine.Arguments
import ProductLock.Path
import ProductLock.Text.Blank

namespace ProductLock.CommandLine

structure ResolveOptions where
  config : Path
  discovered : List Path := []
  writeLocks : Bool := false
  manifest : Option Path := none
  lockfile : Option Path := none
  report : Option Path := none
  verbose : Bool := false
deriving DecidableEq, Repr

inductive Request where
  | help
  | resolve (options : ResolveOptions)
  | classify (versions : List String) (asJson : Bool)
deriving DecidableEq, Repr

inductive ResolveSwitch where
  | discovered
  | writeLocks
  | manifest
  | lockfile
  | report
  | verbose
  | help
deriving DecidableEq, Repr

def resolveSwitches : List (Switch ResolveSwitch) :=
  [⟨.discovered, "--discovered", some 'd', true⟩, ⟨.writeLocks, "--write-locks", none, false⟩,
    ⟨.manifest, "--manifest", some 'm', true⟩, ⟨.lockfile, "--lockfile", some 'l', true⟩,
    ⟨.report, "--report-out", none, true⟩, ⟨.verbose, "--verbose", some 'v', false⟩,
    ⟨.help, "--help", none, false⟩]

inductive ClassifySwitch where
  | format
  | help
deriving DecidableEq, Repr

def classifySwitches : List (Switch ClassifySwitch) :=
  [⟨.format, "--format", none, true⟩, ⟨.help, "--help", none, false⟩]

/-- The values given for an option, in order. -/
def Words.values [DecidableEq α] (w : Words α) (meaning : α) : List String :=
  w.options.filterMap fun o => if o.1 = meaning then some o.2 else none

def Words.has [DecidableEq α] (w : Words α) (meaning : α) : Bool :=
  w.options.any fun o => o.1 = meaning

/-- The value given last. -/
def Words.value? [DecidableEq α] (w : Words α) (meaning : α) : Option String :=
  (w.values meaning).getLast?

/-- A truth value of the environment: unset when it is missing or empty, no result when it is not
understood. -/
def flagOfEnvironment (value : Option String) : Option Bool :=
  match value with
  | none | some "" => some false
  | some s =>
    let word := Text.trim (s.map Char.toLower)
    if ["1", "true", "t", "yes", "y", "on"].contains word then some true
    else if ["0", "false", "f", "no", "n", "off"].contains word then some false
    else none

def resolveRequest (environment : Option String) (w : Words ResolveSwitch) : Option Request :=
  if w.has .help then some .help
  else
    match w.others with
    | [config] => do
      let writeLocks ← if w.has .writeLocks then some true else flagOfEnvironment environment
      return .resolve {
        config := .ofString config
        discovered := (w.values .discovered).map Path.ofString
        writeLocks
        manifest := (w.value? .manifest).map Path.ofString
        lockfile := (w.value? .lockfile).map Path.ofString
        report := (w.value? .report).map Path.ofString
        verbose := w.has .verbose }
    | _ => none

def classifyRequest (w : Words ClassifySwitch) : Option Request :=
  if w.has .help then some .help
  else if w.others = [] then none
  else some (.classify w.others (w.value? .format == some "json"))

/-- What is asked for; nothing when the command line cannot be understood. The second argument is
what the environment says about writing lockfiles. -/
def Request.ofArguments (arguments : List String) (environment : Option String) : Option Request :=
  match if arguments.head? = some "--" then arguments.drop 1 else arguments with
  | "--help" :: _ => some .help
  | "resolve" :: rest => (readWords resolveSwitches rest).bind (resolveRequest environment)
  | "classify" :: rest => (readWords classifySwitches rest).bind classifyRequest
  | _ => none

end ProductLock.CommandLine
