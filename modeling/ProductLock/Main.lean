import ProductLock.CommandLine.Run

namespace ProductLock.Main

/-- Some calls report the number of a fault with a minus. -/
def magnitude (n : UInt32) : Nat :=
  n.toInt32.toInt.natAbs

def osNumber : IO.Error → Nat
  | .alreadyExists _ n _ | .otherError n _ | .resourceBusy n _ | .resourceVanished n _
  | .unsupportedOperation n _ | .hardwareFault n _ | .unsatisfiedConstraints n _
  | .illegalOperation n _ | .protocolError n _ | .timeExpired n _ | .interrupted _ n _
  | .noFileOrDirectory _ n _ | .invalidArgument _ n _ | .permissionDenied _ n _
  | .resourceExhausted _ n _ | .inappropriateType _ n _ | .noSuchThing _ n _ => magnitude n
  | .unexpectedEof | .userError _ => 5

def fault (e : IO.Error) : FileFault :=
  .ofNumber (osNumber e)

def attempt (act : IO α) : IO (Except FileFault α) := do
  match ← act.toBaseIO with
  | .ok a => return .ok a
  | .error e => return .error (fault e)

/-- There is nothing at a path that has no name. -/
def read (path : Path) : IO (Except FileFault ByteArray) :=
  if path.isNamable then attempt (IO.FS.readBinFile path.text)
  else return .error .missing

/-- Makes one directory, or finds it there. -/
def makeOrAccept (path : Path) : IO Unit := do
  match ← (IO.FS.createDir path.text).toBaseIO with
  | .ok () => return ()
  | .error e =>
    match ← read path with
    | .error .isDirectory => return ()
    | _ => throw e

/-- Sees to it that there is a directory, given the parts of its path, the last one first. -/
def ensureFrom (slashes : Nat) : List String → IO Unit
  | [] => return ()
  | part :: parents => do
    let path : Path := ⟨slashes, (part :: parents).reverse⟩
    match ← attempt (IO.FS.createDir path.text) with
    | .ok () => return ()
    | .error .missing =>
      ensureFrom slashes parents
      makeOrAccept path
    | .error _ => makeOrAccept path

/-- Writes beside the target and moves the result there. -/
def replace (path : Path) (contents : String) : IO Unit := do
  ensureFrom path.slashes path.parent.parts.reverse
  let name := "." ++ path.name ++ "." ++ toString (← IO.rand 0 (Nat.pow 2 62)) ++ ".tmp"
  let temporary := (path.parent.within ⟨0, [name]⟩).text
  try
    IO.FS.writeFile temporary contents
    IO.FS.rename temporary path.text
  catch e =>
    let _ ← attempt (IO.FS.removeFile temporary)
    throw e

/-- Of a path whose last part has no name the directories are made. -/
def write (path : Path) (contents : String) : IO (Except FileFault Unit) := do
  match Tree.obstacle? path with
  | none => attempt (replace path contents)
  | some obstacle =>
    let made : IO Unit :=
      if obstacle.step = .temporary then ensureFrom path.slashes path.parent.parts.reverse
      else return ()
    match ← attempt made with
    | .ok () => return .error obstacle.fault
    | .error f => return .error f

def enact (shows : Note → Bool) : Action → IO (Except FileFault Unit)
  | .note n =>
    attempt <| if shows n then IO.println (n.level.name ++ " " ++ n.message Cause.text) else return ()
  | .say line => attempt (IO.println line)
  | .write path contents => write path contents
  | .delete path =>
    if path.isNamable then attempt (IO.FS.removeFile path.text) else return .error .unnamable

def enactAll (shows : Note → Bool) : List Action → IO (Except FileFault Unit)
  | [] => return .ok ()
  | a :: as => do
    match ← enact shows a with
    | .ok () => enactAll shows as
    | .error f => return .error f

def conclude (r : CommandLine.Request) (result : Except Failure Unit) : IO UInt32 := do
  match result with
  | .ok () => return r.exit.toUInt32
  | .error f =>
    let (lines, ending) := CommandLine.explain f
    lines.forM fun line => IO.println line
    if ending.unexplained.isSome then
      IO.eprintln ("unexpected failure: " ++ f.message)
    return ending.exit.toUInt32

def run (r : CommandLine.Request) : IO UInt32 := do
  let plan ← r.plan .standard read
  match ← enactAll r.shows plan.actions with
  | .ok () => conclude r plan.result
  | .error f => conclude r (.error (.file f))

end ProductLock.Main

def main (arguments : List String) : IO UInt32 := do
  let environment ← IO.getEnv "PRODUCTDEPS_WRITE_LOCKS"
  match ProductLock.CommandLine.Request.ofArguments arguments environment with
  | some r => ProductLock.Main.run r
  | none =>
    IO.eprintln "see productdeps --help"
    return ProductLock.CommandLine.usageExit.toUInt32
