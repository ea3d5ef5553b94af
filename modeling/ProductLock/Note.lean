import ProductLock.Advisory
import ProductLock.Failure
import ProductLock.Json.Reader

namespace ProductLock

inductive BlobFault where
  | notText
  | syntaxError (complaint : Json.Complaint) (position : Json.Position)
  | invalid (issues : List Schema.Issue)
deriving DecidableEq

/-- A failure that a note reports and that ends nothing. -/
inductive Cause where
  | blob (fault : BlobFault)
  | file (fault : FileFault)
deriving DecidableEq

def BlobFault.text : BlobFault → String
  | .notText => "not a text"
  | .syntaxError complaint p =>
    complaint.message ++ ": line " ++ toString p.line ++ " column " ++ toString p.column ++
      " (char " ++ toString p.offset ++ ")"
  | .invalid issues => "; ".intercalate (issues.map fun i => i.complaint.message)

def Cause.text : Cause → String
  | .blob fault => fault.text
  | .file fault => fault.message

/-- What is logged along the way. -/
inductive Note where
  | noBlob (source : String)
  | unusableBlob (source : Option String) (fault : BlobFault)
  | recommendation (source : Option String) (dependency : Dependency)
  | unreadableBlob (path : Path) (fault : FileFault)
  | unorderedProduct (product : ProductId) (version : String)
  | wroteManifest (path : Path)
  | created (path : Path) (contents : String)
  | updated (path : Path)
  | deleted (path : Path)
  | advice (advisory : Advisory)
deriving DecidableEq

namespace Note

inductive Level where
  | debug
  | info
  | warning
deriving DecidableEq, Repr

inductive Origin where
  | discovery
  | lockfile
  | manifest
  | command
deriving DecidableEq, Repr

def level : Note → Level
  | .noBlob _ | .unusableBlob _ _ | .wroteManifest _ => .debug
  | .recommendation _ _ | .created _ _ | .updated _ | .deleted _ => .info
  | .unreadableBlob _ _ | .unorderedProduct _ _ | .advice _ => .warning

def origin : Note → Origin
  | .noBlob _ | .unusableBlob _ _ | .recommendation _ _ | .unreadableBlob _ _ => .discovery
  | .created _ _ | .updated _ | .deleted _ => .lockfile
  | .unorderedProduct _ _ | .wroteManifest _ => .manifest
  | .advice _ => .command

def cause : Note → Option Cause
  | .unusableBlob _ fault => some (.blob fault)
  | .unreadableBlob _ fault => some (.file fault)
  | _ => none

def Level.name : Level → String
  | .debug => "DEBUG"
  | .info => "INFO"
  | .warning => "WARNING"

/-- Each line but the first is set in by a tab, and breaks at the end are dropped. -/
def indented (contents : String) : String :=
  let kept := (contents.toList.reverse.dropWhile (· == '\n')).reverse
  String.ofList (kept.flatMap fun c => if c = '\n' then ['\n', '\t'] else [c])

def nameOf (source : Option String) : String :=
  "'" ++ source.getD "None" ++ "'"

/-- The text of a note, given the words for its cause. -/
def message (describe : Cause → String) : Note → String
  | .noBlob source => "No product dependency found for artifact '" ++ source ++ "'"
  | .unusableBlob source fault =>
    "Failed to load product dependencies for artifact " ++ nameOf source ++ ": " ++
      describe (.blob fault)
  | .recommendation source d =>
    "Product dependency recommendation made by artifact " ++ nameOf source ++ ": " ++ d.text
  | .unreadableBlob path fault =>
    "Could not read product dependency blob '" ++ path.text ++ "': " ++ describe (.file fault)
  | .unorderedProduct product version =>
    "Version string of product '" ++ product.text ++ "' is not orderable: " ++ version
  | .wroteManifest path => "Wrote manifest to " ++ path.text
  | .created path contents => "Created " ++ path.text ++ "\n\t" ++ indented contents
  | .updated path => "Updated " ++ path.text
  | .deleted path => "Deleted " ++ path.text
  | .advice advisory => advisory.message

end Note

end ProductLock
