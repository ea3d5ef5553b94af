import ProductLock.Version.Basic

namespace ProductLock.Version

def expect (c : Char) : List Char → Option (List Char)
  | [] => none
  | d :: cs => if d = c then some cs else none

def isHashChar (c : Char) : Bool :=
  c.isDigit || ('a' ≤ c && c ≤ 'f')

def isTagChar (c : Char) : Bool :=
  c.isDigit || c.isLower || c == '-'

def readStage : List Char → Option Stage
  | [] => some .release
  | '-' :: 'r' :: 'c' :: cs =>
    match Numeral.read cs with
    | some (n, []) => some (.rc n)
    | _ => none
  | '-' :: 'b' :: 'e' :: 't' :: 'a' :: cs =>
    match Numeral.read cs with
    | some (n, []) => some (.beta n)
    | _ => none
  | '-' :: cs =>
    match Numeral.read cs with
    | some (n, '-' :: 'g' :: hash) =>
      if hash ≠ [] ∧ hash.all isHashChar then some (.commits n (String.ofList hash)) else none
    | _ => none
  | _ => none

/-- Three numerals, then a stage that takes up the rest. -/
def orderable? (s : String) : Option Orderable := do
  let (major, cs) ← Numeral.read s.toList
  let (minor, cs) ← Numeral.read (← expect '.' cs)
  let (patch, cs) ← Numeral.read (← expect '.' cs)
  return ⟨major, minor, patch, ← readStage cs⟩

def readComponent : List Char → Option (Component × List Char)
  | 'x' :: cs => some (.any, cs)
  | cs => (Numeral.read cs).map fun (n, rest) => (.number n, rest)

/-- Once a component is a wildcard, every later one is. -/
def Matcher.closed (m : Matcher) : Bool :=
  (m.major != .any || m.minor == .any) && (m.minor != .any || m.patch == .any)

def matcher? (s : String) : Option Matcher := do
  let (major, cs) ← readComponent s.toList
  let (minor, cs) ← readComponent (← expect '.' cs)
  let (patch, cs) ← readComponent (← expect '.' cs)
  if cs = [] ∧ Matcher.closed ⟨major, minor, patch⟩ then some ⟨major, minor, patch⟩ else none

def skipDigits (cs : List Char) : Option (List Char) :=
  if cs.takeWhile Char.isDigit = [] then none else some (cs.dropWhile Char.isDigit)

def isDirtyMark (cs : List Char) : Bool :=
  cs == [] || cs == ".dirty".toList

/-- A free tag and a dirty mark, either of which may be missing. -/
def isLooseSuffix : List Char → Bool
  | '-' :: cs => cs.takeWhile isTagChar != [] && isDirtyMark (cs.dropWhile isTagChar)
  | cs => isDirtyMark cs

def isOrderable (s : String) : Bool :=
  (orderable? s).isSome

def isNonOrderable (s : String) : Bool :=
  match (do
    let cs ← skipDigits s.toList
    let cs ← skipDigits (← expect '.' cs)
    skipDigits (← expect '.' cs)) with
  | some cs => isLooseSuffix cs
  | none => false

def isMatcher (s : String) : Bool :=
  (matcher? s).isSome

def isValid (s : String) : Bool :=
  isOrderable s || isNonOrderable s

def isValidOrMatcher (s : String) : Bool :=
  isValid s || isMatcher s

inductive Kind where
  | orderable
  | nonOrderable
  | matcher
  | invalid
deriving DecidableEq, Repr

def Kind.all : List Kind :=
  [.orderable, .nonOrderable, .matcher, .invalid]

def Kind.name : Kind → String
  | .orderable => "orderable"
  | .nonOrderable => "non-orderable"
  | .matcher => "matcher"
  | .invalid => "invalid"

/-- Every kind that applies; a text of no other kind is invalid. -/
def classify (s : String) : List Kind :=
  let kinds := (if isOrderable s then [Kind.orderable] else []) ++
    (if isNonOrderable s then [.nonOrderable] else []) ++ (if isMatcher s then [.matcher] else [])
  if kinds = [] then [.invalid] else kinds

example : orderable? "1.2.3-5-gabc" = some ⟨1, 2, 3, .commits 5 "abc"⟩ := by decide +kernel
example : classify "1.x.x" = [.matcher] ∧ classify "01.0.0.dirty" = [.nonOrderable] := by
  decide +kernel

end ProductLock.Version
