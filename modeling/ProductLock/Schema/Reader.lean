import ProductLock.Schema.Issue
import ProductLock.Value.Basic

namespace ProductLock.Schema

/-- A value read from a document, or everything that is wrong with it. -/
abbrev Checked (α : Type) := Except (List Issue) α

def refuse (c : Complaint) : Checked α :=
  .error [⟨[], c⟩]

/-- Both parts are read, so that all issues come together. -/
def both : Checked α → Checked β → Checked (α × β)
  | .ok a, .ok b => .ok (a, b)
  | .ok _, .error es => .error es
  | .error es, .ok _ => .error es
  | .error es, .error fs => .error (es ++ fs)

def under (s : Segment) : Checked α → Checked α
  | .ok a => .ok a
  | .error es => .error (es.map (Issue.under s))

def readItemsFrom (read : Value → Checked α) : Nat → List Value → Checked (List α)
  | _, [] => .ok []
  | i, v :: vs =>
    (both (under (.index i) (read v)) (readItemsFrom read (i + 1) vs)).map fun (a, as) => a :: as

def readList (read : Value → Checked α) : Value → Checked (List α)
  | .list vs => readItemsFrom read 0 vs
  | _ => refuse .notList

/-- Bytes are a text if they are one in UTF-8. -/
def readText : Value → Checked String
  | .text s => .ok s
  | .points _ => refuse .notUnicode
  | .bytes bs =>
    match String.fromUTF8? ⟨bs.toArray⟩ with
    | some s => .ok s
    | none => refuse .notUnicode
  | _ => refuse .notString

def readSomeText (v : Value) : Checked String := do
  let s ← readText v
  if s = "" then refuse .tooShort else return s

/-- Only null stands for no text. -/
def readTextOrNull : Value → Checked (Option String)
  | .null => .ok none
  | v => some <$> readText v

def boolWords : List (String × Bool) :=
  [("0", false), ("off", false), ("f", false), ("false", false), ("n", false), ("no", false),
    ("1", true), ("on", true), ("t", true), ("true", true), ("y", true), ("yes", true)]

def boolOfWord? (s : String) : Option Bool :=
  (boolWords.find? fun w => w.1 == s.map Char.toLower).map Prod.snd

def fitsWord (i : Int) : Bool :=
  -Int.ofNat (Nat.pow 2 63) ≤ i && i < Int.ofNat (Nat.pow 2 63)

def boolOfInt (i : Int) : Checked Bool :=
  if i = 0 then .ok false
  else if i = 1 then .ok true
  else if fitsWord i then refuse .unclearBool
  else refuse .notBool

def boolOfText (s : String) : Checked Bool :=
  match boolOfWord? s with
  | some b => .ok b
  | none => refuse .unclearBool

def readBool : Value → Checked Bool
  | .bool b => .ok b
  | .int i => boolOfInt i
  | .double x =>
    match x.toInt? with
    | some i => boolOfInt i
    | none => refuse .notBool
  | .text s => boolOfText s
  | .points _ => refuse .notUnicode
  | .bytes bs =>
    match String.fromUTF8? ⟨bs.toArray⟩ with
    | some s => boolOfText s
    | none => refuse .unclearBool
  | _ => refuse .notBool

/-- A text that passes a further check. -/
def checkText (reason? : String → Option Reason) (s : String) : Checked String :=
  match reason? s with
  | none => .ok s
  | some reason => refuse (.refused reason)

abbrev Entries := List (Value × Value)

/-- A field is looked for under its own name first and then under its other name. -/
def find (name other : String) (entries : Entries) : Option Value :=
  (Value.lookup name entries).or (Value.lookup other entries)

def required (name other : String) (read : Value → Checked α) (entries : Entries) : Checked α :=
  under (.key name) <| match find name other entries with
    | none => refuse .missing
    | some v => read v

def defaulted (name other : String) (default : α) (read : Value → Checked α) (entries : Entries) :
    Checked α :=
  match find name other entries with
  | none => .ok default
  | some v => under (.key name) (read v)

end ProductLock.Schema
