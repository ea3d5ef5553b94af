import ProductLock.Text.Blank

namespace ProductLock.CommandLine.Marks

/-- A part of a line as a screen reads it: text, or a mark in brackets that opens or closes a style.
Without a name the style that was opened last is closed. -/
inductive Part where
  | text (cs : List Char)
  | opening (name : List Char)
  | closing (name : List Char)
deriving DecidableEq, Repr

/-- Names are compared in small letters and without blanks around them. -/
def normal (name : List Char) : List Char :=
  (Text.trimChars name).map Char.toLower

def beginsMark (c : Char) : Bool :=
  c.isLower || c == '#' || c == '/' || c == '@'

/-- What stands between brackets, from the character after the first one on, if it is a mark. -/
def inside? : List Char → Option (List Char)
  | [] => none
  | c :: cs =>
    let rest := cs.takeWhile fun d => d != '[' && d != ']'
    if beginsMark c && (cs.drop rest.length).head? == some ']' then some (c :: rest) else none

/-- What follows an equals sign is a parameter of the style. -/
def mark (inside : List Char) : Part :=
  match inside.takeWhile (· != '=') with
  | '/' :: name => .closing (normal name)
  | name => .opening (normal name)

/-- The parts at the front of a line and the number of their characters, if a mark is there. Two
backslashes before it stand for one; a single one makes it a text. -/
def front? (cs : List Char) : Option (List Part × Nat) :=
  let n := (cs.takeWhile (· == '\\')).length
  let slashes := List.replicate (n / 2) '\\'
  match cs.drop n with
  | '[' :: rest =>
    (inside? rest).map fun inside =>
      (if n % 2 = 0 then [.text slashes, mark inside]
        else [.text (slashes ++ '[' :: inside ++ [']'])], n + inside.length + 2)
  | _ => none

/-- A bracket that begins no mark loses the backslash before it. -/
def unescape : List Char → List Char
  | '\\' :: '[' :: cs => '[' :: unescape cs
  | c :: cs => c :: unescape cs
  | [] => []

/-- The parts of a line, apart from its first characters, which belong to a mark before. The second
argument holds the text since that mark, last character first. -/
def partsFrom : Nat → List Char → List Char → List Part
  | _, held, [] => [.text (unescape held.reverse)]
  | skip + 1, held, _ :: cs => partsFrom skip held cs
  | 0, held, c :: cs =>
    match front? (c :: cs) with
    | some (parts, n) => .text (unescape held.reverse) :: parts ++ partsFrom (n - 1) [] cs
    | none => partsFrom 0 (c :: held) cs

/-- The text of some parts where these styles are open, the last one first. -/
def textOf? : List (List Char) → List Part → Option (List Char)
  | _, [] => some []
  | styles, .text cs :: parts => (textOf? styles parts).map (cs ++ ·)
  | styles, .opening name :: parts => textOf? (name :: styles) parts
  | styles, .closing name :: parts =>
    if name = [] then
      match styles with
      | [] => none
      | _ :: rest => textOf? rest parts
    else if name ∈ styles then textOf? (styles.erase name) parts
    else none

/-- A text without its marks; nothing when a mark closes what is not open. -/
def unmarked? (s : String) : Option String :=
  (textOf? [] (partsFrom 0 [] s.toList)).map String.ofList

/-- Brackets of other kinds are no marks. -/
example : unmarked? "[bold]a\\[b] [1] [B][/]" = some "a[b] [1] [B]" ∧ unmarked? "[/a]" = none := by
  decide

end ProductLock.CommandLine.Marks
