import ProductLock.Json.Reader
import ProductLock.Yaml.Cursor
import ProductLock.Yaml.Node

namespace ProductLock.Yaml

open Cursor

/-- A scalar as it is put together from its lines, last code point first. -/
abbrev Held := List Nat

/-- What a break between two lines of a scalar, followed by so many empty lines, stands for. -/
def folded (breaks : Nat) : Held :=
  if breaks = 0 then [32] else List.replicate breaks 10

/-- Moves over the empty lines and the indentation after a break, counting the breaks. Tabs indent
only inside quotes. -/
def skipLines (tabs : Bool) : List Char → Nat → Nat → Nat → Nat × Cursor
  | [], line, column, n => (n, ⟨[], line, column⟩)
  | c :: cs, line, column, n =>
    if isBreak c then skipLines tabs cs (line + 1) 0 (n + 1)
    else if c == ' ' || (tabs && c == '\t') then skipLines tabs cs line (column + 1) n
    else (n, ⟨c :: cs, line, column⟩)

/-- Whether a plain scalar may begin here. A dash, a question mark or a colon begins one only in
front of a character that is no blank, the latter two only outside brackets. -/
def beginsPlain (inFlow : Bool) : List Char → Bool
  | [] => false
  | c :: cs =>
    if c == '-' then !startsBlank cs
    else if c == '?' || c == ':' then !inFlow && !startsBlank cs
    else !(startsBlank [c]) && !(",[]\x7b\x7d#&*!|>'\"%@".toList.contains c) && c.toNat != 96

/-- Whether a plain scalar ends in front of these characters. -/
def endsPlain (inFlow : Bool) : List Char → Bool
  | [] => true
  | c :: cs =>
    startsBlank [c] ||
    (c == ':' && (startsBlank cs || (inFlow && ",[]\x7b\x7d".toList.contains (cs.headD ' ')))) ||
    (inFlow && ",?[]\x7b\x7d".toList.contains c)

/-- The characters of a plain scalar up to the next blank or indicator. -/
def plainRun (inFlow : Bool) : List Char → List Char
  | [] => []
  | c :: cs => if endsPlain inFlow (c :: cs) then [] else c :: plainRun inFlow cs

/-- Reads on in a plain scalar. Its later lines stand no further left than `floor`, unless it is in
brackets. The result ends after the last run, before any blanks. -/
def plainFrom (inFlow : Bool) (floor : Nat) : Nat → Held → Cursor → Held × Cursor
  | 0, held, c => (held, c)
  | fuel + 1, held, c =>
    let run := plainRun inFlow c.rest
    let held := (run.map Char.toNat).reverse ++ held
    let c := c.drop run.length
    let spaced := c.skipSpaces
    match spaced.rest with
    | [] => (held, c)
    | d :: ds =>
      if isBreak d then
        let (breaks, next) := skipLines false ds (c.line + 1) 0 0
        if next.isClosed || (!inFlow && next.column < floor) || endsPlain inFlow next.rest ||
            next.rest.head? == some '#' then (held, c)
        else plainFrom inFlow floor fuel (folded breaks ++ held) next
      else if d == '#' || endsPlain inFlow spaced.rest then (held, c)
      else plainFrom inFlow floor fuel (List.replicate (spaced.column - c.column) 32 ++ held) spaced

def readPlain (inFlow : Bool) (floor : Nat) (c : Cursor) : Node × Cursor :=
  let (held, after) := plainFrom inFlow floor (c.rest.length + 1) [] c
  (.plain (String.ofList (held.reverse.map Char.ofNat)), after)

def shortEscape? (c : Char) : Option Nat :=
  ([('0', 0), ('a', 7), ('b', 8), ('t', 9), ('\t', 9), ('n', 10), ('v', 11), ('f', 12), ('r', 13),
    ('e', 27), (' ', 32), ('"', 34), ('\\', 92), ('/', 47), ('N', 0x85), ('_', 0xA0), ('L', 0x2028),
    ('P', 0x2029)] : List (Char × Nat)).lookup c

def escapeWidth? (c : Char) : Option Nat :=
  ([('x', 2), ('u', 4), ('U', 8)] : List (Char × Nat)).lookup c

def hexNumber? (cs : List Char) : Option Nat :=
  cs.foldlM (fun n c => (Json.hexValue? c).map (n * 16 + ·)) 0

/-- The code point that an escape names and the number of characters after the backslash. -/
def readEscape : List Char → Option (Nat × Nat)
  | [] => none
  | c :: cs =>
    match shortEscape? c, escapeWidth? c with
    | some p, _ => some (p, 1)
    | none, some width =>
      if cs.length < width then none
      else (hexNumber? (cs.take width)).bind fun p =>
        if p < 0x110000 then some (p, width + 1) else none
    | none, none => none

/-- What follows a break inside quotes: the breaks after it, and the first character of the next
line that is no blank. A document mark may not stand there. -/
def nextQuotedLine (cs : List Char) (line : Nat) : Option (Nat × Cursor) :=
  let (breaks, next) := skipLines true cs line 0 0
  let unindented : Cursor := ⟨cs, line, 0⟩
  if unindented.isClosed || next.isClosed then none else some (breaks, next)

def isQuotedBlank (c : Char) : Bool :=
  c == ' ' || c == '\t'

def pointsOf (cs : List Char) : Held :=
  (cs.map Char.toNat).reverse

/-- Reads a quoted scalar up to its closing mark. Blanks around a break are dropped. -/
def quotedFrom (mark : Char) : Nat → Held → Cursor → Option (Held × Cursor)
  | 0, _, _ => none
  | fuel + 1, held, c =>
    match c.rest with
    | [] => none
    | d :: ds =>
      if d == mark then
        if mark == '\'' && ds.head? == some '\'' then quotedFrom mark fuel (39 :: held) (c.drop 2)
        else some (held, c.drop 1)
      else if mark == '"' && d == '\\' then
        match ds with
        | [] => none
        | e :: es =>
          if isBreak e then
            (nextQuotedLine es (c.line + 1)).bind fun (breaks, next) =>
              quotedFrom mark fuel (List.replicate breaks 10 ++ held) next
          else
            (readEscape ds).bind fun (p, n) => quotedFrom mark fuel (p :: held) (c.drop (n + 1))
      else if isQuotedBlank d || isBreak d then
        let blanks := c.rest.takeWhile isQuotedBlank
        let after := c.drop blanks.length
        match after.rest with
        | [] => none
        | e :: es =>
          if isBreak e then
            (nextQuotedLine es (c.line + 1)).bind fun (breaks, next) =>
              quotedFrom mark fuel (folded breaks ++ held) next
          else quotedFrom mark fuel (pointsOf blanks ++ held) after
      else quotedFrom mark fuel (d.toNat :: held) (c.drop 1)

/-- A quoted scalar, from its opening mark on. -/
def readQuoted (mark : Char) (c : Cursor) : Option (Node × Cursor) :=
  (quotedFrom mark (c.rest.length + 1) [] (c.drop 1)).map fun (held, after) =>
    (.quoted held.reverse, after)

end ProductLock.Yaml
