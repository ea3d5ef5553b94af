namespace ProductLock.Yaml

/-- A place in a text, with what is left from there on. -/
structure Cursor where
  rest : List Char
  line : Nat
  column : Nat
deriving DecidableEq, Repr

def isBreak (c : Char) : Bool :=
  c == '\n' || c == '\r' || c == '\u0085' || c == '\u2028' || c == '\u2029'

/-- Spaces, tabs, breaks and the end of the text set a token off from the next. -/
def startsBlank : List Char → Bool
  | [] => true
  | c :: _ => c == ' ' || c == '\t' || isBreak c

namespace Cursor

def start (cs : List Char) : Cursor :=
  ⟨cs, 0, 0⟩

/-- Moves past some characters of one line. -/
def drop (n : Nat) (c : Cursor) : Cursor :=
  ⟨c.rest.drop n, c.line, c.column + n⟩

def skipSpaces (c : Cursor) : Cursor :=
  c.drop (c.rest.takeWhile (· == ' ')).length

def skipFrom : List Char → Nat → Nat → Bool → Cursor
  | [], line, column, _ => ⟨[], line, column⟩
  | c :: cs, line, column, inComment =>
    if isBreak c then skipFrom cs (line + 1) 0 false
    else if inComment || c == ' ' then skipFrom cs line (column + 1) inComment
    else if c == '#' then skipFrom cs line (column + 1) true
    else ⟨c :: cs, line, column⟩

/-- Moves past spaces, breaks and comments. A tab is not skipped, and begins nothing. -/
def skip (c : Cursor) : Cursor :=
  skipFrom c.rest c.line c.column false

def startsMark (mark cs : List Char) : Bool :=
  mark.isPrefixOf cs && startsBlank (cs.drop mark.length)

def isDocumentStart (c : Cursor) : Bool :=
  c.column == 0 && startsMark ['-', '-', '-'] c.rest

def isDocumentEnd (c : Cursor) : Bool :=
  c.column == 0 && startsMark ['.', '.', '.'] c.rest

/-- No part of a document goes on from here. -/
def isClosed (c : Cursor) : Bool :=
  c.rest.isEmpty || c.isDocumentStart || c.isDocumentEnd

def atDash (c : Cursor) : Bool :=
  startsMark ['-'] c.rest

def atColon (c : Cursor) : Bool :=
  startsMark [':'] c.rest

end Cursor

end ProductLock.Yaml
