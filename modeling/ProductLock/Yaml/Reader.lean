import ProductLock.Yaml.Scalar

namespace ProductLock.Yaml

open Cursor

/-- A key and its colon stand on one line, no further apart than this. -/
def keyLimit : Nat := 1024

def isKeyOf (key colon : Cursor) : Bool :=
  colon.line == key.line && colon.column ≤ key.column + keyLimit

mutual

/-- A node that stands on its own: a scalar, or a collection in brackets. Later lines of a plain
scalar stand no further left than `floor`. -/
def readInline : Nat → Bool → Nat → Cursor → Option (Node × Cursor)
  | 0, _, _, _ => none
  | fuel + 1, inFlow, floor, c =>
    match c.rest with
    | '[' :: _ => readFlowItems fuel (c.drop 1).skip []
    | '\x7b' :: _ => readFlowEntries fuel (c.drop 1).skip []
    | '"' :: _ => readQuoted '"' c
    | '\'' :: _ => readQuoted '\'' c
    | _ => if beginsPlain inFlow c.rest then some (readPlain inFlow floor c) else none

/-- The node after a colon inside brackets, which may be missing. -/
def readFlowValue : Nat → Cursor → Option (Node × Cursor)
  | 0, _ => none
  | fuel + 1, c =>
    match c.rest with
    | ',' :: _ | ']' :: _ | '\x7d' :: _ => some (.empty, c)
    | _ => if c.isClosed then none else readInline fuel true 0 c

/-- The items of a bracketed list, the last one read first. A pair among them is a map of its
own. -/
def readFlowItems : Nat → Cursor → List Node → Option (Node × Cursor)
  | 0, _, _ => none
  | fuel + 1, c, held =>
    if c.isClosed then none
    else if c.rest.head? == some ']' then some (.list held.reverse, c.drop 1)
    else
      match readInline fuel true 0 c with
      | none => none
      | some (node, after) =>
        let next := after.skip
        let item :=
          if next.rest.head? == some ':' && isKeyOf c next then
            (readFlowValue fuel (next.drop 1).skip).map fun (v, after) =>
              (Node.map [(node, v)], after.skip)
          else some (node, next)
        match item with
        | none => none
        | some (item, next) =>
          match next.rest with
          | ',' :: _ => readFlowItems fuel (next.drop 1).skip (item :: held)
          | ']' :: _ => some (.list (item :: held).reverse, next.drop 1)
          | _ => none

def readFlowEntries : Nat → Cursor → List (Node × Node) → Option (Node × Cursor)
  | 0, _, _ => none
  | fuel + 1, c, held =>
    if c.isClosed then none
    else if c.rest.head? == some '\x7d' then some (.map held.reverse, c.drop 1)
    else
      match readInline fuel true 0 c with
      | none => none
      | some (key, after) =>
        let next := after.skip
        let value :=
          if next.rest.head? == some ':' && isKeyOf c next then
            (readFlowValue fuel (next.drop 1).skip).map fun (v, after) => (v, after.skip)
          else some (.empty, next)
        match value with
        | none => none
        | some (value, next) =>
          match next.rest with
          | ',' :: _ => readFlowEntries fuel (next.drop 1).skip ((key, value) :: held)
          | '\x7d' :: _ => some (.map ((key, value) :: held).reverse, next.drop 1)
          | _ => none

end

/-- What follows the colon after a key. -/
def colonAfter (key after : Cursor) : Option Cursor :=
  let next := after.skipSpaces
  if next.atColon && isKeyOf key next then some (next.drop 1) else none

mutual

/-- A node of the block form, from its first character on. A list or a map may begin here only at
the start of a line or after a dash. -/
def readBlock : Nat → Bool → Nat → Cursor → Option (Node × Cursor)
  | 0, _, _, _ => none
  | fuel + 1, mayOpen, floor, c =>
    if c.atDash then
      if mayOpen then readItems fuel c.column c [] else none
    else
      match readInline (c.rest.length + 1) false floor c with
      | none => none
      | some (node, after) =>
        if (colonAfter c after).isSome then
          if mayOpen then readEntries fuel c.column c [] else none
        else some (node, after)

/-- The items of a list whose dashes stand in one column. -/
def readItems : Nat → Nat → Cursor → List Node → Option (Node × Cursor)
  | 0, _, _, _ => none
  | fuel + 1, column, c, held =>
    let inner := (c.drop 1).skip
    let item :=
      if inner.line != c.line && (inner.isClosed || inner.column ≤ column) || inner.rest.isEmpty then
        some (.empty, inner)
      else readBlock fuel true (column + 1) inner
    match item with
    | none => none
    | some (item, after) =>
      let next := after.skip
      if next.isClosed || next.column < column || (next.column == column && !next.atDash) then
        some (.list (item :: held).reverse, next)
      else if next.column == column then readItems fuel column next (item :: held)
      else none

/-- The entries of a map whose keys stand in one column. A list may be the value of a key of its own
column. -/
def readEntries : Nat → Nat → Cursor → List (Node × Node) → Option (Node × Cursor)
  | 0, _, _, _ => none
  | fuel + 1, column, c, held =>
    match readInline (c.rest.length + 1) false (column + 1) c with
    | none => none
    | some (key, after) =>
      match colonAfter c after with
      | none => none
      | some colon =>
        let inner := colon.skip
        let value :=
          if inner.rest.isEmpty then some (.empty, inner)
          else if inner.line == c.line then readBlock fuel false (column + 1) inner
          else if inner.isClosed || inner.column < column then some (.empty, inner)
          else if inner.column == column then
            if inner.atDash then readItems fuel column inner [] else some (.empty, inner)
          else readBlock fuel true (column + 1) inner
        match value with
        | none => none
        | some (value, after) =>
          let next := after.skip
          if next.isClosed || next.column < column then
            some (.map ((key, value) :: held).reverse, next)
          else if next.column == column && !next.atDash then
            readEntries fuel column next ((key, value) :: held)
          else none

end

/-- Marks that end a document, with nothing but blanks between them. -/
def skipEnds : Nat → Cursor → Cursor
  | 0, c => c
  | fuel + 1, c =>
    if c.isDocumentEnd then skipEnds fuel (c.drop 3).skip else c

def isAllowed (c : Char) : Bool :=
  let n := c.toNat
  n == 9 || n == 10 || n == 13 || (32 ≤ n && n ≤ 126) || n == 0x85 ||
    (0xA0 ≤ n && n ≠ 0xFFFE && n ≠ 0xFFFF)

def dropByteOrderMark : List Char → List Char
  | '\uFEFF' :: cs => cs
  | cs => cs

/-- The only document of a text: nothing where it holds no document, no result where it is not well
formed or holds more than one. -/
def readText (s : String) : Option (Option Node) :=
  let cs := dropByteOrderMark s.toList
  let first := (start cs).skip
  let fuel := 2 * cs.length + 4
  if ¬ cs.all isAllowed then none
  else if first.rest.isEmpty then some none
  else
    let explicit := first.isDocumentStart
    let begin := if explicit then (first.drop 3).skip else first
    let node :=
      if begin.isClosed then (if explicit then some (.empty, begin) else none)
      else readBlock fuel (!explicit || begin.line != first.line) 0 begin
    match node with
    | none => none
    | some (node, after) =>
      let final := skipEnds fuel after.skip
      if final.rest.isEmpty then some (some node) else none

end ProductLock.Yaml
