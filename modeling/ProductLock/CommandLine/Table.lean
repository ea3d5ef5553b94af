import ProductLock.CommandLine.Screen

namespace ProductLock.CommandLine.Table

/-- The lines of a cell. -/
abbrev Cell := List (List Char)

abbrev Row := List Cell

/-- A text as a cell. -/
def cell (s : String) : Cell :=
  Text.pieces '\n' (s.toList.filter fun c => !Screen.isControl c)

/-- The strokes of a line across a table: its left end, its filling, its joints, its right end. -/
structure Rule where
  left : Char
  fill : Char
  joint : Char
  right : Char

def top : Rule := ⟨'┏', '━', '┳', '┓'⟩

def belowHeader : Rule := ⟨'┡', '━', '╇', '┩'⟩

def bottom : Rule := ⟨'└', '─', '┴', '┘'⟩

def Rule.draw (r : Rule) (widths : List Nat) : List Char :=
  r.left :: [r.joint].intercalate (widths.map fun w => List.replicate (w + 2) r.fill) ++ [r.right]

def pad (width : Nat) (part : List Char) : List Char :=
  part ++ List.replicate (width - Text.columns part) ' '

def drawLine (bar : Char) (widths : List Nat) (line : List (List Char)) : List Char :=
  let cells := List.zipWith (fun w part => ' ' :: pad w part ++ [' ']) widths line
  bar :: [bar].intercalate cells ++ [bar]

def maximum (ns : List Nat) : Nat :=
  ns.foldl max 0

/-- A row is as high as its highest cell. -/
def drawRow (bar : Char) (widths : List Nat) (row : Row) : List (List Char) :=
  (List.range (maximum (row.map List.length))).map fun (i : Nat) =>
    drawLine bar widths (row.map fun c => c.getD i [])

def columnWidths (rows : List Row) : List Nat :=
  rows.foldl (fun widths row => List.zipWith max widths
      (row.map fun c => maximum (c.map Text.columns)))
    ((rows.headD []).map fun _ => 0)

/-- The lines of a table with a header in heavy strokes. -/
def draw (header : Row) (rows : List Row) : List String :=
  let widths := columnWidths (header :: rows)
  let lines := top.draw widths :: drawRow '┃' widths header ++ belowHeader.draw widths ::
    rows.flatMap (drawRow '│' widths) ++ [bottom.draw widths]
  lines.map String.ofList

end ProductLock.CommandLine.Table
