import ProductLock.Text.Blank
import ProductLock.Text.Columns

namespace ProductLock.CommandLine.Screen

def width : Nat := 80

/-- Characters that would move the cursor or ring a bell; they are left out. -/
def isControl (c : Char) : Bool :=
  let n := c.toNat
  n == 7 || n == 8 || n == 11 || n == 12 || n == 13

/-- Fills up with spaces where a tab stands, to the next multiple of eight columns. -/
def expandTabs : Nat → List Char → List Char
  | _, [] => []
  | column, c :: cs =>
    if c = '\t' then
      let n := 8 - column % 8
      List.replicate n ' ' ++ expandTabs (column + n) cs
    else c :: expandTabs (column + Text.columnsOf c) cs

/-- Blanks at the end of a line are dropped as far as they stand beyond the width of the screen. -/
def dropOverhang (cs : List Char) : List Char :=
  let blanks := (cs.reverse.takeWhile Text.isBlank).length
  let excess := Text.columns cs - width
  cs.take (cs.length - min blanks excess)

def line (cs : List Char) : List Char :=
  dropOverhang (expandTabs 0 cs)

/-- A text as it is printed. -/
def shown (s : String) : String :=
  let lines := Text.pieces '\n' (s.toList.filter fun c => !isControl c)
  String.ofList (['\n'].intercalate (lines.map line))

end ProductLock.CommandLine.Screen
