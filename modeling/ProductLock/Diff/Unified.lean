import ProductLock.Diff.Script
import ProductLock.Text.Lines

namespace ProductLock.Diff

/-- A change with what surrounds it, and the number of lines in front of it in each text. -/
structure Hunk where
  oldBefore : Nat
  newBefore : Nat
  edits : List Edit
deriving Repr

def context : Nat := 3

def Hunk.oldSize (h : Hunk) : Nat :=
  (h.edits.flatMap Edit.old).length

def Hunk.newSize (h : Hunk) : Nat :=
  (h.edits.flatMap Edit.new).length

def Hunk.push (h : Hunk) (e : Edit) : Hunk :=
  { h with edits := h.edits ++ [e] }

def lastLines (n : Nat) (ls : List String) : List String :=
  ls.drop (ls.length - n)

/-- The hunk after this one, when `ls` are kept between them. -/
def Hunk.next (h : Hunk) (ls : List String) : Hunk :=
  let skipped := ls.length - context
  ⟨h.oldBefore + h.oldSize + skipped, h.newBefore + h.newSize + skipped,
    [.keep (lastLines context ls)]⟩

/-- Kept lines join two changes in one hunk, unless there are more than the two contexts hold. -/
def hunksFrom (h : Hunk) : List Edit → List Hunk
  | [] => [h]
  | [.keep ls] => [h.push (.keep (ls.take context))]
  | .keep ls :: es =>
    if ls.length > 2 * context then h.push (.keep (ls.take context)) :: hunksFrom (h.next ls) es
    else hunksFrom (h.push (.keep ls)) es
  | e :: es => hunksFrom (h.push e) es

def hunks : List Edit → List Hunk
  | [] => []
  | [.keep _] => []
  | .keep ls :: es => hunksFrom (Hunk.next ⟨0, 0, []⟩ ls) es
  | es => hunksFrom ⟨0, 0, []⟩ es

/-- A range of lines by its first line and its length. A single line needs no length, and an empty
range is named by the line in front of it. -/
def range (before size : Nat) : String :=
  if size = 1 then toString (before + 1)
  else toString (if size = 0 then before else before + 1) ++ "," ++ toString size

def Hunk.header (h : Hunk) : String :=
  "@@ -" ++ range h.oldBefore h.oldSize ++ " +" ++ range h.newBefore h.newSize ++ " @@\n"

def Edit.marked : Edit → List String
  | .keep ls => ls.map (" " ++ ·)
  | .change old new => old.map ("-" ++ ·) ++ new.map ("+" ++ ·)

def Hunk.lines (h : Hunk) : List String :=
  h.header :: h.edits.flatMap Edit.marked

def endLine (line : String) : String :=
  if line.toList.getLast? = some '\n' then line else line ++ "\n"

def dropFinalBreaks (s : String) : String :=
  String.ofList (s.toList.reverse.dropWhile (· == '\n')).reverse

/-- The difference of two texts, without the line break at its end. -/
def unified (old new : String) : String :=
  let edits := script ((Text.lines old).map Text.Line.text) ((Text.lines new).map Text.Line.text)
  dropFinalBreaks (String.join (((hunks edits).flatMap Hunk.lines).map endLine))

end ProductLock.Diff
