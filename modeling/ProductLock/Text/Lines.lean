import ProductLock.Text.Blank

namespace ProductLock.Text

def isLineBreak (c : Char) : Bool :=
  let n := c.toNat
  (10 ≤ n && n ≤ 13) || (28 ≤ n && n ≤ 30) || n == 0x85 || n == 0x2028 || n == 0x2029

/-- A line and the break that ended it, which only the last line of a text may lack. -/
structure Line where
  body : String
  ending : String
deriving DecidableEq, Repr

def Line.text (line : Line) : String :=
  line.body ++ line.ending

/-- A carriage return and the line feed after it are one break. The second argument holds the
characters of the current line, last one first. -/
def linesFrom : List Char → List Char → List Line
  | [], [] => []
  | [], c :: held => [⟨String.ofList (c :: held).reverse, ""⟩]
  | '\r' :: '\n' :: cs, held => ⟨String.ofList held.reverse, "\r\n"⟩ :: linesFrom cs []
  | c :: cs, held =>
    if isLineBreak c then ⟨String.ofList held.reverse, String.singleton c⟩ :: linesFrom cs []
    else linesFrom cs (c :: held)

def lines (s : String) : List Line :=
  linesFrom s.toList []

/-- Reading a file as text turns every carriage return, with or without a line feed, into a line
feed. -/
def unifyBreaks : List Char → List Char
  | [] => []
  | '\r' :: '\n' :: cs => '\n' :: unifyBreaks cs
  | c :: cs => (if c = '\r' then '\n' else c) :: unifyBreaks cs

theorem isBlank_of_isLineBreak {c : Char} (h : isLineBreak c = true) : isBlank c = true := by
  simp only [isLineBreak, isBlank, Bool.or_eq_true, Bool.and_eq_true, beq_iff_eq,
    decide_eq_true_eq] at h ⊢
  omega

end ProductLock.Text
