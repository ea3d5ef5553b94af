namespace ProductLock.Numeral

/-- Reads the whole run of digits in front. Only zero itself may begin with a zero. -/
def read (cs : List Char) : Option (Nat × List Char) :=
  match cs.takeWhile Char.isDigit with
  | [] => none
  | '0' :: _ :: _ => none
  | digits => some (Nat.ofDigitChars 10 digits 0, cs.dropWhile Char.isDigit)

def write (n : Nat) : List Char :=
  Nat.toDigits 10 n

def digitCount (n : Nat) : Nat :=
  (write n).length

/-- Numerals with more digits than this can be recognised but not computed with. -/
def digitLimit : Nat := 4300

def fits (n : Nat) : Bool :=
  digitCount n ≤ digitLimit

/-- What is said of a numeral beyond the limit, with the number of its digits where that is known. -/
def limitMessage (count : Option Nat) : String :=
  "Exceeds the limit (" ++ toString digitLimit ++ " digits) for integer string conversion" ++
    (match count with
      | none => ""
      | some n => ": value has " ++ toString n ++ " digits") ++
    "; use sys.set_int_max_str_digits() to increase the limit"

end ProductLock.Numeral
