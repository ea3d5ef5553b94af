import ProductLock.Failure
import ProductLock.Value.Basic
import ProductLock.Json.Reader

namespace ProductLock.Yaml.Plain

def nulls : List String :=
  ["", "~", "null", "Null", "NULL"]

def trues : List String :=
  ["yes", "Yes", "YES", "true", "True", "TRUE", "on", "On", "ON"]

def falses : List String :=
  ["no", "No", "NO", "false", "False", "FALSE", "off", "Off", "OFF"]

def infinities : List String :=
  [".inf", ".Inf", ".INF"]

def nans : List String :=
  [".nan", ".NaN", ".NAN"]

/-- Whether a sign was written, whether it was a minus, and what follows it. -/
def splitSign : List Char → Bool × Bool × List Char
  | '-' :: cs => (true, true, cs)
  | '+' :: cs => (true, false, cs)
  | cs => (false, false, cs)

def isSpacedDigit (c : Char) : Bool :=
  c.isDigit || c == '_'

/-- A digit, then digits and underscores. -/
def isSpacedNumeral : List Char → Bool
  | [] => false
  | c :: cs => c.isDigit && cs.all isSpacedDigit

def dropUnderscores (cs : List Char) : List Char :=
  cs.filter (· != '_')

/-- A number below sixty, in one or two digits. -/
def isSixtieth : List Char → Bool
  | [a] => a.isDigit
  | [a, b] => a.isDigit && a ≤ '5' && b.isDigit
  | _ => false

def decimal (cs : List Char) : Except Failure Nat :=
  let digits := dropUnderscores cs
  if digits.length > Numeral.digitLimit then .error (.digits (some digits.length))
  else .ok (Nat.ofDigitChars 10 digits 0)

def inBase (base : Nat) (cs : List Char) : Except Failure Nat :=
  match dropUnderscores cs with
  | [] => .error (.scalar (.noDigits base))
  | digits => .ok (digits.foldl (fun n c => n * base + (Json.hexValue? c).getD 0) 0)

def sexagesimal (parts : List (List Char)) : Except Failure Nat :=
  parts.foldlM (fun n part => (decimal part).map (n * 60 + ·)) 0

def isIn (digits : String) (cs : List Char) : Bool :=
  cs != [] && cs.all fun c => c == '_' || digits.toList.contains c

/-- The whole number that the characters after a sign stand for, if they have the form of one. -/
def readWhole? (cs : List Char) : Option (Except Failure Nat) :=
  match cs with
  | ['0'] => some (.ok 0)
  | '0' :: 'b' :: ds => if isIn "01" ds then some (inBase 2 ds) else none
  | '0' :: 'x' :: ds => if isIn "0123456789abcdefABCDEF" ds then some (inBase 16 ds) else none
  | '0' :: ds => if isIn "01234567" ds then some (inBase 8 ('0' :: ds)) else none
  | _ =>
    match Text.pieces ':' cs with
    | [] => none
    | first :: rest =>
      if isSpacedNumeral first && rest.all isSixtieth then some (sexagesimal (first :: rest))
      else none

def readInt? (cs : List Char) : Option (Except Failure Value) :=
  let (_, negative, cs) := splitSign cs
  (readWhole? cs).map fun r => r.map fun n => .int (if negative then -n else n)

/-- The exponent part of a number with a point: nothing, or a letter, a sign and digits. -/
def readExponent? : List Char → Option Int
  | [] => some 0
  | c :: '-' :: ds => if (c == 'e' || c == 'E') && ds != [] && ds.all Char.isDigit then
      some (-(Nat.ofDigitChars 10 ds 0 : Int)) else none
  | c :: '+' :: ds => if (c == 'e' || c == 'E') && ds != [] && ds.all Char.isDigit then
      some (Nat.ofDigitChars 10 ds 0) else none
  | _ => none

/-- The digits in front of the point in base sixty, those after it in base ten. -/
def sixtieths (parts : List (List Char)) : Nat :=
  parts.foldl (fun n part => n * 60 + Nat.ofDigitChars 10 (dropUnderscores part) 0) 0

/-- A number with a point. Only without a sign may it begin with the point, and only without an
exponent may it have parts of sixty. -/
def readPointed? (cs : List Char) : Option Double :=
  let (signed, negative, cs) := splitSign cs
  let whole := cs.takeWhile (· != '.')
  match cs.drop whole.length with
  | [] => none
  | _ :: rest =>
    let places := dropUnderscores (rest.takeWhile isSpacedDigit)
    let number (exponent : Int) :=
      let front := sixtieths (Text.pieces ':' whole)
      Double.ofDecimal negative
        (front * Nat.pow 10 places.length + Nat.ofDigitChars 10 places 0) (exponent - places.length)
    match readExponent? (rest.dropWhile isSpacedDigit) with
    | none => none
    | some exponent =>
      if whole = [] then
        if !signed && isSpacedNumeral (rest.takeWhile isSpacedDigit) then some (number exponent)
        else none
      else
        match Text.pieces ':' whole with
        | [] => none
        | first :: more =>
          if isSpacedNumeral first && more.all isSixtieth &&
              (more = [] || rest.dropWhile isSpacedDigit = []) then some (number exponent)
          else none

def readDouble? (cs : List Char) : Option Double :=
  let (_, negative, unsigned) := splitSign cs
  if infinities.contains (String.ofList unsigned) then some (.infinite negative)
  else if nans.contains (String.ofList cs) then some .nan
  else readPointed? cs

/-- What is wrong with a day, if it is in no calendar. -/
def dayFault? (y m d : Nat) : Option ScalarFault :=
  if y = 0 then some (.year y)
  else if m = 0 ∨ 12 < m then some .month
  else if d = 0 ∨ Calendar.monthLength y m < d then some .day
  else none

/-- What is wrong with a time of a day. -/
def timeFault? (hour minute second : Nat) : Option ScalarFault :=
  if 23 < hour then some .hour
  else if 59 < minute then some .minute
  else if 59 < second then some .second
  else none

def unlessFault (fault : Option ScalarFault) (v : Value) : Except Failure Value :=
  match fault with
  | some fault => .error (.scalar fault)
  | none => .ok v

def number (digits : List Char) : Nat :=
  Nat.ofDigitChars 10 digits 0

/-- Whether there are this many digits and nothing else. -/
def areDigits (fewest most : Nat) (cs : List Char) : Bool :=
  fewest ≤ cs.length && cs.length ≤ most && cs.all Char.isDigit

/-- A date as four, two and two digits. -/
def readDate? (cs : List Char) : Option (Except Failure Value) :=
  match Text.pieces '-' cs with
  | [y, m, d] =>
    if areDigits 4 4 y && areDigits 2 2 m && areDigits 2 2 d then
      some (unlessFault (dayFault? (number y) (number m) (number d))
        (.date (number y) (number m) (number d)))
    else none
  | _ => none

/-- How far clocks are ahead, in minutes: nothing where it is not written, a letter for nought, or a
sign with hours and perhaps minutes. -/
def readOffset? (cs : List Char) : Option (Option Int) :=
  let minutes? (ds : List Char) : Option Nat :=
    match Text.pieces ':' ds with
    | [hours] => if areDigits 1 2 hours then some (number hours * 60) else none
    | [hours, minutes] =>
      if areDigits 1 2 hours && areDigits 2 2 minutes then
        some (number hours * 60 + number minutes)
      else none
    | _ => none
  match cs with
  | [] => some none
  | ['Z'] => some (some 0)
  | '+' :: ds => (minutes? ds).map fun (n : Nat) => some (n : Int)
  | '-' :: ds => (minutes? ds).map fun (n : Nat) => some (-n : Int)
  | _ => none

/-- Of the digits after a point six count. -/
def microsecondsOf (digits : List Char) : Nat :=
  let kept := digits.take 6
  number (kept ++ List.replicate (6 - kept.length) '0')

def isSpacing (c : Char) : Bool :=
  c == ' ' || c == '\t'

/-- What stands between the day and the time: one letter, or blanks. -/
def afterDay? : List Char → Option (List Char)
  | 'T' :: cs | 't' :: cs => some cs
  | c :: cs => if isSpacing c then some (cs.dropWhile isSpacing) else none
  | [] => none

/-- The fraction of a second, and what follows it. -/
def splitFraction : List Char → List Char × List Char
  | '.' :: cs => (cs.takeWhile Char.isDigit, cs.dropWhile Char.isDigit)
  | cs => ([], cs)

/-- A day with a time, and perhaps with the offset of its clocks. -/
def readMoment? (cs : List Char) : Option (Except Failure Value) := do
  let isDayPart (c : Char) : Bool := c.isDigit || c == '-'
  let time ← afterDay? (cs.dropWhile isDayPart)
  match Text.pieces '-' (cs.takeWhile isDayPart),
      Text.pieces ':' (time.takeWhile fun c => c.isDigit || c == ':') with
  | [y, m, d], [hour, minute, second] =>
    let (fraction, rest) := splitFraction (time.dropWhile fun c => c.isDigit || c == ':')
    let offset ← readOffset? (rest.dropWhile isSpacing)
    if areDigits 4 4 y && areDigits 1 2 m && areDigits 1 2 d && areDigits 1 2 hour &&
        areDigits 2 2 minute && areDigits 2 2 second && (offset.isSome || rest = []) then
      let moment : Moment := ⟨number y, number m, number d, number hour, number minute,
        number second, microsecondsOf fraction, offset⟩
      let fault :=
        if 1440 ≤ (offset.getD 0).natAbs then some .offset
        else (dayFault? moment.year moment.month moment.day).or
          (timeFault? moment.hour moment.minute moment.second)
      some (unlessFault fault (.moment moment))
    else none
  | _, _ => none

/-- The value of a plain scalar: what has no other form is a text. -/
def resolve (s : String) : Except Failure Value :=
  if nulls.contains s then .ok .null
  else if trues.contains s then .ok (.bool true)
  else if falses.contains s then .ok (.bool false)
  else
    match readDouble? s.toList with
    | some x => .ok (.double x)
    | none =>
      match ((readInt? s.toList).or (readDate? s.toList)).or (readMoment? s.toList) with
      | some r => r
      | none => .ok (.text s)

end ProductLock.Yaml.Plain
