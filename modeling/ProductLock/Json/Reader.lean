import ProductLock.Value.Basic

namespace ProductLock.Json

inductive Complaint where
  | value
  | propertyName
  | colon
  | comma
  | extra
  | unterminated
  | control
  | badEscape
  | badUnicodeEscape
  | byteOrderMark
deriving DecidableEq, Repr

def Complaint.message : Complaint → String
  | .value => "Expecting value"
  | .propertyName => "Expecting property name enclosed in double quotes"
  | .colon => "Expecting ':' delimiter"
  | .comma => "Expecting ',' delimiter"
  | .extra => "Extra data"
  | .unterminated => "Unterminated string starting at"
  | .control => "Invalid control character at"
  | .badEscape => "Invalid \\escape"
  | .badUnicodeEscape => "Invalid \\uXXXX escape"
  | .byteOrderMark => "Unexpected UTF-8 BOM (decode using utf-8-sig)"

/-- Why reading stopped: a complaint with what was left of the text where it arose, or an integer
with too many digits. -/
inductive Stop where
  | syntaxError (complaint : Complaint) (rest : List Char)
  | digits (count : Nat)
deriving DecidableEq, Repr

abbrev Reading (α : Type) := Except Stop (α × List Char)

def isSpace (c : Char) : Bool :=
  c == ' ' || c == '\t' || c == '\n' || c == '\r'

def skipSpace (cs : List Char) : List Char :=
  cs.dropWhile isSpace

def hexValue? (c : Char) : Option Nat :=
  if c.isDigit then some (c.toNat - '0'.toNat)
  else if 'a' ≤ c ∧ c ≤ 'f' then some (c.toNat - 'a'.toNat + 10)
  else if 'A' ≤ c ∧ c ≤ 'F' then some (c.toNat - 'A'.toNat + 10)
  else none

/-- Four hexadecimal digits that are not the end of the text. -/
def readUnit : List Char → Option (Nat × List Char)
  | a :: b :: c :: d :: e :: rest => do
    let n := (((← hexValue? a) * 16 + (← hexValue? b)) * 16 + (← hexValue? c)) * 16 + (← hexValue? d)
    return (n, e :: rest)
  | _ => none

def isHighSurrogate (n : Nat) : Bool :=
  0xD800 ≤ n && n ≤ 0xDBFF

def isLowSurrogate (n : Nat) : Bool :=
  0xDC00 ≤ n && n ≤ 0xDFFF

def joinSurrogates (high low : Nat) : Nat :=
  0x10000 + (high - 0xD800) * 0x400 + (low - 0xDC00)

/-- The escape after a backslash and the letter `u`. A high surrogate takes the low one that an
escape right after it gives. -/
def readUnicodeEscape (cs : List Char) : Reading Nat :=
  match readUnit cs with
  | none => .error (.syntaxError .badUnicodeEscape ('u' :: cs))
  | some (high, rest) =>
    match rest with
    | '\\' :: 'u' :: more =>
      if isHighSurrogate high ∧ more.length > 4 then
        match readUnit more with
        | none => .error (.syntaxError .badUnicodeEscape ('u' :: more))
        | some (low, after) =>
          if isLowSurrogate low then .ok (joinSurrogates high low, after) else .ok (high, rest)
      else .ok (high, rest)
    | _ => .ok (high, rest)

def shortEscape? : Char → Option Nat
  | '"' => some 34
  | '\\' => some 92
  | '/' => some 47
  | 'b' => some 8
  | 'f' => some 12
  | 'n' => some 10
  | 'r' => some 13
  | 't' => some 9
  | _ => none

/-- The code points up to the closing quote. `opening` is the text from the opening quote on, and
`held` the points read so far, last one first. -/
def readPoints (opening : List Char) : Nat → List Char → List Nat → Reading (List Nat)
  | 0, _, _ => .error (.syntaxError .unterminated opening)
  | _ + 1, [], _ => .error (.syntaxError .unterminated opening)
  | _ + 1, '"' :: cs, held => .ok (held.reverse, cs)
  | _ + 1, ['\\'], _ => .error (.syntaxError .unterminated opening)
  | fuel + 1, '\\' :: 'u' :: cs, held =>
    match readUnicodeEscape cs with
    | .error stop => .error stop
    | .ok (p, rest) => readPoints opening fuel rest (p :: held)
  | fuel + 1, '\\' :: c :: cs, held =>
    match shortEscape? c with
    | none => .error (.syntaxError .badEscape ('\\' :: c :: cs))
    | some p => readPoints opening fuel cs (p :: held)
  | fuel + 1, c :: cs, held =>
    if c.toNat < 32 then .error (.syntaxError .control (c :: cs))
    else readPoints opening fuel cs (c.toNat :: held)

/-- A string, given the text after its opening quote. -/
def readString (fuel : Nat) (cs : List Char) : Reading Value :=
  match readPoints ('"' :: cs) fuel cs [] with
  | .error stop => .error stop
  | .ok (ps, rest) => .ok (Value.ofPoints ps, rest)

def takeDigits (cs : List Char) : List Char × List Char :=
  cs.span Char.isDigit

/-- The digits after a point; a point without any is left over. -/
def readFraction : List Char → Option (List Char) × List Char
  | '.' :: cs =>
    let (digits, rest) := takeDigits cs
    if digits = [] then (none, '.' :: cs) else (some digits, rest)
  | cs => (none, cs)

def readExponentSign : List Char → Bool × List Char
  | '-' :: cs => (true, cs)
  | '+' :: cs => (false, cs)
  | cs => (false, cs)

/-- The power of ten after an `e`; without digits it is left over. -/
def readExponent (cs : List Char) : Option Int × List Char :=
  match cs with
  | c :: rest =>
    if c = 'e' ∨ c = 'E' then
      let (negative, afterSign) := readExponentSign rest
      let (digits, after) := takeDigits afterSign
      if digits = [] then (none, cs)
      else
        let n : Int := Nat.ofDigitChars 10 digits 0
        (some (if negative then -n else n), after)
    else (none, cs)
  | [] => (none, cs)

/-- What follows the sign of a number. -/
def readNumeral (negative : Bool) (start cs : List Char) : Reading Value :=
  let whole :=
    match cs with
    | '0' :: rest => (['0'], rest)
    | _ => takeDigits cs
  if whole.1 = [] then .error (.syntaxError .value start)
  else
    let (fraction, rest) := readFraction whole.2
    let (exponent, rest) := readExponent rest
    match fraction, exponent with
    | none, none =>
      if whole.1.length > Numeral.digitLimit then .error (.digits whole.1.length)
      else
        let n : Int := Nat.ofDigitChars 10 whole.1 0
        .ok (.int (if negative then -n else n), rest)
    | _, _ =>
      let decimals := fraction.getD []
      let digits := Nat.ofDigitChars 10 (whole.1 ++ decimals) 0
      .ok (.double (Double.ofDecimal negative digits (exponent.getD 0 - decimals.length)), rest)

/-- Takes a word off the front of a text. -/
def dropWord? (word : String) (cs : List Char) : Option (List Char) :=
  if word.toList.isPrefixOf cs then some (cs.drop word.length) else none

def literals : List (String × Value) :=
  [("null", .null), ("true", .bool true), ("false", .bool false), ("NaN", .double .nan),
    ("Infinity", .double (.infinite false)), ("-Infinity", .double (.infinite true))]

def readScalar (cs : List Char) : Reading Value :=
  match literals.findSome? fun (word, v) => (dropWord? word cs).map fun rest => (v, rest) with
  | some result => .ok result
  | none =>
    match cs with
    | '-' :: rest => readNumeral true cs rest
    | _ => readNumeral false cs cs

mutual

/-- The first argument bounds the characters of a string, and the nesting and the number of items
together; twice the length of the text is enough. -/
def readValue : Nat → List Char → Reading Value
  | 0, cs => .error (.syntaxError .value cs)
  | fuel + 1, cs =>
    match cs with
    | '"' :: rest => readString fuel rest
    | '[' :: rest =>
      match skipSpace rest with
      | ']' :: after => .ok (.list [], after)
      | items => readItems fuel items []
    | '\x7b' :: rest =>
      match skipSpace rest with
      | '\x7d' :: after => .ok (.map [], after)
      | members => readMembers fuel members []
    | _ => readScalar cs

/-- The items of a list up to its closing bracket; `held` are those before, last one first. -/
def readItems : Nat → List Char → List Value → Reading Value
  | 0, cs, _ => .error (.syntaxError .value cs)
  | fuel + 1, cs, held =>
    match readValue fuel cs with
    | .error stop => .error stop
    | .ok (v, rest) =>
      match skipSpace rest with
      | ']' :: after => .ok (.list (v :: held).reverse, after)
      | ',' :: after => readItems fuel (skipSpace after) (v :: held)
      | other => .error (.syntaxError .comma other)

/-- The members of an object up to its closing brace. Of two members with one name the last wins. -/
def readMembers : Nat → List Char → List (Value × Value) → Reading Value
  | 0, cs, _ => .error (.syntaxError .propertyName cs)
  | fuel + 1, cs, held =>
    match cs with
    | '"' :: rest =>
      match readString fuel rest with
      | .error stop => .error stop
      | .ok (key, rest) =>
        match skipSpace rest with
        | ':' :: rest =>
          match readValue fuel (skipSpace rest) with
          | .error stop => .error stop
          | .ok (v, rest) =>
            match skipSpace rest with
            | '\x7d' :: after => .ok (.map (Value.put key v held), after)
            | ',' :: after => readMembers fuel (skipSpace after) (Value.put key v held)
            | other => .error (.syntaxError .comma other)
        | other => .error (.syntaxError .colon other)
    | other => .error (.syntaxError .propertyName other)

end

def readDocument (cs : List Char) : Except Stop Value :=
  match cs with
  | '\uFEFF' :: _ => .error (.syntaxError .byteOrderMark cs)
  | _ =>
    match readValue (2 * cs.length + 2) (skipSpace cs) with
    | .error stop => .error stop
    | .ok (v, rest) =>
      match skipSpace rest with
      | [] => .ok v
      | other => .error (.syntaxError .extra other)

def parse (s : String) : Except Stop Value :=
  readDocument s.toList

/-- A place in a text: the characters before it, its line from one, its column from one. -/
structure Position where
  offset : Nat
  line : Nat
  column : Nat
deriving DecidableEq, Repr

/-- The place where only `rest` is left of the text. -/
def position (s : String) (rest : List Char) : Position :=
  let offset := s.toList.length - rest.length
  let before := s.toList.take offset
  ⟨offset, before.count '\n' + 1, (before.reverse.takeWhile (· != '\n')).length + 1⟩

end ProductLock.Json
