import ProductLock.Double.Text
import ProductLock.Failure
import ProductLock.Value.Basic

namespace ProductLock.Json

/-- Two forms of a document: on one line, or with each item on a line of its own, two columns
further in; and whether characters beyond ASCII are escaped. -/
structure Style where
  spread : Bool
  escapeAll : Bool

def Style.line : Style := ⟨false, true⟩

def Style.page : Style := ⟨true, true⟩

def doubleWords : Double.Words := ⟨"Infinity", "NaN"⟩

def hexDigits4 (n : Nat) : List Char :=
  Text.hexDigits 4 n

/-- The escapes of a code point: two when it needs a pair of surrogates. -/
def escapePoint (n : Nat) : List Char :=
  if n < 0x10000 then '\\' :: 'u' :: hexDigits4 n
  else
    let high := 0xD800 + (n - 0x10000) / 0x400
    let low := 0xDC00 + (n - 0x10000) % 0x400
    '\\' :: 'u' :: hexDigits4 high ++ '\\' :: 'u' :: hexDigits4 low

def writePoint (style : Style) (n : Nat) : List Char :=
  if n = 34 then ['\\', '"']
  else if n = 92 then ['\\', '\\']
  else if n = 10 then ['\\', 'n']
  else if n = 13 then ['\\', 'r']
  else if n = 9 then ['\\', 't']
  else if n = 12 then ['\\', 'f']
  else if n = 8 then ['\\', 'b']
  else if n < 32 ∨ (style.escapeAll ∧ 127 ≤ n) then escapePoint n
  else [Char.ofNat n]

def writeText (style : Style) (ps : List Nat) : List Char :=
  '"' :: ps.flatMap (writePoint style) ++ ['"']

def textPoints (s : String) : List Nat :=
  s.toList.map Char.toNat

def writeInt (i : Int) : List Char :=
  (if i < 0 then ['-'] else []) ++ Numeral.write i.natAbs

def writeScalar (style : Style) : Value → List Char
  | .null => "null".toList
  | .bool b => (if b then "true" else "false").toList
  | .int i => writeInt i
  | .double x => x.write doubleWords
  | .text s => writeText style (textPoints s)
  | .points ps => writeText style ps
  | _ => []

/-- A key that is not a text is written as one. -/
def writeKey (style : Style) (key : Value) : List Char :=
  match key with
  | .text _ | .points _ => writeScalar style key
  | _ => '"' :: writeScalar style key ++ ['"']

def newline (depth : Nat) : List Char :=
  '\n' :: List.replicate (2 * depth) ' '

def Style.open (style : Style) (depth : Nat) : List Char :=
  if style.spread then newline (depth + 1) else []

def Style.close (style : Style) (depth : Nat) : List Char :=
  if style.spread then newline depth else []

def Style.between (style : Style) (depth : Nat) : List Char :=
  if style.spread then ',' :: newline (depth + 1) else [',', ' ']

mutual

def writeValue (style : Style) (depth : Nat) : Value → List Char
  | .list [] => ['[', ']']
  | .list (v :: vs) =>
    '[' :: style.open depth ++ writeValue style (depth + 1) v ++ writeItems style depth vs ++
      style.close depth ++ [']']
  | .map [] => ['\x7b', '\x7d']
  | .map ((k, v) :: es) =>
    '\x7b' :: style.open depth ++ writeKey style k ++ ':' :: ' ' ::
      writeValue style (depth + 1) v ++ writeMembers style depth es ++ style.close depth ++ ['\x7d']
  | v => writeScalar style v

def writeItems (style : Style) (depth : Nat) : List Value → List Char
  | [] => []
  | v :: vs => style.between depth ++ writeValue style (depth + 1) v ++ writeItems style depth vs

def writeMembers (style : Style) (depth : Nat) : List (Value × Value) → List Char
  | [] => []
  | (k, v) :: es =>
    style.between depth ++ writeKey style k ++ ':' :: ' ' :: writeValue style (depth + 1) v ++
      writeMembers style depth es

end

/-- What keeps a value out of a document as a key or a leaf: bytes, dates, moments, product ids and
sets have no form there, nor have lists and maps as keys, what stands within itself would have no
end, and an integer may have too many digits. -/
def leafFault? : Value → Option Failure
  | .list _ | .map _ | .bytes _ | .date _ _ _ | .moment _ | .id _ | .set _ => some .wrongType
  | .again _ => some .circular
  | .int i => if Numeral.fits i.natAbs then none else some (.digits none)
  | _ => none

mutual

/-- The first fault of a value, in the order in which it is written. -/
def fault? : Value → Option Failure
  | .list vs => itemsFault? vs
  | .map es => membersFault? es
  | v => leafFault? v

def itemsFault? : List Value → Option Failure
  | [] => none
  | v :: vs => (fault? v).or (itemsFault? vs)

def membersFault? : List (Value × Value) → Option Failure
  | [] => none
  | (k, v) :: es => (leafFault? k).or ((fault? v).or (membersFault? es))

end

def render (style : Style) (v : Value) : String :=
  String.ofList (writeValue style 0 v)

def render? (style : Style) (v : Value) : Except Failure String :=
  match fault? v with
  | some fault => .error fault
  | none => .ok (render style v)

end ProductLock.Json
