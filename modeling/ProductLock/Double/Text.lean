import ProductLock.Double.Basic

namespace ProductLock.Double

/-- The decimals that read back as one positive finite double, in units of a quarter of its last
place: the ends belong to them iff the mantissa is even. -/
structure Interval where
  low : Nat
  centre : Nat
  high : Nat
  closed : Bool
  exponent : Int

def interval (mantissa : Nat) (exponent : Int) : Interval where
  low := 4 * mantissa - (if mantissa = Nat.pow 2 52 ∧ exponent > leastExponent then 1 else 2)
  centre := 4 * mantissa
  high := 4 * mantissa + 2
  closed := mantissa % 2 = 0
  exponent := exponent - 2

/-- The power of ten of the leading digit of a positive ratio. -/
def leadingExponent (num den : Nat) : Int :=
  if num ≥ den then (Numeral.digitCount (num / den) : Int) - 1
  else -(Numeral.digitCount ((den - 1) / num) : Int)

/-- The best multiple of `10 ^ k` in the interval, if there is one: of the two neighbours of the
centre the nearer, the even one of two that are equally near. -/
def Interval.onGrid (i : Interval) (k : Int) : Option Nat :=
  let step := Nat.pow 10 k.toNat * Nat.pow 2 (-i.exponent).toNat
  let unit := Nat.pow 2 i.exponent.toNat * Nat.pow 10 (-k).toNat
  let below := i.centre * unit / step
  let hit (c : Nat) : Bool :=
    if i.closed then i.low * unit ≤ c * step ∧ c * step ≤ i.high * unit
    else i.low * unit < c * step ∧ c * step < i.high * unit
  let down := i.centre * unit - below * step
  let up := (below + 1) * step - i.centre * unit
  let belowFirst := down < up ∨ (down = up ∧ below % 2 = 0)
  let order := if belowFirst then [below, below + 1] else [below + 1, below]
  order.find? hit

/-- The fewest digits that read back, and the power of ten of the last one. -/
def shortest (mantissa : Nat) (exponent : Int) : Nat × Int :=
  let i := interval mantissa exponent
  let lead := leadingExponent (mantissa * Nat.pow 2 exponent.toNat)
    (Nat.pow 2 (-exponent).toNat)
  let grids := (List.range 17).map fun (n : Nat) => lead - n
  (grids.findSome? fun k => (i.onGrid k).map fun c => (c, k)).getD (0, 0)

def zeros (n : Nat) : List Char :=
  List.replicate n '0'

def signed (e : Int) : List Char :=
  let digits := Numeral.write e.natAbs
  (if e < 0 then '-' else '+') :: zeros (2 - digits.length) ++ digits

/-- Digits with the point so many places from the left. Between a ten-thousandth and ten to the
sixteenth the number is written out; beyond, it has an exponent of at least two digits. -/
def layout (digits : List Char) (point : Int) : List Char :=
  if -4 < point ∧ point ≤ 0 then '0' :: '.' :: zeros (-point).toNat ++ digits
  else if 0 < point ∧ point ≤ 16 then
    let whole := digits.take point.toNat
    let fraction := digits.drop point.toNat
    whole ++ zeros (point.toNat - whole.length) ++ '.' ::
      (if fraction = [] then ['0'] else fraction)
  else
    digits.take 1 ++ (if digits.length = 1 then [] else '.' :: digits.drop 1) ++
      'e' :: signed (point - 1)

def writeMagnitude (mantissa : Nat) (exponent : Int) : List Char :=
  if mantissa = 0 then "0.0".toList
  else
    let (c, k) := shortest mantissa exponent
    let digits := Numeral.write c
    let significant := (digits.reverse.dropWhile (· == '0')).reverse
    layout significant (k + digits.length)

/-- The words for what is not a finite number. -/
structure Words where
  infinity : String
  nan : String

def write (words : Words) : Double → List Char
  | .finite negative m e => (if negative then ['-'] else []) ++ writeMagnitude m e
  | .infinite negative => (if negative then ['-'] else []) ++ words.infinity.toList
  | .nan => words.nan.toList

end ProductLock.Double
