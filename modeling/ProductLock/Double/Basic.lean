import ProductLock.Numeral

namespace ProductLock

/-- A number of double precision. The value of a finite one is its mantissa, below `2 ^ 53`, times a
power of two; the exponent is the least possible, and at least `-1074`. -/
inductive Double where
  | finite (negative : Bool) (mantissa : Nat) (exponent : Int)
  | infinite (negative : Bool)
  | nan
deriving DecidableEq, Repr

namespace Double

def leastExponent : Int := -1074

def greatestExponent : Int := 971

/-- The nearest whole number, the even one of two that are equally near. -/
def roundDiv (num den : Nat) : Nat :=
  let q := num / den
  let r := num % den
  if 2 * r > den ∨ (2 * r = den ∧ q % 2 = 1) then q + 1 else q

/-- The ratio in units of a power of two. -/
def inUnits (num den : Nat) (exponent : Int) : Nat × Nat :=
  (num * Nat.pow 2 (-exponent).toNat, den * Nat.pow 2 exponent.toNat)

def ofRatio (negative : Bool) (num den : Nat) : Double :=
  if num = 0 then .finite negative 0 leastExponent
  else
    let guess := max ((num.log2 : Int) - den.log2 - 53) leastExponent
    let (n, d) := inUnits num den guess
    let exponent := if n / d ≥ Nat.pow 2 53 then guess + 1 else guess
    let (n, d) := inUnits num den exponent
    let mantissa := roundDiv n d
    let (mantissa, exponent) :=
      if mantissa = Nat.pow 2 53 then (Nat.pow 2 52, exponent + 1) else (mantissa, exponent)
    if exponent > greatestExponent then .infinite negative
    else .finite negative mantissa exponent

/-- The double nearest to `digits * 10 ^ exponent`. -/
def ofDecimal (negative : Bool) (digits : Nat) (exponent : Int) : Double :=
  let size := Numeral.digitCount digits + exponent
  if digits = 0 ∨ size < -330 then .finite negative 0 leastExponent
  else if size > 310 then .infinite negative
  else ofRatio negative (digits * Nat.pow 10 exponent.toNat)
    (Nat.pow 10 (-exponent).toNat)

/-- The whole number that a double is equal to. -/
def toInt? : Double → Option Int
  | .finite negative m e =>
    let divisor := Nat.pow 2 (-e).toNat
    if m % divisor = 0 then
      let n := Int.ofNat (m / divisor * Nat.pow 2 e.toNat)
      some (if negative then -n else n)
    else none
  | _ => none

def isZero : Double → Bool
  | .finite _ 0 _ => true
  | _ => false

/-- Equality as numbers: the zeros are equal and no NaN equals itself. -/
def same (x y : Double) : Bool :=
  (x.isZero && y.isZero) || (x == y && x != .nan)

end Double

end ProductLock
