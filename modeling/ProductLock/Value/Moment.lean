namespace ProductLock

namespace Calendar

def isLeapYear (y : Nat) : Bool :=
  y % 4 == 0 && (y % 100 != 0 || y % 400 == 0)

def monthLength (y m : Nat) : Nat :=
  if m = 2 then (if isLeapYear y then 29 else 28)
  else if m = 4 ∨ m = 6 ∨ m = 9 ∨ m = 11 then 30
  else 31

/-- The number of a day, where the first day of the first year is number one. -/
def dayNumber (y m d : Nat) : Nat :=
  let before := y - 1
  365 * before + before / 4 - before / 100 + before / 400 +
    (List.range (m - 1)).foldl (fun days i => days + monthLength y (i + 1)) 0 + d

end Calendar

/-- A day and a time of that day, and perhaps by how many minutes its clocks are ahead of
Greenwich. -/
structure Moment where
  year : Nat
  month : Nat
  day : Nat
  hour : Nat
  minute : Nat
  second : Nat
  microsecond : Nat
  offset : Option Int
deriving DecidableEq, Repr

namespace Moment

/-- The microseconds since the year began to be counted, by the clocks of Greenwich if it is known
how far they are off. -/
def microseconds (m : Moment) : Int :=
  let minutes : Int := (Calendar.dayNumber m.year m.month m.day * 24 + m.hour) * 60 + m.minute
  ((minutes - m.offset.getD 0) * 60 + m.second) * 1000000 + m.microsecond

/-- Moments of which only one has its clocks compared to Greenwich are never the same. -/
def same (a b : Moment) : Bool :=
  a.offset.isSome == b.offset.isSome && a.microseconds == b.microseconds

end Moment

end ProductLock
