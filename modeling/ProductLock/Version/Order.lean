import ProductLock.Failure

namespace ProductLock.Version

def withinLimit (n : Nat) : Except Failure Nat :=
  if Numeral.fits n then .ok n else .error (.digits (some (Numeral.digitCount n)))

def Stage.checked (s : Stage) : Except Failure Stage := do
  let _ ← withinLimit s.number
  return s

/-- Numbers are checked from left to right. -/
def Orderable.checked (v : Orderable) : Except Failure Orderable := do
  return ⟨← withinLimit v.major, ← withinLimit v.minor, ← withinLimit v.patch, ← v.stage.checked⟩

def Component.checked : Component → Except Failure Component
  | .any => .ok .any
  | .number n => .number <$> withinLimit n

def Matcher.checked (m : Matcher) : Except Failure Matcher := do
  return ⟨← m.major.checked, ← m.minor.checked, ← m.patch.checked⟩

def key (s : String) : Except Failure Orderable :=
  match orderable? s with
  | some v => v.checked
  | none => .error (.version s .orderable none)

def bound (s : String) : Except Failure Bound :=
  match orderable? s, matcher? s with
  | some v, _ => Orderable.bound <$> v.checked
  | none, some m => Matcher.bound <$> m.checked
  | none, none => .error (.version s .orderableOrMatcher none)

def compareOrderable (a b : String) : Except Failure Ordering := do
  let a ← key a
  let b ← key b
  return a.compare b

def compareMaximum (a b : String) : Except Failure Ordering := do
  let a ← bound a
  let b ← bound b
  return a.compare b

/-- Whether an orderable version does not exceed an upper bound. -/
def withinMaximum (version maximum : String) : Except Failure Bool := do
  let v ← key version
  let m ← bound maximum
  return v.bound.compare m != .gt

def Component.agrees : Component → Nat → Except Failure Bool
  | .any, _ => .ok true
  | .number n, actual => do return (← withinLimit n) == actual

/-- Compares components until the first that differs, and looks at no number beyond it. -/
def Matcher.agrees : List (Component × Nat) → Except Failure Bool
  | [] => .ok true
  | (wanted, actual) :: rest => do
    if ← wanted.agrees actual then Matcher.agrees rest else return false

/-- Only the three numbers of the version take part. -/
def matchedBy (matcher version : String) : Except Failure Bool :=
  match matcher? matcher with
  | none => .error (.version matcher .matcher none)
  | some m => do
    let v ← key version
    Matcher.agrees [(m.major, v.major), (m.minor, v.minor), (m.patch, v.patch)]

end ProductLock.Version
