import ProductLock.Numeral

namespace ProductLock.Version

/-- What follows the three numbers of an orderable version. -/
inductive Stage where
  | beta (number : Nat)
  | rc (number : Nat)
  | commits (distance : Nat) (hash : String)
  | release
deriving DecidableEq, Repr

structure Orderable where
  major : Nat
  minor : Nat
  patch : Nat
  stage : Stage
deriving DecidableEq, Repr

inductive Component where
  | number (n : Nat)
  | any
deriving DecidableEq, Repr

structure Matcher where
  major : Component
  minor : Component
  patch : Component
deriving DecidableEq, Repr

/-- An upper bound: an orderable version, or a matcher read as a release. -/
structure Bound where
  major : Component
  minor : Component
  patch : Component
  stage : Stage
deriving DecidableEq, Repr

def Orderable.bound (v : Orderable) : Bound :=
  ⟨.number v.major, .number v.minor, .number v.patch, v.stage⟩

def Matcher.bound (m : Matcher) : Bound :=
  ⟨m.major, m.minor, m.patch, .release⟩

/-- Betas come first, then release candidates, then builds some commits on; the release is last. -/
def Stage.rank : Stage → Nat
  | .beta _ => 0
  | .rc _ => 1
  | .commits _ _ => 2
  | .release => 3

def Stage.number : Stage → Nat
  | .beta n => n
  | .rc n => n
  | .commits n _ => n
  | .release => 0

def Stage.hash : Stage → String
  | .commits _ h => h
  | _ => ""

def Stage.compare (a b : Stage) : Ordering :=
  (Ord.compare a.rank b.rank).then <|
    (Ord.compare a.number b.number).then (Ord.compare a.hash b.hash)

/-- A wildcard is above every number. -/
def Component.compare : Component → Component → Ordering
  | .number m, .number n => Ord.compare m n
  | .number _, .any => .lt
  | .any, .number _ => .gt
  | .any, .any => .eq

def Orderable.compare (a b : Orderable) : Ordering :=
  (Ord.compare a.major b.major).then <| (Ord.compare a.minor b.minor).then <|
    (Ord.compare a.patch b.patch).then (a.stage.compare b.stage)

def Bound.compare (a b : Bound) : Ordering :=
  (a.major.compare b.major).then <| (a.minor.compare b.minor).then <|
    (a.patch.compare b.patch).then (a.stage.compare b.stage)

def Component.admits : Component → Nat → Bool
  | .any, _ => true
  | .number n, m => n == m

def Stage.write : Stage → List Char
  | .beta n => "-beta".toList ++ Numeral.write n
  | .rc n => "-rc".toList ++ Numeral.write n
  | .commits n h => '-' :: Numeral.write n ++ "-g".toList ++ h.toList
  | .release => []

def Orderable.text (v : Orderable) : String :=
  String.ofList (Numeral.write v.major ++ '.' :: Numeral.write v.minor ++ '.' ::
    Numeral.write v.patch ++ v.stage.write)

end ProductLock.Version
