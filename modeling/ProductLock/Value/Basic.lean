import ProductLock.Double.Basic
import ProductLock.Product
import ProductLock.Value.Moment

namespace ProductLock

/-- What a document can hold. A text with unpaired surrogates is kept as its code points. Where a
list or a map comes again within itself it is not told again. -/
inductive Value where
  | null
  | bool (b : Bool)
  | int (i : Int)
  | double (x : Double)
  | text (s : String)
  | points (ps : List Nat)
  | bytes (bs : List UInt8)
  | date (year month day : Nat)
  | moment (m : Moment)
  | id (id : ProductId)
  | list (items : List Value)
  | set (items : List Value)
  | map (entries : List (Value × Value))
  | again (isMap : Bool)

namespace Value

def isSurrogate (n : Nat) : Bool :=
  0xD800 ≤ n && n ≤ 0xDFFF

def ofPoints (ps : List Nat) : Value :=
  if ps.any isSurrogate then .points ps else .text (String.ofList (ps.map Char.ofNat))

/-- The number that a value counts as when keys are compared: truth values count as one and zero. -/
def asNumber? : Value → Option (Int ⊕ Double)
  | .bool b => some (.inl (if b then 1 else 0))
  | .int i => some (.inl i)
  | .double x => some (match x.toInt? with
    | some i => .inl i
    | none => .inr x)
  | _ => none

/-- Whether two keys of a map are the same key. -/
def sameKey (a b : Value) : Bool :=
  match a, b with
  | .null, .null => true
  | .text s, .text t => s == t
  | .points ps, .points qs => ps == qs
  | .bytes as, .bytes bs => as == bs
  | .date y m d, .date y' m' d' => y == y' && m == m' && d == d'
  | .moment m, .moment n => m.same n
  | a, b =>
    match a.asNumber?, b.asNumber? with
    | some (.inl i), some (.inl j) => i == j
    | some (.inr x), some (.inr y) => x.same y
    | _, _ => false

/-- Sets a key: an old key keeps its place and its form, a new one goes last. -/
def put (key value : Value) : List (Value × Value) → List (Value × Value)
  | [] => [(key, value)]
  | (k, v) :: entries =>
    if k.sameKey key then (k, value) :: entries else (k, v) :: put key value entries

def lookup (name : String) (entries : List (Value × Value)) : Option Value :=
  (entries.find? fun e => e.1.sameKey (.text name)).map Prod.snd

end Value

end ProductLock
