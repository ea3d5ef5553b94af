import ProductLock.Double.Text
import ProductLock.Text.Quoted
import ProductLock.Value.Basic

namespace ProductLock.Value

/-- Spellings of the values that messages quote. -/
def doubleWords : Double.Words := ⟨"inf", "nan"⟩

def padded (width n : Nat) : String :=
  let digits := Numeral.write n
  String.ofList (List.replicate (width - digits.length) '0' ++ digits)

def separated (ss : List String) : String :=
  ", ".intercalate ss

/-- The text whose code points are given; a surrogate gives way to a mark. -/
def textOfPoints (ps : List Nat) : String :=
  String.ofList (ps.map fun p => if isSurrogate p then '\uFFFD' else Char.ofNat p)

/-- Code points in quotes, with surrogates named by their numbers. -/
def quotePoints (ps : List Nat) : String :=
  let mark := Text.quoteMark (textOfPoints ps).toList
  let quotePoint (p : Nat) : List Char :=
    if isSurrogate p then Text.escapeNumber p else Text.quoteChar mark (Char.ofNat p)
  String.ofList (mark :: ps.flatMap quotePoint ++ [mark])

/-- Bytes in quotes, those that are no characters by their numbers. -/
def quoteBytes (bs : List UInt8) : String :=
  let cs := bs.map fun b => Char.ofNat b.toNat
  let mark := Text.quoteMark cs
  let quoteByte (c : Char) : List Char :=
    if c.toNat < 127 then Text.quoteChar mark c else Text.escapeNumber c.toNat
  String.ofList ('b' :: mark :: cs.flatMap quoteByte ++ [mark])

/-- A number of minutes as whole days and what is left of a day in seconds. -/
def quoteOffset (minutes : Int) : String :=
  if minutes = 0 then "datetime.timezone.utc"
  else
    let days := minutes / 1440
    let seconds := minutes % 1440 * 60
    "datetime.timezone(datetime.timedelta(" ++
      separated ((if days = 0 then [] else ["days=" ++ toString days]) ++
        (if seconds = 0 then [] else ["seconds=" ++ toString seconds])) ++ "))"

/-- Seconds and microseconds are left away at the end when they are zero. -/
def quoteMoment (m : Moment) : String :=
  let rest :=
    if m.microsecond ≠ 0 then [m.second, m.microsecond]
    else if m.second ≠ 0 then [m.second]
    else []
  "datetime.datetime(" ++
    separated (([m.year, m.month, m.day, m.hour, m.minute] ++ rest).map toString ++
      (m.offset.map fun minutes => "tzinfo=" ++ quoteOffset minutes).toList) ++ ")"

mutual

/-- A value as it stands inside another. -/
def quoted : Value → String
  | .null => "None"
  | .bool b => if b then "True" else "False"
  | .int i => toString i
  | .double x => String.ofList (x.write doubleWords)
  | .text s => Text.quote s
  | .points ps => quotePoints ps
  | .bytes bs => quoteBytes bs
  | .moment m => quoteMoment m
  | .date y m d => "datetime.date(" ++ separated [toString y, toString m, toString d] ++ ")"
  | .id i =>
    "ProductId(product_group=" ++ Text.quote i.group ++ ", product_name=" ++ Text.quote i.name ++ ")"
  | .list vs => "[" ++ separated (quotedItems vs) ++ "]"
  | .set [] => "set()"
  | .set (v :: vs) => "\x7b" ++ separated (quoted v :: quotedItems vs) ++ "\x7d"
  | .again isMap => if isMap then "\x7b...\x7d" else "[...]"
  | .map es => "\x7b" ++ separated (quotedEntries es) ++ "\x7d"

def quotedItems : List Value → List String
  | [] => []
  | v :: vs => quoted v :: quotedItems vs

def quotedEntries : List (Value × Value) → List String
  | [] => []
  | (k, v) :: es => (quoted k ++ ": " ++ quoted v) :: quotedEntries es

end

mutual

/-- Whether a whole number in a value has more digits than can be shown. -/
def isOverlong : Value → Bool
  | .int i => !Numeral.fits i.natAbs
  | .list vs | .set vs => anyOverlong vs
  | .map es => anyOverlongEntry es
  | _ => false

def anyOverlong : List Value → Bool
  | [] => false
  | v :: vs => isOverlong v || anyOverlong vs

def anyOverlongEntry : List (Value × Value) → Bool
  | [] => false
  | (k, v) :: es => isOverlong k || isOverlong v || anyOverlongEntry es

end

def shownDay (y m d : Nat) : String :=
  padded 4 y ++ "-" ++ padded 2 m ++ "-" ++ padded 2 d

def shownOffset (minutes : Int) : String :=
  (if minutes < 0 then "-" else "+") ++ padded 2 (minutes.natAbs / 60) ++ ":" ++
    padded 2 (minutes.natAbs % 60)

def shownMoment (m : Moment) : String :=
  shownDay m.year m.month m.day ++ " " ++ padded 2 m.hour ++ ":" ++ padded 2 m.minute ++ ":" ++
    padded 2 m.second ++ (if m.microsecond = 0 then "" else "." ++ padded 6 m.microsecond) ++
    (m.offset.map shownOffset).getD ""

/-- A value as it stands by itself. -/
def shown : Value → String
  | .text s => s
  | .points ps => textOfPoints ps
  | .date y m d => shownDay y m d
  | .moment m => shownMoment m
  | .id i => i.text
  | v => v.quoted

end ProductLock.Value
