namespace ProductLock.CommandLine

/-- A word that a command takes as an option, under a long and perhaps a short name. -/
structure Switch (α : Type) where
  meaning : α
  long : String
  short : Option Char := none
  takesValue : Bool := false

/-- The options and the other words of a command line. Options without a value have an empty one. -/
structure Words (α : Type) where
  options : List (α × String)
  others : List String

variable {α : Type}

def Words.addOptions (w : Words α) (os : List (α × String)) : Words α :=
  { w with options := os ++ w.options }

def Words.addOther (w : Words α) (s : String) : Words α :=
  { w with others := s :: w.others }

/-- What a word that names options comes to: options that are complete, and perhaps one that takes
the next word as its value. -/
structure Named (α : Type) where
  complete : List (α × String)
  waiting : Option α := none

/-- Short options can be joined; the first that takes a value takes the rest of the word. -/
def readShort (switches : List (Switch α)) : List Char → Option (Named α)
  | [] => some ⟨[], none⟩
  | c :: cs => do
    let s ← switches.find? fun s => s.short == some c
    if s.takesValue then
      if cs = [] then return ⟨[], some s.meaning⟩
      else return ⟨[(s.meaning, String.ofList cs)], none⟩
    else
      let rest ← readShort switches cs
      return { rest with complete := (s.meaning, "") :: rest.complete }

/-- A long option, which may have its value after an equals sign. -/
def readLong (switches : List (Switch α)) (word : List Char) : Option (Named α) := do
  let name := word.takeWhile (· != '=')
  let s ← switches.find? fun s => s.long.toList == name
  match word.drop name.length with
  | [] => return if s.takesValue then ⟨[], some s.meaning⟩ else ⟨[(s.meaning, "")], none⟩
  | _ :: value => if s.takesValue then return ⟨[(s.meaning, String.ofList value)], none⟩ else none

def readNamed (switches : List (Switch α)) (word : List Char) : Option (Named α) :=
  match word with
  | '-' :: '-' :: _ => readLong switches word
  | _ => readShort switches (word.drop 1)

/-- A dash with something after it begins an option. -/
def namesOption (word : List Char) : Bool :=
  word.head? == some '-' && word.length > 1

/-- Sorts the words of a command. After two dashes no word is an option. -/
def readWords (switches : List (Switch α)) : List String → Option (Words α)
  | [] => some ⟨[], []⟩
  | word :: rest =>
    if word = "--" then some ⟨[], rest⟩
    else if namesOption word.toList then
      match readNamed switches word.toList with
      | none => none
      | some ⟨complete, none⟩ => (readWords switches rest).map (·.addOptions complete)
      | some ⟨complete, some waiting⟩ =>
        match rest with
        | [] => none
        | value :: rest =>
          (readWords switches rest).map (·.addOptions (complete ++ [(waiting, value)]))
    else (readWords switches rest).map (·.addOther word)

end ProductLock.CommandLine
