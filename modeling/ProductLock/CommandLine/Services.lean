import ProductLock.CommandLine.Marks
import ProductLock.Yaml.Document

namespace ProductLock.CommandLine

/-- What a command takes from elsewhere: the values that the texts of documents stand for, and what
a screen leaves of a text in which it reads marks, which is nothing when they make no sense. -/
structure Services where
  value : String → Except Yaml.Stop Value
  unmarked : String → Option String

namespace Services

def standard : Services where
  value := Yaml.parse
  unmarked := Marks.unmarked?

def unmark (services : Services) (s : String) : Except Failure String :=
  match services.unmarked s with
  | some shown => .ok shown
  | none => .error .marks

end Services

end ProductLock.CommandLine
