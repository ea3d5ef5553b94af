import ProductLock.Text.Blank
import ProductLock.Text.Quoted

namespace ProductLock

def isIdChar (c : Char) : Bool :=
  !Text.isBlank c && c != ':' && c != '(' && c != ')' && c != ','

/-- A group or name must survive being written between the marks of a lockfile line. -/
def isIdPart (s : String) : Bool :=
  s.toList != [] && s.toList.all isIdChar

structure ProductId where
  group : String
  name : String
  group_ok : isIdPart group = true
  name_ok : isIdPart name = true
deriving DecidableEq

inductive IdField where
  | group
  | name
deriving DecidableEq, Repr

def IdField.text : IdField → String
  | .group => "product group"
  | .name => "product name"

inductive IdFault where
  | malformed (text : String)
  | part (field : IdField) (value : String)
deriving DecidableEq, Repr

def IdFault.message : IdFault → String
  | .malformed text =>
    "Expected a product id of the form 'group:name' but got " ++ Text.quote text
  | .part field value =>
    "Invalid " ++ field.text ++ " " ++ Text.quote value ++
      ": must be non-empty without whitespace or any of ':(),'"

namespace ProductId

def ofParts (group name : String) : Except IdFault ProductId :=
  if hg : isIdPart group = true then
    if hn : isIdPart name = true then .ok ⟨group, name, hg, hn⟩
    else .error (.part .name name)
  else .error (.part .group group)

/-- Both halves may be padded with blanks. -/
def parse (s : String) : Except IdFault ProductId :=
  match Text.pieces ':' s.toList with
  | [group, name] =>
    if group.all Text.isBlank || name.all Text.isBlank then .error (.malformed s)
    else ofParts (String.ofList (Text.trimChars group)) (String.ofList (Text.trimChars name))
  | _ => .error (.malformed s)

def text (id : ProductId) : String :=
  id.group ++ ":" ++ id.name

/-- By group, then by name, each by code point. -/
def compare (a b : ProductId) : Ordering :=
  (Ord.compare a.group b.group).then (Ord.compare a.name b.name)

def le (a b : ProductId) : Bool :=
  a.compare b != .gt

instance : Repr ProductId := ⟨fun id _ => repr id.text⟩

end ProductId

end ProductLock
