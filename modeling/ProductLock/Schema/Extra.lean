import ProductLock.Schema.Reader
import ProductLock.Value.Shown

namespace ProductLock.Schema

/-- A key as a step to the value under it. Whole numbers that fit a machine word stay numbers. -/
def segmentOfKey (key : Value) : Segment :=
  match key with
  | .text s => .key s
  | .bool b => .index (if b then 1 else 0)
  | .int i => if fitsWord i then .index i else .key key.quoted
  | _ => .key key.quoted

/-- What is wrong with a key, given the names of the known fields: nothing if it is one of the first
names, or the other name of a field whose first name is missing. -/
def keyIssue? (names : List (String × String)) (entries : Entries) (key : Value) : Option Issue :=
  match key with
  | .text s =>
    if names.any fun (name, other) =>
        s == name || (s == other && (Value.lookup name entries).isNone) then none
    else some ⟨[.key s], .extra⟩
  | _ => some ⟨[segmentOfKey key], .badKey⟩

def noExtras (names : List (String × String)) (entries : Entries) : Checked Unit :=
  match entries.filterMap fun (key, _) => keyIssue? names entries key with
  | [] => .ok ()
  | issues => .error issues

end ProductLock.Schema
