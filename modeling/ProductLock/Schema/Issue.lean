import ProductLock.Numeral
import ProductLock.Product

namespace ProductLock.Schema

/-- One step from a document to the value inside it that is at fault. -/
inductive Segment where
  | key (name : String)
  | index (i : Int)
deriving DecidableEq, Repr

/-- The records that a document can describe. -/
inductive Model where
  | blob
  | entry
  | config
  | configDependency
deriving DecidableEq, Repr

/-- The names by which the messages call the records. -/
def Model.label : Model → String
  | .blob => "RecommendationBlob"
  | .entry => "RecommendedDependency"
  | .config => "ProductConfig"
  | .configDependency => "DependencyConfig"

inductive Reason where
  | idPart (text : String)
  | minimum (text : String)
  | maximum (text : String)
  | recommended (text : String)
  | idList
  | id (fault : IdFault)
  | overlong
deriving DecidableEq, Repr

def Reason.message : Reason → String
  | .idPart v => "must not contain whitespace or any of ':(),': " ++ Text.quote v
  | .minimum v => "minimum version must be orderable: " ++ Text.quote v
  | .maximum v => "maximum version must be orderable or a matcher: " ++ Text.quote v
  | .recommended v => "recommended version must be orderable: " ++ Text.quote v
  | .idList => "Expected a list of 'group:name' product ids"
  | .id fault => fault.message
  | .overlong => Numeral.limitMessage none

inductive Complaint where
  | missing
  | notString
  | tooShort
  | notUnicode
  | notBool
  | unclearBool
  | notList
  | notMap
  | notModel (model : Model)
  | notAmong (options : List String)
  | notPath
  | extra
  | badKey
  | refused (reason : Reason)
deriving DecidableEq, Repr

def Complaint.code : Complaint → String
  | .missing => "missing"
  | .notString => "string_type"
  | .tooShort => "string_too_short"
  | .notUnicode => "string_unicode"
  | .notBool => "bool_type"
  | .unclearBool => "bool_parsing"
  | .notList => "list_type"
  | .notMap => "dict_type"
  | .notModel _ => "model_type"
  | .notAmong _ => "enum"
  | .notPath => "path_type"
  | .extra => "extra_forbidden"
  | .badKey => "invalid_key"
  | .refused _ => "value_error"

/-- Commas between the options, and `or` before the last. -/
def orList : List String → String
  | [] => ""
  | [a] => a
  | [a, b] => a ++ " or " ++ b
  | a :: rest => a ++ ", " ++ orList rest

def Complaint.message : Complaint → String
  | .missing => "Field required"
  | .notString => "Input should be a valid string"
  | .tooShort => "String should have at least 1 character"
  | .notUnicode =>
    "Input should be a valid string, unable to parse raw data as a unicode string"
  | .notBool => "Input should be a valid boolean"
  | .unclearBool => "Input should be a valid boolean, unable to interpret input"
  | .notList => "Input should be a valid list"
  | .notMap => "Input should be a valid dictionary"
  | .notModel model => "Input should be a valid dictionary or instance of " ++ model.label
  | .notAmong options => "Input should be " ++ orList (options.map fun o => "'" ++ o ++ "'")
  | .notPath => "Input is not a valid path for <class 'pathlib.Path'>"
  | .extra => "Extra inputs are not permitted"
  | .badKey => "Keys should be strings"
  | .refused reason => "Value error, " ++ reason.message

structure Issue where
  location : List Segment
  complaint : Complaint
deriving DecidableEq, Repr

/-- The same issue seen from one level further out. -/
def Issue.under (segment : Segment) (issue : Issue) : Issue :=
  { issue with location := segment :: issue.location }

end ProductLock.Schema
