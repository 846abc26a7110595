import TagStamp.Json.Value

namespace TagStamp.Manifest

/-- Why a value is refused. -/
inductive Cause
  | missing
  | extra
  | notString
  | notUnicode
  | tooShort
  | mismatch (pattern : String)
  | notInteger
  | unreadableInteger
  | hugeInteger
  | fractional
  | notFinite
  | belowOne
  | notBoolean
  | unreadableBoolean
  | notDictionary
  | notList
  | notModel (name : String)
deriving DecidableEq, Repr

namespace Cause

def text : Cause → String
  | missing => "Field required"
  | extra => "Extra inputs are not permitted"
  | notString => "Input should be a valid string"
  | notUnicode => "Input should be a valid string, unable to parse raw data as a unicode string"
  | tooShort => "String should have at least 1 character"
  | mismatch pattern => "String should match pattern '" ++ pattern ++ "'"
  | notInteger => "Input should be a valid integer"
  | unreadableInteger => "Input should be a valid integer, unable to parse string as an integer"
  | hugeInteger => "Unable to parse input string as an integer, exceeded maximum size"
  | fractional => "Input should be a valid integer, got a number with a fractional part"
  | notFinite => "Input should be a finite number"
  | belowOne => "Input should be greater than or equal to 1"
  | notBoolean => "Input should be a valid boolean"
  | unreadableBoolean => "Input should be a valid boolean, unable to interpret input"
  | notDictionary => "Input should be a valid dictionary"
  | notList => "Input should be a valid list"
  | notModel name => "Input should be a valid dictionary or instance of " ++ name

/-- The short name of the cause. -/
def kind : Cause → String
  | missing => "missing"
  | extra => "extra_forbidden"
  | notString => "string_type"
  | notUnicode => "string_unicode"
  | tooShort => "string_too_short"
  | mismatch _ => "string_pattern_mismatch"
  | notInteger => "int_type"
  | unreadableInteger => "int_parsing"
  | hugeInteger => "int_parsing_size"
  | fractional => "int_from_float"
  | notFinite => "finite_number"
  | belowOne => "greater_than_equal"
  | notBoolean => "bool_type"
  | unreadableBoolean => "bool_parsing"
  | notDictionary => "dict_type"
  | notList => "list_type"
  | notModel _ => "model_type"

end Cause

/-- One step on the way from the document to a value in it. -/
inductive Step
  | member (name : CodeString)
  | item (index : Nat)
deriving DecidableEq, Repr

/-- A name with a dot in it is set off, since dots join the steps. -/
def Step.text : Step → String
  | member name =>
    if name.lossy.toList.contains '.' then "`" ++ name.lossy ++ "`" else name.lossy
  | item index => toString index

structure Problem where
  location : List Step
  cause : Cause
deriving DecidableEq, Repr

namespace Problem

/-- The problem as seen from one level further out. -/
def under (step : Step) (p : Problem) : Problem :=
  { p with location := step :: p.location }

/-- The lines for one problem, without the excerpt of the value and the link to the manual that the validation
library adds to them. -/
def text (p : Problem) : String :=
  (if p.location.isEmpty then "" else "\n" ++ ".".intercalate (p.location.map Step.text)) ++
    "\n  " ++ p.cause.text ++ " [type=" ++ p.cause.kind ++ "]"

end Problem

def report (problems : List Problem) : String :=
  toString problems.length ++ (if problems.length = 1 then " validation error" else " validation errors") ++
    " for Manifest" ++ String.join (problems.map Problem.text)

end TagStamp.Manifest
