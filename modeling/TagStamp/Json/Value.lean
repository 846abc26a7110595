import TagStamp.Decimal.Binary64
import TagStamp.Text.CodeString

namespace TagStamp

/-- JSON values as a reader delivers them. Integers are exact, other numbers are doubles, and an object keeps
its members in the order of their first appearance. Strings may hold surrogates, because an escape may name
half of a pair without its partner. -/
inductive Json
  | null
  | bool (value : Bool)
  | int (value : Int)
  | float (value : Decimal.Binary64)
  | string (value : CodeString)
  | array (items : List Json)
  | object (members : List (CodeString × Json))

instance : Inhabited Json := ⟨.null⟩

namespace Json

def text (s : String) : Json :=
  .string (.text s)

/-- Adds a member, or gives the member of that name a new value where it stands. -/
def insertMember (key : CodeString) (value : Json) :
    List (CodeString × Json) → List (CodeString × Json)
  | [] => [(key, value)]
  | member :: rest =>
    if member.1 = key then (key, value) :: rest else member :: insertMember key value rest

/-- The member of an object; other values have none. -/
def get? (j : Json) (key : String) : Option Json :=
  match j with
  | object members => (members.find? fun member => member.1 = .text key).map Prod.snd
  | _ => none

/-- Whether a setting counts as given: zero, false, null and everything empty do not. -/
def isTruthy : Json → Bool
  | null => false
  | bool value => value
  | int value => value ≠ 0
  | float value => !value.isZero
  | string value => !value.isEmpty
  | array items => !items.isEmpty
  | object members => !members.isEmpty

/-- The kind of a value, as refusals name it. -/
def kind : Json → String
  | null => "NoneType"
  | bool _ => "bool"
  | int _ => "int"
  | float _ => "float"
  | string _ => "str"
  | array _ => "list"
  | object _ => "dict"

end Json

end TagStamp
