import TagStamp.Decimal.Layout
import TagStamp.Json.Value
import TagStamp.Text.Basic

namespace TagStamp.Json

/-- The escapes of a code point, one for each UTF-16 unit. -/
def unitEscapes (code : Nat) : Text :=
  if code < 0x10000 then '\\' :: 'u' :: Text.hex 4 code
  else
    '\\' :: 'u' :: Text.hex 4 (0xd800 + (code - 0x10000) / 0x400) ++
      '\\' :: 'u' :: Text.hex 4 (0xdc00 + (code - 0x10000) % 0x400)

/-- Only ASCII that can be shown stands as it is. -/
def writeCode (code : Nat) : Text :=
  if code = 0x22 then ['\\', '\x22']
  else if code = 0x5c then ['\\', '\\']
  else if code = 0x0a then ['\\', 'n']
  else if code = 0x0d then ['\\', 'r']
  else if code = 0x09 then ['\\', 't']
  else if code = 0x0c then ['\\', 'f']
  else if code = 0x08 then ['\\', 'b']
  else if code < 0x20 ∨ 0x7e < code then unitEscapes code
  else [Char.ofNat code]

def writeString (s : CodeString) : Text :=
  '\x22' :: s.codePoints.flatMap writeCode ++ ['\x22']

inductive Layout
  | compact
  | indented
deriving DecidableEq, Repr

/-- What stands before an item at the given level of nesting. -/
def Layout.lineBreak (layout : Layout) (level : Nat) : Text :=
  match layout with
  | compact => []
  | indented => '\n' :: List.replicate (2 * level) ' '

def Layout.colon : Layout → Text
  | compact => [':']
  | indented => [':', ' ']

/-- Doubles are written as they are shown, but for the names of the special ones. -/
def writeDouble : Decimal.Binary64 → Text
  | .nan => "NaN".toList
  | .infinite negative => (if negative then "-Infinity" else "Infinity").toList
  | value => value.text

mutual

def write (layout : Layout) (level : Nat) : Json → Text
  | null => "null".toList
  | bool value => (if value then "true" else "false").toList
  | int value => (toString value).toList
  | float value => writeDouble value
  | string value => writeString value
  | array [] => ['[', ']']
  | array (item :: items) =>
    '[' :: layout.lineBreak (level + 1) ++ write layout (level + 1) item ++
      writeItems layout (level + 1) items ++ layout.lineBreak level ++ [']']
  | object [] => ['\x7b', '\x7d']
  | object ((name, value) :: members) =>
    '\x7b' :: layout.lineBreak (level + 1) ++ writeString name ++ layout.colon ++
      write layout (level + 1) value ++ writeMembers layout (level + 1) members ++
      layout.lineBreak level ++ ['\x7d']

def writeItems (layout : Layout) (level : Nat) : List Json → Text
  | [] => []
  | item :: items =>
    ',' :: layout.lineBreak level ++ write layout level item ++ writeItems layout level items

def writeMembers (layout : Layout) (level : Nat) : List (CodeString × Json) → Text
  | [] => []
  | (name, value) :: members =>
    ',' :: layout.lineBreak level ++ writeString name ++ layout.colon ++ write layout level value ++
      writeMembers layout level members

end

def render (layout : Layout) (value : Json) : String :=
  String.ofList (write layout 0 value)

end TagStamp.Json
