import TagStamp.Attribute.Search
import TagStamp.Log

namespace TagStamp.Attribute

/-- The written form of an attribute, always in double quotes. -/
def render (name value : Text) : Text :=
  name ++ '=' :: '\x22' :: value ++ ['\x22']

/-- What became of an edit. -/
inductive Edit
  /-- There is no such attribute and no place to insert one. -/
  | unplaced
  /-- The attribute has the value already. -/
  | kept
  /-- The attribute was rewritten. -/
  | updated (text : Text)
  /-- The attribute was inserted, maybe beside one whose value does not end. -/
  | inserted (text : Text) (besideMalformed : Bool)
deriving DecidableEq, Repr

namespace Edit

def applied : Edit → Bool
  | updated _ | inserted _ _ => true
  | unplaced | kept => false

def skipped : Edit → Bool
  | kept => true
  | _ => false

/-- The text of the tag after the edit. -/
def text (tag : Text) : Edit → Text
  | updated text | inserted text _ => text
  | unplaced | kept => tag

/-- The warning an edit leaves behind. -/
def warning? (name : Text) : Edit → Option Log.Entry
  | inserted _ true =>
    some ⟨.warning, "Malformed " ++ String.ofList name ++
      " attribute (unterminated quote); inserting a new one next to it"⟩
  | _ => none

end Edit

/-- Gives the attribute the value. Where it is missing it goes to `place`, counted from the start of the
tag; a place beyond the end means the end. -/
def assign (tag name value : Text) (place : Option Nat) : Edit :=
  match find? name tag with
  | some found =>
    if found.value = value then .kept
    else .updated (found.before ++ render name value ++ found.after)
  | none =>
    match place with
    | none => .unplaced
    | some k =>
      .inserted (tag.take k ++ ' ' :: render name value ++ tag.drop k) (opens name tag)

end TagStamp.Attribute
