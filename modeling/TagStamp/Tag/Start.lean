import TagStamp.Text.Basic
import TagStamp.Text.Blank

namespace TagStamp.Tag

/-- How far from the reported column a tag may start. -/
def tolerance : Int := 2

/-- A tag name ends where the line does, at white space, or at the end of the tag. -/
def endsName : Text → Bool
  | [] => true
  | c :: _ => Text.isBlank c || c == '/' || c == '>'

/-- The name stands at the given position and is not the beginning of a longer name. -/
def nameAt (line : Text) (position : Nat) (name : Text) : Bool :=
  !name.isEmpty && name.isPrefixOf (line.drop position) &&
    endsName (line.drop (position + name.length))

/-- Positions within the tolerance of a position counted from zero, from left to right. -/
def window (position : Int) : List Nat :=
  let first := (position - tolerance).toNat
  List.range' first ((position + tolerance + 1).toNat - first)

/-- The angle bracket closest to what the column asks for: the one at the column itself, else the
leftmost one within the tolerance. -/
def bracketNear (text : Text) (column : Int) : Option Nat :=
  let position := column - 1
  if 0 ≤ position ∧ text[position.toNat]? = some '<' then some position.toNat
  else (window position).find? fun k => text[k]? == some '<'

/-- Position of the angle bracket that opens the named tag near a column. -/
def start? (line : Text) (column : Int) (name : Text) : Option Nat :=
  (bracketNear line column).filter fun k => nameAt line (k + 1) name

/-- Position right after the tag name, where an attribute can be inserted. -/
def insertion? (line : Text) (column : Int) (name : Text) : Option Nat :=
  (start? line column name).map fun k => k + 1 + name.length

end TagStamp.Tag
