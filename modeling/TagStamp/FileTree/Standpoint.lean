import TagStamp.FileTree.Basic

namespace TagStamp

/-- A directory to look from: the deepest place above it that is left, and how many removed directories lie
between that place and the directory itself. Nothing is in a removed directory any more and nothing can be
put there, but the way up still leads to what is left of the tree. -/
structure Standpoint where
  place : Location
  lost : Nat := 0
deriving DecidableEq, Repr

namespace Standpoint

def root : Standpoint := ⟨[], 0⟩

def isLost (s : Standpoint) : Bool :=
  0 < s.lost

/-- The directory above. The root is above itself. -/
def up : Standpoint → Standpoint
  | ⟨place, 0⟩ => ⟨place.dropLast, 0⟩
  | ⟨place, lost + 1⟩ => ⟨place, lost⟩

/-- The standpoint after everything strictly below a place was removed. -/
def afterClear (s : Standpoint) (place : Location) : Standpoint :=
  if place <+: s.place then ⟨place, s.lost + (s.place.length - place.length)⟩ else s

/-- The standpoint after a place was removed with everything below it. -/
def afterErase (s : Standpoint) (place : Location) : Standpoint :=
  if place <+: s.place then ⟨place.dropLast, s.lost + (s.place.length - place.length) + 1⟩ else s

end Standpoint

end TagStamp
