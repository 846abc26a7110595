import TagStamp.Text.Basic

namespace TagStamp

/-- Where a path starts. Two leading slashes are told apart from one; more than two are as good as one. -/
inductive Anchor
  | relative
  | root
  | doubleRoot
deriving DecidableEq, Repr

def Anchor.text : Anchor → String
  | relative => ""
  | root => "/"
  | doubleRoot => "//"

/-- A path as it is written. Empty names and single dots say nothing and are dropped; a double dot is kept,
because what it means depends on links. -/
structure Path where
  anchor : Anchor
  names : List String
deriving DecidableEq, Repr

namespace Path

def anchorOf : Text → Anchor
  | '/' :: '/' :: '/' :: _ => .root
  | '/' :: '/' :: _ => .doubleRoot
  | '/' :: _ => .root
  | _ => .relative

def parse (s : String) : Path :=
  { anchor := anchorOf s.toList
    names := ((Text.pieces '/' s.toList).filter fun name => name ≠ [] ∧ name ≠ ['.']).map String.ofList }

/-- The path from the root along the given names. -/
def absolute (names : List String) : Path :=
  ⟨.root, names⟩

def text (p : Path) : String :=
  if p.anchor = .relative ∧ p.names = [] then "."
  else p.anchor.text ++ String.ofList (Text.joined '/' (p.names.map String.toList))

/-- The directory of a path; a path without names is its own parent. -/
def parent (p : Path) : Path :=
  { p with names := p.names.dropLast }

/-- The path `q` as seen from `p`. An absolute path is the same from everywhere. -/
def join (p q : Path) : Path :=
  if q.anchor = .relative then { p with names := p.names ++ q.names } else q

/-- What leads from `base` to `p`, if `base` is above `p`. -/
def relativeTo? (p base : Path) : Option Path :=
  if p.anchor = base.anchor ∧ base.names <+: p.names then
    some ⟨.relative, p.names.drop base.names.length⟩
  else none

/-- The path that `relativeTo?` was asked for, as its refusal names it: the empty path has no name there. -/
def bareText (p : Path) : String :=
  if p.anchor = .relative ∧ p.names = [] then "" else p.text

end Path

/-- The names that two lists begin with. -/
def commonNames : List String → List String → List String
  | a :: as, b :: bs => if a = b then a :: commonNames as bs else []
  | _, _ => []

/-- The deepest directory above all of the given paths. A single path has its parent; paths with nothing
in common have the root, and no paths at all the working directory. -/
def commonAncestor (workingDirectory : Path) : List Path → Path
  | [] => workingDirectory
  | [p] => p.parent
  | p :: others =>
    let names := others.foldl (fun names q => commonNames names q.names) p.names
    if others.any (·.anchor ≠ p.anchor) ∨ (p.anchor = .relative ∧ names = []) then .absolute []
    else ⟨p.anchor, names⟩

end TagStamp
