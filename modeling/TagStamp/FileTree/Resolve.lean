import TagStamp.FileTree.Walk
import TagStamp.Path

namespace TagStamp

/-- Goes along names without looking anything up. -/
def descend : Location → List String → Location
  | place, [] => place
  | place, name :: rest =>
    if name = "." then descend place rest
    else if name = ".." then descend place.dropLast rest
    else descend (place ++ [name]) rest

namespace Path

/-- The absolute path without double dots that a path means if no links are followed. -/
def normal (p : Path) (workingDirectory : Location) : Path :=
  match p.anchor with
  | .relative => .absolute (descend workingDirectory p.names)
  | anchor => ⟨anchor, descend [] p.names⟩

/-- The directory above a path without links. Above a relative path that only goes up is a further one. -/
def above (p : Path) : Path :=
  if p.anchor = .relative ∧ p.names.all (· == "..") then { p with names := p.names ++ [".."] }
  else p.parent

end Path

/-- How a search ended. -/
inductive Search
  | reached (path : Path)
  /-- A loop of links was met. -/
  | looped (path : Path)
  /-- A name holds a NUL, which no look-up takes. -/
  | nullByte
deriving DecidableEq, Repr

/-- Links that were met, with the path that each leads to, or with none while that is being searched. -/
abbrev Seen := List (Path × Option Path)

namespace Search

/-- Goes on with the pieces of a path from a path that is resolved already. `linkAt` gives the target of a
link, and `follow` searches the path that the target means from the directory of the link. -/
def along (linkAt : Path → Option String) (follow : Seen → Path → String → Search × Seen) :
    Seen → Path → List Text → Search × Seen
  | seen, path, [] => (.reached path, seen)
  | seen, path, name :: rest =>
    let left := Path.parse (String.ofList (Text.joined '/' rest))
    if name = [] ∨ name = ['.'] then along linkAt follow seen path rest
    else if name = ['.', '.'] then along linkAt follow seen path.above rest
    else if name.contains '\x00' then (.nullByte, seen)
    else
      let here := { path with names := path.names ++ [String.ofList name] }
      match linkAt here with
      | none => along linkAt follow seen here rest
      | some target =>
        match seen.lookup here with
        | some (some known) => along linkAt follow seen known rest
        | some none => (.looped (here.join left), seen)
        | none =>
          match follow ((here, none) :: seen) path target with
          | (.reached found, seen) => along linkAt follow ((here, some found) :: seen) found rest
          | (.looped found, seen) => (.looped (found.join left), seen)
          | (.nullByte, seen) => (.nullByte, seen)

/-- Searches what a text means from a path, with a limit on links inside links. -/
def within (linkAt : Path → Option String) : Nat → Seen → Path → String → Search × Seen
  | 0, seen, path, text => (.looped (path.join (.parse text)), seen)
  | depth + 1, seen, path, text =>
    let start := if text.toList.head? = some '/' then .absolute [] else path
    along linkAt (within linkAt depth) seen start (Text.pieces '/' text.toList)

end Search

namespace FileTree

/-- The target of the link that stands at a path. -/
def linkAt (t : FileTree) (directory : Standpoint) (path : Path) : Option String :=
  match t.locate directory .entry path.text with
  | .found _ (.link target) => some target
  | _ => none

/-- Searches the path that a path means from a directory. A link is opened once under each path that leads
to it, and such a path differs from the others in the number of double dots at its front; that bounds the
links inside links, because a path that is too long leads to no link. -/
def search (t : FileTree) (directory : Standpoint) (path : Path) : Search :=
  (Search.within (t.linkAt directory) (t.linkCount * pathLimit + 1) [] ⟨.relative, []⟩ path.text).1

end FileTree

end TagStamp
