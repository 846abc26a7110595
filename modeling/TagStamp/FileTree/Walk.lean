import TagStamp.FileTree.Error
import TagStamp.FileTree.Standpoint
import TagStamp.Text.Basic

namespace TagStamp

/-- Links that one look-up follows before it is refused. -/
def linkLimit : Nat := 40

/-- Octets that a single name may have. -/
def nameLimit : Nat := 255

/-- Octets that a whole path may have. -/
def pathLimit : Nat := 4095

/-- The steps that a written path asks for. A slash at the end asks for a directory. -/
structure Route where
  absolute : Bool
  names : List String
  slash : Bool
deriving DecidableEq, Repr

def Route.parse (s : String) : Route where
  absolute := s.toList.head? = some '/'
  names := ((Text.pieces '/' s.toList).filter (· ≠ [])).map String.ofList
  slash := s.toList.getLast? = some '/'

/-- What is looked for: the entry at a path even if it is a link, the entry that it leads to, or the file
to write there. -/
inductive Aim
  | entry
  | target
  | writing
deriving DecidableEq, Repr

inductive Walk
  | found (here : Standpoint) (entry : Entry)
  | free (directory : Location) (name : String)
  | refused (error : FileError)
deriving DecidableEq, Repr

namespace FileTree

/-- Walks from a directory along names, with or without a slash after the last of them. `follow` goes on
where a link has to be followed. A removed directory holds nothing, not even itself under its old name, and
a file to write has no slash after its name. -/
def walkWith (t : FileTree) (aim : Aim) (slash : Bool) (follow : Standpoint → List String → Bool → Walk) :
    Standpoint → List String → Walk
  | here, [] => .found here .directory
  | here, name :: rest =>
    let place := here.place ++ [name]
    let ends : Bool := rest = [] && !slash
    if name = "." then t.walkWith aim slash follow here rest
    else if name = ".." then t.walkWith aim slash follow here.up rest
    else if aim = .writing ∧ rest = [] ∧ slash then .refused .isDirectory
    else if here.isLost then .refused .noEntry
    else if nameLimit < name.utf8ByteSize then .refused .nameTooLong
    else match t.get? place with
      | none => if ends then .free here.place name else .refused .noEntry
      | some .directory => t.walkWith aim slash follow ⟨place, 0⟩ rest
      | some (.file content) =>
        if ends then .found ⟨place, 0⟩ (.file content) else .refused .notDirectory
      | some (.link target) =>
        if ends ∧ aim = .entry then .found ⟨place, 0⟩ (.link target)
        else
          let route := Route.parse target
          follow (if route.absolute then .root else here) (route.names ++ rest)
            (slash || (rest = [] && route.slash))

/-- Walks with a limit on the links that may be followed. -/
def walk (t : FileTree) (aim : Aim) : Nat → Standpoint → List String → Bool → Walk
  | 0, start, names, slash => t.walkWith aim slash (fun _ _ _ => .refused .tooManyLinks) start names
  | links + 1, start, names, slash => t.walkWith aim slash (t.walk aim links) start names

/-- Looks up a path as seen from a directory. -/
def locate (t : FileTree) (directory : Standpoint) (aim : Aim) (path : String) : Walk :=
  let route := Route.parse path
  if path.isEmpty then .refused .noEntry
  else if pathLimit < path.utf8ByteSize then .refused .nameTooLong
  else t.walk aim linkLimit (if route.absolute then .root else directory) route.names route.slash

end FileTree

end TagStamp
