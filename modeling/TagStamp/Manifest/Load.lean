import TagStamp.Manifest.Schema
import TagStamp.Stamp.Target
import TagStamp.Workspace.Disk

namespace TagStamp.Manifest

/-- Reads a manifest, with at most so many levels of nesting, from the octets of a file. -/
def ofOctets (nesting : Nat) (path : String) (octets : List UInt8) : Except Failure Manifest :=
  match Utf8.decode octets with
  | .error error => .error (.undecodable error)
  | .ok text =>
    let source := Text.foldReturns text
    match Json.readNested nesting source with
    | .error (.beyond limit) => .error (.beyond limit)
    | .error (.malformed fault position) => .error (.manifestMalformed path source fault position)
    | .ok json =>
      match check json with
      | .bad problems => .error (.manifestInvalid path problems)
      | .good manifest => .ok manifest

def load (path : Path) : Action Manifest := do
  if !(← Action.isFile path.text) then throw (.manifestMissing path.text)
  if let some cause := (← get).faults.readManifest then
    throw (.manifestUnreadable path.text cause.error)
  let octets ← Action.onDisk (Action.readFile path.text) fun error =>
    throw (.manifestUnreadable path.text error)
  Action.ofExcept (ofOctets (← get).nesting path.text octets)

/-- The absolute path of a file that is named from a base directory. -/
def resolveFile (base : Path) (filePath : String) : Action String :=
  return (← Action.resolve (base.join (.parse filePath))).text

/-- The elements with absolute file paths. -/
def resolveElements (base : Path) (elements : List Element) : Action (List Element) :=
  elements.mapM fun element => return { element with filePath := ← resolveFile base element.filePath }

/-- What an element asks for in its file. -/
def Element.target (e : Element) : Stamp.Target :=
  { agentId := e.agentId.toList
    line := e.line
    column := e.column
    type := e.type.toList
    sourceTag := e.sourceTagName }

end TagStamp.Manifest
