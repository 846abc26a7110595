import TagStamp.Text.CodeString

namespace TagStamp.Stamp

/-- The attribute that carries the identifier. -/
def idAttribute : Text := "data-agent-id".toList

/-- One tag to identify. Line and column count from one and point at the opening bracket. The tag written
in the source can differ from the logical type of the element, as `Button` does from `button`. -/
structure Target where
  agentId : Text
  line : Int
  column : Int
  type : Text
  sourceTag : Option CodeString := none
deriving DecidableEq, Repr

namespace Target

/-- The tag name to look for in the source. -/
def tagName (t : Target) : CodeString :=
  match t.sourceTag with
  | some name => if name.isEmpty then .text (String.ofList t.type) else name
  | none => .text (String.ofList t.type)

/-- Further down comes first, and further right on the same line. An edit then never moves a target that
is still to come. -/
def precedes (a b : Target) : Bool :=
  b.line < a.line || (b.line == a.line && b.column ≤ a.column)

/-- Targets in the order of their edits; targets at one position keep their order. -/
def inOrder (targets : List Target) : List Target :=
  targets.mergeSort precedes

end Target

end TagStamp.Stamp
