import TagStamp.Manifest.Check

namespace TagStamp.Manifest

/-- An element with the identifier assigned to it. -/
structure Element where
  agentId : String
  type : String
  filePath : String
  line : Int
  column : Int
  componentName : Option CodeString := none
  route : Option CodeString := none
  label : Option CodeString := none
  handler : Option CodeString := none
  attributes : List (CodeString × CodeString) := []
  conditional : Bool := false
  dynamic : Bool := false
  directive : Option CodeString := none
  sourceTagName : Option CodeString := none
deriving DecidableEq, Repr

end TagStamp.Manifest

namespace TagStamp

structure Manifest where
  schemaVersion : String
  generatedAt : Option CodeString := none
  generator : List (CodeString × Json) := []
  metadata : List (CodeString × Json) := []
  elements : List Manifest.Element := []

end TagStamp

namespace TagStamp.Manifest

/-- The two names of a member. -/
structure Field where
  camel : String
  snake : String

namespace Field

/-- A member whose two names are the same. -/
def plain (name : String) : Field := ⟨name, name⟩

/-- The member that gives the field its value. -/
def given? (f : Field) (members : List (CodeString × Json)) : Option (CodeString × Json) :=
  (members.find? (·.1 = .text f.camel)).or (members.find? (·.1 = .text f.snake))

def required {α : Type} (f : Field) (check : Json → Checked α) (members : List (CodeString × Json)) :
    Checked α :=
  match f.given? members with
  | some (name, value) => (check value).under (.member name)
  | none => (Checked.fail .missing).under (.member (.text f.camel))

def withDefault {α : Type} (f : Field) (default : α) (check : Json → Checked α)
    (members : List (CodeString × Json)) : Checked α :=
  match f.given? members with
  | some (name, value) => (check value).under (.member name)
  | none => .good default

def agentId : Field := ⟨"agentId", "agent_id"⟩
def type : Field := .plain "type"
def filePath : Field := ⟨"filePath", "file_path"⟩
def line : Field := .plain "line"
def column : Field := .plain "column"
def componentName : Field := ⟨"componentName", "component_name"⟩
def route : Field := .plain "route"
def label : Field := .plain "label"
def handler : Field := .plain "handler"
def attributes : Field := .plain "attributes"
def conditional : Field := .plain "conditional"
def dynamic : Field := .plain "dynamic"
def directive : Field := .plain "directive"
def sourceTagName : Field := ⟨"sourceTagName", "source_tag_name"⟩

def schemaVersion : Field := ⟨"schemaVersion", "schema_version"⟩
def generatedAt : Field := ⟨"generatedAt", "generated_at"⟩
def generator : Field := .plain "generator"
def metadata : Field := .plain "metadata"
def elements : Field := .plain "elements"

/-- The fields of an element. -/
def ofElement : List Field :=
  [agentId, type, filePath, line, column, componentName, route, label, handler, attributes, conditional,
    dynamic, directive, sourceTagName]

end Field

/-- A problem for each member that gives no field its value. -/
def checkExtras (members : List (CodeString × Json)) : Checked Unit :=
  let used := Field.ofElement.filterMap fun f => (f.given? members).map Prod.fst
  match members.filter fun m => m.1 ∉ used with
  | [] => .good ()
  | extras => .bad (extras.map fun m => ⟨[.member m.1], .extra⟩)

def optionalString (f : Field) (members : List (CodeString × Json)) : Checked (Option CodeString) :=
  f.withDefault none (checkOptional checkString) members

/-- Checks the members of an element, field by field in the order of the structure. -/
def checkMembers (members : List (CodeString × Json)) : Checked Element :=
  Element.mk <$> Field.agentId.required checkAgentId members
    <*> Field.type.required checkNonEmpty members
    <*> Field.filePath.required checkNonEmpty members
    <*> Field.line.required checkPosition members
    <*> Field.column.required checkPosition members
    <*> optionalString .componentName members
    <*> optionalString .route members
    <*> optionalString .label members
    <*> optionalString .handler members
    <*> Field.attributes.withDefault [] checkStrings members
    <*> Field.conditional.withDefault false checkBoolean members
    <*> Field.dynamic.withDefault false checkBoolean members
    <*> optionalString .directive members
    <*> optionalString .sourceTagName members
    <* checkExtras members

/-- An element with a member name that is no Unicode text is refused for that alone. -/
def checkElement : Json → Checked Element
  | .object members =>
    if members.any fun m => m.1 matches .unpaired _ then .fail .notUnicode else checkMembers members
  | _ => .fail (.notModel "NamedElement")

def checkElements : Json → Checked (List Element)
  | .array items => .all (items.zipIdx.map fun item => (checkElement item.1).under (.item item.2))
  | _ => .fail .notList

def check : Json → Checked Manifest
  | .object members =>
    Manifest.mk <$> Field.schemaVersion.required checkVersion members
      <*> optionalString .generatedAt members
      <*> Field.generator.withDefault [] checkDictionary members
      <*> Field.metadata.withDefault [] checkDictionary members
      <*> Field.elements.withDefault [] checkElements members
  | _ => .fail (.notModel "Manifest")

end TagStamp.Manifest
