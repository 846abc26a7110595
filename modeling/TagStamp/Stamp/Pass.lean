import TagStamp.Attribute.Edit
import TagStamp.Stamp.Target
import TagStamp.Tag.Close
import TagStamp.Tag.Start

namespace TagStamp.Stamp

/-- A part of the text that begins on a known line: the column where it starts, and the line and column
where it stops. -/
structure Span where
  start : Nat
  lastLine : Nat
  stop : Nat
deriving DecidableEq, Repr

namespace Span

/-- The tag that starts at the given place; a tag that does not close ends with its line. -/
def ofTag (lines : List Text) (index start : Nat) : Span :=
  match Tag.close? lines index start with
  | some (lastLine, column) => ⟨start, lastLine, column + 1⟩
  | none => ⟨start, index, (lines.getD index []).length⟩

def text (s : Span) (lines : List Text) (index : Nat) : Text :=
  let first := lines.getD index []
  if s.lastLine = index then (first.take s.stop).drop s.start
  else
    Text.unlines (first.drop s.start :: ((lines.take s.lastLine).drop (index + 1) ++
      [(lines.getD s.lastLine []).take s.stop]))

/-- The lines with other text in place of the span. -/
def replace (s : Span) (lines : List Text) (index : Nat) (text : Text) : List Text :=
  let line := (lines.getD index []).take s.start ++ text ++ (lines.getD s.lastLine []).drop s.stop
  lines.take index ++ Text.lines line ++ lines.drop (s.lastLine + 1)

end Span

/-- What a target led to. -/
inductive Placement
  /-- The text has no such line. -/
  | outOfRange
  /-- No attribute to update, and no tag to insert one into. -/
  | unlocated
  /-- The tag carries the identifier already. -/
  | kept
  | placed (lines : List Text) (edit : Attribute.Edit)
deriving DecidableEq, Repr

/-- Edits the tag of one target. Where the tag is not found, as a name that is no text never is, an
attribute on its line can still be updated, but none inserted. -/
def place (lines : List Text) (t : Target) : Placement :=
  let index := (t.line - 1).toNat
  if t.line < 1 ∨ lines.length ≤ index then .outOfRange
  else
    let start := t.tagName.chars?.bind (Tag.start? (lines.getD index []) t.column)
    let span := Span.ofTag lines index (start.getD 0)
    let edit := Attribute.assign (span.text lines index) idAttribute t.agentId
      (start.map fun _ => 1 + t.tagName.length)
    match edit with
    | .unplaced => .unlocated
    | .kept => .kept
    | .updated text | .inserted text _ => .placed (span.replace lines index text) edit

/-- The lines so far, with the count of edits and of targets that needed none. -/
structure Pass where
  lines : List Text
  applied : Nat := 0
  skipped : Nat := 0
  log : List Log.Entry := []
deriving DecidableEq, Repr

namespace Pass

def note (p : Pass) (message : CodeString) : Pass :=
  { p with log := p.log ++ [⟨.debug, message⟩] }

def step (p : Pass) (t : Target) : Pass :=
  match place p.lines t with
  | .outOfRange =>
    p.note ("Target " ++ String.ofList t.agentId ++ " line " ++ toString t.line ++
      " out of range, skipping")
  | .unlocated =>
    p.note ("Could not locate <" ++ t.tagName ++ "> for " ++ String.ofList t.agentId ++
      " at " ++ toString t.line ++ ":" ++ toString t.column ++ ", skipping")
  | .kept => { p with skipped := p.skipped + 1 }
  | .placed lines edit =>
    { p with
      lines
      applied := p.applied + 1
      log := p.log ++ (edit.warning? idAttribute).toList }

end Pass

/-- The outcome for one source text. Targets that were not located count neither as applied nor as
skipped. -/
structure Result where
  text : Text
  applied : Nat
  skipped : Nat
  log : List Log.Entry
deriving DecidableEq, Repr

def Result.modified (r : Result) : Bool :=
  0 < r.applied

/-- Gives every target its identifier. -/
def run (source : Text) (targets : List Target) : Result :=
  let done := (Target.inOrder targets).foldl Pass.step { lines := Text.lines source }
  { text := if done.applied = 0 then source else Text.unlines done.lines
    applied := done.applied
    skipped := done.skipped
    log := done.log }

end TagStamp.Stamp
