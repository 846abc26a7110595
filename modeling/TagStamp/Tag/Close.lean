import TagStamp.Text.Basic

namespace TagStamp.Tag

/-- The quotes that delimit a string. -/
def isQuote (c : Char) : Bool :=
  c == '\x22' || c == '\x27' || c == '\x60'

/-- What the scan has seen so far. `escaped` tells that the last character was a backslash in a string
and takes the next one with it. -/
structure Scan where
  quote : Option Char := none
  escaped : Bool := false
  braces : Nat := 0
  brackets : Nat := 0
deriving DecidableEq, Repr

namespace Scan

inductive Step
  | closed
  | next (state : Scan)

/-- Reads a character inside a string that ends with the given quote. -/
def inString (s : Scan) (quote c : Char) : Scan :=
  if s.escaped then { s with escaped := false }
  else if c = '\\' then { s with escaped := true }
  else if c = quote then { s with quote := none }
  else s

/-- Reads a character outside strings. A closing brace without an opening one is an ordinary character,
and so is a bracket inside braces. -/
def outside (s : Scan) (c : Char) : Step :=
  if c = '\x7b' then .next { s with braces := s.braces + 1 }
  else if c = '\x7d' && 0 < s.braces then .next { s with braces := s.braces - 1 }
  else if isQuote c then .next { s with quote := some c }
  else if 0 < s.braces then .next s
  else if c = '<' then .next { s with brackets := s.brackets + 1 }
  else if c = '>' then
    if s.brackets ≤ 1 then .closed else .next { s with brackets := s.brackets - 1 }
  else .next s

def step (s : Scan) (c : Char) : Step :=
  match s.quote with
  | some quote => .next (s.inString quote c)
  | none => s.outside c

/-- Scans one line from a column on: the column of the closing bracket, or the state at the line's end. -/
def line (s : Scan) (column : Nat) : Text → Nat ⊕ Scan
  | [] => .inr s
  | c :: rest =>
    match s.step c with
    | .closed => .inl column
    | .next s => s.line (column + 1) rest

/-- Scans whole lines, counted from `index`. A backslash at the end of a line takes nothing with it. -/
def lines (s : Scan) (index : Nat) : List Text → Option (Nat × Nat)
  | [] => none
  | text :: others =>
    match s.line 0 text with
    | .inl column => some (index, column)
    | .inr s => { s with escaped := false }.lines (index + 1) others

end Scan

/-- Line index and column of the bracket that closes the tag starting at the given place. -/
def close? (lines : List Text) (index column : Nat) : Option (Nat × Nat) :=
  match lines.drop index with
  | [] => none
  | text :: others =>
    match ({} : Scan).line column (text.drop column) with
    | .inl column => some (index, column)
    | .inr s => { s with escaped := false }.lines (index + 1) others

/-- Index of the line on which the tag closes, or of the line it starts on when it does not close. -/
def closeLine (lines : List Text) (index column : Nat) : Nat :=
  ((close? lines index column).map Prod.fst).getD index

end TagStamp.Tag
