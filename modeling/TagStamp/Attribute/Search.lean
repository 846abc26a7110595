import TagStamp.Text.Blank
import TagStamp.Text.Basic
import TagStamp.Text.Word

namespace TagStamp.Attribute

def isValueQuote (c : Char) : Bool :=
  c == '\x22' || c == '\x27'

/-- Whether a name may begin after the given character, or at the beginning of the text. -/
def atBoundary : Option Char → Bool
  | none => true
  | some c => !(Text.isWord c || c == '-')

/-- The values that can be read from a text and from the text after its first character, each up to the
quote that ends it and with the text after that quote. Of the ways to go on, a backslash with its character
comes first, then a single character, then the end of the value; a later way is taken only where an earlier
one finds no end. -/
def values? (quote : Char) : Text → Option (Text × Text) × Option (Text × Text)
  | [] => (none, none)
  | c :: rest =>
    let (next, second) := values? quote rest
    let escape := match rest with
      | d :: _ =>
        if c = '\\' ∧ d ≠ '\n' then second.map fun r => (c :: d :: r.1, r.2) else none
      | [] => none
    let plain := if c ≠ '\n' ∧ c ≠ quote then next.map fun r => (c :: r.1, r.2) else none
    let stop := if c = quote then some ([], rest) else none
    (escape <|> plain <|> stop, next)

/-- Reads a value up to the quote that ends it, and returns it with the text after that quote. -/
def value? (quote : Char) (text : Text) : Option (Text × Text) :=
  (values? quote text).1

@[simp]
theorem value?_nil (quote : Char) : value? quote [] = none := rfl

theorem values?_snd_cons (quote c : Char) (rest : Text) :
    (values? quote (c :: rest)).2 = value? quote rest := rfl

theorem value?_singleton (quote c : Char) :
    value? quote [c] = if c = quote then some ([], []) else none := by
  simp [value?, values?]

theorem value?_cons_cons (quote c d : Char) (rest : Text) :
    value? quote (c :: d :: rest) =
      ((if c = '\\' ∧ d ≠ '\n' then (value? quote rest).map fun r => (c :: d :: r.1, r.2) else none) <|>
        (if c ≠ '\n' ∧ c ≠ quote then (value? quote (d :: rest)).map fun r => (c :: r.1, r.2) else none) <|>
        (if c = quote then some ([], d :: rest) else none)) := by
  rw [← values?_snd_cons quote d rest]
  rfl

/-- An attribute together with the text around it. -/
structure Occurrence where
  before : Text
  quote : Char
  value : Text
  after : Text
deriving DecidableEq, Repr

/-- The attribute that starts right at the beginning of the text, after the given character. -/
def here? (name : Text) (last : Option Char) (text : Text) : Option Occurrence :=
  if name.isPrefixOf text && atBoundary last then
    match text.drop name.length with
    | '=' :: quote :: rest =>
      if isValueQuote quote then
        (value? quote rest).map fun r => { before := [], quote, value := r.1, after := r.2 }
      else none
    | _ => none
  else none

/-- The leftmost attribute of that name in a text that follows the given character. -/
def findAfter? (name : Text) (last : Option Char) : Text → Option Occurrence
  | [] => none
  | c :: rest =>
    match here? name last (c :: rest) with
    | some found => some found
    | none => (findAfter? name (some c) rest).map fun found => { found with before := c :: found.before }

def find? (name text : Text) : Option Occurrence :=
  findAfter? name none text

/-- Whether a quoted attribute of that name begins right here, whether or not its value ends. White space
may surround the equals sign. -/
def opensHere (name : Text) (last : Option Char) (text : Text) : Bool :=
  name.isPrefixOf text && atBoundary last &&
    match (text.drop name.length).dropWhile Text.isBlank with
    | '=' :: rest => ((rest.dropWhile Text.isBlank).head?.map isValueQuote).getD false
    | _ => false

def opensAfter (name : Text) (last : Option Char) : Text → Bool
  | [] => false
  | c :: rest => opensHere name last (c :: rest) || opensAfter name (some c) rest

/-- Whether a quoted attribute of that name begins anywhere in the text. -/
def opens (name text : Text) : Bool :=
  opensAfter name none text

end TagStamp.Attribute
