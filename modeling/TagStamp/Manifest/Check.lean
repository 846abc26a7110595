import TagStamp.Manifest.Problem
import TagStamp.Text.Blank
import TagStamp.Text.Basic
import TagStamp.Text.Digit

namespace TagStamp.Manifest

/-- The outcome of a check. -/
inductive Checked (α : Type)
  | good (value : α)
  | bad (problems : List Problem)

namespace Checked

def problems {α : Type} : Checked α → List Problem
  | good _ => []
  | bad problems => problems

def map {α β : Type} (f : α → β) : Checked α → Checked β
  | good value => good (f value)
  | bad problems => bad problems

/-- Both outcomes together; the problems of the first come first. -/
def seq {α β : Type} (f : Checked (α → β)) (x : Checked α) : Checked β :=
  match f, x with
  | good f, good value => good (f value)
  | f, x => bad (f.problems ++ x.problems)

instance : Applicative Checked where
  pure := good
  map f x := x.map f
  seq f x := f.seq (x ())

/-- The outcome as seen from one level further out. -/
def under {α : Type} (step : Step) : Checked α → Checked α
  | good value => good value
  | bad problems => bad (problems.map (Problem.under step))

def fail {α : Type} (cause : Cause) : Checked α :=
  bad [⟨[], cause⟩]

/-- Outcomes of a list of checks, the problems in order. -/
def all {α : Type} : List (Checked α) → Checked (List α)
  | [] => good []
  | x :: xs => ((x.map List.cons).seq (all xs))

end Checked

def checkString : Json → Checked CodeString
  | .string value => .good value
  | _ => .fail .notString

/-- A string that is put to a further test has to be Unicode text. -/
def checkText (test : String → Option Cause) : Json → Checked String
  | .string (.text chars) =>
    match test chars with
    | none => .good chars
    | some cause => .fail cause
  | .string (.unpaired _) => .fail .notUnicode
  | _ => .fail .notString

def checkOptional {α : Type} (check : Json → Checked α) : Json → Checked (Option α)
  | .null => .good none
  | value => (check value).map some

def isIdStart (c : Char) : Bool :=
  'a' ≤ c && c ≤ 'z'

def isIdRest (c : Char) : Bool :=
  isIdStart c || ('0' ≤ c && c ≤ '9') || c == '.' || c == '-'

/-- An identifier starts with a small letter; digits, dots and hyphens may follow. -/
def isAgentId : Text → Bool
  | [] => false
  | c :: rest => isIdStart c && rest.all isIdRest

def checkAgentId : Json → Checked String :=
  checkText fun chars =>
    if isAgentId chars.toList then none else some (.mismatch "^[a-z][a-z0-9.-]*$")

/-- Versions take the digits of Unicode 16. -/
def isVersionDigit (c : Char) : Bool :=
  Text.isDecimalDigit c || Text.isNewDigit c

/-- A version is two numbers with a dot between them. -/
def isVersion (text : Text) : Bool :=
  match Text.pieces '.' text with
  | [major, minor] =>
    !major.isEmpty && major.all isVersionDigit && !minor.isEmpty && minor.all isVersionDigit
  | _ => false

def checkVersion : Json → Checked String :=
  checkText fun chars => if isVersion chars.toList then none else some (.mismatch "^\\d+\\.\\d+$")

def checkNonEmpty : Json → Checked String :=
  checkText fun chars => if chars.isEmpty then some .tooShort else none

/-- White space that a number may have around it; the information separators are not part of it. -/
def isMargin (c : Char) : Bool :=
  Text.isBlank c && !(0x1c ≤ c.toNat && c.toNat ≤ 0x1f)

def trim (text : Text) : Text :=
  ((text.dropWhile isMargin).reverse.dropWhile isMargin).reverse

/-- The longest integer, in digits, that is read from a string. -/
def maxDigits : Nat := 4300

/-- Reads a bare integer: maybe a minus sign, then digits without a zero in front. A string that begins
with too long an integer is refused for its length, whatever follows. -/
def bareInteger (text : Text) : Except Cause Int :=
  let negative : Bool := text.head? = some '-'
  let unsigned := if negative then text.drop 1 else text
  let digits := unsigned.takeWhile Char.isDigit
  if digits.isEmpty || (digits.head? = some '0' && digits.length ≠ 1) then .error .unreadableInteger
  else if maxDigits < digits.length then .error .hugeInteger
  else if digits.length < unsigned.length then .error .unreadableInteger
  else
    let magnitude : Int := digits.foldl (fun n c => 10 * n + (c.toNat - 48)) 0
    .ok (if negative then -magnitude else magnitude)

def isNonzeroDigit (c : Char) : Bool :=
  '1' ≤ c && c ≤ '9'

/-- Drops zeros at the front, and underscores among them, up to a digit or a minus sign. The character
before a fraction or the end stays, whichever of the two it is. -/
def withoutZeros? : Text → Option Text
  | '0' :: rest =>
    let skipped := '0' :: rest.takeWhile fun c => c == '0' || c == '_'
    let last := skipped.drop (skipped.length - 1)
    match rest.dropWhile fun c => c == '0' || c == '_' with
    | [] => some last
    | c :: rest =>
      if isNonzeroDigit c || c == '-' then some (c :: rest)
      else if c = '.' then some (last ++ c :: rest)
      else none
  | c :: rest => if isNonzeroDigit c || c == '-' then some (c :: rest) else none
  | [] => none

/-- Drops a fraction of zeros. -/
def withoutFraction (text : Text) : Text :=
  match text.dropWhile (· ≠ '.') with
  | '.' :: fraction =>
    if !fraction.isEmpty && fraction.all (· == '0') then text.takeWhile (· ≠ '.') else text
  | _ => text

/-- Drops underscores, if each of them stands alone between other characters. -/
def withoutUnderscores (text : Text) : Text :=
  let groups := Text.pieces '_' text
  if groups.all fun group => !group.isEmpty then groups.flatten else text

/-- Drops zeros at the front, a fraction of zeros, and underscores between the digits. -/
def plainDigits? (text : Text) : Option Text :=
  (withoutZeros? text).map fun text => withoutUnderscores (withoutFraction text)

/-- The bare form of an integer that may have blanks around it, a sign, zeros in front, a fraction of zeros,
and underscores between its digits. A plus sign is dropped, unless a minus sign follows; a minus sign is set
aside while the rest is made plain. -/
def bareForm? (text : Text) : Option Text :=
  match trim text with
  | '+' :: '-' :: _ => none
  | '+' :: rest => plainDigits? rest
  | '-' :: rest => (plainDigits? rest).map ('-' :: ·)
  | text => plainDigits? text

/-- Reads an integer, in its bare form or with something to leave out. In the second case its length is
not told apart from other reasons to refuse it. -/
def readInteger (text : Text) : Checked Int :=
  match bareInteger text with
  | .ok value => .good value
  | .error .unreadableInteger =>
    match (bareForm? text).map bareInteger with
    | some (.ok value) => .good value
    | _ => .fail .unreadableInteger
  | .error cause => .fail cause

/-- The least number that is too great for a signed integer of 64 bits. -/
def int64Limit : Int := 0x8000000000000000

/-- A double counts as an integer if it has no fraction and fits in 64 bits. -/
def wholeDouble (value : Decimal.Binary64) : Checked Int :=
  match value with
  | .nan | .infinite _ => .fail .notFinite
  | .finite .. =>
    match value.toInt? with
    | none => .fail .fractional
    | some n => if -int64Limit < n ∧ n < int64Limit then .good n else .fail .hugeInteger

def checkInteger : Json → Checked Int
  | .int value => .good value
  | .bool value => .good (if value then 1 else 0)
  | .float value => wholeDouble value
  | .string (.text chars) => readInteger chars.toList
  | .string (.unpaired _) => .fail .notUnicode
  | _ => .fail .notInteger

/-- Lines and columns count from one. -/
def checkPosition (value : Json) : Checked Int :=
  match checkInteger value with
  | .good n => if 1 ≤ n then .good n else .fail .belowOne
  | .bad problems => .bad problems

def truthOfInteger (n : Int) : Checked Bool :=
  if n = 0 then .good false else if n = 1 then .good true else .fail .unreadableBoolean

def truthOfText (text : Text) : Checked Bool :=
  let word := String.ofList (text.map Char.toLower)
  if word ∈ ["0", "off", "f", "false", "n", "no"] then .good false
  else if word ∈ ["1", "on", "t", "true", "y", "yes"] then .good true
  else .fail .unreadableBoolean

def checkBoolean : Json → Checked Bool
  | .bool value => .good value
  | .int value =>
    if -int64Limit ≤ value ∧ value < int64Limit then truthOfInteger value else .fail .notBoolean
  | .float value =>
    match wholeDouble value with
    | .good n => truthOfInteger n
    | .bad _ => .fail .notBoolean
  | .string (.text chars) => truthOfText chars.toList
  | .string (.unpaired _) => .fail .notUnicode
  | _ => .fail .notBoolean

def checkDictionary : Json → Checked (List (CodeString × Json))
  | .object members => .good members
  | _ => .fail .notDictionary

/-- A dictionary whose values are strings. -/
def checkStrings (value : Json) : Checked (List (CodeString × CodeString)) :=
  match value with
  | .object members =>
    .all (members.map fun m => ((checkString m.2).under (.member m.1)).map fun s => (m.1, s))
  | _ => .fail .notDictionary

end TagStamp.Manifest
