import TagStamp.Json.Value
import TagStamp.Text.Basic

namespace TagStamp.Json

/-- What a text can have wrong. -/
inductive Fault
  | value
  | name
  | colon
  | comma
  | extra
  | unterminated
  | control
  | escape
  | unicodeEscape
  | byteOrderMark
deriving DecidableEq, Repr

def Fault.text : Fault → String
  | value => "Expecting value"
  | name => "Expecting property name enclosed in double quotes"
  | colon => "Expecting ':' delimiter"
  | comma => "Expecting ',' delimiter"
  | extra => "Extra data"
  | unterminated => "Unterminated string starting at"
  | control => "Invalid control character at"
  | escape => "Invalid \\escape"
  | unicodeEscape => "Invalid \\uXXXX escape"
  | byteOrderMark => "Unexpected UTF-8 BOM (decode using utf-8-sig)"

/-- What is too much for the reader. -/
inductive Limit
  | digits (count : Nat)
  | nestedArray
  | nestedObject
deriving DecidableEq, Repr

inductive ReadError
  | malformed (fault : Fault) (position : Nat)
  | beyond (limit : Limit)
deriving DecidableEq, Repr

/-- Line and column of a position, both counted from one. -/
def lineAndColumn (source : Text) (position : Nat) : Nat × Nat :=
  let before := source.take position
  (before.count '\n' + 1, (before.reverse.takeWhile (· ≠ '\n')).length + 1)

/-- The longest integer, in digits, that is read. -/
def maxIntegerDigits : Nat := 4300

def Limit.message : Limit → String
  | digits count =>
    "Exceeds the limit (" ++ toString maxIntegerDigits ++
      " digits) for integer string conversion: value has " ++ toString count ++
      " digits; use sys.set_int_max_str_digits() to increase the limit"
  | nestedArray =>
    "maximum recursion depth exceeded while decoding a JSON array from a unicode string"
  | nestedObject =>
    "maximum recursion depth exceeded while decoding a JSON object from a unicode string"

/-- A fault with its place in the text. -/
def Fault.message (fault : Fault) (source : Text) (position : Nat) : String :=
  let (line, column) := lineAndColumn source position
  fault.text ++ ": line " ++ toString line ++ " column " ++ toString column ++ " (char " ++
    toString position ++ ")"

/-- What is left of the text, and the position where it starts. -/
structure Cursor where
  position : Nat
  rest : Text
deriving DecidableEq, Repr

def Cursor.fail {α : Type} (c : Cursor) (fault : Fault) : Except ReadError (α × Cursor) :=
  .error (.malformed fault c.position)

def Cursor.advance (c : Cursor) (n : Nat) : Cursor :=
  ⟨c.position + n, c.rest.drop n⟩

def isSpace (c : Char) : Bool :=
  c == ' ' || c == '\t' || c == '\n' || c == '\r'

def Cursor.skipSpace (c : Cursor) : Cursor :=
  c.advance (c.rest.takeWhile isSpace).length

def hexDigit? (c : Char) : Option Nat :=
  if c.isDigit then some (c.toNat - 48)
  else if 'a' ≤ c ∧ c ≤ 'f' then some (c.toNat - 87)
  else if 'A' ≤ c ∧ c ≤ 'F' then some (c.toNat - 55)
  else none

def hexNumber? (digits : Text) : Option Nat :=
  digits.foldlM (fun n c => (hexDigit? c).map (16 * n + ·)) 0

def simpleEscape? (c : Char) : Option Char :=
  match c with
  | '\x22' => some '\x22'
  | '\\' => some '\\'
  | '/' => some '/'
  | 'b' => some '\x08'
  | 'f' => some '\x0c'
  | 'n' => some '\n'
  | 'r' => some '\r'
  | 't' => some '\t'
  | _ => none

/-- The four digits of a `\u` escape, given the text after its `u`. The string cannot end with the escape,
so a fifth character has to follow. -/
def escapedUnit? (rest : Text) : Option Nat :=
  if rest.drop 4 = [] then none else hexNumber? (rest.take 4)

/-- The low surrogate that an escape right after a high surrogate adds: `none` if the escape is no low
surrogate or stands too close to the end, an error if its digits are wrong. -/
def lowSurrogate? (position : Nat) (rest : Text) : Except ReadError (Option Nat) :=
  match rest with
  | '\\' :: 'u' :: digits =>
    if digits.drop 4 = [] then .ok none
    else match hexNumber? (digits.take 4) with
      | none => .error (.malformed .unicodeEscape (position + 1))
      | some code => .ok (if 0xdc00 ≤ code ∧ code ≤ 0xdfff then some code else none)
  | _ => .ok none

/-- The code points of a string up to its closing quote, newest first, from a position inside it. `start`
is the position of the opening quote. Every step takes a character, so the fuel suffices if it exceeds the
length of the rest. -/
def stringFrom (start : Nat) : Nat → Cursor → List Nat → Except ReadError (List Nat × Cursor)
  | 0, _, _ => .error (.malformed .unterminated start)
  | fuel + 1, cursor, codes =>
    match cursor.rest with
    | [] => .error (.malformed .unterminated start)
    | '\x22' :: _ => .ok (codes, cursor.advance 1)
    | '\\' :: [] => .error (.malformed .unterminated start)
    | '\\' :: 'u' :: rest =>
      match escapedUnit? rest with
      | none => (cursor.advance 1).fail .unicodeEscape
      | some high =>
        let after := cursor.advance 6
        if 0xd800 ≤ high ∧ high ≤ 0xdbff then do
          match ← lowSurrogate? after.position after.rest with
          | some low =>
            stringFrom start fuel (after.advance 6)
              ((0x10000 + (high - 0xd800) * 0x400 + (low - 0xdc00)) :: codes)
          | none => stringFrom start fuel after (high :: codes)
        else stringFrom start fuel after (high :: codes)
    | '\\' :: c :: _ =>
      match simpleEscape? c with
      | none => cursor.fail .escape
      | some meant => stringFrom start fuel (cursor.advance 2) (meant.toNat :: codes)
    | c :: _ =>
      if c.toNat < 0x20 then cursor.fail .control
      else stringFrom start fuel (cursor.advance 1) (c.toNat :: codes)

/-- Reads a string whose opening quote is the next character. -/
def readString (fuel : Nat) (cursor : Cursor) : Except ReadError (CodeString × Cursor) := do
  let (codes, after) ← stringFrom cursor.position fuel (cursor.advance 1) []
  return (.ofCodePoints codes.reverse, after)

def digitsValue (digits : Text) : Nat :=
  digits.foldl (fun n c => 10 * n + (c.toNat - 48)) 0

/-- The parts of a number: sign, digits before the point, digits after it, and the exponent. The point and
the exponent belong to the number only with a digit behind them. -/
structure Numeral where
  negative : Bool
  whole : Text
  fraction : Option Text
  exponent : Option (Bool × Text)
deriving DecidableEq, Repr

def Numeral.length (n : Numeral) (signedExponent : Bool) : Nat :=
  (if n.negative then 1 else 0) + n.whole.length + (n.fraction.map (·.length + 1)).getD 0 +
    (n.exponent.map fun e => e.2.length + 1 + if signedExponent then 1 else 0).getD 0

/-- The digits of a fraction, if the text goes on with one. -/
def fraction? : Text → Option Text
  | '.' :: rest =>
    let digits := rest.takeWhile Char.isDigit
    if digits.isEmpty then none else some digits
  | _ => none

/-- Sign mark, sign and digits of an exponent, if the text goes on with one. -/
def exponent? : Text → Option (Bool × Bool × Text)
  | c :: rest =>
    if c = 'e' ∨ c = 'E' then
      let signed := rest.head? = some '+' ∨ rest.head? = some '-'
      let digits := (if signed then rest.drop 1 else rest).takeWhile Char.isDigit
      if digits.isEmpty then none else some (signed, rest.head? = some '-', digits)
    else none
  | [] => none

/-- The number at the beginning of a text, and its length. No digit follows a leading zero. -/
def numeral? (text : Text) : Option (Numeral × Nat) :=
  let negative : Bool := text.head? = some '-'
  let unsigned := if negative then text.drop 1 else text
  let digits := unsigned.takeWhile Char.isDigit
  match digits with
  | [] => none
  | first :: _ =>
    let whole := if first = '0' then ['0'] else digits
    let rest := unsigned.drop whole.length
    let fraction := fraction? rest
    let rest := rest.drop ((fraction.map (·.length + 1)).getD 0)
    let exponent := exponent? rest
    let numeral := { negative, whole, fraction, exponent := exponent.map (·.2) }
    some (numeral, numeral.length ((exponent.map (·.1)).getD false))

/-- The value of a number. Without fraction and exponent it is an exact integer. -/
def Numeral.value (n : Numeral) : Except ReadError Json :=
  match n.fraction, n.exponent with
  | none, none =>
    if maxIntegerDigits < n.whole.length then .error (.beyond (.digits n.whole.length))
    else
      let magnitude : Int := digitsValue n.whole
      .ok (.int (if n.negative then -magnitude else magnitude))
  | fraction, exponent =>
    let after := fraction.getD []
    let power : Int := match exponent with
      | none => 0
      | some (true, digits) => -(digitsValue digits : Int)
      | some (false, digits) => digitsValue digits
    .ok (.float (.ofDecimal n.negative (digitsValue (n.whole ++ after)) (power - after.length)))

def readNumber (cursor : Cursor) : Except ReadError (Json × Cursor) :=
  match numeral? cursor.rest with
  | none => cursor.fail .value
  | some (numeral, length) => do return (← numeral.value, cursor.advance length)

/-- The literals, each with its value. -/
def literals : List (Text × Json) :=
  [("null".toList, .null), ("true".toList, .bool true), ("false".toList, .bool false),
    ("NaN".toList, .float .nan), ("Infinity".toList, .float (.infinite false)),
    ("-Infinity".toList, .float (.infinite true))]

def readScalar (cursor : Cursor) : Except ReadError (Json × Cursor) :=
  match literals.find? fun literal => literal.1.isPrefixOf cursor.rest with
  | some (name, value) => .ok (value, cursor.advance name.length)
  | none => readNumber cursor

/-- Closes a list of items or asks for the next one. Returns whether another item follows. -/
def readSeparator (closing : Char) (cursor : Cursor) : Except ReadError (Bool × Cursor) :=
  let cursor := cursor.skipSpace
  match cursor.rest with
  | c :: _ =>
    if c = closing then .ok (false, cursor.advance 1)
    else if c = ',' then .ok (true, (cursor.advance 1).skipSpace)
    else cursor.fail .comma
  | [] => cursor.fail .comma

/-- Reads the name of a member and the colon after it. -/
def readName (fuel : Nat) (cursor : Cursor) : Except ReadError (CodeString × Cursor) := do
  if cursor.rest.head? = some '\x22' then
    let (name, cursor) ← readString fuel cursor
    let cursor := cursor.skipSpace
    if cursor.rest.head? = some ':' then return (name, (cursor.advance 1).skipSpace)
    else cursor.fail .colon
  else cursor.fail .name

mutual

/-- Reads a value; `nesting` tells how many more levels of arrays and objects there may be. The fuel stays
above twice the length of the rest, because a value inside an array or an object takes two units of it and
comes after at least one character more. -/
def readValue : Nat → Nat → Cursor → Except ReadError (Json × Cursor)
  | 0, _, cursor => cursor.fail .value
  | fuel + 1, nesting, cursor =>
    match cursor.rest, nesting with
    | '\x22' :: _, _ => do
      let (value, after) ← readString fuel cursor
      return (.string value, after)
    | '[' :: _, 0 => .error (.beyond .nestedArray)
    | '\x7b' :: _, 0 => .error (.beyond .nestedObject)
    | '[' :: _, nesting + 1 =>
      let inner := (cursor.advance 1).skipSpace
      if inner.rest.head? = some ']' then .ok (.array [], inner.advance 1)
      else do
        let (items, after) ← readItems fuel nesting inner
        return (.array items, after)
    | '\x7b' :: _, nesting + 1 =>
      let inner := (cursor.advance 1).skipSpace
      if inner.rest.head? = some '\x7d' then .ok (.object [], inner.advance 1)
      else do
        let (members, after) ← readMembers fuel nesting inner []
        return (.object members, after)
    | _, _ => readScalar cursor

/-- Reads the items of an array, at least one, and the bracket that closes it. -/
def readItems : Nat → Nat → Cursor → Except ReadError (List Json × Cursor)
  | 0, _, cursor => cursor.fail .value
  | fuel + 1, nesting, cursor => do
    let (item, cursor) ← readValue fuel nesting cursor
    let (more, cursor) ← readSeparator ']' cursor
    if more then
      let (items, cursor) ← readItems fuel nesting cursor
      return (item :: items, cursor)
    else return ([item], cursor)

/-- Reads the members of an object, at least one, and the brace that closes it. -/
def readMembers :
    Nat → Nat → Cursor → List (CodeString × Json) → Except ReadError (List (CodeString × Json) × Cursor)
  | 0, _, cursor, _ => cursor.fail .name
  | fuel + 1, nesting, cursor, members => do
    let (name, cursor) ← readName fuel cursor
    let (value, cursor) ← readValue fuel nesting cursor
    let members := insertMember name value members
    let (more, cursor) ← readSeparator '\x7d' cursor
    if more then readMembers fuel nesting cursor members
    else return (members, cursor)

end

/-- Reads a whole text as one value with at most so many levels of nesting. Beside those of the standard
grammar, `NaN`, `Infinity` and `-Infinity` are numbers, and of several members with one name the last value
counts. -/
def readNested (nesting : Nat) (source : Text) : Except ReadError Json := do
  if source.head? = some '\ufeff' then throw (.malformed .byteOrderMark 0)
  let start := (Cursor.mk 0 source).skipSpace
  let (value, after) ← readValue (2 * source.length + 1) nesting start
  let after := after.skipSpace
  if after.rest.isEmpty then return value
  else throw (.malformed .extra after.position)

end TagStamp.Json
