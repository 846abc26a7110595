import TagStamp.Text.Basic

namespace TagStamp

inductive CodeString
  | text (chars : String)
  /-- A string that is no text, because one of its code points is a surrogate. -/
  | unpaired (codePoints : List Nat)
deriving DecidableEq, Repr

namespace CodeString

instance : Inhabited CodeString := ⟨.text ""⟩

instance : Coe String CodeString := ⟨.text⟩

def isSurrogate (code : Nat) : Bool :=
  0xd800 ≤ code && code ≤ 0xdfff

def ofCodePoints (codes : List Nat) : CodeString :=
  if codes.any isSurrogate then .unpaired codes else .text (String.ofList (codes.map Char.ofNat))

def codePoints : CodeString → List Nat
  | text chars => chars.toList.map Char.toNat
  | unpaired codes => codes

/-- The characters of a text; a string with surrogates has code points that are none. -/
def chars? : CodeString → Option Text
  | text chars => some chars.toList
  | unpaired _ => none

def isEmpty : CodeString → Bool
  | text chars => chars.isEmpty
  | unpaired codes => codes.isEmpty

def length (s : CodeString) : Nat :=
  s.codePoints.length

@[simp]
theorem chars?_text (chars : String) : (text chars).chars? = some chars.toList := rfl

@[simp]
theorem length_text (chars : String) : (text chars).length = chars.length := by
  simp [length, codePoints, String.length_toList]

def append : CodeString → CodeString → CodeString
  | text a, text b => text (a ++ b)
  | a, b => unpaired (a.codePoints ++ b.codePoints)

instance : Append CodeString := ⟨append⟩

@[simp]
theorem text_append_text (a b : String) : text a ++ text b = text (a ++ b) := rfl

def join (parts : List CodeString) : CodeString :=
  parts.foldl (· ++ ·) (.text "")

/-- The string as text, with something else in place of every surrogate. -/
def replacing (surrogate : Nat → Text) : CodeString → String
  | text chars => chars
  | unpaired codes =>
    String.ofList (codes.flatMap fun code => if isSurrogate code then surrogate code else [Char.ofNat code])

/-- The text of a string that was taken apart into octets: a surrogate has three of them, and none is part
of a character. -/
def lossy : CodeString → String :=
  replacing fun _ => ['\ufffd', '\ufffd', '\ufffd']

/-- The text of a string with surrogates as escapes. -/
def escaped : CodeString → String :=
  replacing fun code => '\\' :: 'u' :: Text.hex 4 code

end CodeString

end TagStamp
