import TagStamp.Text.Basic
import TagStamp.Text.Printable

namespace TagStamp.Text

/-- Apostrophes, unless the text holds an apostrophe and no double quote. -/
def quoteMark (text : Text) : Char :=
  if text.contains '\x27' && !text.contains '\x22' then '\x22' else '\x27'

/-- How one character is shown between the given quotes. -/
def escape (mark c : Char) : Text :=
  if c = mark || c = '\\' then ['\\', c]
  else if c = '\t' then ['\\', 't']
  else if c = '\n' then ['\\', 'n']
  else if c = '\r' then ['\\', 'r']
  else if isPrintable c then [c]
  else if c.toNat < 0x100 then '\\' :: 'x' :: hex 2 c.toNat
  else if c.toNat < 0x10000 then '\\' :: 'u' :: hex 4 c.toNat
  else '\\' :: 'U' :: hex 8 c.toNat

def quote (text : Text) : Text :=
  let mark := quoteMark text
  mark :: text.flatMap (escape mark) ++ [mark]

end TagStamp.Text

namespace TagStamp

/-- A string as messages show it. -/
def quoted (s : String) : String :=
  String.ofList (Text.quote s.toList)

end TagStamp
