import TagStamp.Text.Range

namespace TagStamp.Text

/-- The Unicode property of white space, and the four information separators U+001C to U+001F. -/
def blankRanges : Array CharRange :=
  #[(0x9, 0xd), (0x1c, 0x20), (0x85, 0x85), (0xa0, 0xa0), (0x1680, 0x1680), (0x2000, 0x200a),
    (0x2028, 0x2029), (0x202f, 0x202f), (0x205f, 0x205f), (0x3000, 0x3000)]

def isBlank (c : Char) : Bool :=
  inRanges blankRanges c

end TagStamp.Text
