namespace TagStamp.Text

/-- First and last code point of a run of characters. -/
abbrev CharRange := Nat × Nat

def inRanges (ranges : Array CharRange) (c : Char) : Bool :=
  ranges.any fun range => range.1 ≤ c.toNat && c.toNat ≤ range.2

end TagStamp.Text
