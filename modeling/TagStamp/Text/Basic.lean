namespace TagStamp

/-- Positions, columns and lengths count characters, which is why text is a list of them. -/
abbrev Text := List Char

namespace Text

/-- The pieces between separators. There is always at least one, and none holds a separator. -/
def pieces (separator : Char) : Text → List Text
  | [] => [[]]
  | c :: rest =>
    if c = separator then [] :: pieces separator rest
    else match pieces separator rest with
      | [] => [[c]]
      | piece :: others => (c :: piece) :: others

/-- The given pieces with a separator between neighbours. -/
def joined (separator : Char) : List Text → Text
  | [] => []
  | [piece] => piece
  | piece :: others => piece ++ separator :: joined separator others

theorem pieces_ne_nil (separator : Char) (text : Text) : pieces separator text ≠ [] := by
  cases text with
  | nil => simp [pieces]
  | cons c rest =>
    rw [pieces]
    split
    · simp
    · split <;> simp

theorem joined_pieces (separator : Char) (text : Text) :
    joined separator (pieces separator text) = text := by
  induction text with
  | nil => rfl
  | cons c rest ih =>
    rw [pieces]
    obtain ⟨piece, others, hpieces⟩ := List.exists_cons_of_ne_nil (pieces_ne_nil separator rest)
    rw [hpieces] at ih ⊢
    split
    · next hc =>
      rw [joined, ih, hc]
      · simp
      · simp
    · cases others <;> simpa [joined] using ih

/-- The lines of a text. Only the line feed divides lines, so a carriage return stays with the line that
it ends. -/
def lines (text : Text) : List Text :=
  pieces '\n' text

def unlines (lines : List Text) : Text :=
  joined '\n' lines

theorem unlines_lines (text : Text) : unlines (lines text) = text :=
  joined_pieces '\n' text

/-- Carriage returns, alone or before a line feed, become line feeds. -/
def foldReturns : Text → Text
  | [] => []
  | '\r' :: '\n' :: rest => '\n' :: foldReturns rest
  | c :: rest => (if c = '\r' then '\n' else c) :: foldReturns rest

/-- The lowest `width` hexadecimal digits of a number, in lower case. -/
def hex : Nat → Nat → Text
  | 0, _ => []
  | width + 1, n => hex width (n / 16) ++ [Nat.digitChar (n % 16)]

end Text

end TagStamp
