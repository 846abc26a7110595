import TagStamp.Diff.Patch
import TagStamp.Proofs.Diff.Sides

namespace TagStamp.Diff

/-- The mark of a line that only one side has. -/
def Side.mark : Side → Char
  | old => '-'
  | new => '+'

/-- First line, counted from one, and number of lines on one side of a hunk. -/
structure Range where
  start : Nat
  count : Nat
deriving DecidableEq, Repr

/-- The line over a hunk. -/
structure Header where
  old : Range
  new : Range
deriving DecidableEq, Repr

def Header.on (h : Header) : Side → Range
  | .old => h.old
  | .new => h.new

/-- Reads the digits at the beginning of a text. -/
def readNumber? (text : Text) : Option (Nat × Text) :=
  match text.takeWhile Char.isDigit with
  | [] => none
  | digits => some (Nat.ofDigitChars 10 digits 0, text.dropWhile Char.isDigit)

def readRange? (text : Text) : Option (Range × Text) :=
  match readNumber? text with
  | some (start, ',' :: text) => (readNumber? text).map fun number => (⟨start, number.1⟩, number.2)
  | _ => none

/-- Reads a line such as `@@ -3,7 +3,8 @@`. -/
def readHeader? : Text → Option Header
  | '@' :: '@' :: ' ' :: '-' :: text =>
    match readRange? text with
    | some (old, ' ' :: '+' :: text) =>
      match readRange? text with
      | some (new, [' ', '@', '@']) => some ⟨old, new⟩
      | _ => none
    | _ => none
  | _ => none

/-- What has been done so far: the lines that are made, those that are still to be read and the number of
those that are read already, and how many lines of each kind the hunk still has to have. -/
structure Applier where
  made : List Text := []
  rest : List Text
  position : Nat := 0
  toRead : Nat := 0
  toMake : Nat := 0
deriving DecidableEq, Repr

namespace Applier

/-- Between hunks. -/
def isIdle (a : Applier) : Bool :=
  a.toRead == 0 && a.toMake == 0

/-- Copies the lines before a hunk. It has to begin where the header says on both sides. -/
def enter (side : Side) (a : Applier) (h : Header) : Option Applier :=
  let copied := (h.on side).start - 1 - a.position
  if a.position < (h.on side).start ∧ copied ≤ a.rest.length ∧
      (h.on side.other).start = a.made.length + copied + 1 then
    some
      { made := a.made ++ a.rest.take copied
        rest := a.rest.drop copied
        position := a.position + copied
        toRead := (h.on side).count
        toMake := (h.on side.other).count }
  else none

/-- Reads a line, which has to be the given one. -/
def read (a : Applier) (line : Text) : Option Applier :=
  match a.rest with
  | next :: rest =>
    if next = line ∧ 0 < a.toRead then
      some { a with rest, position := a.position + 1, toRead := a.toRead - 1 }
    else none
  | [] => none

def make (a : Applier) (line : Text) : Option Applier :=
  if 0 < a.toMake then some { a with made := a.made ++ [line], toMake := a.toMake - 1 } else none

/-- Takes in one line of the diff. -/
def step (side : Side) (a : Applier) (line : Text) : Option Applier :=
  if a.isIdle then (readHeader? line).bind (a.enter side)
  else
    match line with
    | [] => none
    | mark :: text =>
      if mark = ' ' then (a.read text).bind fun a => a.make text
      else if mark = side.mark then a.read text
      else if mark = side.other.mark then a.make text
      else none

/-- Copies the lines after the last hunk. -/
def finish (a : Applier) : Option (List Text) :=
  if a.isIdle then some (a.made ++ a.rest) else none

end Applier

/-- Applies hunks to the lines of a side. -/
def applyHunks (side : Side) (hunks lines : List Text) : Option (List Text) :=
  (hunks.foldlM (Applier.step side) { rest := lines }).bind Applier.finish

/-- Applies a diff, of which the two lines at the top name the file, to the lines of a side. The empty diff
leaves them as they are. -/
def patched? (side : Side) (path : Text) (diff : Text) (lines : List Text) : Option (List Text) :=
  if diff = [] then some lines
  else
    match Text.lines diff with
    | old :: new :: hunks =>
      if old = "--- a/".toList ++ path ∧ new = "+++ b/".toList ++ path then applyHunks side hunks lines else none
    | _ => none

theorem readNumber?_append {c : Char} (hc : c.isDigit = false) (n : Nat) (rest : Text) :
    readNumber? (Nat.toDigits 10 n ++ c :: rest) = some (n, c :: rest) := by
  have hdigits : ∀ d ∈ Nat.toDigits 10 n, d.isDigit = true := fun d hd =>
    Nat.isDigit_of_mem_toDigits (by decide) (by decide) hd
  have htake : (Nat.toDigits 10 n ++ c :: rest).takeWhile Char.isDigit = Nat.toDigits 10 n := by
    rw [List.takeWhile_append_of_pos hdigits]
    simp [hc]
  have hdrop : (Nat.toDigits 10 n ++ c :: rest).dropWhile Char.isDigit = c :: rest := by
    rw [List.dropWhile_append_of_pos hdigits]
    simp [hc]
  obtain ⟨d, ds, hd⟩ := List.exists_cons_of_ne_nil (Nat.toDigits_ne_nil (n := n) (b := 10))
  unfold readNumber?
  rw [htake, hdrop, hd]
  simp only
  rw [← hd, Nat.ofDigitChars_ten_toDigits]

private theorem readRange?_append {c : Char} (hc : c.isDigit = false) (start count : Nat) (rest : Text) :
    readRange? (Nat.toDigits 10 start ++ ',' :: (Nat.toDigits 10 count ++ c :: rest)) =
      some (⟨start, count⟩, c :: rest) := by
  rw [readRange?, readNumber?_append (by decide)]
  simp [readNumber?_append hc]

def Hunk.range (h : Hunk) : Side → Range
  | .old => ⟨h.oldStart, h.oldCount⟩
  | .new => ⟨h.newStart, h.newCount⟩

/-- The header of a hunk is read back as it was written. -/
theorem readHeader?_header (h : Hunk) : readHeader? h.header = some ⟨h.range .old, h.range .new⟩ := by
  have htext : h.header = '@' :: '@' :: ' ' :: '-' :: (Nat.toDigits 10 h.oldStart ++ ',' ::
      (Nat.toDigits 10 h.oldCount ++ ' ' :: '+' :: (Nat.toDigits 10 h.newStart ++ ',' ::
        (Nat.toDigits 10 h.newCount ++ [' ', '@', '@'])))) := by
    simp [Hunk.header]
  rw [htext, readHeader?]
  simp only [readRange?_append (show ' '.isDigit = false by decide)]
  rfl

end TagStamp.Diff
