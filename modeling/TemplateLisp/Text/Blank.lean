import TemplateLisp.Text.CharSet

/-!
# Blank characters

The characters that separate tokens and that trimming removes: every space, line and paragraph
separator of Unicode, with the control characters from tab to carriage return and the four
information separators.
-/

namespace TemplateLisp.Text

/-- Ranges of the blank characters. -/
def blankChars : CharSet := ⟨[
  (9, 13), (28, 32), (133, 133), (160, 160), (5760, 5760), (8192, 8202), (8232, 8233),
  (8239, 8239), (8287, 8287), (12288, 12288)]⟩

/-- Whether `c` is a blank character. -/
def isBlank (c : Char) : Bool := blankChars.contains c

/-- The text without the blanks at its two ends. -/
def trim (s : List Char) : List Char :=
  ((s.dropWhile isBlank).reverse.dropWhile isBlank).reverse

end TemplateLisp.Text
