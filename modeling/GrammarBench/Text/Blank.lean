/-!
# Blank characters

Grammar lines are trimmed of blank characters at both ends before they are read, and a
number written in a table cell may stand between blanks. A character is blank when it has
the Unicode property White_Space, or when it is one of the information separators U+001C to
U+001F, which line-oriented text treats as breaks. Core's `Char.isWhitespace` misses the form
feed, the vertical tab and every blank outside ASCII, so the set is kept here as a table.
-/

namespace GrammarBench.Text

/-- The ranges of blank code points, in ascending order. -/
def blankRanges : List (Nat × Nat) :=
  [(0x9, 0xD), (0x1C, 0x20), (0x85, 0x85), (0xA0, 0xA0), (0x1680, 0x1680), (0x2000, 0x200A),
   (0x2028, 0x2029), (0x202F, 0x202F), (0x205F, 0x205F), (0x3000, 0x3000)]

/-- Whether a character is blank. -/
def isBlank (c : Char) : Bool :=
  blankRanges.any fun (first, last) => first ≤ c.toNat && c.toNat ≤ last

/-- The characters of a text without the blanks at either end. -/
def trimBlanks (cs : List Char) : List Char :=
  ((cs.dropWhile isBlank).reverse.dropWhile isBlank).reverse

/-- A text without the blanks at either end. -/
def trim (s : String) : String :=
  String.ofList (trimBlanks s.toList)

example : isBlank ' ' ∧ isBlank '\t' ∧ isBlank '\r' ∧ isBlank '\x0c' ∧ isBlank '\u3000' := by
  decide
example : trim " \tS->a b\r\n" = "S->a b" := by decide

end GrammarBench.Text
