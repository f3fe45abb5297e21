import GrammarBench.Text.Blank
/-!
# Decimal numerals

State numbers and production numbers are read from table cells and stack entries as
decimal numerals. Before the numeral is read, each character outside ASCII is brought into
ASCII: a blank becomes a space, a decimal digit of any script becomes the ASCII digit of the
same value, and every other character becomes `?`, which no numeral contains. ASCII
characters are kept as they are, so the information separators U+001C to U+001F, which are
blanks elsewhere, are not blanks here.

The numeral itself may stand between ASCII blanks (space, tab, line feed, vertical tab, form
feed, carriage return); a sign `+` or `-` may open it, and its digits may be grouped by
single underscores that stand between two digits. Leading zeros are allowed. A numeral of
more than `digitLimit` digits is refused as soon as its run of digits has been scanned,
before anything after the run is looked at.
-/

namespace GrammarBench.Text

/-- The runs of decimal digits of all scripts: each run starts at a digit zero, and the
digits follow in order, so the value of a digit is its distance from the start, modulo ten
for the runs that hold several sets of digits. -/
def decimalRanges : List (Nat × Nat) :=
  [(0x30, 0x39), (0x660, 0x669), (0x6F0, 0x6F9), (0x7C0, 0x7C9), (0x966, 0x96F),
   (0x9E6, 0x9EF), (0xA66, 0xA6F), (0xAE6, 0xAEF), (0xB66, 0xB6F), (0xBE6, 0xBEF),
   (0xC66, 0xC6F), (0xCE6, 0xCEF), (0xD66, 0xD6F), (0xDE6, 0xDEF), (0xE50, 0xE59),
   (0xED0, 0xED9), (0xF20, 0xF29), (0x1040, 0x1049), (0x1090, 0x1099), (0x17E0, 0x17E9),
   (0x1810, 0x1819), (0x1946, 0x194F), (0x19D0, 0x19D9), (0x1A80, 0x1A89), (0x1A90, 0x1A99),
   (0x1B50, 0x1B59), (0x1BB0, 0x1BB9), (0x1C40, 0x1C49), (0x1C50, 0x1C59), (0xA620, 0xA629),
   (0xA8D0, 0xA8D9), (0xA900, 0xA909), (0xA9D0, 0xA9D9), (0xA9F0, 0xA9F9), (0xAA50, 0xAA59),
   (0xABF0, 0xABF9), (0xFF10, 0xFF19), (0x104A0, 0x104A9), (0x10D30, 0x10D39),
   (0x11066, 0x1106F), (0x110F0, 0x110F9), (0x11136, 0x1113F), (0x111D0, 0x111D9),
   (0x112F0, 0x112F9), (0x11450, 0x11459), (0x114D0, 0x114D9), (0x11650, 0x11659),
   (0x116C0, 0x116C9), (0x11730, 0x11739), (0x118E0, 0x118E9), (0x11950, 0x11959),
   (0x11C50, 0x11C59), (0x11D50, 0x11D59), (0x11DA0, 0x11DA9), (0x16A60, 0x16A69),
   (0x16AC0, 0x16AC9), (0x16B50, 0x16B59), (0x1D7CE, 0x1D7FF), (0x1E140, 0x1E149),
   (0x1E2F0, 0x1E2F9), (0x1E950, 0x1E959), (0x1FBF0, 0x1FBF9)]

/-- The value of a decimal digit of any script. -/
def decimalValue? (c : Char) : Option Nat :=
  (decimalRanges.find? fun (first, last) => first ≤ c.toNat && c.toNat ≤ last).map
    fun (first, _) => (c.toNat - first) % 10

/-- A character as the numeral reader sees it: ASCII characters as they are, blanks as a
space, decimal digits as the ASCII digit of their value, anything else as `?`. -/
def toAsciiDigit (c : Char) : Char :=
  if c.toNat < 127 then c
  else if isBlank c then ' '
  else match decimalValue? c with
    | some d => Char.ofNat ('0'.toNat + d)
    | none => '?'

/-- The blanks that may stand around a numeral. -/
def isAsciiBlank (c : Char) : Bool :=
  c == ' ' || (9 ≤ c.toNat && c.toNat ≤ 13)

/-- The most digits a numeral may have. -/
def digitLimit : Nat := 4300

/-- Why a text is not read as a numeral. -/
inductive NumeralError where
  /-- The text is not a numeral. -/
  | malformed
  /-- The run of digits is longer than `digitLimit`; `count` is its length. -/
  | tooManyDigits (count : Nat)
  deriving DecidableEq, Repr

/-- Scans a run of digits grouped by single underscores, given the digits met so far,
latest first. `afterUnderscore` holds after an underscore, and also at the start, where
neither an underscore nor the end may come. Gives the digits, latest first, and what
follows the run, or `none` for a misplaced underscore or an empty run. -/
def digitRun : List Char → List Char → Bool → Option (List Char × List Char)
  | [], digits, afterUnderscore => if afterUnderscore then none else some (digits, [])
  | '_' :: rest, digits, afterUnderscore =>
    if afterUnderscore then none else digitRun rest digits true
  | c :: rest, digits, afterUnderscore =>
    if c.isDigit then digitRun rest (c :: digits) false
    else if afterUnderscore then none
    else some (digits, c :: rest)

/-- The value of ASCII digits given latest first. -/
def digitsValue (digits : List Char) : Nat :=
  digits.foldr (fun d acc => acc * 10 + (d.toNat - '0'.toNat)) 0

/-- The sign that may open a numeral, `true` for a minus, and the characters after it. -/
def splitSign : List Char → Bool × List Char
  | '-' :: rest => (true, rest)
  | '+' :: rest => (false, rest)
  | cs => (false, cs)

/-- Reads a signed decimal numeral between blanks, after bringing its characters into
ASCII. -/
def readInt (s : String) : Except NumeralError Int :=
  let cs := (s.toList.map toAsciiDigit).dropWhile isAsciiBlank
  let (negative, cs) := splitSign cs
  match digitRun cs [] true with
  | none => .error .malformed
  | some (digits, rest) =>
    if digitLimit < digits.length then .error (.tooManyDigits digits.length)
    else if rest.all isAsciiBlank then
      let n : Int := digitsValue digits
      .ok (if negative then -n else n)
    else .error .malformed

/-- Reads a numeral, or nothing when the text is not one. -/
def readInt? (s : String) : Option Int :=
  (readInt s).toOption

example : readInt? "12" = some 12 ∧ readInt? " -1 " = some (-1) ∧ readInt? "1_0" = some 10 := by
  decide
example : readInt? "x" = none ∧ readInt? "" = none ∧ readInt? "1__0" = none ∧
    readInt? "_1" = none ∧ readInt? "1_" = none ∧ readInt? "s1" = none := by
  decide
example : readInt? "٢" = some 2 ∧ readInt? "-२" = some (-2) ∧
    readInt? "০২" = some 2 ∧ readInt? "　1　" = some 1 := by
  decide
example : readInt? "2\x1f" = none ∧ readInt? "\x1c1" = none := by
  decide

end GrammarBench.Text
