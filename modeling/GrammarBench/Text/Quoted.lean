import GrammarBench.Text.Printable
/-!
# Quoted literals

Names of symbols and productions inside messages and listings are written as quoted
literals. A literal is enclosed in apostrophes, or in double marks when the text holds an
apostrophe and no double mark. Inside, the enclosing mark and the backslash are preceded by
a backslash; tab, line feed and carriage return are written `\t`, `\n` and `\r`; another
character that is not printable is written by its code point in lowercase hexadecimal, as
`\xhh` below U+0100, `\uhhhh` below U+10000 and `\Uhhhhhhhh` above; every other character
stands for itself.

Lists are written in brackets and sets in braces, the members separated by a comma and a
space; the empty set is written `set()`, since empty braces would read as an empty map.
-/

namespace GrammarBench.Text

/-- The apostrophe, the usual mark around a literal. -/
def apostrophe : Char := '\x27'

/-- The double mark, which encloses a literal that holds an apostrophe and no double mark. -/
def doubleMark : Char := '\x22'

/-- The lowercase hexadecimal digits of `n`, padded with zeros to `width` places. -/
def hexDigits (width n : Nat) : List Char :=
  let digits := Nat.toDigits 16 n
  List.replicate (width - digits.length) '0' ++ digits

/-- How one character is written inside a literal enclosed by `mark`. -/
def escape (mark c : Char) : List Char :=
  if c = mark ∨ c = '\\' then ['\\', c]
  else if c = '\t' then ['\\', 't']
  else if c = '\n' then ['\\', 'n']
  else if c = '\r' then ['\\', 'r']
  else if isPrintable c then [c]
  else if c.toNat < 0x100 then '\\' :: 'x' :: hexDigits 2 c.toNat
  else if c.toNat < 0x10000 then '\\' :: 'u' :: hexDigits 4 c.toNat
  else '\\' :: 'U' :: hexDigits 8 c.toNat

/-- The mark that encloses the literal of a text. -/
def markFor (cs : List Char) : Char :=
  if cs.contains apostrophe && !cs.contains doubleMark then doubleMark else apostrophe

/-- The literal of a text. -/
def quote (s : String) : String :=
  let mark := markFor s.toList
  String.ofList (mark :: s.toList.flatMap (escape mark) ++ [mark])

/-- A list of texts, written in brackets. -/
def quoteList (xs : List String) : String :=
  "[" ++ ", ".intercalate (xs.map quote) ++ "]"

/-- A set of texts in the given order, written in braces, or `set()` when it is empty. -/
def quoteSet (xs : List String) : String :=
  if xs.isEmpty then "set()" else "\x7b" ++ ", ".intercalate (xs.map quote) ++ "\x7d"

example : quote "S" = "'S'" := by
  decide +kernel
example : quote "a'b" = "\"a'b\"" := by
  decide +kernel
example : quote "a\tb\\" = "'a\\tb\\\\'" := by
  decide +kernel
example : quoteList ["S", "a"] = "['S', 'a']" := by
  decide +kernel
example : quoteSet [] = "set()" := by
  decide +kernel

end GrammarBench.Text
