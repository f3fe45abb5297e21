import GrammarBench.Grammar.Basic
import GrammarBench.Text.Blank
/-!
# Reading a grammar text

A grammar text holds one production per line. Each line is trimmed of blanks at both ends
and cleared of spaces; a line left empty is skipped. Tabs inside a line are kept, so a tab
in a body is a terminal. Reading stops at the first line that does not hold exactly one
arrow.
-/

namespace GrammarBench

/-- A grammar line as it is read: blanks trimmed at both ends, spaces removed. -/
def cleanLine (line : String) : String :=
  String.ofList ((Text.trimBlanks line.toList).filter (· != ' '))

namespace Grammar

/-- Adds the production of a line, unless the line is empty after cleaning. -/
def addLine (g : Grammar) (line : String) : Except Fault Grammar :=
  let clean := cleanLine line
  if clean.isEmpty then .ok g else (Production.ofLine clean).map g.add

/-- Reads a grammar text: the whole text is trimmed of blanks, then read line by line. -/
def ofText (text : String) : Except Fault Grammar :=
  ((Text.trimBlanks text.toList).splitOn '\n').foldlM
    (fun g line => g.addLine (String.ofList line)) empty

example : ((ofText "S->aSb\nS->c").map (·.nonterminals)).toOption = some ["S"] := by
  decide +kernel
example : ((ofText " S -> a S b \n\n S->c\r\n").map (·.terminals)).toOption =
    some ['a', 'b', 'c'] := by
  decide +kernel

end Grammar

end GrammarBench
