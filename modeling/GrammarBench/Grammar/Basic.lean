import GrammarBench.CharSet
import GrammarBench.Fault
import GrammarBench.Text.Split
import GrammarBench.Text.Uppercase
/-!
# Grammars

A grammar is a list of productions `head->body`. A body is a string of one-character
symbols: a character with the Unicode property Uppercase is a nonterminal, any other
character a terminal. A head is any text without an arrow; it names a nonterminal, usually a
single uppercase letter, but a head of several characters, or a lowercase head, is a
nonterminal too, and a lowercase head may at the same time be a terminal of some body.

The grammar records its nonterminals and terminals in the order in which they are first
seen: a head before the symbols of its body, and the body from left to right. The first
nonterminal seen is the start symbol.
-/

namespace GrammarBench

/-- The mark of the empty string in FIRST sets: a body that can vanish contributes it. -/
def emptyMark : Char := 'ϵ'

/-- The end marker: it follows the start symbol and ends every input. -/
def endMarker : Char := '$'

/-- A production: a head and the characters of its body. -/
structure Production where
  head : String
  body : List Char
  deriving DecidableEq, Repr

namespace Production

/-- The production written as `head->body`. -/
def text (p : Production) : String :=
  p.head ++ "->" ++ String.ofList p.body

/-- Reads a production from a line that holds exactly one arrow. -/
def ofLine (line : String) : Except Fault Production :=
  match Text.cutArrows line.toList with
  | [head, body] => .ok ⟨String.ofList head, body⟩
  | [_] => .error (.tooFewPieces 1)
  | _ => .error .tooManyPieces

example : ofLine "S->aSb" = .ok ⟨"S", ['a', 'S', 'b']⟩ := rfl
example : ofLine "S" = .error (.tooFewPieces 1) := rfl

end Production

/-- A grammar: its productions in order, and its nonterminals and terminals in the order
in which they are first seen. -/
structure Grammar where
  productions : List Production
  nonterminals : List String
  terminals : List Char
  deriving Repr

namespace Grammar

/-- The grammar without productions. -/
def empty : Grammar := ⟨[], [], []⟩

/-- Records a nonterminal name, unless it is known already. -/
def noteNonterminal (g : Grammar) (name : String) : Grammar :=
  if g.nonterminals.contains name then g else { g with nonterminals := g.nonterminals ++ [name] }

/-- Records a body symbol: an uppercase character as a nonterminal, any other character as a
terminal, unless it is known already. -/
def noteSymbol (g : Grammar) (c : Char) : Grammar :=
  if Text.isUppercase c then g.noteNonterminal c.toString
  else if g.terminals.contains c then g
  else { g with terminals := g.terminals ++ [c] }

/-- The grammar with one more production, its head and body symbols recorded. -/
def add (g : Grammar) (p : Production) : Grammar :=
  p.body.foldl noteSymbol ({ g with productions := g.productions ++ [p] }.noteNonterminal p.head)

/-- Whether a name is a terminal: a single character that occurs as a terminal. -/
def isTerminalName (g : Grammar) (name : String) : Bool :=
  g.terminals.any fun c => c.toString == name

/-- Whether a name is a recorded nonterminal. -/
def isNonterminal (g : Grammar) (name : String) : Bool :=
  g.nonterminals.contains name

/-- The start symbol: the first nonterminal seen. -/
def start? (g : Grammar) : Option String :=
  g.nonterminals.head?

end Grammar

end GrammarBench
