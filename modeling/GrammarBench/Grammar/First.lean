import GrammarBench.Grammar.Basic
/-!
# FIRST sets

FIRST of a symbol is computed afresh from the productions each time it is asked for. A
terminal's FIRST set is the terminal itself. For a nonterminal, each of its productions is
read: an empty body contributes the empty mark; otherwise the body is read from the left,
each symbol contributing its FIRST set without the empty mark, until a symbol whose FIRST set
lacks the empty mark; the empty mark is contributed when the last symbol read has it.

An occurrence of the nonterminal itself in its own body is passed over. Each FIRST set asked
for inside another computation nests one level deeper, and the computations may nest at most
`firstDepthLimit` levels, the room the call stack of the web service leaves them. The
command-line tools call them from fewer enclosing frames and have more room, about 995
levels; the room is an argument of `Grammar.firstWithin`, and its theory holds for every room.
A chain through other nonterminals that leads back to a symbol whose FIRST set is being
computed would nest without end, and a chain of nonterminals longer than the limit runs out of
room: both are reported as `Fault.recursionTooDeep`. Only recorded nonterminals own a FIRST
set, so asking for the FIRST set of any other name is reported as `Fault.unregistered`.

Main definitions: `Grammar.first`, and `Grammar.firstSets`, the sets that the nonterminals
keep once each has been computed.
-/

namespace GrammarBench

namespace Grammar

/-- Adds `more` to the FIRST set `acc` of `name`, which must be a recorded nonterminal. -/
def own (g : Grammar) (name : String) (acc more : CharSet) : Except Fault CharSet :=
  if g.isNonterminal name then .ok (acc.union more) else .error (.unregistered name)

/-- The contributions of a nonempty body to the FIRST set of `name`, read from the left;
`child` gives the FIRST set of a body symbol. -/
def bodyFirst (g : Grammar) (name : String) (child : Char → Except Fault CharSet) :
    List Char → CharSet → Except Fault CharSet
  | [], acc => .ok acc
  | y :: rest, acc =>
    if y.toString == name then g.bodyFirst name child rest acc
    else do
      let t ← child y
      let acc ← g.own name acc (t.erase emptyMark)
      if !t.contains emptyMark then .ok acc
      else if rest.isEmpty then g.own name acc (.single emptyMark)
      else g.bodyFirst name child rest acc

/-- The FIRST set of `name` from all its productions, in order; `child` gives the FIRST set
of a body symbol. -/
def firstFrame (g : Grammar) (name : String) (child : Char → Except Fault CharSet) :
    Except Fault CharSet := do
  let step := fun acc p =>
    if p.head != name then .ok acc
    else if p.body.isEmpty then g.own name acc (.single emptyMark)
    else g.bodyFirst name child p.body acc
  let acc ← g.productions.foldlM step CharSet.empty
  if g.isNonterminal name then .ok acc else .error (.unregistered name)

/-- How many FIRST computations may nest, the outermost one included, in the web service. -/
def firstDepthLimit : Nat := 960

/-- The FIRST set of `name` while the FIRST sets of the names on `path` are being computed,
with room for `fuel` more levels. A name met twice on the path is a cycle, which would nest
until the room runs out; it is reported at once, with the same fault. -/
def firstWithin (g : Grammar) : Nat → List String → String → Except Fault CharSet
  | 0, _, _ => .error .recursionTooDeep
  | fuel + 1, path, name =>
    if g.isTerminalName name then .ok (CharSet.ofList name.toList)
    else if path.contains name then .error .recursionTooDeep
    else g.firstFrame name fun y => g.firstWithin fuel (name :: path) y.toString

/-- The FIRST set of a symbol or nonterminal name. -/
def first (g : Grammar) (name : String) : Except Fault CharSet :=
  g.firstWithin firstDepthLimit [] name

/-- The FIRST set of a body character. -/
def firstOfChar (g : Grammar) (c : Char) : Except Fault CharSet :=
  g.first c.toString

/-- The FIRST set that a nonterminal keeps once it has been computed. A nonterminal whose
name is also a terminal is answered as a terminal and keeps an empty set. -/
def keptFirst (g : Grammar) (name : String) : Except Fault CharSet := do
  let f ← g.first name
  pure (if g.isTerminalName name then CharSet.empty else f)

/-- The FIRST sets of all nonterminals, computed in the order of the nonterminals; the first
fault met ends the computation. -/
def firstSets (g : Grammar) : Except Fault (List (String × CharSet)) :=
  g.nonterminals.mapM fun name => do pure (name, ← g.keptFirst name)

end Grammar

end GrammarBench
