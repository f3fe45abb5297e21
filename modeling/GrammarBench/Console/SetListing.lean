import GrammarBench.Console.Session
import GrammarBench.Grammar.Follow
/-!
# FIRST and FOLLOW listing at the console

Reads a grammar and lists the FIRST set and then the FOLLOW set of every nonterminal, the
members in ascending order between braces. All sets are computed before anything is listed,
so a fault leaves only the prompt printed.

Main definition: `SetListing.run`.
-/

namespace GrammarBench

namespace SetListing

/-- A listed set: the members in ascending order, separated by commas, between braces. -/
def setText (s : CharSet) : String :=
  "\x7b " ++ ", ".intercalate s.names ++ " \x7d"

/-- The listing session; it gives the grammar it read. -/
def run : ConsoleM Grammar := do
  let g ← askGrammarOrFail
  let firsts ← ConsoleM.ofExcept g.firstSets
  let follows ← ConsoleM.ofExcept g.followSets
  say ""
  say "FIRST sets:"
  firsts.forM fun (name, s) => say ("FIRST(" ++ name ++ ") = " ++ setText s)
  say ""
  say "FOLLOW sets:"
  follows.forM fun (name, s) => say ("FOLLOW(" ++ name ++ ") = " ++ setText s)
  pure g

end SetListing

end GrammarBench
