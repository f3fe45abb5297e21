import GrammarBench.Grammar.Reading
import GrammarBench.Lr.Table
import GrammarBench.Lr.Trace
import GrammarBench.Ll.Trace
/-!
# The analysis service

The service answers two requests on a grammar text and an optional input text.

* The LR analysis reports the FIRST and FOLLOW sets, the LR(1) states, the ACTION/GOTO table
  as text, and, when the input is not empty, the shift-reduce parse of the input.
* The LL(1) analysis reports the FIRST and FOLLOW sets, the LL(1) table as text, and, when
  the input is not empty, the predictive parse of the input from the head of the first
  production; or it reports the first conflict that keeps the grammar from being LL(1).

Both also serve to load a grammar before a parse with a table that a client hands in.

Main definitions: `analyzeLr`, `analyzeLl`, `parseWithActions`, `parseWithPredictions`.
-/

namespace GrammarBench

/-- Reads the grammar of a request; an absent grammar is the empty text. -/
def readGrammarField (grammar : Option Field) : Except Fault Grammar := do
  let text ← (grammar.getD (.text "")).asText "strip"
  Grammar.ofText text

/-- The input of a request as a text to which the end marker is added. -/
def inputText (input : Option Field) : Except Fault String :=
  match input.getD (.text "") with
  | .text s => .ok s
  | other => .error (.notExtensible other.kind)

/-- The LR(1) automaton and table of a grammar. -/
structure LrAnalysis where
  grammar : Grammar
  firsts : List (String × CharSet)
  follows : FollowSets
  productions : List Production
  states : List (List Item)
  table : ActionTable

/-- What the LR analysis reports. -/
structure LrReport where
  firsts : List (String × CharSet)
  follows : FollowSets
  states : List (List Item)
  table : String
  parse : Option Trace

/-- Builds the automaton and the table of a grammar: FIRST and FOLLOW sets first, then the
augmented grammar's states and their table. -/
def LrAnalysis.ofGrammar (g : Grammar) : Except Fault LrAnalysis := do
  let firsts ← g.firstSets
  let follows ← g.followSets
  let productions ← g.augment
  let ctx := g.itemContext productions
  let start ← match productions.head? with
    | some p => pure p
    | none => throw .pastEndOfList
  let symbols := g.nonterminals ++ g.terminals.map Char.toString
  let states ← ctx.states symbols (Item.start start (.single endMarker))
  let table ← ActionTable.build g ctx states
  pure ⟨g, firsts, follows, productions, states, table⟩

/-- The table as a list of rows, each a dictionary of text cells, for a shift-reduce parse. -/
def ActionTable.toRows (t : ActionTable) : Field :=
  .list (t.rows.map fun row => .dict (row.map fun (k, v) => (k, .text v)))

/-- The LR analysis of a request. -/
def analyzeLr (grammar input : Option Field) : Except Fault LrReport := do
  let a ← LrAnalysis.ofGrammar (← readGrammarField grammar)
  let parse ← if (input.getD (.text "")).truthy then
      some <$> shiftReduce a.productions a.table.toRows (← inputText input)
    else pure none
  pure ⟨a.firsts, a.follows, a.states, a.table.render a.grammar, parse⟩

/-- A shift-reduce parse with a table handed in, after the grammar has been analysed. -/
def parseWithActions (grammar input : Option Field) (table : Field) :
    Except Fault Trace := do
  let a ← LrAnalysis.ofGrammar (← readGrammarField grammar)
  shiftReduce a.productions table (← inputText input)

/-- What the LL(1) analysis reports when the grammar has no conflict. -/
structure LlReport where
  firsts : List (String × CharSet)
  follows : FollowSets
  table : String
  parse : Option Trace

/-- The answer of the LL(1) analysis: a report, or the first conflict. -/
inductive LlAnswer where
  | report (r : LlReport)
  | conflict (c : LlConflict)

/-- The LL(1) analysis of a request, with the grammar it read. -/
def analyzeLl (grammar input : Option Field) : Except Fault (Grammar × LlAnswer) := do
  let g ← readGrammarField grammar
  let firsts ← g.firstSets
  let follows ← g.followSets
  match LlTable.build g firsts follows with
  | .error c => pure (g, .conflict c)
  | .ok t =>
    let parse ← if (input.getD (.text "")).truthy then do
        let start ← match g.productions.head? with
          | some p => pure p.head
          | none => throw .pastEndOfList
        some <$> predictive g t.toPredict (.text start) (← inputText input)
      else pure none
    pure (g, .report ⟨firsts, follows, t.render g, parse⟩)

/-- A predictive parse with a table handed in, after the grammar has been analysed. -/
def parseWithPredictions (grammar input : Option Field) (start table : Field) :
    Except Fault Trace := do
  let (g, _) ← analyzeLl grammar none
  predictive g table start (← inputText input)

end GrammarBench
