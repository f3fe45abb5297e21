import GrammarBench.Grammar.Follow
/-!
# LL(1) tables

The LL(1) table has a row for each nonterminal and a column for each terminal and for the end
marker. Each production is entered, in order, in the columns of its predict set: the FIRST
set of its body without the empty mark and, when the body can vanish, the FOLLOW set of its
head. The FIRST set of a body is read from the left over the FIRST sets the nonterminals
keep: a terminal contributes itself and ends the reading, as does a nonterminal whose FIRST
set lacks the empty mark. Entering a production in a cell that already holds one is a
conflict, and the table is refused.

Main definition: `LlTable.build`.
-/

namespace GrammarBench

/-- An LL(1) table: by nonterminal, the production text in each column; an empty text
marks an empty cell. -/
structure LlTable where
  rows : List (String × List (Char × String))
  deriving DecidableEq, Repr

/-- A conflict: two productions of `head` predicted on `terminal`. -/
structure LlConflict where
  head : String
  terminal : Char
  deriving DecidableEq, Repr

/-- The text that reports a conflict. -/
def LlConflict.message (c : LlConflict) : String :=
  s!"Grammar is not LL(1): Conflict at {c.head}, {c.terminal}"

namespace LlTable

/-- The columns: the terminals, then the end marker unless it is a terminal already. -/
def columns (g : Grammar) : List Char :=
  if g.terminals.contains endMarker then g.terminals else g.terminals ++ [endMarker]

/-- The table with every cell empty. -/
def blank (g : Grammar) : LlTable :=
  ⟨g.nonterminals.map fun name => (name, (columns g).map fun c => (c, ""))⟩

/-- The text in a cell. -/
def cell (t : LlTable) (head : String) (c : Char) : String :=
  (((t.rows.lookup head).getD []).lookup c).getD ""

/-- Enters a production text in a cell, or reports the conflict with an entry already there. -/
def enter (t : LlTable) (head : String) (c : Char) (text : String) :
    Except LlConflict LlTable :=
  if t.cell head c != "" then .error ⟨head, c⟩
  else .ok ⟨t.rows.map fun (name, cells) =>
    if name == head then (name, cells.map fun (d, s) => if d == c then (d, text) else (d, s))
    else (name, cells)⟩

end LlTable

/-- The FIRST set of a body, read from the left over the kept FIRST sets `kept`. -/
def bodyPredict (g : Grammar) (kept : String → CharSet) : List Char → CharSet
  | [] => CharSet.single emptyMark
  | y :: rest =>
    if g.terminals.contains y then CharSet.single y
    else
      let f := kept y.toString
      if f.contains emptyMark then (f.erase emptyMark).union (bodyPredict g kept rest)
      else f

/-- The FIRST set of a production's body for the table: the empty body gives the empty mark. -/
def predictFirst (g : Grammar) (kept : String → CharSet) (body : List Char) : CharSet :=
  bodyPredict g kept body

namespace LlTable

/-- Builds the LL(1) table from the kept FIRST and FOLLOW sets, or finds the first conflict:
productions in order, and for each its FIRST part before its FOLLOW part. -/
def build (g : Grammar) (firsts : List (String × CharSet)) (follows : FollowSets) :
    Except LlConflict LlTable :=
  let kept := fun name => (firsts.lookup name).getD CharSet.empty
  let step := fun (t : LlTable) (p : Production) => do
    let f := predictFirst g kept p.body
    let t ← (f.erase emptyMark).toList.foldlM (fun t c => t.enter p.head c p.text) t
    if f.contains emptyMark then
      (follows.get p.head).toList.foldlM (fun t c => t.enter p.head c p.text) t
    else pure t
  g.productions.foldlM step (blank g)

/-- The table written as text: a header line `Non-Terminal` and the columns, then a line per
nonterminal with its cells, all separated by tabs. The end marker's column is written once
more at the end when it is also a terminal. -/
def render (g : Grammar) (t : LlTable) : String :=
  let shown := g.terminals ++ [endMarker]
  let header := "\t".intercalate ("Non-Terminal" :: shown.map Char.toString)
  let lines := g.nonterminals.map fun name =>
    "\t".intercalate (name :: shown.map fun c => t.cell name c)
  "\n".intercalate (header :: lines)

end LlTable

end GrammarBench
