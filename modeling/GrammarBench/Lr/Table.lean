import GrammarBench.Lr.Automaton
/-!
# The ACTION/GOTO table

The table has a row for each state and a cell, holding a text, for each symbol: terminals,
nonterminals and the end marker. For each item of a state, in order:

* a finished item of the start production whose body is the start symbol writes `Accept`
  under the end marker;
* any other finished item writes `rN` under each of its lookahead characters, `N` being the
  position of its production among the productions;
* an item with a symbol after the dot looks up the state equal to its goto set, compared by
  the sorted item labels, and writes `sN` under a terminal or `N` under a nonterminal.

A later item overwrites what an earlier one wrote in the same cell.

Main definitions: `ActionTable.build`, `ActionTable.render`.
-/

namespace GrammarBench

/-- An ACTION/GOTO table: for each state, the text in the cell of each symbol, in the order
of the symbols; an empty text marks an empty cell. -/
structure ActionTable where
  rows : List (List (String × String))
  deriving DecidableEq, Repr

/-- Writes a text in the cell of `key`, adding the cell when the row lacks it. -/
def writeCell (row : List (String × String)) (key value : String) : List (String × String) :=
  if row.any (·.1 == key) then row.map fun (k, v) => if k == key then (k, value) else (k, v)
  else row ++ [(key, value)]

/-- The first position of a production text among the productions. -/
def productionIndex (productions : List Production) (text : String) : Except Fault Nat :=
  match productions.findIdx? (·.text == text) with
  | some n => .ok n
  | none => .error (.notAProduction text)

/-- The sorted labels of a state's items. -/
def sortedLabels (s : List Item) : List String :=
  sortTexts (s.map Item.label)

/-- The last position of a state whose sorted labels are `key`. -/
def lastStateWith (labels : List (List String)) (key : List String) : Option Nat :=
  (labels.zipIdx.filter (·.1 == key)).getLast?.map (·.2)

namespace ActionTable

/-- The symbols of a row: terminals, nonterminals and the end marker, each once. -/
def symbols (g : Grammar) : List String :=
  (g.terminals.map Char.toString ++ g.nonterminals ++ [endMarker.toString]).foldl
    (fun acc s => if acc.contains s then acc else acc ++ [s]) []

/-- Whether a finished item accepts: its head is the head of the first production and its
body, without dots, is the head of the second. -/
def accepts (productions : List Production) (head body : String) : Except Fault Bool :=
  match productions with
  | p :: rest =>
    if head == p.head then
      match rest with
      | q :: _ => .ok (body == q.head)
      | [] => .error .pastEndOfList
    else .ok false
  | [] => .error .pastEndOfList

/-- The cells that one item writes into a row. -/
def itemCells (g : Grammar) (ctx : ItemContext) (labels : List (List String)) (state : List Item)
    (row : List (String × String)) (it : Item) : Except Fault (List (String × String)) := do
  if it.isComplete then
    let body := String.ofList (it.dottedBody.filter (· != '.'))
    if ← accepts ctx.productions it.head body then
      pure (writeCell row endMarker.toString "Accept")
    else
      let n ← productionIndex ctx.productions (it.head ++ "->" ++ body)
      pure (it.lookahead.toList.foldl (fun row c => writeCell row c.toString s!"r{n}") row)
  else
    let x ← it.nextSymbol
    let next ← ctx.goto state x.toString
    match lastStateWith labels (sortedLabels next) with
    | none => pure row
    | some v =>
      if g.terminals.contains x then pure (writeCell row x.toString s!"s{v}")
      else if g.isNonterminal x.toString then pure (writeCell row x.toString s!"{v}")
      else pure row

/-- Builds the table of the states over the productions of `ctx`. -/
def build (g : Grammar) (ctx : ItemContext) (states : List (List Item)) :
    Except Fault ActionTable := do
  let labels := states.map sortedLabels
  let blank := (symbols g).map fun s => (s, "")
  let rows ← states.mapM fun state => state.foldlM (itemCells g ctx labels state) blank
  pure ⟨rows⟩

/-- The table as text: a header line `State`, the terminals, the end marker and the
nonterminals, then a line per state, all cells separated by tabs. -/
def render (g : Grammar) (t : ActionTable) : String :=
  let columns := g.terminals.map Char.toString ++ [endMarker.toString] ++ g.nonterminals
  let header := "\t".intercalate ("State" :: columns)
  let lines := t.rows.zipIdx.map fun (row, i) =>
    "\t".intercalate (toString i :: columns.map fun c => (row.lookup c).getD "")
  "\n".intercalate (header :: lines)

end ActionTable

end GrammarBench
