import GrammarBench.Lr.Automaton
import GrammarBench.Lr.Table
/-!
# Tables of action sets

The console's LR(1) table gathers every action that an item asks for in a cell, so that
conflicts stay visible. A row maps symbols, in the order they are first written, to cells.
A cell is a set of actions (`sN` shifts and `rN` reductions), or a single text: `accept`
under the end marker, or a goto state number under a nonterminal. For each item of a state,
in order:

* an item with an empty body adds `rN` to the cells of its lookahead characters;
* a finished item of the start production writes `accept` under the end marker;
* any other finished item adds `rN` to the cells of its lookahead characters;
* an item with a symbol after the dot finds the first state equal to its goto set: under a
  terminal or the end marker it adds `sN`, under a nonterminal it writes `N`.

`N` in `rN` is the position of the item's production with every dot of the written form
removed. Adding an action to a cell that holds a single text is `Fault.mergeIntoText`.

Main definitions: `ActionSets.build`, `ActionSets.conflictCounts`.
-/

namespace GrammarBench

/-- A cell of a table of action sets. -/
inductive ActionCell where
  /-- Actions without repeats, in the order they were added. -/
  | actions (texts : List String)
  /-- A single text: `accept`, or a goto state number. -/
  | single (text : String)
  deriving DecidableEq, Repr

namespace ActionCell

/-- What a table listing shows of a cell: the single text, or the first action. -/
def shown : ActionCell → String
  | actions texts => texts.headD " "
  | single text => text

/-- The members that the conflict count reads: the actions, or the characters of a text. -/
def members : ActionCell → List String
  | actions texts => texts
  | single text => text.toList.map Char.toString

end ActionCell

/-- A row of a table of action sets: cells by symbol, in the order first written. -/
abbrev ActionSetRow := List (String × ActionCell)

namespace ActionSetRow

/-- Puts a cell under a symbol, in place or at the end. -/
def put (row : ActionSetRow) (key : String) (cell : ActionCell) : ActionSetRow :=
  if row.any (·.1 == key) then row.map fun (k, v) => if k == key then (k, cell) else (k, v)
  else row ++ [(key, cell)]

/-- Adds an action to the set under a symbol. -/
def addAction (row : ActionSetRow) (key action : String) : Except Fault ActionSetRow :=
  match row.lookup key with
  | none => .ok (row.put key (.actions [action]))
  | some (.actions texts) =>
    .ok (row.put key (.actions (if texts.contains action then texts else texts ++ [action])))
  | some (.single _) => .error .mergeIntoText

end ActionSetRow

namespace ActionSets

/-- The position of an item's production: its written form with every dot removed. -/
def productionNumber (productions : List Production) (it : Item) : Except Fault Nat :=
  productionIndex productions (String.ofList (it.written.filter (· != '.')))

/-- The first state equal to `t`, or `-1` when there is none. -/
def stateNumber (states : List (List Item)) (t : List Item) : Int :=
  match states.findIdx? (sameState · t) with
  | some n => n
  | none => -1

/-- Adds a reduction by the item's production under each of its lookahead characters. -/
def addReductions (productions : List Production) (it : Item) (row : ActionSetRow) :
    Except Fault ActionSetRow :=
  it.lookahead.toList.foldlM (fun row c => do
    let n ← productionNumber productions it
    row.addAction c.toString s!"r{n}") row

/-- The cells that one item writes into a row. `shifted` are the symbols whose cells take
shifts: the terminals and the end marker. -/
def itemCells (ctx : ItemContext) (shifted : List String) (states : List (List Item))
    (state : List Item) (row : ActionSetRow) (it : Item) : Except Fault ActionSetRow := do
  if it.dottedBody == ['.'] then addReductions ctx.productions it row
  else
    match (it.dottedBody.splitOn '.')[1]? with
    | none | some [] =>
      if (← productionNumber ctx.productions it) == 0 then
        pure (row.put endMarker.toString (.single "accept"))
      else addReductions ctx.productions it row
    | some (x :: _) =>
      let t ← ctx.goto state x.toString
      if t.isEmpty then pure row
      else
        let n := stateNumber states t
        if shifted.contains x.toString then row.addAction x.toString s!"s{n}"
        else pure (row.put x.toString (.single s!"{n}"))

/-- Builds the rows of the states over the productions of `ctx`. -/
def build (ctx : ItemContext) (shifted : List String) (states : List (List Item)) :
    Except Fault (List ActionSetRow) :=
  states.mapM fun state => state.foldlM (itemCells ctx shifted states state) []

/-- How one cell counts toward the conflicts of its row, as (shifts, reductions): a cell
other than `accept` with more than one member counts its first two members, each as a
reduction when it holds an `r` and as a shift otherwise. -/
def cellCounts (cell : ActionCell) : Nat × Nat :=
  if cell == .single "accept" then (0, 0)
  else match cell.members with
    | a :: b :: _ =>
      let isReduce := fun (m : String) => m.toList.contains 'r'
      ([a, b].countP (!isReduce ·), [a, b].countP isReduce)
    | _ => (0, 0)

/-- The conflicts of a table, as (rows with a shift and a reduction counted, other rows with
a reduction counted). -/
def conflictCounts (rows : List ActionSetRow) : Nat × Nat :=
  rows.foldl (fun (sr, rr) row =>
    let (s, r) := row.foldl (fun (s, r) (_, cell) =>
      let (ds, dr) := cellCounts cell
      (s + ds, r + dr)) (0, 0)
    if r > 0 && s > 0 then (sr + 1, rr) else if r > 0 then (sr, rr + 1) else (sr, rr)) (0, 0)

end ActionSets

end GrammarBench
