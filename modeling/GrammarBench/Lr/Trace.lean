import GrammarBench.Grammar.Basic
import GrammarBench.Field
import GrammarBench.Trace
/-!
# Shift-reduce parsing

A shift-reduce parse runs over a table of rows that map symbol names to cells: the table the
workbench builds, or one handed in, which may hold values of any kind. The stack starts with
state `0` and alternates symbols and states; the input gets the end marker. In each step the
top of the stack is read as an integer, the state, and the next input character selects the
cell in the state's row:

* a character that is not a member of the row, or an empty cell, stops the parse;
* `Accept` accepts;
* `sN` pushes the character and the text `N`, and consumes the character;
* `rN` reduces by production `N`: a production with an empty body pushes its head on top of
  the stack, any other first pops two entries for each body symbol; then the cell of the
  head in the row of the state below, whatever it holds, is pushed as the next state, and an
  empty or missing one stops the parse;
* any other text stops the parse.

Every step is shown with the stack written out, which needs every entry to be a text, so a
state pushed from a cell of another kind is a fault the next time the stack is shown.
States and production numbers count from the back of their lists when negative. Reading
values of the wrong kind, positions past either end and an input that runs out are faults.

Main definitions: `shiftReduceStep`, one step, and `shiftReduce`, the whole parse.
-/

namespace GrammarBench

/-- The stack, kept top first, written from bottom to top. -/
def showEntries (stack : List Field) : Except Fault String :=
  Field.joinSpaced stack.reverse

/-- The state number on top of a stack. -/
def topState (stack : List Field) : Except Fault Int :=
  match stack with
  | top :: _ => top.toInt
  | [] => .error .pastEndOfList

/-- The state pushed after a reduction to `head` from the row of `state`, or why the parse
stops there. -/
def gotoCell (row : Field) (head : String) (state : Int) : Except Fault (Except String Field) := do
  let cell ← row.lookupOr head
  pure (if cell.isText "" then .error s!"No goto for {head} in state {state}" else .ok cell)

/-- One step of a shift-reduce parse from the given stack (top first) and input, after the
given steps (latest first). -/
def shiftReduceStep (productions : List Production) (table : Field) (stack : List Field)
    (input : List Char) (steps : List Step) : Except Fault (Progress (List Field)) := do
  let state ← topState stack
  let c ← match input with
    | c :: _ => pure c
    | [] => throw .pastEndOfText
  let row ← table.item state
  let stop := fun reason => Progress.finished (Trace.mk steps.reverse (.rejected reason))
  if !(← row.contains c.toString) then return stop s!"Invalid symbol '{c}' in state {state}"
  let action ← row.entry c.toString
  if action.isText "" then return stop s!"No action for symbol '{c}' in state {state}"
  if action.isText "Accept" then
    let shown ← showEntries stack
    return .finished ⟨(⟨shown, String.ofList input, "Accept"⟩ :: steps).reverse, .accepted⟩
  let text ← action.asText "startswith"
  match text.toList with
  | 's' :: target =>
    let next := String.ofList target
    let stack := .text next :: .text c.toString :: stack
    let input := input.drop 1
    let shown ← showEntries stack
    pure (.next stack input (⟨shown, String.ofList input, s!"Shift to state {next}"⟩ :: steps))
  | 'r' :: number => do
    let p ← pickAt productions (← Field.numeralValue (String.ofList number))
    if p.body.isEmpty then
      let shown ← showEntries stack
      let steps := ⟨shown, String.ofList input, s!"Reduce by {p.text} (epsilon)"⟩ :: steps
      match ← gotoCell row p.head state with
      | .error reason => pure (.finished ⟨steps.reverse, .rejected reason⟩)
      | .ok target => pure (.next (target :: .text p.head :: stack) input steps)
    else if stack.length < 2 * p.body.length then
      pure (stop s!"Stack underflow when reducing by {p.text}")
    else
      let stack := stack.drop (2 * p.body.length)
      let below ← topState stack
      let shown ← showEntries stack
      let steps := ⟨shown, String.ofList input, s!"Reduce by {p.text}"⟩ :: steps
      match ← gotoCell (← table.item below) p.head below with
      | .error reason => pure (.finished ⟨steps.reverse, .rejected reason⟩)
      | .ok target => pure (.next (target :: .text p.head :: stack) input steps)
  | _ => pure (stop s!"Unknown action {text}")

/-- Runs at most `fuel` steps from the given stack (top first) and input. The steps taken
so far are kept latest first. -/
def shiftReduceFrom (productions : List Production) (table : Field) :
    Nat → List Field → List Char → List Step → Except Fault Trace
  | 0, _, _, steps => .ok ⟨steps.reverse, .unfinished⟩
  | fuel + 1, stack, input, steps => do
    match ← shiftReduceStep productions table stack input steps with
    | .finished trace => pure trace
    | .next stack input steps => shiftReduceFrom productions table fuel stack input steps

/-- The number of steps after which a parse of `input` is given up. -/
def stepBudget (input : String) : Nat :=
  20000 + 100 * input.length

/-- Parses `input` with a shift-reduce table and the productions it refers to. -/
def shiftReduce (productions : List Production) (table : Field) (input : String) :
    Except Fault Trace :=
  let chars := input.toList ++ [endMarker]
  shiftReduceFrom productions table (stepBudget input) [.text "0"] chars
    [⟨"0", String.ofList chars, "Initial"⟩]

end GrammarBench
