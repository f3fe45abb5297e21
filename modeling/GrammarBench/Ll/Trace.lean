import GrammarBench.Ll.Table
import GrammarBench.Field
import GrammarBench.Trace
/-!
# Predictive parsing

A predictive parse runs over a table whose rows, one per nonterminal, map terminals to
production texts: the table the workbench builds, or one handed in, which may hold values of
any kind. The stack starts with the end marker below the start symbol; the input gets the
end marker. In each step:

* the end marker on top of the stack, facing the end marker, accepts;
* a terminal or the end marker on top must match the next input character, and both go;
* a nonterminal on top is replaced by the body of the production in its row under the next
  input character, the body's first symbol on top, unless the body is the empty mark itself;
  a missing cell, or one that counts as false, stops the parse;
* anything else on top stops the parse.

The stack is written out before the first step, so a start symbol that is not a text is a
fault there. A nonterminal without a row, a row or a cell of the wrong kind, or a production
text without exactly one arrow, is a fault.

Main definitions: `predictiveStep`, one step, and `predictive`, the whole parse.
-/

namespace GrammarBench

/-- The rows of a built LL(1) table, as a dictionary of dictionaries of texts. -/
def LlTable.toPredict (t : LlTable) : Field :=
  .dict (t.rows.map fun (name, cells) =>
    (name, .dict (cells.map fun (c, text) => (c.toString, .text text))))

/-- The cell of the terminal `c` in the row of `top`. -/
def predictCell (table : Field) (top : String) (c : Char) : Except Fault Field := do
  (← table.entry top).lookupOr c.toString

/-- One step of a predictive parse from the given stack (top first) and input, after the
given steps (latest first). -/
def predictiveStep (g : Grammar) (table : Field) (stack : List String) (input : List Char)
    (steps : List Step) : Except Fault (Progress (List String)) :=
  match stack with
  | [] => .ok (.finished ⟨steps.reverse, .rejected "Stack is empty"⟩)
  | top :: below =>
    match input with
    | [] => .error .pastEndOfText
    | c :: rest =>
      if top == endMarker.toString && c == endMarker then
        .ok (.finished ⟨(⟨showStack stack, String.ofList input, "Accept"⟩ :: steps).reverse,
          .accepted⟩)
      else if g.isTerminalName top || top == endMarker.toString then
        if top == c.toString then
          .ok (.next below rest (⟨showStack below, String.ofList rest, s!"Match '{top}'"⟩ :: steps))
        else .ok (.finished ⟨steps.reverse, .rejected s!"Expected '{top}', found '{c}'"⟩)
      else if g.isNonterminal top then do
        let entry ← predictCell table top c
        if !entry.truthy then
          .ok (.finished ⟨steps.reverse, .rejected s!"No production for {top} on '{c}'"⟩)
        else
          let text ← entry.asText "split"
          let p ← Production.ofLine text
          let stack := if p.body == [emptyMark] then below else p.body.map Char.toString ++ below
          .ok (.next stack input (⟨showStack stack, String.ofList input, s!"Apply {text}"⟩ :: steps))
      else .ok (.finished ⟨steps.reverse, .rejected s!"Unknown symbol '{top}' on stack"⟩)

/-- Runs at most `fuel` steps from the given stack (top first) and input. The steps taken
so far are kept latest first. -/
def predictiveFrom (g : Grammar) (table : Field) :
    Nat → List String → List Char → List Step → Except Fault Trace
  | 0, _, _, steps => .ok ⟨steps.reverse, .unfinished⟩
  | fuel + 1, stack, input, steps => do
    match ← predictiveStep g table stack input steps with
    | .finished trace => pure trace
    | .next stack input steps => predictiveFrom g table fuel stack input steps

/-- The number of steps after which a predictive parse of `input` is given up. -/
def predictBudget (input : String) : Nat :=
  20000 + 100 * input.length

/-- Parses `input` from `start` with a predictive table over the symbols of `g`. The start
symbol is the second entry of the stack from the bottom. -/
def predictive (g : Grammar) (table : Field) (start : Field) (input : String) :
    Except Fault Trace :=
  match start with
  | .text top =>
    let chars := input.toList ++ [endMarker]
    let stack := [top, endMarker.toString]
    predictiveFrom g table (predictBudget input) stack chars
      [⟨showStack stack, String.ofList chars, "Initial"⟩]
  | other => .error (.joinNonText 1 other.kind)

end GrammarBench
