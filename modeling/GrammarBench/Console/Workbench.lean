import GrammarBench.Console.Session
import GrammarBench.Grammar.Follow
import GrammarBench.Lr.ActionSets
import GrammarBench.Lr.Trace
import GrammarBench.Text.Quoted
/-!
# The LR(1) workbench at the console

The workbench reads a grammar and lists, for each nonterminal in turn, its FIRST set and
its FOLLOW set, each computed when the nonterminal's turn comes. It then augments the grammar
with the start production `Z->S` (always `Z`), lists the nonterminals and the terminals with
the end marker, every state of the LR(1) automaton with its items, and the table of action
sets with the number of rows that hold conflicts. Last it reads one input line and parses it,
printing the stack and the remaining input after every move.

The parse takes the first action of each cell. A reduction by a production pops two entries
for each character after the first three of the production's text, and pushes the first
character of the text and the cell under that character in the row of the state below. Any
fault in the parse, such as a missing cell or a stack entry that is not a state number, ends
it with the verdict that the string is incorrect.

Main definitions: `Workbench.run`, `Workbench.parse`.
-/

namespace GrammarBench

namespace Workbench

/-- A line of underscores that frames the table. -/
def rule : String :=
  String.ofList (List.replicate 69 '_')

/-- How a FOLLOW set is listed: none for a name that is also a terminal, and the empty set
with a space after it. -/
def followText (g : Grammar) (follows : FollowSets) (name : String) : String :=
  if g.isTerminalName name then "None "
  else
    let s := follows.get name
    if s.isEmpty then "set() " else Text.quoteSet s.names

/-- Lists the FIRST and FOLLOW sets, computing both for each nonterminal in turn. -/
def listSets (g : Grammar) : ConsoleM Unit := do
  say "\tFIRST AND FOLLOW OF NON-TERMINALS"
  let step := fun (follows : FollowSets) (name : String) => do
    let first ← ConsoleM.ofExcept (g.first name)
    let follows ← ConsoleM.ofExcept (g.followStep follows name)
    say name
    say ("\tFirst:\t " ++ Text.quoteSet first.names)
    say ("\tFollow:\t " ++ followText g follows name)
    say ""
    pure follows
  let _ ← g.nonterminals.foldlM step g.noFollows

/-- A stack entry of the console parse: a text, or an action set pushed from a cell. -/
inductive Entry where
  | text (s : String)
  | actions (texts : List String)
  deriving DecidableEq, Repr

/-- How a stack entry is printed. -/
def Entry.shown : Entry → String
  | .text s => s
  | .actions xs => Text.quoteSet xs

/-- The entry pushed for a cell. -/
def Entry.ofCell : ActionCell → Entry
  | .actions texts => .actions texts
  | .single s => .text s

/-- The stack (bottom first) and the remaining input, as printed after each move. -/
def configLine (stack : List Entry) (input : List Char) : String :=
  String.join (stack.map Entry.shown) ++ "\t \t\t \t" ++ String.ofList input

/-- The first `l` entries of a list, all but the last `-l` when `l` is negative. -/
def keepFront {α : Type} (xs : List α) (l : Int) : List α :=
  if l ≥ 0 then xs.take l.toNat else xs.take (xs.length - (-l).toNat)

/-- What one move of the console parse does. -/
inductive Move where
  /-- The stack and the input after a shift or a reduction. -/
  | next (stack : List Entry) (input : List Char)
  /-- The first action is `accept`. -/
  | accept
  /-- A fault: the string is incorrect. -/
  | incorrect
  /-- The first action is none of shift, reduce and accept: nothing changes. -/
  | idle

/-- The state number on top of the stack. -/
def topNumber (stack : List Entry) : Option Int :=
  match stack.getLast? with
  | some (.text s) => Text.readInt? s
  | _ => none

/-- One move of the console parse. -/
def move (productions : List Production) (rows : List ActionSetRow) (stack : List Entry)
    (input : List Char) : Move := Id.run do
  let some c := input.head? | return .incorrect
  let some state := topNumber stack | return .incorrect
  let some row := pickAt? rows state | return .incorrect
  let some cell := row.lookup c.toString | return .incorrect
  let some first := cell.members.head? | return .incorrect
  match first.toList with
  | 's' :: target => return .next (stack ++ [.text c.toString, .text (String.ofList target)]) input.tail
  | 'r' :: number =>
    let some n := Text.readInt? (String.ofList number) | return .incorrect
    let some p := pickAt? productions n | return .incorrect
    let kept := keepFront stack (stack.length - 2 * ((p.text.length : Int) - 3))
    let some below := topNumber kept | return .incorrect
    let some row := pickAt? rows below | return .incorrect
    let some h := p.text.toList.head? | return .incorrect
    let some cell := row.lookup h.toString | return .incorrect
    return .next (kept ++ [.text h.toString, Entry.ofCell cell]) input
  | 'a' :: _ => return .accept
  | _ => return .idle

/-- How the console parse ended. -/
inductive Verdict where
  | accepted
  | incorrect
  /-- The input ran out. -/
  | exhausted
  /-- The fuel ran out, as it does when a move changes nothing. -/
  | unfinished
  deriving DecidableEq, Repr

/-- Runs the console parse for at most `fuel` moves, giving the lines printed after each
move and the verdict. -/
def parseFrom (productions : List Production) (rows : List ActionSetRow) :
    Nat → List Entry → List Char → List String × Verdict
  | 0, _, _ => ([], .unfinished)
  | fuel + 1, stack, input =>
    if input.isEmpty then ([], .exhausted)
    else match move productions rows stack input with
      | .next stack input =>
        let (lines, verdict) := parseFrom productions rows fuel stack input
        (configLine stack input :: lines, verdict)
      | .accept => ([], .accepted)
      | .incorrect => ([], .incorrect)
      | .idle => parseFrom productions rows fuel stack input

/-- Parses an input line, the end marker added. -/
def parse (productions : List Production) (rows : List ActionSetRow) (line : String) :
    List String × Verdict :=
  parseFrom productions rows (stepBudget line) [.text "0"] (line.toList ++ [endMarker])

/-- Lists the table of action sets under the given symbols, with the conflict counts. -/
def listTable (symbols : List String) (rows : List ActionSetRow) : ConsoleM Unit := do
  say rule
  say ""
  say "\tCLR(1) TABLE"
  say ""
  say rule
  say ("\t|   " ++ "\t|  ".intercalate symbols ++ " \t\t|")
  say rule
  let cells := fun (row : ActionSetRow) =>
    symbols.map fun s => ((row.lookup s).map ActionCell.shown).getD " "
  rows.zipIdx.forM fun (row, i) =>
    say (toString i ++ " \t|   " ++ "\t|  ".intercalate (cells row) ++ " \t\t|")
  say rule
  let (sr, rr) := ActionSets.conflictCounts rows
  say ""
  say (" " ++ toString sr ++ " s/r conflicts | " ++ toString rr ++ " r/r conflicts")
  say rule

/-- The workbench session. -/
def run : ConsoleM Unit := do
  let g ← askGrammarOrFail
  listSets g
  let start ← match g.productions.head? with
    | some p => pure (Production.mk "Z" p.head.toList)
    | none => throw .pastEndOfList
  let productions := start :: g.productions
  let shifted := g.terminals.map Char.toString ++ [endMarker.toString]
  say (Text.quoteList g.nonterminals)
  say (Text.quoteList shifted)
  let ctx := g.itemContext productions
  let states ← ConsoleM.ofExcept
    (ctx.states (g.nonterminals ++ shifted) (Item.start start (.single endMarker)))
  states.zipIdx.forM fun (s, k) => do
    say ("Item" ++ toString k ++ ":")
    s.forM fun it => say ("\t " ++ it.label)
  let rows ← ConsoleM.ofExcept (ActionSets.build ctx shifted states)
  listTable (g.nonterminals ++ shifted) rows
  say "Enter the string to be parsed"
  let line ← readLine
  say ("productions\t: " ++ Text.quoteList (productions.map Production.text))
  say "stack \t \t\t \t Input"
  say ("0\t \t\t \t" ++ line ++ endMarker.toString)
  let (lines, verdict) := parse productions rows line
  lines.forM say
  match verdict with
  | .accepted => [ "", "\tString Accepted", "" ].forM say
  | .incorrect => [ "", "\tString INCORRECT for given Grammar!", "" ].forM say
  | .exhausted | .unfinished => pure ()

end Workbench

end GrammarBench
