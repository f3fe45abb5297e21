/-!
# Parse traces

Both parsers report a run as a list of steps and an outcome. A step shows the stack from
bottom to top, its entries separated by spaces, the input that remains, and the action taken.
A run that would go on forever is cut off when its fuel is spent, and reported as unfinished.
-/

namespace GrammarBench

/-- One step of a parse: the stack from bottom to top, the remaining input, the action. -/
structure Step where
  stack : String
  input : String
  action : String
  deriving DecidableEq, Repr

/-- How a parse ended. -/
inductive Outcome where
  /-- The input was accepted. -/
  | accepted
  /-- The parse stopped for the reason given. -/
  | rejected (reason : String)
  /-- The fuel was spent before the parse ended. -/
  | unfinished
  deriving DecidableEq, Repr

/-- A parse: its steps in order and how it ended. -/
structure Trace where
  steps : List Step
  outcome : Outcome
  deriving DecidableEq, Repr

namespace Trace

/-- Whether the input was accepted. -/
def success (t : Trace) : Bool :=
  t.outcome == .accepted

/-- The closing message of a parse. -/
def message (t : Trace) : String :=
  match t.outcome with
  | .accepted => "String accepted!"
  | .rejected reason => reason
  | .unfinished => "Parse unfinished"

end Trace

/-- Where one step of a parse leads: to the end of the parse, or on to the next stack, the
input left, and the steps taken so far, latest first. -/
inductive Progress (σ : Type) where
  | finished (trace : Trace)
  | next (stack : σ) (input : List Char) (steps : List Step)

/-- A stack, kept top first, written from bottom to top. -/
def showStack (stack : List String) : String :=
  " ".intercalate stack.reverse

end GrammarBench
