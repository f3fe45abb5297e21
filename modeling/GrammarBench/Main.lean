import GrammarBench.Console.Workbench
import GrammarBench.Console.SetListing
/-!
# Command line

`grammarbench` runs one of the console programs on its standard input: `workbench` (the
default) lists FIRST and FOLLOW sets, the LR(1) states and table, and parses one line;
`sets` lists FIRST and FOLLOW sets; `read` only reads the grammar. What the program printed
goes to standard output; a fault that ended it goes to standard error, with exit code 1.
-/

open GrammarBench

/-- Reads standard input to its end. -/
partial def readAll (stream : IO.FS.Stream) (acc : String) : IO String := do
  let line ← stream.getLine
  if line.isEmpty then pure acc else readAll stream (acc ++ line)

/-- Prints a transcript and reports its fault. -/
def finish {α : Type} (t : Transcript α) : IO UInt32 := do
  IO.print t.stdout
  match t.result with
  | .ok _ => pure 0
  | .error f =>
    IO.eprintln (f.kind ++ ((f.message.map (": " ++ ·)).getD ""))
    pure 1

def main (args : List String) : IO UInt32 := do
  let stdin ← readAll (← IO.getStdin) ""
  match args with
  | ["sets"] => finish (SetListing.run.run stdin)
  | ["read"] => finish ((askGrammar >>= fun (_, fault) =>
      match fault with
      | some f => throw f
      | none => pure ()).run stdin)
  | _ => finish (Workbench.run.run stdin)
