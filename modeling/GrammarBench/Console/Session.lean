import GrammarBench.Grammar.Reading
/-!
# Console sessions

The console programs read lines from their input and print lines. A session is kept as a
pure state: the input lines not read yet and the lines printed so far. A fault ends the
session and keeps what was printed before it, so a program's printed text is always the
text of the lines it reached.

The input text is cut into lines at line feeds; a last piece after the final line feed is
no line. Reading past the last line is `Fault.endOfInput`.

Every program opens by asking for the grammar, one production per line, up to a blank line
or the word `end` in any case.

Main definitions: `ConsoleM`, `ConsoleM.run`, `readGrammarLines`, `askGrammar`.
-/

namespace GrammarBench

/-- The state of a console session: input lines not read yet, lines printed so far. -/
structure Console where
  pending : List String
  printed : Array String

/-- A console program: it reads and prints lines, and may end with a fault. -/
abbrev ConsoleM := ExceptT Fault (StateM Console)

/-- The lines of an input text. -/
def inputLines (text : String) : List String :=
  let pieces := (text.toList.splitOn '\n').map String.ofList
  if pieces.getLast? == some "" then pieces.dropLast else pieces

/-- Prints a line. -/
def say (line : String) : ConsoleM Unit :=
  modify fun c => { c with printed := c.printed.push line }

/-- Reads the next input line. -/
def readLine : ConsoleM String := do
  let c ← get
  match c.pending with
  | line :: rest =>
    set { c with pending := rest }
    pure line
  | [] => throw .endOfInput

/-- Continues with the result of a computation, or ends with its fault. -/
def ConsoleM.ofExcept {α : Type} : Except Fault α → ConsoleM α
  | .ok a => pure a
  | .error f => throw f

/-- What a console program printed, one line after another, and how it ended. -/
structure Transcript (α : Type) where
  result : Except Fault α
  printed : List String

/-- The whole printed text, each line ended by a line feed. -/
def Transcript.stdout {α : Type} (t : Transcript α) : String :=
  String.join (t.printed.map (· ++ "\n"))

/-- Runs a console program on an input text. -/
def ConsoleM.run {α : Type} (prog : ConsoleM α) (stdin : String) : Transcript α :=
  let (result, c) := (ExceptT.run prog).run ⟨inputLines stdin, #[]⟩
  ⟨result, c.printed.toList⟩

/-- Whether a line is the word that ends the grammar, in any case. -/
def isEndWord (line : String) : Bool :=
  line.toList.map Char.toLower == "end".toList

/-- A grammar read at the console, with the line that stopped the reading when that line was
taken for a production and is not one. -/
structure ConsoleGrammar where
  grammar : Grammar
  rejected : Option String

/-- The production lines read, the rejected one last. -/
def ConsoleGrammar.lines (r : ConsoleGrammar) : List String :=
  r.grammar.productions.map Production.text ++ r.rejected.toList

/-- Reads productions from the given lines up to a blank line or the end word. Gives the
grammar read, the lines after the last one read, and the fault that stopped the reading. -/
def readGrammarLines (g : Grammar) : List String → ConsoleGrammar × List String × Option Fault
  | [] => (⟨g, none⟩, [], some .endOfInput)
  | raw :: rest =>
    let line := cleanLine raw
    if isEndWord line || line.isEmpty then (⟨g, none⟩, rest, none)
    else match Production.ofLine line with
      | .ok p => readGrammarLines (g.add p) rest
      | .error f => (⟨g, some line⟩, rest, some f)

/-- The two lines that ask for the grammar. -/
def grammarPrompt : List String :=
  ["Enter the grammar productions (enter 'end' or blank line to finish):",
   "Format: A->aB or A-> (for epsilon)"]

/-- Asks for the grammar and reads it; the fault that stopped the reading, if any, is given
beside the grammar read so far. -/
def askGrammar : ConsoleM (ConsoleGrammar × Option Fault) := do
  grammarPrompt.forM say
  let c ← get
  let (r, rest, fault) := readGrammarLines Grammar.empty c.pending
  set { c with pending := rest }
  pure (r, fault)

/-- Asks for the grammar and reads it, ending with the fault that stopped the reading. -/
def askGrammarOrFail : ConsoleM Grammar := do
  let (r, fault) ← askGrammar
  match fault with
  | some f => throw f
  | none => pure r.grammar

end GrammarBench
