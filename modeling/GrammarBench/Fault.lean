import GrammarBench.Text.Quoted
/-!
# Faults

Why a computation of the workbench ends without an answer. Each fault is named for its
cause. A fault is reported under a class name (`Fault.kind`) and, for all but one class, a
message (`Fault.message`); the names and texts are those under which the workbench's
clients know them.
-/

namespace GrammarBench

/-- The cause of an abnormal end. -/
inductive Fault where
  /-- A text cut at its separator gives `got` pieces where two are needed. -/
  | tooFewPieces (got : Nat)
  /-- A text cut at its separator gives more than the two pieces needed. -/
  | tooManyPieces
  /-- A symbol is looked up that the grammar never registered, or a table row that the
  table does not have. -/
  | unregistered (name : String)
  /-- FIRST computations nest deeper than the call stack allows: through a chain of other
  nonterminals that leads back to a symbol whose FIRST set is being computed, or down a chain
  of nonterminals longer than the stack. -/
  | recursionTooDeep
  /-- The FOLLOW set of a head is asked for, and the head's name is also a terminal, which
  has no FOLLOW set. -/
  | followOfTerminal
  /-- A position past the end of a text. -/
  | pastEndOfText
  /-- A position past the end of a list. -/
  | pastEndOfList
  /-- A text that should be a decimal numeral is not one. -/
  | notANumeral (text : String)
  /-- A numeral has more digits than are read. -/
  | tooManyDigits (count : Nat)
  /-- A position that does not fit a machine word. -/
  | indexTooLarge
  /-- A value of kind `kind` is read as an integer, which only texts and numbers can be. -/
  | notAnInteger (kind : String)
  /-- An infinite number is read as an integer. -/
  | infiniteToInteger
  /-- The number that is not a number is read as an integer. -/
  | nanToInteger
  /-- A value of kind `kind`, which has no entries, is indexed. -/
  | notSubscriptable (kind : String)
  /-- A value of kind `kind`, which has no members, is searched. -/
  | notIterable (kind : String)
  /-- A text is indexed by a text. -/
  | textIndexedByText
  /-- A list is indexed by a text. -/
  | listIndexedByText
  /-- A number is looked up among the keys of a dictionary, whose keys are texts. -/
  | missingNumberKey (n : Int)
  /-- Entries are joined into a text, and the one at `position` is of kind `kind`. -/
  | joinNonText (position : Nat) (kind : String)
  /-- A production text that is not among the grammar's productions. -/
  | notAProduction (text : String)
  /-- Actions are merged into a table cell that holds a single text. -/
  | mergeIntoText
  /-- The console input ended while another line was expected. -/
  | endOfInput
  /-- A request value of kind `kind` is used as a text through the operation `operation`. -/
  | notText (kind operation : String)
  /-- A request value of kind `kind` is extended by a text. -/
  | notExtensible (kind : String)
  /-- The walk over the LR(1) states lists more states than memory holds. -/
  | outOfMemory
  deriving DecidableEq, Repr

namespace Fault

/-- The class under which a fault is reported. -/
def kind : Fault → String
  | tooFewPieces _ | tooManyPieces | notANumeral _ | notAProduction _ | tooManyDigits _
  | nanToInteger => "ValueError"
  | unregistered _ | missingNumberKey _ => "KeyError"
  | recursionTooDeep => "RecursionError"
  | followOfTerminal | mergeIntoText | notExtensible _ | notAnInteger _ | notSubscriptable _
  | notIterable _ | textIndexedByText | listIndexedByText | joinNonText _ _ => "TypeError"
  | pastEndOfText | pastEndOfList | indexTooLarge => "IndexError"
  | infiniteToInteger => "OverflowError"
  | endOfInput => "EOFError"
  | notText _ _ => "AttributeError"
  | outOfMemory => "MemoryError"

/-- The message of a fault; an endless FIRST computation has none. -/
def message : Fault → Option String
  | tooFewPieces got => some s!"not enough values to unpack (expected 2, got {got})"
  | tooManyPieces => some "too many values to unpack (expected 2)"
  | unregistered name => some (Text.quote name)
  | recursionTooDeep => none
  | followOfTerminal => some "'NoneType' object is not iterable"
  | pastEndOfText => some "string index out of range"
  | pastEndOfList => some "list index out of range"
  | notANumeral text =>
    some ("invalid literal for int() with base 10: " ++ String.ofList ((Text.quote text).toList.take 200))
  | tooManyDigits count =>
    some (s!"Exceeds the limit (4300 digits) for integer string conversion: value has {count} " ++
      "digits; use sys.set_int_max_str_digits() to increase the limit")
  | indexTooLarge => some "cannot fit 'int' into an index-sized integer"
  | notAnInteger kind =>
    some s!"int() argument must be a string, a bytes-like object or a real number, not '{kind}'"
  | infiniteToInteger => some "cannot convert float infinity to integer"
  | nanToInteger => some "cannot convert float NaN to integer"
  | notSubscriptable kind => some s!"'{kind}' object is not subscriptable"
  | notIterable kind => some s!"argument of type '{kind}' is not iterable"
  | textIndexedByText => some "string indices must be integers, not 'str'"
  | listIndexedByText => some "list indices must be integers or slices, not str"
  | missingNumberKey n => some (toString n)
  | joinNonText position kind => some s!"sequence item {position}: expected str instance, {kind} found"
  | notAProduction text => some (Text.quote text ++ " is not in list")
  | mergeIntoText => some "unsupported operand type(s) for |=: 'str' and 'set'"
  | endOfInput => some "EOF when reading a line"
  | notText kind operation => some s!"'{kind}' object has no attribute '{operation}'"
  | notExtensible kind =>
    if kind = "list" then some "can only concatenate list (not \"str\") to list"
    else some s!"unsupported operand type(s) for +: '{kind}' and 'str'"
  | outOfMemory => some ""

end Fault

end GrammarBench
