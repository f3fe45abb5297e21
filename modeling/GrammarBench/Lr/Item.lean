import GrammarBench.Grammar.Basic
/-!
# LR(1) items

An item is a production with a dot in its body and a set of lookahead characters. Items are
handled through their written form `head->α.β`: the item is finished when the first dot of
the written form is its last character, the symbol after the dot is the first character after
the first dot of the body, and the lookahead of the items that the closure adds comes from the
character two places after the first dot of the written form. For an item whose head and body
hold no dot these readings are the usual ones. A dot inside a body makes the item unable to
move its own dot, which is reported as a fault.

Main definitions: `Item.written`, `Item.isComplete`, `Item.nextSymbol`,
`Item.lookaheadSource`, `Item.advance`.
-/

namespace GrammarBench

/-- An LR(1) item: a production, the position of the dot in its body, and a lookahead set. -/
structure Item where
  head : String
  body : List Char
  dot : Nat
  lookahead : CharSet
  deriving DecidableEq, Repr

namespace Item

/-- The item that starts reading a production, with the given lookahead. -/
def start (p : Production) (lookahead : CharSet) : Item :=
  ⟨p.head, p.body, 0, lookahead⟩

/-- The body with the dot written in. -/
def dottedBody (it : Item) : List Char :=
  it.body.take it.dot ++ '.' :: it.body.drop it.dot

/-- The written form `head->α.β`. -/
def written (it : Item) : List Char :=
  it.head.toList ++ '-' :: '>' :: it.dottedBody

/-- The written form as a text. -/
def text (it : Item) : String :=
  String.ofList it.written

/-- The position of the first dot in the written form. -/
def firstDot (it : Item) : Nat :=
  it.written.idxOf '.'

/-- Whether the item is finished: the first dot is the last character of the written form. -/
def isComplete (it : Item) : Bool :=
  it.firstDot + 1 == it.written.length

/-- The symbol after the dot: the first character after the first dot of the body. -/
def nextSymbol (it : Item) : Except Fault Char :=
  match (it.dottedBody.splitOn '.')[1]? with
  | some (c :: _) => .ok c
  | _ => .error .pastEndOfText

/-- The character two places after the first dot of the written form, if there is one: its
FIRST set is the lookahead of the items that the closure adds for this item. -/
def lookaheadSource (it : Item) : Option Char :=
  it.written[it.firstDot + 2]?

/-- The item with its dot moved over the symbol `x`, none when another symbol or nothing
follows the dot. The body must hold no dot of its own. -/
def advance (it : Item) (x : String) : Except Fault (Option Item) :=
  if it.isComplete then .ok none
  else match it.dottedBody.splitOn '.' with
    | [_, unseen] =>
      match unseen with
      | [] => .error .pastEndOfText
      | u :: _ => .ok (if u.toString == x then some { it with dot := it.dot + 1 } else none)
    | [_] => .error (.tooFewPieces 1)
    | _ => .error .tooManyPieces

/-- The item as listed in a state: its written form, a comma, and its lookahead characters
in ascending order separated by bars. -/
def label (it : Item) : String :=
  it.text ++ ", " ++ "|".intercalate it.lookahead.names

/-- Whether two items have the same written form and the same lookahead set. -/
def same (a b : Item) : Bool :=
  a.written == b.written && a.lookahead == b.lookahead

example : (Item.mk "E" "E+T".toList 1 (.single '$')).text = "E->E.+T" := by decide
example : (Item.mk "E" "E+T".toList 3 (.single '$')).isComplete = true := by decide
example : (Item.mk "E" "E+T".toList 1 (.single '$')).nextSymbol = .ok '+' := rfl
example : (Item.mk "E" "E+T".toList 1 (.single '$')).lookaheadSource = some 'T' := by decide

end Item

end GrammarBench
