import GrammarBench.Position
import GrammarBench.Text.Numeral
/-!
# Request values

The service reads its requests from loosely typed data: a field that should hold a text may
hold a number, a list, a dictionary or nothing at all, and a table handed in may hold such
values in any row or cell. A `Field` is such a value, and this module gives the few ways in
which the workbench looks at one: its kind, whether it counts as true, its value as an
integer, its entries at a position or under a key, whether it has a member, and a list of
them joined into a text. Each way of looking succeeds for the kinds that support it and is
a fault, named for the kind, for the others.
-/

namespace GrammarBench

/-- A floating-point number: a finite value `mantissa * 2 ^ exponent`, an infinity, or the
value that is not a number. Finite values are kept exactly, as binary fractions, so that
reading one as an integer cuts off exactly the fraction the number has. -/
inductive Floating where
  | finite (mantissa : Int) (exponent : Int)
  | infinite (negative : Bool)
  | nan
  deriving DecidableEq, Repr

namespace Floating

/-- The integer part of a number, cut toward zero. -/
def truncate : Floating → Except Fault Int
  | finite m e =>
    if 0 ≤ e then .ok (m * Int.ofNat (Nat.pow 2 e.toNat))
    else .ok (m.tdiv (Int.ofNat (Nat.pow 2 (-e).toNat)))
  | infinite _ => .error .infiniteToInteger
  | nan => .error .nanToInteger

/-- Whether a number counts as true: all but zero do. -/
def truthy : Floating → Bool
  | finite m _ => m != 0
  | infinite _ | nan => true

end Floating

/-- A value of a request as it is received. A dictionary keeps its entries in the order
their keys first appeared, each key once. -/
inductive Field where
  | text (s : String)
  | int (n : Int)
  | float (x : Floating)
  | bool (b : Bool)
  | null
  | list (items : List Field)
  | dict (entries : List (String × Field))
  deriving Repr

namespace Field

/-- The name of a value's kind, as faults report it. -/
def kind : Field → String
  | text _ => "str"
  | int _ => "int"
  | float _ => "float"
  | bool _ => "bool"
  | null => "NoneType"
  | list _ => "list"
  | dict _ => "dict"

/-- Whether a value counts as true: empty texts and collections, zero, `false` and the null
value do not. -/
def truthy : Field → Bool
  | text s => !s.isEmpty
  | int n => n != 0
  | float x => x.truthy
  | bool b => b
  | null => false
  | list items => !items.isEmpty
  | dict entries => !entries.isEmpty

/-- Whether a value is the text `s`; a value of another kind never is. -/
def isText (s : String) : Field → Bool
  | text t => t == s
  | _ => false

/-- The text of a field that is expected to hold one, or why it cannot serve as a text for
`operation`. -/
def asText (operation : String) : Field → Except Fault String
  | text s => .ok s
  | other => .error (.notText other.kind operation)

/-- The value of a decimal numeral written in a text. -/
def numeralValue (s : String) : Except Fault Int :=
  match Text.readInt s with
  | .ok n => .ok n
  | .error .malformed => .error (.notANumeral s)
  | .error (.tooManyDigits count) => .error (.tooManyDigits count)

/-- A value read as an integer: a text as a numeral, a number cut toward zero, `false` and
`true` as `0` and `1`. -/
def toInt : Field → Except Fault Int
  | text s => numeralValue s
  | int n => .ok n
  | float x => x.truncate
  | bool b => .ok (if b then 1 else 0)
  | other => .error (.notAnInteger other.kind)

/-- The entry of a value at position `i`: an item of a list, a character of a text. A
dictionary has no numbers among its keys, and the other kinds have no entries. -/
def item (i : Int) : Field → Except Fault Field
  | list items => pickAt items i
  | text s => (fun c => text c.toString) <$> charAt s i
  | dict _ => .error (.missingNumberKey i)
  | other => .error (.notSubscriptable other.kind)

/-- Whether a text occurs in a list of characters. -/
def occursIn (needle : List Char) : List Char → Bool
  | [] => needle.isEmpty
  | c :: rest => needle.isPrefixOf (c :: rest) || occursIn needle rest

/-- Whether `key` is a member of a value: a key of a dictionary, a piece of a text, an item
of a list. -/
def contains (key : String) : Field → Except Fault Bool
  | dict entries => .ok (entries.any fun (k, _) => k == key)
  | text s => .ok (occursIn key.toList s.toList)
  | list items => .ok (items.any (isText key))
  | other => .error (.notIterable other.kind)

/-- The entry of a value under the text `key`: only a dictionary has entries under texts. -/
def entry (key : String) : Field → Except Fault Field
  | dict entries =>
    match entries.lookup key with
    | some v => .ok v
    | none => .error (.unregistered key)
  | text _ => .error .textIndexedByText
  | list _ => .error .listIndexedByText
  | other => .error (.notSubscriptable other.kind)

/-- The entry of a dictionary under `key`, or the empty text when it has none. Other kinds
have no such lookup. -/
def lookupOr (key : String) : Field → Except Fault Field
  | dict entries => .ok ((entries.lookup key).getD (text ""))
  | other => .error (.notText other.kind "get")

/-- The texts of a list from position `i` on, or the first entry that is not a text. -/
def textsFrom : Nat → List Field → Except Fault (List String)
  | _, [] => .ok []
  | i, text s :: rest => (s :: ·) <$> textsFrom (i + 1) rest
  | i, other :: _ => .error (.joinNonText i other.kind)

/-- The entries of a list joined by single spaces; every entry must be a text. -/
def joinSpaced (xs : List Field) : Except Fault String :=
  (" ".intercalate ·) <$> textsFrom 0 xs

@[simp] theorem toInt_int (n : Int) : (int n).toInt = .ok n := rfl

@[simp] theorem joinSpaced_nil : joinSpaced [] = .ok "" := rfl

example : (text "٢").toInt = .ok 2 := rfl
example : (float (.finite 49 (-3))).toInt = .ok 6 := rfl
example : (joinSpaced [text "0", text "a", int 4]).toOption = none := by decide

end Field

end GrammarBench
