import GrammarBench.Fault
/-!
# Positions in lists and texts

Tables and stacks are read at positions that come from numerals, so a position may be
negative or far too large. A negative position counts from the back, `-1` being the last
entry. A position must fit a signed machine word before it is looked at; within that range,
a position past either end is a fault of the list or the text it was used on.
-/

namespace GrammarBench

/-- The bound of a signed machine word: positions lie in `[-wordBound, wordBound)`. -/
def wordBound : Int := Int.ofNat (Nat.pow 2 63)

/-- Whether a position fits a signed machine word. -/
def fitsWord (i : Int) : Bool :=
  -wordBound ≤ i && i < wordBound

/-- The entry at position `i` of a list, counting from the back when `i` is negative. -/
def pickAt? {α : Type} (xs : List α) (i : Int) : Option α :=
  if i < 0 then
    if (-i).toNat ≤ xs.length then xs[xs.length - (-i).toNat]? else none
  else xs[i.toNat]?

/-- The entry at position `i`, or a fault when `i` does not fit a word or is past either
end. -/
def pickAt {α : Type} (xs : List α) (i : Int) : Except Fault α :=
  if !fitsWord i then .error .indexTooLarge
  else match pickAt? xs i with
    | some x => .ok x
    | none => .error .pastEndOfList

/-- The character at position `i` of a text, with the faults of `pickAt`. -/
def charAt (s : String) (i : Int) : Except Fault Char :=
  if !fitsWord i then .error .indexTooLarge
  else match pickAt? s.toList i with
    | some c => .ok c
    | none => .error .pastEndOfText

@[simp] theorem pickAt?_nonneg {α : Type} (xs : List α) (i : Nat) :
    pickAt? xs (i : Int) = xs[i]? := by
  have : ¬ ((i : Int) < 0) := by omega
  simp [pickAt?, this]

example : pickAt? [1, 2, 3] (-1) = some 3 ∧ pickAt? [1, 2, 3] (-4) = none := by decide
example : pickAt [1, 2, 3] (Int.ofNat (Nat.pow 10 20)) = .error .indexTooLarge := rfl

end GrammarBench
