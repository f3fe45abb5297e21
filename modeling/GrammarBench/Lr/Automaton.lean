import GrammarBench.Lr.Closure
import GrammarBench.Grammar.First
/-!
# The LR(1) automaton

The grammar is augmented with a start production `Z->S`, where `S` is the head of the first
production and `Z` the last capital letter, from `Z` down to `A`, that is not a nonterminal
yet; when every capital letter is taken the grammar stays as it is. The first state is the
closure of the start item of the first production with the end marker as lookahead.

States are then found by a walk over the list of states while it grows: for each state and
each symbol, nonterminals before terminals, the goto set is added unless it is empty or equal
to a state already listed. Two states are equal when they have the same number of items, the
same written forms once sorted, and the same lookahead sets position by position.

Main definitions: `Grammar.augment`, `ItemContext.states`.
-/

namespace GrammarBench

namespace Grammar

/-- The capital letters from `Z` down to `A`. -/
def startLetters : List Char :=
  (List.range 26).map fun i => Char.ofNat ('Z'.toNat - i)

/-- The letter for the new start symbol: the last capital letter that is not a nonterminal. -/
def freshStart? (g : Grammar) : Option Char :=
  startLetters.find? fun c => !g.isNonterminal c.toString

/-- The productions with the start production put in front, when a letter is free for it. -/
def augment (g : Grammar) : Except Fault (List Production) :=
  match g.freshStart? with
  | none => .ok g.productions
  | some z =>
    match g.productions.head? with
    | some p => .ok (⟨z.toString, p.head.toList⟩ :: g.productions)
    | none => .error .pastEndOfList

/-- The FIRST sets of the characters in the productions, with the arrow and the dot, each
computed once; other characters are computed when asked for. -/
def firstLookup (g : Grammar) : Char → Except Fault CharSet :=
  let chars := ['-', '>', '.'] ++ g.productions.flatMap fun p => p.head.toList ++ p.body
  let table := chars.map fun c => (c, g.firstOfChar c)
  fun c => (table.lookup c).getD (g.firstOfChar c)

/-- The context for item sets over the given productions: FIRST sets are computed over them,
with the nonterminals of the grammar. -/
def itemContext (g : Grammar) (productions : List Production) : ItemContext :=
  ⟨productions, { g with productions := productions }.firstLookup⟩

end Grammar

/-- Inserts a text before the first text of a sorted list that is not smaller. -/
def insertSorted (s : String) : List String → List String
  | [] => [s]
  | t :: rest => if s ≤ t then s :: t :: rest else t :: insertSorted s rest

/-- Texts in ascending order of their characters, each as often as it occurs. -/
def sortTexts (texts : List String) : List String :=
  texts.foldr insertSorted []

@[simp] theorem mem_insertSorted {s x : String} {l : List String} :
    x ∈ insertSorted s l ↔ x = s ∨ x ∈ l := by
  induction l with
  | nil => simp [insertSorted]
  | cons t rest ih =>
      unfold insertSorted
      split <;> simp [ih, or_left_comm]

@[simp] theorem mem_sortTexts {x : String} {l : List String} : x ∈ sortTexts l ↔ x ∈ l := by
  induction l with
  | nil => simp [sortTexts]
  | cons t rest ih => simp [sortTexts, ← ih]

/-- The written forms of a state's items, sorted. -/
def sortedTexts (s : List Item) : List String :=
  sortTexts (s.map Item.text)

/-- Whether two states are equal: the same number of items, the same written forms once
sorted, and the same lookahead sets position by position. -/
def sameState (s t : List Item) : Bool :=
  s.length == t.length && sortedTexts s == sortedTexts t &&
    (s.zip t).all fun (a, b) => a.lookahead == b.lookahead

namespace ItemContext

/-- Adds the goto sets of the state at position `k`, then of those after it. A walk that runs
out of steps with states left to visit has listed more states than memory holds. -/
def statesFrom (ctx : ItemContext) (symbols : List String) :
    Nat → Array (List Item) → Nat → Except Fault (Array (List Item))
  | 0, states, k =>
    match states[k]? with
    | none => .ok states
    | some _ => .error .outOfMemory
  | fuel + 1, states, k =>
    match states[k]? with
    | none => .ok states
    | some s => do
      let step := fun (states : Array (List Item)) x => do
        let t ← ctx.goto s x
        pure (if t.isEmpty || states.any (sameState · t) then states else states.push t)
      let states ← symbols.foldlM step states
      ctx.statesFrom symbols fuel states (k + 1)

/-- The number of steps the walk is given. Each step lists the goto sets of one state, so a
walk that needs more steps lists more than `2 ^ 62` states, far more than memory holds. -/
def stateBudget : Nat :=
  Nat.pow 2 62

/-- The states reached from the closure of the start item, in the order they are found. -/
def states (ctx : ItemContext) (symbols : List String) (start : Item) :
    Except Fault (List (List Item)) := do
  let first ← ctx.closure [start]
  let found ← ctx.statesFrom symbols stateBudget #[first] 0
  pure found.toList

end ItemContext

end GrammarBench
