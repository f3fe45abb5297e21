import GrammarBench.Lr.Item
/-!
# Closure and goto

The closure of a list of items walks the list from the front while it grows. For each item
that is not finished, every production whose head is the symbol after the dot adds its start
item, unless an item with the same written form and the same lookahead set is there already.
The added items' lookahead is the FIRST set, without the empty mark, of the character two
places after the dot, or the item's own lookahead when there is no such character.

`goto` moves the dot over one symbol in every item that allows it and closes the result.

Each new item is a start item of some production with a lookahead from a fixed finite family,
so the walk ends; `closureBound` is a number of steps it never exceeds.

Main definitions: `ItemContext.closure` and `ItemContext.goto`.
-/

namespace GrammarBench

/-- What item sets are built from: the productions, and the FIRST set of each character. -/
structure ItemContext where
  productions : List Production
  firstOf : Char → Except Fault CharSet

/-- Adds an item unless the same item is there already. -/
def addItem (items : Array Item) (it : Item) : Array Item :=
  if items.any (Item.same · it) then items else items.push it

namespace ItemContext

/-- The lookahead of the items that the closure adds for `it`. -/
def addedLookahead (ctx : ItemContext) (it : Item) : Except Fault CharSet :=
  match it.lookaheadSource with
  | some c => (ctx.firstOf c).map (·.erase emptyMark)
  | none => .ok it.lookahead

/-- The items the closure adds for the item at position `k`, then for those after it. -/
def closeFrom (ctx : ItemContext) : Nat → Array Item → Nat → Except Fault (Array Item)
  | 0, items, _ => .ok items
  | fuel + 1, items, k =>
    match items[k]? with
    | none => .ok items
    | some it =>
      if it.isComplete then ctx.closeFrom fuel items (k + 1)
      else do
        let y ← it.nextSymbol
        let la ← ctx.addedLookahead it
        let items := ctx.productions.foldl
          (fun acc p => if p.head == y.toString then addItem acc (Item.start p la) else acc) items
        ctx.closeFrom fuel items (k + 1)

/-- The number of characters of the productions, with the arrow and the dot: a bound on the
number of different lookahead sets that closures produce. -/
def alphabetBound (ctx : ItemContext) : Nat :=
  ctx.productions.foldl (fun n p => n + p.head.length + p.body.length) 3

/-- More steps than a closure of `kernel` takes: it adds at most one item for each production
and each lookahead set. -/
def closureBound (ctx : ItemContext) (kernel : List Item) : Nat :=
  kernel.length + ctx.productions.length * (kernel.length + ctx.alphabetBound) + 1

/-- The closure of a list of items. -/
def closure (ctx : ItemContext) (kernel : List Item) : Except Fault (List Item) :=
  (ctx.closeFrom (ctx.closureBound kernel) kernel.toArray 0).map Array.toList

/-- The items reached by moving the dot over `x`, closed. -/
def goto (ctx : ItemContext) (items : List Item) (x : String) : Except Fault (List Item) := do
  let kernel ← items.filterMapM (·.advance x)
  ctx.closure kernel

end ItemContext

end GrammarBench
