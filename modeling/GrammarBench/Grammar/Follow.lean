import GrammarBench.Grammar.First
/-!
# FOLLOW sets

FOLLOW sets are computed in one pass over the nonterminals, in the order in which they were
first seen. The FOLLOW set of a nonterminal `B` gets the end marker when `B` is the start
symbol, and for each occurrence of `B` in a body, `A->αBβ`:

* the FIRST set of the symbol right after `B`, without the empty mark;
* the FOLLOW set of the head `A` as it stands at that moment, when `B` ends the body, or when
  the next symbol can vanish and `B` is not the head itself.

The FOLLOW set of a head that comes later in the order is still empty when it is read, so
one pass can miss members that a fixpoint would add. A head whose name is also a terminal has
no FOLLOW set; reading it is `Fault.followOfTerminal`.

Main definitions: `Grammar.followStep` and `Grammar.followSets`.
-/

namespace GrammarBench

/-- FOLLOW sets by nonterminal, in the order of the nonterminals. -/
abbrev FollowSets := List (String × CharSet)

namespace FollowSets

/-- The FOLLOW set of a nonterminal, empty when none is stored. -/
def get (fs : FollowSets) (name : String) : CharSet :=
  (fs.lookup name).getD CharSet.empty

/-- Stores the FOLLOW set of a nonterminal in place. -/
def put (fs : FollowSets) (name : String) (s : CharSet) : FollowSets :=
  fs.map fun entry => if entry.1 == name then (name, s) else entry

end FollowSets

namespace Grammar

/-- The FOLLOW set of the head of `p` as read while computing the FOLLOW set of `name`. -/
def headFollow (g : Grammar) (fs : FollowSets) (name : String) (p : Production) (acc : CharSet) :
    Except Fault CharSet :=
  if g.isTerminalName p.head then .error .followOfTerminal
  else if p.head == name then .ok acc
  else match fs.lookup p.head with
    | some s => .ok (acc.union s)
    | none => .error (.unregistered p.head)

/-- The contributions of the occurrences of `name` in the rest of a body of `p`. -/
def followInBody (g : Grammar) (fs : FollowSets) (name : String) (p : Production) :
    List Char → CharSet → Except Fault CharSet
  | [], acc => .ok acc
  | b :: rest, acc =>
    if b.toString != name then g.followInBody fs name p rest acc
    else match rest with
      | [] => g.headFollow fs name p acc
      | next :: _ => do
        let f ← g.firstOfChar next
        let acc := acc.union (f.erase emptyMark)
        let acc ← if f.contains emptyMark && b.toString != p.head then
            g.headFollow fs name p acc
          else .ok acc
        g.followInBody fs name p rest acc

/-- Computes the FOLLOW set of `name` from the sets stored so far, and stores it. -/
def followStep (g : Grammar) (fs : FollowSets) (name : String) : Except Fault FollowSets := do
  let start := if g.start? == some name then (fs.get name).insert endMarker else fs.get name
  let s ← g.productions.foldlM (fun acc p => g.followInBody fs name p p.body acc) start
  pure (fs.put name s)

/-- The FOLLOW sets before any is computed. -/
def noFollows (g : Grammar) : FollowSets :=
  g.nonterminals.map fun name => (name, CharSet.empty)

/-- The FOLLOW sets of all nonterminals after one pass in the order of the nonterminals. -/
def followSets (g : Grammar) : Except Fault FollowSets :=
  g.nonterminals.foldlM g.followStep g.noFollows

end Grammar

end GrammarBench
