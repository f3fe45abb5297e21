import GrammarBench.Grammar.First
/-!
# FIRST sets kept by the nonterminals

Each nonterminal keeps one FIRST set, shared by every computation. A computation of the FIRST
set of a nonterminal keeps no memo: it reads the productions again, asks for the FIRST set of
each body symbol it reaches afresh, adds every contribution to the set the nonterminal keeps,
and answers with that set as it stands at the end. A terminal's FIRST set is the terminal
itself and nothing is kept for it.

The contributions, the pass-over of the head in its own bodies, the nesting room and the
faults are those of `Grammar.firstWithin`; only where the contributions go differs. Adding to
the set of a name that is no recorded nonterminal, or answering with it, is reported as
`Fault.unregistered`.

Main definitions: `Grammar.firstInto`, one computation over the kept sets, and
`Grammar.firstIntoEach`, a sequence of them.
-/

namespace GrammarBench

/-- The FIRST set each nonterminal keeps, by name. -/
def FirstStore : Type := String → CharSet

namespace FirstStore

/-- Nothing kept yet. -/
def empty : FirstStore := fun _ => CharSet.empty

/-- The sets with `more` added to the one of `name`. -/
def add (store : FirstStore) (name : String) (more : CharSet) : FirstStore :=
  fun other => if other = name then (store name).union more else store other

@[simp] theorem empty_apply (name : String) : empty name = CharSet.empty := rfl

@[simp] theorem add_self (store : FirstStore) (name : String) (more : CharSet) :
    store.add name more name = (store name).union more := by
  simp [add]

@[simp] theorem add_of_ne {store : FirstStore} {name other : String} (more : CharSet)
    (differ : other ≠ name) : store.add name more other = store other := by
  simp [add, differ]

end FirstStore

namespace Grammar

/-- Adds `more` to the FIRST set that `name` keeps, which must be a recorded nonterminal. -/
def keep (g : Grammar) (name : String) (more : CharSet) (store : FirstStore) :
    Except Fault FirstStore :=
  if g.isNonterminal name then .ok (store.add name more) else .error (.unregistered name)

/-- Adds the contributions of a nonempty body to the FIRST set that `name` keeps, read from
the left; `child` gives the FIRST set of a body symbol over the kept sets, and the kept sets
it leaves. -/
def bodyFirstInto (g : Grammar) (name : String)
    (child : Char → FirstStore → Except Fault (CharSet × FirstStore)) :
    List Char → FirstStore → Except Fault FirstStore
  | [], store => .ok store
  | y :: rest, store =>
    if y.toString == name then g.bodyFirstInto name child rest store
    else do
      let (t, store) ← child y store
      let store ← g.keep name (t.erase emptyMark) store
      if !t.contains emptyMark then .ok store
      else if rest.isEmpty then g.keep name (.single emptyMark) store
      else g.bodyFirstInto name child rest store

/-- Adds the contributions of all productions of `name`, in order, to the FIRST set it keeps,
and answers with that set. -/
def firstFrameInto (g : Grammar) (name : String)
    (child : Char → FirstStore → Except Fault (CharSet × FirstStore)) (store : FirstStore) :
    Except Fault (CharSet × FirstStore) := do
  let step := fun store p =>
    if p.head != name then .ok store
    else if p.body.isEmpty then g.keep name (.single emptyMark) store
    else g.bodyFirstInto name child p.body store
  let store ← g.productions.foldlM step store
  if g.isNonterminal name then .ok (store name, store) else .error (.unregistered name)

/-- The FIRST set of `name` over the kept sets, while the FIRST sets of the names on `path` are
being computed, with room for `fuel` more levels; also the kept sets it leaves. -/
def firstIntoWithin (g : Grammar) :
    Nat → List String → String → FirstStore → Except Fault (CharSet × FirstStore)
  | 0, _, _, _ => .error .recursionTooDeep
  | fuel + 1, path, name, store =>
    if g.isTerminalName name then .ok (CharSet.ofList name.toList, store)
    else if path.contains name then .error .recursionTooDeep
    else g.firstFrameInto name (fun y => g.firstIntoWithin fuel (name :: path) y.toString) store

/-- The FIRST set of a symbol or nonterminal name over the kept sets, and the kept sets it
leaves. -/
def firstInto (g : Grammar) (name : String) (store : FirstStore) :
    Except Fault (CharSet × FirstStore) :=
  g.firstIntoWithin firstDepthLimit [] name store

/-- The kept sets after computing the FIRST sets of `names` in order, each over the sets the
one before leaves; the first fault met ends the sequence. -/
def firstIntoEach (g : Grammar) (names : List String) (store : FirstStore) :
    Except Fault FirstStore :=
  names.foldlM (fun store name => Prod.snd <$> g.firstInto name store) store

end Grammar

end GrammarBench
