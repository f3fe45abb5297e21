import GrammarBench.Proofs.Lr.Closure
import GrammarBench.Proofs.Lr.Table
import GrammarBench.Proofs.Lr.Stack

/-!
# States that agree with the stack

A parse with the table of the automaton keeps the invariant that the states on its stack
agree with the symbols below them: every item of such a state has seen symbols that end the
stack, and an item of the start production has seen the whole stack (`ItemsOk`). Moving over
a symbol keeps this: a goto set of a state that agrees with a stack agrees with the stack
extended by the symbol crossed (`itemsOk_goto`). The table names the goto state by the sorted
labels of the goto set, and any state with those labels agrees too
(`itemsOk_of_sortedLabels`), whatever duplicate states the automaton holds.

A chain agrees with its states when each of its suffixes does at its top (`ChainOk`), so
popping pairs off the stack keeps the invariant (`ChainOk.drop`) and pushing a goto state
extends it (`ChainOk.push`).
-/

namespace GrammarBench

namespace Item

theorem seen_of_isComplete {it : Item} (plain : it.Plain) (finished : it.isComplete = true) :
    it.seen = it.body := by
  rw [seen, (isComplete_iff plain).mp finished, List.take_length]

end Item

/-- The items of a state agree with the symbols of a stack: what each item has seen ends
the stack, and an item of the start production, whose head is `z`, has seen all of it. -/
def ItemsOk (z : Char) (s : List Item) (symbols : List Char) : Prop :=
  ∀ it ∈ s, it.seen <:+ symbols ∧ (it.head = z.toString → it.seen = symbols)

variable {ctx : ItemContext} {terminals : List Char} {z : Char}

/-- Crossing a symbol from a state that agrees with a stack leads to a goto set that agrees
with the stack extended by that symbol. -/
theorem itemsOk_goto (sound : ctx.Sound terminals) (fresh : ∀ q ∈ ctx.productions, z ∉ q.body)
    {s t : List Item} {symbols : List Char} {x : Char} (fit : ∀ it ∈ s, ctx.Fit terminals it)
    (agrees : ItemsOk z s symbols) (moved : ctx.goto s x.toString = .ok t) :
    ItemsOk z t (symbols ++ [x]) := by
  intro it member
  obtain ⟨_, origin⟩ := ctx.mem_goto sound fit moved it member
  rcases origin with ⟨source, inSource, c, found, named, rfl⟩ | ⟨atStart, q, inProductions, y,
    inBody, named⟩
  · have same : c = x := by
      simpa [Char.toString_eq_singleton] using named
    subst same
    obtain ⟨⟨front, joined⟩, whole⟩ := agrees source inSource
    rw [Item.seen_next found]
    refine ⟨⟨front, by rw [← joined, List.append_assoc]⟩, ?_⟩
    intro isStart
    rw [whole isStart]
  · have seenNothing : it.seen = [] := by
      simp [Item.seen, atStart]
    refine ⟨seenNothing ▸ List.nil_suffix, ?_⟩
    intro isStart
    have same : y = z := by
      have chars := congrArg String.toList (named.symm.trans isStart)
      simpa [Char.toString_eq_singleton] using chars
    exact absurd (same ▸ inBody) (fresh q inProductions)

/-- An item of a state with the same sorted labels as another has a twin there, of the same
production and with the dot at the same place. -/
theorem exists_core_twin_of_sortedLabels {s t : List Item} (plainS : ∀ it ∈ s, it.Plain)
    (plainT : ∀ it ∈ t, it.Plain) (same : sortedLabels s = sortedLabels t) {it : Item}
    (member : it ∈ s) : ∃ other ∈ t, it.production = other.production ∧ it.dot = other.dot := by
  have labelled : it.label ∈ sortedLabels t := by
    rw [← same, sortedLabels, mem_sortTexts]
    exact List.mem_map_of_mem member
  rw [sortedLabels, mem_sortTexts, List.mem_map] at labelled
  obtain ⟨other, inT, sameLabel⟩ := labelled
  have written := Item.written_eq_of_label_eq (plainS it member) (plainT other inT) sameLabel.symm
  exact ⟨other, inT, Item.eq_of_written_eq (plainS it member) (plainT other inT) written⟩

/-- An item of a state with the same sorted labels as another has a twin there, with the same
head and the same symbols seen. -/
theorem exists_twin_of_sortedLabels {s t : List Item} (plainS : ∀ it ∈ s, it.Plain)
    (plainT : ∀ it ∈ t, it.Plain) (same : sortedLabels s = sortedLabels t) {it : Item}
    (member : it ∈ s) : ∃ other ∈ t, it.head = other.head ∧ it.seen = other.seen := by
  obtain ⟨other, inT, sameProduction, sameDot⟩ :=
    exists_core_twin_of_sortedLabels plainS plainT same member
  simp only [Item.production, Production.mk.injEq] at sameProduction
  exact ⟨other, inT, sameProduction.1, by simp only [Item.seen, sameProduction.2, sameDot]⟩

/-- A state with the same sorted labels as a state that agrees with a stack agrees with it
too. -/
theorem itemsOk_of_sortedLabels {s t : List Item} {symbols : List Char}
    (plainS : ∀ it ∈ s, it.Plain) (plainT : ∀ it ∈ t, it.Plain)
    (same : sortedLabels s = sortedLabels t) (agrees : ItemsOk z t symbols) :
    ItemsOk z s symbols := by
  intro it member
  obtain ⟨other, inT, sameHead, sameSeen⟩ := exists_twin_of_sortedLabels plainS plainT same member
  rw [sameHead, sameSeen]
  exact agrees other inT

/-! ## Chains -/

variable {states : List (List Item)} {chain : List (Char × Nat)}

/-- Every state of a chain passes the test `P` with the symbols below it and its own. -/
def ChainAll (P : List Item → List Char → Prop) (states : List (List Item))
    (chain : List (Char × Nat)) : Prop :=
  ∀ n ≤ chain.length, ∃ s, states[chainTop (chain.drop n)]? = some s ∧
    P s (chainSymbols (chain.drop n))

section ChainAll

variable {P : List Item → List Char → Prop}

theorem ChainAll.top (all : ChainAll P states chain) :
    ∃ s, states[chainTop chain]? = some s ∧ P s (chainSymbols chain) :=
  all 0 (Nat.zero_le _)

theorem chainAll_nil (top : ∃ s, states[0]? = some s ∧ P s []) : ChainAll P states [] := by
  intro n within
  rw [List.drop_nil]
  exact top

theorem ChainAll.cons {x : Char} {v : Nat} (all : ChainAll P states chain)
    (top : ∃ s, states[v]? = some s ∧ P s (chainSymbols chain ++ [x])) :
    ChainAll P states ((x, v) :: chain) := by
  intro n within
  cases n with
  | zero =>
      rw [List.drop_zero, chainSymbols_cons]
      exact top
  | succ n =>
      rw [List.drop_succ_cons]
      exact all n (by simpa using within)

theorem ChainAll.drop (all : ChainAll P states chain) {n : Nat} (within : n ≤ chain.length) :
    ChainAll P states (chain.drop n) := by
  intro k inDropped
  rw [List.drop_drop]
  exact all (n + k) (by simp at inDropped; omega)

/-- Pushing the state that the table names for a goto set of the top state keeps a test of
every state of a chain, when goto sets pass it with the symbol crossed added and states with
the same sorted labels pass it alike. -/
theorem ChainAll.push (sound : ctx.Sound terminals)
    (fitAll : ∀ s ∈ states, ∀ it ∈ s, ctx.Fit terminals it)
    (moves : ∀ {s t : List Item} {symbols : List Char} {x : Char},
      (∀ it ∈ s, ctx.Fit terminals it) → P s symbols → ctx.goto s x.toString = .ok t →
        P t (symbols ++ [x]))
    (twins : ∀ {s t : List Item} {symbols : List Char}, (∀ it ∈ s, it.Plain) →
      (∀ it ∈ t, it.Plain) → sortedLabels s = sortedLabels t → P t symbols → P s symbols)
    (all : ChainAll P states chain) {s next : List Item} {x : Char} {v : Nat}
    (atTop : states[chainTop chain]? = some s) (moved : ctx.goto s x.toString = .ok next)
    (found : lastStateWith (states.map sortedLabels) (sortedLabels next) = some v) :
    ChainAll P states ((x, v) :: chain) := by
  refine all.cons ?_
  obtain ⟨top, atTop', holds⟩ := all.top
  rw [atTop] at atTop'
  cases atTop'
  have fitS := fitAll s (List.mem_of_getElem? atTop)
  have nextHolds := moves fitS holds moved
  have labelled := getElem?_of_lastStateWith found
  rw [List.getElem?_map] at labelled
  obtain ⟨target, inStates, sameLabels⟩ := Option.map_eq_some_iff.mp labelled
  have fitTarget := fitAll target (List.mem_of_getElem? inStates)
  have plainNext : ∀ it ∈ next, it.Plain := fun it member =>
    ((ctx.mem_goto sound fitS moved it member).1).plain sound
  exact ⟨target, inStates,
    twins (fun it member => (fitTarget it member).plain sound) plainNext sameLabels nextHolds⟩

end ChainAll

/-- The state on top of a chain agrees with the chain's symbols. -/
def TopOk (z : Char) (states : List (List Item)) (chain : List (Char × Nat)) : Prop :=
  ∃ s, states[chainTop chain]? = some s ∧ ItemsOk z s (chainSymbols chain)

/-- Every state of a chain agrees with the symbols below it and its own. This is `ChainAll`
for `ItemsOk`, so the lemmas about `ChainAll` carry over. -/
def ChainOk (z : Char) (states : List (List Item)) (chain : List (Char × Nat)) : Prop :=
  ∀ n ≤ chain.length, TopOk z states (chain.drop n)

theorem ChainOk.top (chainOk : ChainOk z states chain) : TopOk z states chain :=
  ChainAll.top (P := ItemsOk z) chainOk

theorem chainOk_nil (top : TopOk z states []) : ChainOk z states [] :=
  chainAll_nil (P := ItemsOk z) top

theorem ChainOk.cons {x : Char} {v : Nat} (chainOk : ChainOk z states chain)
    (top : TopOk z states ((x, v) :: chain)) : ChainOk z states ((x, v) :: chain) := by
  obtain ⟨s, atTop, agrees⟩ := top
  rw [chainSymbols_cons] at agrees
  exact ChainAll.cons (P := ItemsOk z) chainOk ⟨s, atTop, agrees⟩

theorem ChainOk.drop (chainOk : ChainOk z states chain) {n : Nat} (within : n ≤ chain.length) :
    ChainOk z states (chain.drop n) :=
  ChainAll.drop (P := ItemsOk z) chainOk within

/-- Pushing the state that the table names for a goto set of the top state keeps a chain
agreeing with its states. -/
theorem ChainOk.push (sound : ctx.Sound terminals) (fresh : ∀ q ∈ ctx.productions, z ∉ q.body)
    (fitAll : ∀ s ∈ states, ∀ it ∈ s, ctx.Fit terminals it) (chainOk : ChainOk z states chain)
    {s next : List Item} {x : Char} {v : Nat} (atTop : states[chainTop chain]? = some s)
    (moved : ctx.goto s x.toString = .ok next)
    (found : lastStateWith (states.map sortedLabels) (sortedLabels next) = some v) :
    ChainOk z states ((x, v) :: chain) :=
  ChainAll.push (P := ItemsOk z) sound fitAll
    (fun fitS agrees moved => itemsOk_goto sound fresh fitS agrees moved)
    (fun plainS plainT same agrees => itemsOk_of_sortedLabels plainS plainT same agrees)
    chainOk atTop moved found

end GrammarBench
