import GrammarBench.Lr.ActionSets
import GrammarBench.Proofs.Lr.Automaton

/-!
# Every goto set of the console's table has a state

The console's table of action sets looks up, for each item with a symbol after its dot, the
first state equal to the item's goto set, and writes `-1` when there is none. The walk that
lists the states goes over the nonterminals, the terminals and the end marker, and it lists
every goto set it meets up to the same equality (`ItemContext.states_closed`). Every symbol
after a dot is one of those symbols: the start production `Z->S` reads the start symbol, a
nonterminal, and every other body character is recorded as a nonterminal or a terminal. So
the lookup always finds a state, and that state equals the goto set by the walk's own test.

Lookahead sets are kept as ascending lists, so a set always comes out in the same order and
the position by position test compares sets.

Main statement: `workbench_gotos_have_states`.
-/

namespace GrammarBench

namespace ActionSets

/-- A goto set equal to some state gets a state number: the position of the first state that
is equal to it. -/
theorem stateNumber_of_listed {states : List (List Item)} {t : List Item}
    (listed : ∃ u ∈ states, sameState u t = true) :
    ∃ n : Nat, stateNumber states t = n ∧ ∃ u, states[n]? = some u ∧ sameState u t = true := by
  obtain ⟨u, member, same⟩ := listed
  cases found : states.findIdx? (sameState · t) with
  | none =>
      have differs := List.findIdx?_eq_none_iff.mp found u member
      simp [same] at differs
  | some n =>
      obtain ⟨within, atN, _⟩ := List.findIdx?_eq_some_iff_getElem.mp found
      exact ⟨n, by simp [stateNumber, found], states[n], List.getElem?_eq_getElem within,
        by simpa using atN⟩

end ActionSets

namespace Workbench

variable {g : Grammar}

/-- Every character of a body of the console's productions is a symbol of its walk: the body
of the start production is the start symbol, an uppercase body character is a nonterminal,
and any other is a terminal. -/
theorem bodyChar_mem_symbols (recorded : g.Recorded) (wellFormed : g.WellFormed)
    {first : Production} (listed : first ∈ g.productions) {p : Production}
    (member : p ∈ (⟨"Z", first.head.toList⟩ :: g.productions : List Production)) {c : Char}
    (inBody : c ∈ p.body) :
    c.toString ∈ g.nonterminals ++ (g.terminals.map Char.toString ++ [endMarker.toString]) := by
  rcases List.mem_cons.mp member with rfl | own
  · obtain ⟨X, _, named⟩ := wellFormed.head_upper first listed
    have isX : c = X := by simpa [named] using inBody
    subst isX
    exact List.mem_append_left _ (named ▸ recorded.head_mem first listed)
  · cases upper : Text.isUppercase c with
    | true => exact List.mem_append_left _ (recorded.upper_mem p own c inBody upper)
    | false =>
        have terminal := recorded.lower_mem p own c inBody upper
        exact List.mem_append_right _ (List.mem_append_left _ (List.mem_map_of_mem terminal))

end Workbench

open ItemContext

/-- Whenever the console reaches its table, every goto set it looks up has a state. For each
item of each state with a symbol `x` after its dot, the goto set over `x` is computed and not
empty, the state number found for it is a position of the list of states and never `-1`, and
the state there equals the goto set by the test that the walk uses to tell states apart. -/
theorem workbench_gotos_have_states {text : String} {g : Grammar} {first : Production}
    {states : List (List Item)} (read : Grammar.ofText text = .ok g) (wellFormed : g.WellFormed)
    (listed : g.productions.head? = some first)
    (built : (g.itemContext (⟨"Z", first.head.toList⟩ :: g.productions)).states
      (g.nonterminals ++ (g.terminals.map Char.toString ++ [endMarker.toString]))
      (Item.start ⟨"Z", first.head.toList⟩ (.single endMarker)) = .ok states)
    {s : List Item} (inStates : s ∈ states) {it : Item} (inState : it ∈ s) {x : Char}
    {unseen : List Char} (next : (it.dottedBody.splitOn '.')[1]? = some (x :: unseen)) :
    ∃ t, (g.itemContext (⟨"Z", first.head.toList⟩ :: g.productions)).goto s x.toString = .ok t ∧
      t ≠ [] ∧ ∃ n : Nat, ActionSets.stateNumber states t = n ∧
        ∃ u, states[n]? = some u ∧ sameState u t = true := by
  have shape := Grammar.readShape_ofText read
  have firstListed : first ∈ g.productions := List.mem_of_mem_head? listed
  set ctx := g.itemContext (⟨"Z", first.head.toList⟩ :: g.productions)
  have sound : ctx.Sound g.terminals :=
    g.sound_startContext shape wellFormed (z := 'Z') (by decide) firstListed
  have startFit : ctx.Fit g.terminals (Item.start ⟨"Z", first.head.toList⟩ (.single endMarker)) :=
    ⟨⟨List.mem_cons_self, Nat.zero_le _⟩, fun d member => .inr (CharSet.mem_single.mp member)⟩
  have fit := ctx.states_fit sound startFit built s inStates it inState
  have plain := fit.plain sound
  rw [Item.dottedBody_splitOn plain] at next
  simp only [List.getElem?_cons_succ, List.getElem?_cons_zero, Option.some.injEq] at next
  have before : it.dot < it.body.length := by
    have nonempty := congrArg List.length next
    simp only [List.length_drop, List.length_cons] at nonempty
    omega
  have atDot : it.body[it.dot] = x := by
    rw [List.drop_eq_getElem_cons before, List.cons.injEq] at next
    exact next.1
  have symbol := Workbench.bodyChar_mem_symbols shape.recorded wellFormed firstListed
    fit.dotted.1 (atDot ▸ List.getElem_mem before)
  obtain ⟨t, moved, found⟩ := ctx.states_closed built s inStates x.toString symbol
  have nonempty : t ≠ [] :=
    List.ne_nil_of_mem (ctx.next_mem_goto inState plain before (atDot ▸ moved))
  rcases found with empty | listedT
  · exact absurd empty nonempty
  · exact ⟨t, moved, nonempty, ActionSets.stateNumber_of_listed listedT⟩

/-- In `S->aS`, `S->b` a state holds the item `S->.aS` with the end marker, and the goto set of
that state over `a` has a state. -/
theorem workbench_gotos_have_states_right_recursion :
    ∃ g states s, Grammar.ofText "S->aS\nS->b" = .ok g ∧ g.WellFormed ∧
      g.productions.head? = some ⟨"S", ['a', 'S']⟩ ∧
      (g.itemContext (⟨"Z", (⟨"S", ['a', 'S']⟩ : Production).head.toList⟩ :: g.productions)).states
        (g.nonterminals ++ (g.terminals.map Char.toString ++ [endMarker.toString]))
        (Item.start ⟨"Z", (⟨"S", ['a', 'S']⟩ : Production).head.toList⟩ (.single endMarker)) =
          .ok states ∧
      s ∈ states ∧ Item.start ⟨"S", ['a', 'S']⟩ (.single endMarker) ∈ s ∧
      ((Item.start ⟨"S", ['a', 'S']⟩ (.single endMarker)).dottedBody.splitOn '.')[1]? =
        some ('a' :: ['S']) ∧
      ∃ t, (g.itemContext (⟨"Z", (⟨"S", ['a', 'S']⟩ : Production).head.toList⟩ ::
          g.productions)).goto s 'a'.toString = .ok t ∧
        t ≠ [] ∧ ∃ n : Nat, ActionSets.stateNumber states t = n ∧
          ∃ u, states[n]? = some u ∧ sameState u t = true := by
  have computed : ((Grammar.ofText "S->aS\nS->b").toOption.bind fun g =>
      ((g.itemContext (⟨"Z", (⟨"S", ['a', 'S']⟩ : Production).head.toList⟩ :: g.productions)).states
        (g.nonterminals ++ (g.terminals.map Char.toString ++ [endMarker.toString]))
        (Item.start ⟨"Z", (⟨"S", ['a', 'S']⟩ : Production).head.toList⟩
          (.single endMarker))).toOption.map fun states =>
        (g.productions, states.any fun s =>
          s.contains (Item.start ⟨"S", ['a', 'S']⟩ (.single endMarker)))) =
      some ([⟨"S", ['a', 'S']⟩, ⟨"S", ['b']⟩], true) := by
    decide +kernel
  obtain ⟨g, read, computed⟩ := Option.bind_eq_some_iff.mp computed
  obtain ⟨states, built, computed⟩ := Option.map_eq_some_iff.mp computed
  simp only [Prod.mk.injEq] at computed
  obtain ⟨productions, holding⟩ := computed
  obtain ⟨s, inStates, contains⟩ := List.any_eq_true.mp holding
  have read := toOption_eq_some.mp read
  have built := toOption_eq_some.mp built
  have wellFormed := Grammar.wellFormed_of_plain 'Z' (by decide) (by rw [productions]; decide)
  have listed : g.productions.head? = some ⟨"S", ['a', 'S']⟩ := by rw [productions]; rfl
  have inState := List.contains_iff_mem.mp contains
  have next : ((Item.start ⟨"S", ['a', 'S']⟩ (.single endMarker)).dottedBody.splitOn '.')[1]? =
      some ('a' :: ['S']) := by decide
  exact ⟨g, states, s, read, wellFormed, listed, built, inStates, inState, next,
    workbench_gotos_have_states read wellFormed listed built inStates inState next⟩

end GrammarBench
