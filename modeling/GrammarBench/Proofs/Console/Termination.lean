import GrammarBench.Console.Workbench
import GrammarBench.Proofs.Symbols
import GrammarBench.Proofs.Except
import GrammarBench.Proofs.Lr.Forest

/-!
# When the console parse ends

The console parse reads the first action of the cell under the next input character and
moves only when it is a shift, a reduction or acceptance. A cell under a nonterminal holds a
goto state number instead, and the parse reaches such a cell when the input line holds that
nonterminal: the move then changes neither the stack nor the input, and the loop repeats it
forever (`Workbench.parseFrom_idle`). So the console parse does not end on every input line,
even for a grammar whose shift-reduce parse ends on every input
(`workbench_parse_idles_on_goto_cell`).
-/

namespace GrammarBench

namespace Workbench

variable {productions : List Production} {rows : List ActionSetRow}

/-- A move that changes nothing is made again and again: no number of moves ends the parse. -/
theorem parseFrom_idle {stack : List Entry} {input : List Char} (nonempty : input ≠ [])
    (idle : move productions rows stack input = .idle) (fuel : Nat) :
    parseFrom productions rows fuel stack input = ([], .unfinished) := by
  induction fuel with
  | zero => rfl
  | succ fuel ih =>
      have notEmpty : input.isEmpty = false := List.isEmpty_eq_false_iff.mpr nonempty
      simp only [parseFrom, notEmpty, Bool.false_eq_true, if_false, idle]
      exact ih

end Workbench

/-- The console parse can idle forever. The grammar `S->a` is well formed, no nonterminal of
it derives itself alone, and nothing in it vanishes, so its shift-reduce parse ends on every
input. At the console the bottom state has a goto under `S`, so on the input line `S` the
first action of the cell is the state number `1`, which neither shifts, reduces nor accepts:
the parse prints its first configuration and then repeats that move for any number of
moves. -/
theorem workbench_parse_idles_on_goto_cell :
    ∃ g, Grammar.ofText "S->a" = .ok g ∧ g.WellFormed ∧ (∀ A, ¬ g.Cyclic A) ∧
      (∀ A, ¬ g.HiddenLeftRecursive A) ∧
      (Workbench.run.run "S->a\n\nS\n").result = .ok () ∧
      (Workbench.run.run "S->a\n\nS\n").printed.getLast? = some "0\t \t\t \tS$" ∧
      ∃ states rows,
        (g.itemContext (⟨"Z", ['S']⟩ :: g.productions)).states
          (g.nonterminals ++ g.terminals.map Char.toString ++ [endMarker.toString])
          (Item.start ⟨"Z", ['S']⟩ (.single endMarker)) = .ok states ∧
        ActionSets.build (g.itemContext (⟨"Z", ['S']⟩ :: g.productions))
          (g.terminals.map Char.toString ++ [endMarker.toString]) states = .ok rows ∧
        ∀ fuel, Workbench.parseFrom (⟨"Z", ['S']⟩ :: g.productions) rows fuel [.text "0"]
          ['S', endMarker] = ([], .unfinished) := by
  have read : Grammar.ofText "S->a" = .ok ⟨[⟨"S", ['a']⟩], ["S"], ['a']⟩ := by
    rfl
  refine ⟨_, read, Grammar.wellFormed_of_plain 'A' (by decide) (by decide), ?_, ?_, ?_, ?_, ?_⟩
  · have ranks : Grammar.RanksUnits ⟨[⟨"S", ['a']⟩], ["S"], ['a']⟩ fun _ => 0 :=
      ⟨by decide, by decide⟩
    exact ranks.not_cyclic
  · have ranks : Grammar.RanksUnits ⟨[⟨"S", ['a']⟩], ["S"], ['a']⟩ fun _ => 0 :=
      ⟨by decide, by decide⟩
    exact Grammar.not_hiddenLeftRecursive_of_not_nullable
      (Grammar.not_nullable_of_nonempty ranks.nonempty)
  · exact toOption_eq_some.mp (by decide +kernel)
  · decide +kernel
  have computed : ((Grammar.itemContext ⟨[⟨"S", ['a']⟩], ["S"], ['a']⟩
      [⟨"Z", ['S']⟩, ⟨"S", ['a']⟩]).states ["S", "a", endMarker.toString]
        (Item.start ⟨"Z", ['S']⟩ (.single endMarker))).toOption.bind (fun states =>
      (ActionSets.build (Grammar.itemContext ⟨[⟨"S", ['a']⟩], ["S"], ['a']⟩
        [⟨"Z", ['S']⟩, ⟨"S", ['a']⟩]) ["a", endMarker.toString] states).toOption.map fun rows =>
        match Workbench.move [⟨"Z", ['S']⟩, ⟨"S", ['a']⟩] rows [.text "0"] ['S', endMarker] with
        | .idle => true
        | _ => false) = some true := by
    decide +kernel
  obtain ⟨states, found, built⟩ := Option.bind_eq_some_iff.mp computed
  obtain ⟨rows, tabled, idle⟩ := Option.map_eq_some_iff.mp built
  refine ⟨states, rows, toOption_eq_some.mp found, toOption_eq_some.mp tabled, fun fuel => ?_⟩
  apply Workbench.parseFrom_idle (by simp) _ fuel
  split at idle
  · assumption
  · exact absurd idle Bool.false_ne_true

end GrammarBench
