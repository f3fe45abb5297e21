import GrammarBench.Trace

/-!
# The actions a trace names

Both parsers name what they do in the actions of their steps, and an action that reduces by
a production or applies one starts with a fixed text. The actions that start with a given
text, in order, are `actionsWith`; a step whose action starts otherwise leaves them as they
are. A parse keeps its steps latest first while it runs and reverses them at the end, which
reverses these actions too (`actionsWith_reverse`).

The reasons a parse gives for stopping are told apart by their first characters
(`ne_of_head`).
-/

namespace GrammarBench

theorem isPrefixOf_append (s t : String) : s.toList.isPrefixOf (s ++ t).toList = true := by
  rw [String.toList_append]
  exact List.isPrefixOf_iff_prefix.mpr (List.prefix_append _ _)

/-- Two texts that start with different characters differ. -/
theorem ne_of_head {s u : String} {c d : Char} (first : s.toList.head? = some c)
    (other : u.toList.head? = some d) (differ : c ≠ d) : s ≠ u := by
  intro same
  rw [same, other] at first
  exact differ (Option.some.inj first).symm

/-- The actions of the steps that start with the text `start`, in order. -/
def actionsWith (start : String) (steps : List Step) : List String :=
  (steps.filter fun s => start.toList.isPrefixOf s.action.toList).map Step.action

variable {start : String} {step : Step}

theorem actionsWith_cons_of_isPrefixOf (steps : List Step)
    (named : start.toList.isPrefixOf step.action.toList = true) :
    actionsWith start (step :: steps) = step.action :: actionsWith start steps := by
  simp only [actionsWith, List.filter_cons, named, if_true, List.map_cons]

theorem actionsWith_cons_other (steps : List Step)
    (other : start.toList.isPrefixOf step.action.toList = false) :
    actionsWith start (step :: steps) = actionsWith start steps := by
  simp only [actionsWith, List.filter_cons, other, Bool.false_eq_true, if_false]

theorem actionsWith_reverse (steps : List Step) :
    actionsWith start steps.reverse = (actionsWith start steps).reverse := by
  simp [actionsWith, List.filter_reverse, List.map_reverse]

end GrammarBench
