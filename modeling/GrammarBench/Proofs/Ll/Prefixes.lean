import GrammarBench.Proofs.Ll.Soundness
import GrammarBench.Proofs.Prefixes

/-!
# The predictive parse consumes only texts that start sentences

A configuration of a predictive parse that `Predictive.Derived` describes has matched a part
of the input that the start symbol derives, followed by the symbols on the stack. When every
nonterminal derives some text, those symbols can be completed, so the matched part starts a
sentence (`Predictive.Derived.startsSentence`). Every step the parse records shows the input
left after it, so each recorded step shows a consumed part that starts a sentence
(`Predictive.Derived.consumedStarts_run`), whatever production a cell holds: the property
needs no correct FIRST or FOLLOW set.
-/

namespace GrammarBench

/-- A step of a predictive parse adds at most one step to those taken, and that step shows
the input left after it. -/
theorem predictiveStep_records {g : Grammar} {table : Field} {stack : List String}
    {input : List Char} {steps : List Step} {progress : Progress (List String)}
    (stepped : predictiveStep g table stack input steps = .ok progress) :
    Records steps input progress := by
  unfold predictiveStep at stepped
  split at stepped
  · cases stepped
    exact Or.inl rfl
  split at stepped
  · cases stepped
  split at stepped
  · cases stepped
    exact Or.inr ⟨_, rfl, rfl⟩
  split at stepped
  · split at stepped
    · cases stepped
      exact ⟨_, rfl, rfl⟩
    · cases stepped
      exact Or.inl rfl
  split at stepped
  · obtain ⟨entry, _, stepped⟩ := bind_eq_ok.mp stepped
    split at stepped
    · cases stepped
      exact Or.inl rfl
    obtain ⟨text, _, stepped⟩ := bind_eq_ok.mp stepped
    obtain ⟨p, _, stepped⟩ := bind_eq_ok.mp stepped
    cases stepped
    exact ⟨_, rfl, rfl⟩
  · cases stepped
    exact Or.inl rfl

namespace Predictive

variable {g : Grammar} {t : LlTable} {w matched above rest : List Char} {steps : List Step}
  {ps : List Production}

/-- The start symbol is one of the nonterminals, when there is a first production. -/
theorem Setting.startName_mem (setting : Setting g t) {first : Production}
    {others : List Production} (listed : g.productions = first :: others) :
    g.startName ∈ g.nonterminals := by
  have named : g.startName = first.head := by
    simp [Grammar.startName, listed]
  rw [named]
  exact setting.shape.recorded.head_mem first (listed ▸ List.mem_cons_self)

/-- A derived configuration has matched a text that starts a sentence. -/
theorem Derived.startsSentence (setting : Setting g t) (productive : g.Productive)
    (named : g.startName ∈ g.nonterminals) (derived : Derived g w matched above rest steps ps) :
    g.StartsSentence matched :=
  Grammar.startsSentence_of_derives setting.shape.recorded productive named
    (derived.derives.derives fun _ _ _ step => Production.leftmostStep_rewrites step)

/-- From a derived configuration, every step the parse records shows a consumed part that
starts a sentence. -/
theorem Derived.consumedStarts_run (setting : Setting g t) (productive : g.Productive)
    (named : g.startName ∈ g.nonterminals) (derived : Derived g w matched above rest steps ps)
    (shown : ∀ s ∈ steps, g.ConsumedStarts w s) {fuel : Nat} {trace : Trace}
    (ran : predictiveFrom g t.toPredict fuel (above.map Char.toString ++ [endMarker.toString])
      (rest ++ [endMarker]) steps = .ok trace) :
    ∀ s ∈ trace.steps, g.ConsumedStarts w s := by
  induction fuel generalizing matched above rest steps ps with
  | zero =>
      simp only [predictiveFrom, Except.ok.injEq] at ran
      subst ran
      exact fun s member => shown s (List.mem_reverse.mp member)
  | succ fuel ih =>
      simp only [predictiveFrom] at ran
      obtain ⟨progress, stepped, ran⟩ := bind_eq_ok.mp ran
      have records := predictiveStep_records stepped
      have current : ∀ step : Step, step.input = String.ofList (rest ++ [endMarker]) →
          g.ConsumedStarts w step := fun step shows =>
        Grammar.consumedStarts_of_input derived.split.symm shows
          (derived.startsSentence setting productive named)
      cases progress with
      | finished done =>
          simp only [pure, Except.pure, Except.ok.injEq] at ran
          subst ran
          exact records.finished_forall shown current
      | next stack input later =>
          obtain ⟨matched', above', rest', ps', rfl, rfl, derived'⟩ :=
            derived.step setting stepped
          refine ih derived' (records.next_forall shown fun step shows => ?_) ran
          exact Grammar.consumedStarts_of_input derived'.split.symm shows
            (derived'.startsSentence setting productive named)

end Predictive

/-- Every step that a predictive parse records, from the head of the first production of a
well-formed productive grammar, with the table that the LL(1) analysis builds when it finds no
conflict, on an input without the end marker and within any number of steps, shows a consumed
part of the input that starts a sentence. -/
theorem predictiveFrom_consumedStarts {text input : String} {g : Grammar}
    {firsts : List (String × CharSet)} {follows : FollowSets} {t : LlTable} {first : Production}
    {others : List Production} {fuel : Nat} {trace : Trace} (read : Grammar.ofText text = .ok g)
    (wellFormed : g.WellFormed) (productive : g.Productive) (unmarked : endMarker ∉ input.toList)
    (built : LlTable.build g firsts follows = .ok t) (listed : g.productions = first :: others)
    (ran : predictiveFrom g t.toPredict fuel [first.head, endMarker.toString]
      (input.toList ++ [endMarker])
      [⟨showStack [first.head, endMarker.toString], String.ofList (input.toList ++ [endMarker]),
        "Initial"⟩] = .ok trace) :
    ∀ step ∈ trace.steps, g.ConsumedStarts input.toList step := by
  have setting : Predictive.Setting g t :=
    ⟨Grammar.readShape_ofText read, wellFormed, LlTable.entered_build built⟩
  have named := setting.startName_mem listed
  obtain ⟨X, upper, head⟩ := wellFormed.head_upper first (listed ▸ List.mem_cons_self)
  have initial := Predictive.derived_initial listed upper head unmarked
  rw [head] at ran
  refine initial.consumedStarts_run setting productive named ?_ ran
  intro s member
  rw [List.mem_singleton] at member
  subst member
  exact Grammar.consumedStarts_of_input (List.nil_append _) rfl
    (initial.startsSentence setting productive named)

end GrammarBench
