import GrammarBench.Proofs.Derivation
import GrammarBench.Proofs.Symbols
import GrammarBench.Trace

/-!
# Texts that start sentences

A text starts a sentence of a grammar when some text after it completes a text of the
language (`Grammar.StartsSentence`). A parser with the valid-prefix property consumes only
texts that start sentences: it notices an error no later than at the first symbol with which
no sentence can go on.

When every nonterminal of a grammar derives some text (`Grammar.Productive`), every form that
the start symbol derives can be completed: the nonterminals in it are the grammar's own
(`Grammar.listed_of_derives`), and each derives a text. So a text followed by the symbols of a
derived form starts a sentence (`Grammar.startsSentence_of_derives`).

Both parsers record their steps with the input left after each one (`Records`). A step shows
a text that starts a sentence when the part of the input consumed by then starts one
(`Grammar.ConsumedStarts`).
-/

namespace GrammarBench

namespace Grammar

variable {g : Grammar}

/-- Every nonterminal derives some text. -/
def Productive (g : Grammar) : Prop :=
  ∀ A ∈ g.nonterminals, ∃ v, g.cfg.Derives [.nonterminal A] (terminalForm v)

/-- The text `u` starts a sentence: some text after it completes a text of the language. -/
def StartsSentence (g : Grammar) (u : List Char) : Prop :=
  ∃ v, u ++ v ∈ g.cfg.language

/-- Every nonterminal of the form is one of the grammar's. -/
def Listed (g : Grammar) (x : Sentential) : Prop :=
  ∀ A, Symbol.nonterminal A ∈ x → A ∈ g.nonterminals

theorem Listed.of_append_right {x y : Sentential} (listed : g.Listed (x ++ y)) : g.Listed y :=
  fun A member => listed A (List.mem_append_right x member)

/-- The symbols of the bodies of a recorded grammar are its terminals and nonterminals. -/
theorem listed_form (recorded : g.Recorded) {p : Production} (member : p ∈ g.productions) :
    g.Listed p.form := by
  intro A inForm
  obtain ⟨c, inBody, named⟩ := List.mem_map.mp inForm
  cases upper : Text.isUppercase c with
  | false => simp [bodySymbol_of_not_upper upper] at named
  | true =>
      rw [bodySymbol_of_upper upper, Symbol.nonterminal.injEq] at named
      exact named ▸ recorded.upper_mem p member c inBody upper

/-- Every form that a form of the grammar's symbols derives is made of the grammar's
symbols. -/
theorem listed_of_derives (recorded : g.Recorded) {x y : Sentential}
    (derivation : g.cfg.Derives x y) (listed : g.Listed x) : g.Listed y := by
  refine invariant_of_derives g.Listed ?_ derivation listed
  intro p member before after around
  have outer : g.Listed (before ++ after) := by
    intro A inOuter
    rcases List.mem_append.mp inOuter with inBefore | inAfter
    · exact around A (List.mem_append_left _ inBefore)
    · exact around A (List.mem_append_right _ (List.mem_cons_of_mem _ inAfter))
  intro A inResult
  rcases List.mem_append.mp inResult with inFront | inAfter
  · rcases List.mem_append.mp inFront with inBefore | inBody
    · exact outer A (List.mem_append_left _ inBefore)
    · exact listed_form recorded member A inBody
  · exact outer A (List.mem_append_right _ inAfter)

/-- In a productive grammar, every form of the grammar's symbols derives some text. -/
theorem exists_derives_terminalForm (productive : g.Productive) {x : Sentential}
    (listed : g.Listed x) : ∃ v, g.cfg.Derives x (terminalForm v) := by
  induction x with
  | nil => exact ⟨[], .refl _⟩
  | cons s x ih =>
      obtain ⟨v, rest⟩ := ih fun A member => listed A (List.mem_cons_of_mem s member)
      cases s with
      | terminal a => exact ⟨a :: v, rest.append_left [.terminal a]⟩
      | nonterminal A =>
          obtain ⟨u, first⟩ := productive A (listed A List.mem_cons_self)
          refine ⟨u ++ v, ?_⟩
          have front : g.cfg.Derives (.nonterminal A :: x) (terminalForm u ++ x) :=
            first.append_right x
          rw [terminalForm_append]
          exact front.trans (rest.append_left (terminalForm u))

/-- A text that the start symbol derives, followed by symbols of the grammar, starts a
sentence of a productive grammar. -/
theorem startsSentence_of_derives (recorded : g.Recorded) (productive : g.Productive)
    (named : g.startName ∈ g.nonterminals) {u : List Char} {x : Sentential}
    (derivation : g.cfg.Derives [.nonterminal g.startName] (terminalForm u ++ x)) :
    g.StartsSentence u := by
  have start : g.Listed [.nonterminal g.startName] := by
    intro A member
    rw [List.mem_singleton, Symbol.nonterminal.injEq] at member
    exact member ▸ named
  have listed := (listed_of_derives recorded derivation start).of_append_right
  obtain ⟨v, completed⟩ := exists_derives_terminalForm productive listed
  refine ⟨v, ?_⟩
  show g.cfg.Derives [.nonterminal g.startName] (terminalForm (u ++ v))
  rw [terminalForm_append]
  exact derivation.trans (completed.append_left (terminalForm u))

/-- The part of `w` that a parse has consumed by the time of `step`, read off the input the
step shows as left, starts a sentence. -/
def ConsumedStarts (g : Grammar) (w : List Char) (step : Step) : Prop :=
  ∀ u, u ++ step.input.toList = w ++ [endMarker] → g.StartsSentence u

theorem consumedStarts_of_input {w u rest : List Char} {step : Step} (split : u ++ rest = w)
    (shows : step.input = String.ofList (rest ++ [endMarker])) (starts : g.StartsSentence u) :
    g.ConsumedStarts w step := by
  intro u' consumed
  rw [shows, String.toList_ofList, ← split, ← List.append_assoc] at consumed
  rwa [List.append_cancel_right (List.append_cancel_right consumed)]

end Grammar

/-- What one step of a parse adds to the steps taken so far, latest first: nothing, or one
step that shows the input left after it. -/
def Records {σ : Type} (steps : List Step) (input : List Char) : Progress σ → Prop
  | .finished trace => trace.steps = steps.reverse ∨
      ∃ step, step.input = String.ofList input ∧ trace.steps = (step :: steps).reverse
  | .next _ input' steps' => ∃ step, step.input = String.ofList input' ∧ steps' = step :: steps

section Records

variable {σ : Type} {steps : List Step} {input : List Char} {P : Step → Prop}

theorem Records.finished_forall {trace : Trace}
    (records : Records steps input (.finished trace : Progress σ)) (old : ∀ s ∈ steps, P s)
    (current : ∀ step, step.input = String.ofList input → P step) : ∀ s ∈ trace.steps, P s := by
  rcases records with same | ⟨step, shows, added⟩
  · rw [same]
    exact fun s member => old s (List.mem_reverse.mp member)
  · rw [added]
    intro s member
    rcases List.mem_cons.mp (List.mem_reverse.mp member) with rfl | earlier
    · exact current s shows
    · exact old s earlier

theorem Records.next_forall {stack : σ} {input' : List Char} {steps' : List Step}
    (records : Records steps input (.next stack input' steps')) (old : ∀ s ∈ steps, P s)
    (current : ∀ step, step.input = String.ofList input' → P step) : ∀ s ∈ steps', P s := by
  obtain ⟨step, shows, rfl⟩ := records
  intro s member
  rcases List.mem_cons.mp member with rfl | earlier
  · exact current s shows
  · exact old s earlier

end Records

end GrammarBench
