import GrammarBench.Proofs.Lr.Soundness
import GrammarBench.Proofs.Ll.Prefixes

/-!
# The shift-reduce parse consumes only texts that start sentences

An item is viable after the symbols `γ` of a stack when the start symbol derives `γ`, then
the symbols the item has still to see, then more symbols (`Item.ViableAfter`). The item the
automaton starts from is viable after nothing. The closure keeps viability, since an item it
adds for the nonterminal after a dot is what that nonterminal becomes; moving the dot over a
symbol makes an item viable after the stack with that symbol added. States with the same
sorted labels hold items of the same productions with the dots at the same places, so the
states on the chain of a parse stay viable after the symbols below them, whatever lookaheads
the closure gave their items and whatever conflicts the table builder overwrote
(`Setting.viable_cross`).

A shift crosses a terminal `c` after the dot of an item of the top state. That item is viable
after the stack's symbols, and these derive the part `u` of the input consumed, so the start
symbol derives `u`, then `c`, then more symbols: in a productive grammar `u` followed by `c`
starts a sentence (`Setting.startsSentence_of_crossing`). So every step the parse records
shows a consumed part that starts a sentence (`shiftReduceFrom_consumedStarts`), and with the
same fact of the predictive parse this is the valid-prefix property of both parsers
(`parsers_consume_sentence_starts`).
-/

namespace GrammarBench

namespace Item

/-- The item is viable after the symbols `γ`: the start symbol derives `γ`, then the symbols
the item has still to see, then more symbols. -/
def ViableAfter (g : Grammar) (γ : List Char) (it : Item) : Prop :=
  ∃ ρ : Sentential, g.cfg.Derives [.nonterminal g.startName]
    (((γ ++ it.body.drop it.dot).map bodySymbol : Sentential) ++ ρ)

variable {g : Grammar} {γ : List Char} {it : Item}

theorem drop_dot_eq_cons {c : Char} (found : it.body[it.dot]? = some c) :
    it.body.drop it.dot = c :: it.body.drop (it.dot + 1) := by
  obtain ⟨before, isC⟩ := List.getElem?_eq_some_iff.mp found
  rw [List.drop_eq_getElem_cons before, isC]

/-- Moving the dot over the symbol after it keeps an item viable after that symbol. -/
theorem ViableAfter.next {c : Char} (found : it.body[it.dot]? = some c)
    (viable : it.ViableAfter g γ) : it.next.ViableAfter g (γ ++ [c]) := by
  obtain ⟨ρ, derivation⟩ := viable
  refine ⟨ρ, ?_⟩
  show g.cfg.Derives _ ((γ ++ [c] ++ it.body.drop (it.dot + 1)).map bodySymbol ++ ρ)
  rw [drop_dot_eq_cons found] at derivation
  simpa using derivation

/-- The item that the closure adds for a nonterminal after the dot of a viable item is viable
after the same symbols: the nonterminal derives the body of the added item. -/
theorem ViableAfter.start {y : Char} (found : it.body[it.dot]? = some y)
    (upper : Text.isUppercase y = true) {p : Production} (member : p ∈ g.productions)
    (named : p.head = y.toString) (viable : it.ViableAfter g γ) (la : CharSet) :
    (Item.start p la).ViableAfter g γ := by
  obtain ⟨ρ, derivation⟩ := viable
  refine ⟨(it.body.drop (it.dot + 1)).map bodySymbol ++ ρ, derivation.trans_produces ?_⟩
  rw [Grammar.produces_iff]
  refine ⟨p, member, γ.map bodySymbol, (it.body.drop (it.dot + 1)).map bodySymbol ++ ρ, ?_, ?_⟩
  · rw [drop_dot_eq_cons found, List.map_append, List.map_cons, bodySymbol_of_upper upper,
      ← named]
    simp
  · simp [Item.start, Production.form]

end Item

/-- Every item of the state is viable after the symbols `γ`. -/
def ItemsViable (g : Grammar) (s : List Item) (γ : List Char) : Prop :=
  ∀ it ∈ s, it.ViableAfter g γ

/-- A state with the same sorted labels as a viable state is viable too. -/
theorem itemsViable_of_sortedLabels {g : Grammar} {s t : List Item} {γ : List Char}
    (plainS : ∀ it ∈ s, it.Plain) (plainT : ∀ it ∈ t, it.Plain)
    (same : sortedLabels s = sortedLabels t) (viable : ItemsViable g t γ) :
    ItemsViable g s γ := by
  intro it member
  obtain ⟨other, inT, sameProduction, sameDot⟩ :=
    exists_core_twin_of_sortedLabels plainS plainT same member
  have sameBody : it.body = other.body := congrArg Production.body sameProduction
  obtain ⟨ρ, derivation⟩ := viable other inT
  exact ⟨ρ, by rw [sameBody, sameDot]; exact derivation⟩

/-- A step of a shift-reduce parse adds at most one step to those taken, and that step shows
the input left after it. -/
theorem shiftReduceStep_records {productions : List Production} {table : Field}
    {stack : List Field} {input : List Char} {steps : List Step}
    {progress : Progress (List Field)}
    (stepped : shiftReduceStep productions table stack input steps = .ok progress) :
    Records steps input progress := by
  unfold shiftReduceStep at stepped
  obtain ⟨state, _, stepped⟩ := bind_eq_ok.mp stepped
  obtain ⟨c, tail, rfl⟩ : ∃ c tail, input = c :: tail := by
    cases input with
    | nil =>
        dsimp only at stepped
        obtain ⟨_, thrown, _⟩ := bind_eq_ok.mp stepped
        cases thrown
    | cons c tail => exact ⟨c, tail, rfl⟩
  dsimp only at stepped
  obtain ⟨c', picked, stepped⟩ := bind_eq_ok.mp stepped
  simp only [pure, Except.pure, Except.ok.injEq] at picked
  subst picked
  obtain ⟨row, _, stepped⟩ := bind_eq_ok.mp stepped
  obtain ⟨member, _, stepped⟩ := bind_eq_ok.mp stepped
  have stop : ∀ reason, (pure (Progress.finished ⟨steps.reverse, .rejected reason⟩) :
      Except Fault _) = .ok progress → Records steps (c :: tail) progress := by
    intro reason stopped
    cases stopped
    exact Or.inl rfl
  split at stepped
  · exact stop _ stepped
  obtain ⟨action, _, stepped⟩ := bind_eq_ok.mp stepped
  split at stepped
  · exact stop _ stepped
  split at stepped
  · obtain ⟨shown, _, stepped⟩ := bind_eq_ok.mp stepped
    cases stepped
    exact Or.inr ⟨_, rfl, rfl⟩
  obtain ⟨text, _, stepped⟩ := bind_eq_ok.mp stepped
  split at stepped
  · obtain ⟨shown, _, stepped⟩ := bind_eq_ok.mp stepped
    cases stepped
    exact ⟨_, rfl, rfl⟩
  · obtain ⟨n, _, stepped⟩ := bind_eq_ok.mp stepped
    obtain ⟨p, _, stepped⟩ := bind_eq_ok.mp stepped
    split at stepped
    · obtain ⟨shown, _, stepped⟩ := bind_eq_ok.mp stepped
      obtain ⟨r, _, stepped⟩ := bind_eq_ok.mp stepped
      cases r with
      | error reason =>
          cases stepped
          exact Or.inr ⟨_, rfl, rfl⟩
      | ok target =>
          cases stepped
          exact ⟨_, rfl, rfl⟩
    split at stepped
    · exact stop _ stepped
    obtain ⟨below, _, stepped⟩ := bind_eq_ok.mp stepped
    obtain ⟨shown, _, stepped⟩ := bind_eq_ok.mp stepped
    obtain ⟨belowRow, _, stepped⟩ := bind_eq_ok.mp stepped
    obtain ⟨r, _, stepped⟩ := bind_eq_ok.mp stepped
    cases r with
    | error reason =>
        cases stepped
        exact Or.inr ⟨_, rfl, rfl⟩
    | ok target =>
        cases stepped
        exact ⟨_, rfl, rfl⟩
  · exact stop _ stepped

namespace Setting

variable {g : Grammar} {z : Char} {ctx : ItemContext} {states : List (List Item)}
  {table : ActionTable} {chain : List (Char × Nat)}

/-- The start symbol is one of the nonterminals. -/
theorem startName_mem (setting : Setting g z ctx states table) :
    g.startName ∈ g.nonterminals := by
  obtain ⟨first, rest, listed, _⟩ := setting.augmented
  have named : g.startName = first.head := by
    simp [Grammar.startName, listed]
  rw [named]
  exact setting.recorded.head_mem first (listed ▸ List.mem_cons_self)

/-- The closure adds fit items that are viable after the same symbols as the item they are
added for. -/
theorem viable_grow (setting : Setting g z ctx states table) {γ : List Char} :
    ∀ it y la p, (ctx.Fit g.terminals it ∧ it.ViableAfter g γ) → it.isComplete = false →
      it.nextSymbol = .ok y → ctx.addedLookahead it = .ok la → p ∈ ctx.productions →
        p.head = y.toString →
          ctx.Fit g.terminals (Item.start p la) ∧ (Item.start p la).ViableAfter g γ := by
  intro it y la p ⟨fit, viable⟩ unfinished symbol lookahead member named
  have plain := fit.plain setting.sound
  have before := Item.dot_lt_of_isComplete_eq_false plain unfinished
  rw [Item.nextSymbol_eq plain before, Except.ok.injEq] at symbol
  have found : it.body[it.dot]? = some y := symbol ▸ List.getElem?_eq_getElem before
  have notStart : p.head ≠ z.toString := by
    intro isStart
    have same : y = z := String.singleton_inj.mp (named.symm.trans isStart)
    exact setting.fresh it.production fit.dotted.1 (same ▸ List.mem_of_getElem? found)
  have own := setting.mem_productions member notStart
  obtain ⟨H, upper, head⟩ := setting.wellFormed.head_upper p own
  have same : y = H := String.singleton_inj.mp (named.symm.trans head)
  subst same
  exact ⟨ItemContext.fit_start setting.sound fit lookahead member, viable.start found upper own named la⟩

/-- Crossing a symbol from a viable state leads to a goto set that is viable after the stack
with that symbol added. -/
theorem itemsViable_goto (setting : Setting g z ctx states table) {s t : List Item}
    {γ : List Char} {x : Char} (fit : ∀ it ∈ s, ctx.Fit g.terminals it)
    (viable : ItemsViable g s γ) (moved : ctx.goto s x.toString = .ok t) :
    ItemsViable g t (γ ++ [x]) := by
  have all := ctx.goto_forall setting.sound
    (fun it => ctx.Fit g.terminals it ∧ it.ViableAfter g (γ ++ [x])) setting.viable_grow fit
    (fun source member c found named => by
      have same : c = x := String.singleton_inj.mp named
      subst same
      have before := (List.getElem?_eq_some_iff.mp found).1
      exact ⟨⟨⟨(fit source member).dotted.1, before⟩, (fit source member).lookahead⟩,
        (viable source member).next found⟩)
    moved
  exact fun it member => (all it member).2

/-- Crossing to the state the table names keeps every state of a chain viable after the
symbols below it and its own. -/
theorem viable_cross (setting : Setting g z ctx states table)
    (viable : ChainAll (ItemsViable g) states chain) {x : Char} {v : Nat}
    (crossing : Crossing ctx states chain x v) : ChainAll (ItemsViable g) states ((x, v) :: chain) := by
  obtain ⟨s, atTop, _, next, moved, found⟩ := crossing
  exact viable.push setting.sound setting.fitAll
    (fun fit holds moved => setting.itemsViable_goto fit holds moved)
    (fun plainS plainT same holds => itemsViable_of_sortedLabels plainS plainT same holds)
    atTop moved found

/-- Crossing a terminal from a viable chain whose symbols derive `u` consumes a text `u`
followed by that terminal, and it starts a sentence of a productive grammar. -/
theorem startsSentence_of_crossing (setting : Setting g z ctx states table)
    (productive : g.Productive) (viable : ChainAll (ItemsViable g) states chain)
    {u : List Char} (spells : g.cfg.Derives ((chainSymbols chain).map bodySymbol) (terminalForm u))
    {c : Char} {v : Nat} (terminal : c ∈ g.terminals) (crossing : Crossing ctx states chain c v) :
    g.StartsSentence (u ++ [c]) := by
  obtain ⟨s, atTop, ⟨it, member, unfinished, symbol⟩, _⟩ := crossing
  obtain ⟨top, atTop', itemsViable⟩ := viable.top
  rw [atTop] at atTop'
  cases atTop'
  have plain := (setting.fitAll s (List.mem_of_getElem? atTop) it member).plain setting.sound
  have before := Item.dot_lt_of_isComplete_eq_false plain unfinished
  rw [Item.nextSymbol_eq plain before, Except.ok.injEq] at symbol
  have found : it.body[it.dot]? = some c := symbol ▸ List.getElem?_eq_getElem before
  obtain ⟨ρ, derivation⟩ := itemsViable it member
  have lower := Grammar.terminal_not_upper setting.recorded terminal
  rw [Item.drop_dot_eq_cons found, List.map_append, List.map_cons, bodySymbol_of_not_upper lower,
    List.append_assoc] at derivation
  have consumed : g.cfg.Derives [.nonterminal g.startName]
      (terminalForm (u ++ [c]) ++ ((it.body.drop (it.dot + 1)).map bodySymbol ++ ρ)) := by
    have spelled := derivation.trans (spells.append_right _)
    simp only [terminalForm_append, terminalForm_cons, terminalForm_nil, List.append_assoc,
      List.cons_append, List.nil_append] at spelled ⊢
    exact spelled
  exact Grammar.startsSentence_of_derives setting.recorded productive setting.startName_mem
    consumed

/-- The first state of the automaton is viable after nothing: it is the closure of the item
that starts the start production, whose body is the start symbol. -/
theorem itemsViable_initial (setting : Setting g z ctx states table) {start : Production}
    (listed : ctx.productions.head? = some start) {initial : List Item}
    (closed : ctx.closure [Item.start start (.single endMarker)] = .ok initial) :
    ItemsViable g initial [] := by
  obtain ⟨first, rest, listedG, augmented⟩ := setting.augmented
  rw [augmented, List.head?_cons, Option.some.injEq] at listed
  subst listed
  obtain ⟨S, upper, named⟩ := setting.wellFormed.head_upper first (listedG ▸ List.mem_cons_self)
  have startName : g.startName = S.toString := by
    simp [Grammar.startName, listedG, named]
  have startItem : ∀ it ∈ [Item.start ⟨z.toString, first.head.toList⟩ (.single endMarker)],
      ctx.Fit g.terminals it ∧ it.ViableAfter g [] := by
    intro it member
    rw [List.mem_singleton] at member
    subst member
    refine ⟨⟨⟨by rw [Item.start_production, augmented]; exact List.mem_cons_self, Nat.zero_le _⟩,
      fun d inLookahead => Or.inr (CharSet.mem_single.mp inLookahead)⟩, [], ?_⟩
    show g.cfg.Derives _ (([] ++ first.head.toList.drop 0).map bodySymbol ++ [])
    rw [named, startName]
    simp only [List.drop_zero, List.nil_append, Char.toString_eq_singleton,
      String.toList_singleton, List.map_singleton, bodySymbol_of_upper upper]
    exact .refl _
  have all := ctx.closure_forall _ setting.viable_grow startItem closed
  exact fun it member => (all it member).2

end Setting

/-- The first state of the automaton that the analysis builds is the closure of the item that
starts the first production of the augmented grammar. -/
theorem initial_of_ofGrammar {g : Grammar} {a : LrAnalysis}
    (analyzed : LrAnalysis.ofGrammar g = .ok a) :
    ∃ start initial, a.productions.head? = some start ∧
      (g.itemContext a.productions).closure [Item.start start (.single endMarker)] =
        .ok initial ∧ a.states[0]? = some initial := by
  unfold LrAnalysis.ofGrammar at analyzed
  obtain ⟨firsts, _, analyzed⟩ := bind_eq_ok.mp analyzed
  obtain ⟨follows, _, analyzed⟩ := bind_eq_ok.mp analyzed
  obtain ⟨productions, _, analyzed⟩ := bind_eq_ok.mp analyzed
  dsimp only at analyzed
  split at analyzed
  · rename_i start listed
    obtain ⟨start', isStart, analyzed⟩ := bind_eq_ok.mp analyzed
    simp only [pure, Except.pure, Except.ok.injEq] at isStart
    subst isStart
    obtain ⟨states, built, analyzed⟩ := bind_eq_ok.mp analyzed
    obtain ⟨table, _, analyzed⟩ := bind_eq_ok.mp analyzed
    simp only [pure, Except.pure, Except.ok.injEq] at analyzed
    subst analyzed
    obtain ⟨initial, closed, atZero, _⟩ := (g.itemContext productions).states_forall
      (fun _ => True) (fun _ _ _ _ _ => trivial) built
    exact ⟨start, initial, listed, closed, atZero⟩
  · obtain ⟨_, thrown, _⟩ := bind_eq_ok.mp analyzed
    cases thrown

/-! ## Configurations that consumed the start of a sentence -/

/-- A configuration of a parse of `w`, with the chain of its stack and the input `rest` left
before the end marker, that has consumed the start of a sentence: the chain agrees with the
states, each state of it is viable after the symbols below it and its own, and the stack's
symbols derive the part consumed. -/
structure Continuable (g : Grammar) (z : Char) (states : List (List Item)) (w : List Char)
    (chain : List (Char × Nat)) (rest : List Char) : Prop where
  chainOk : ChainOk z states chain
  viable : ChainAll (ItemsViable g) states chain
  consumed : ∃ u, u ++ rest = w ∧
    g.cfg.Derives ((chainSymbols chain).map bodySymbol : Sentential) (terminalForm u) ∧
      g.StartsSentence u

/-- Where a step from a continuable configuration leads: to the end of the parse, or to a
continuable configuration. -/
def ContinuesConsuming (g : Grammar) (z : Char) (states : List (List Item)) (w : List Char) :
    Progress (List Field) → Prop
  | .finished _ => True
  | .next stack input _ => ∃ chain rest, stack = chainStack chain ∧
      input = rest ++ [endMarker] ∧ Continuable g z states w chain rest

namespace Continuable

variable {g : Grammar} {z : Char} {ctx : ItemContext} {states : List (List Item)}
  {table : ActionTable} {w : List Char} {chain : List (Char × Nat)} {rest : List Char}

/-- A step that shows the input a continuable configuration has left shows a consumed part
that starts a sentence. -/
theorem consumedStarts (continuable : Continuable g z states w chain rest) {step : Step}
    (shows : step.input = String.ofList (rest ++ [endMarker])) : g.ConsumedStarts w step := by
  obtain ⟨u, split, _, starts⟩ := continuable.consumed
  exact Grammar.consumedStarts_of_input split shows starts

/-- One step of the parse from a continuable configuration ends the parse or reaches a
continuable configuration. -/
theorem step (setting : Setting g z ctx states table) (productive : g.Productive)
    (continuable : Continuable g z states w chain rest) {steps : List Step}
    {progress : Progress (List Field)}
    (stepped : shiftReduceStep ctx.productions table.toRows (chainStack chain)
      (rest ++ [endMarker]) steps = .ok progress) :
    ContinuesConsuming g z states w progress := by
  obtain ⟨c, tail, split⟩ : ∃ c tail, rest ++ [endMarker] = c :: tail :=
    List.exists_cons_of_ne_nil (by simp)
  rw [split] at stepped
  obtain ⟨u, consumedSplit, spells, starts⟩ := continuable.consumed
  cases setting.step_cases continuable.chainOk stepped with
  | accept => trivial
  | reject => trivial
  | shift terminal crossing _ _ =>
      have notMarker : c ≠ endMarker := fun marker =>
        Grammar.endMarker_not_mem_terminals setting.recorded setting.wellFormed
          (marker ▸ terminal)
      obtain ⟨more, rfl, rfl⟩ : ∃ more, rest = c :: more ∧ tail = more ++ [endMarker] := by
        cases rest with
        | nil =>
            simp only [List.nil_append, List.cons.injEq] at split
            exact absurd split.1.symm notMarker
        | cons d more =>
            simp only [List.cons_append, List.cons.injEq] at split
            exact ⟨more, by rw [split.1], split.2.symm⟩
      have lower := Grammar.terminal_not_upper setting.recorded terminal
      refine ⟨_, more, rfl, rfl, continuable.chainOk.cross setting crossing,
        setting.viable_cross continuable.viable crossing, u ++ [c], by simp [← consumedSplit],
        ?_, setting.startsSentence_of_crossing productive continuable.viable spells terminal
          crossing⟩
      have extended := spells.append_right [Symbol.terminal c]
      simp only [chainSymbols_cons, List.map_append, List.map_singleton,
        bodySymbol_of_not_upper lower, terminalForm_append, terminalForm_cons,
        terminalForm_nil] at extended ⊢
      exact extended
  | @reduce p member H upper named spelled v crossing _ _ =>
      have within := length_le_of_chainSymbols_eq spelled
      refine ⟨_, rest, rfl, split.symm, (continuable.chainOk.drop within).cross setting crossing,
        setting.viable_cross (continuable.viable.drop within) crossing, u, consumedSplit, ?_,
        starts⟩
      have rewrite : g.cfg.Produces
          ((chainSymbols ((H, v) :: chain.drop p.body.length)).map bodySymbol : Sentential)
          ((chainSymbols chain).map bodySymbol : Sentential) := by
        rw [Grammar.produces_iff]
        refine ⟨p, member, (chainSymbols (chain.drop p.body.length)).map bodySymbol, [], ?_, ?_⟩
        · simp [bodySymbol_of_upper upper, named]
        · simp [spelled, Production.form]
      exact rewrite.trans_derives spells

/-- From a continuable configuration, every step the parse records shows a consumed part that
starts a sentence. -/
theorem consumedStarts_run (setting : Setting g z ctx states table) (productive : g.Productive)
    (continuable : Continuable g z states w chain rest) {steps : List Step}
    (shown : ∀ s ∈ steps, g.ConsumedStarts w s) {fuel : Nat} {trace : Trace}
    (ran : shiftReduceFrom ctx.productions table.toRows fuel (chainStack chain)
      (rest ++ [endMarker]) steps = .ok trace) :
    ∀ s ∈ trace.steps, g.ConsumedStarts w s := by
  induction fuel generalizing chain rest steps with
  | zero =>
      simp only [shiftReduceFrom, Except.ok.injEq] at ran
      subst ran
      exact fun s member => shown s (List.mem_reverse.mp member)
  | succ fuel ih =>
      simp only [shiftReduceFrom] at ran
      obtain ⟨progress, stepped, ran⟩ := bind_eq_ok.mp ran
      have records := shiftReduceStep_records stepped
      have continues := continuable.step setting productive stepped
      cases progress with
      | finished done =>
          simp only [pure, Except.pure, Except.ok.injEq] at ran
          subst ran
          exact records.finished_forall shown fun _ shows => continuable.consumedStarts shows
      | next stack input later =>
          obtain ⟨chain', rest', rfl, rfl, continuable'⟩ := continues
          exact ih continuable'
            (records.next_forall shown fun _ shows => continuable'.consumedStarts shows) ran

end Continuable

/-- Every step that a shift-reduce parse records, with the table that the LR analysis builds
for a well-formed productive grammar, within any number of steps, shows a consumed part of the
input that starts a sentence. -/
theorem shiftReduceFrom_consumedStarts {text input : String} {g : Grammar} {a : LrAnalysis}
    {fuel : Nat} {trace : Trace} (read : Grammar.ofText text = .ok g) (wellFormed : g.WellFormed)
    (productive : g.Productive) (built : LrAnalysis.ofGrammar g = .ok a)
    (ran : shiftReduceFrom a.productions a.table.toRows fuel [.text "0"]
      (input.toList ++ [endMarker])
      [⟨"0", String.ofList (input.toList ++ [endMarker]), "Initial"⟩] = .ok trace) :
    ∀ step ∈ trace.steps, g.ConsumedStarts input.toList step := by
  obtain ⟨z, _, setting⟩ := setting_of_ofGrammar (Grammar.readShape_ofText read) wellFormed built
  obtain ⟨start, first, listed, closed, atZero⟩ := initial_of_ofGrammar built
  have begun : g.StartsSentence [] := by
    have derivation : g.cfg.Derives [.nonterminal g.startName]
        (terminalForm [] ++ [.nonterminal g.startName]) := .refl _
    exact Grammar.startsSentence_of_derives setting.recorded productive setting.startName_mem
      derivation
  have initial : Continuable g z a.states input.toList [] input.toList :=
    ⟨chainOk_nil setting.start,
      chainAll_nil ⟨first, atZero, setting.itemsViable_initial listed closed⟩,
      [], List.nil_append _, .refl _, begun⟩
  refine initial.consumedStarts_run setting productive ?_ ran
  intro s member
  rw [List.mem_singleton] at member
  subst member
  exact initial.consumedStarts rfl

/-- Both parsers have the valid-prefix property. Over a well-formed grammar whose nonterminals
all derive some text, and an input without the end marker, every step that a shift-reduce
parse with the table of the LR analysis records, and every step that a predictive parse from
the head of the first production records with the table of the LL(1) analysis when it finds no
conflict, within any number of steps, shows an input left after a consumed part `u` that some
text `v` completes to a sentence. So an error is noticed no later than at the first symbol with
which no sentence can go on. The analyses themselves parse within `stepBudget input` and
`predictBudget input` steps. -/
theorem parsers_consume_sentence_starts {text input : String} {g : Grammar}
    (read : Grammar.ofText text = .ok g) (wellFormed : g.WellFormed)
    (productive : ∀ A ∈ g.nonterminals, ∃ v, g.cfg.Derives [.nonterminal A] (terminalForm v))
    (unmarked : endMarker ∉ input.toList) (fuel : Nat) :
    (∀ a trace, LrAnalysis.ofGrammar g = .ok a →
      shiftReduceFrom a.productions a.table.toRows fuel [.text "0"]
        (input.toList ++ [endMarker])
        [⟨"0", String.ofList (input.toList ++ [endMarker]), "Initial"⟩] = .ok trace →
      ∀ step ∈ trace.steps, ∀ u,
        u ++ step.input.toList = input.toList ++ [endMarker] → ∃ v, u ++ v ∈ g.cfg.language) ∧
    (∀ firsts follows t first others trace, LlTable.build g firsts follows = .ok t →
      g.productions = first :: others →
      predictiveFrom g t.toPredict fuel [first.head, endMarker.toString]
        (input.toList ++ [endMarker])
        [⟨showStack [first.head, endMarker.toString],
          String.ofList (input.toList ++ [endMarker]), "Initial"⟩] = .ok trace →
      ∀ step ∈ trace.steps, ∀ u,
        u ++ step.input.toList = input.toList ++ [endMarker] → ∃ v, u ++ v ∈ g.cfg.language) :=
  ⟨fun _ _ built ran =>
    shiftReduceFrom_consumedStarts read wellFormed productive built ran,
   fun _ _ _ _ _ _ built listed ran =>
    predictiveFrom_consumedStarts read wellFormed productive unmarked built listed ran⟩

/-- The grammar `S->aS`, `S->b` is well formed and productive: `S` derives `b`. -/
theorem parsers_consume_sentence_starts_ab :
    ∃ g, Grammar.ofText "S->aS\nS->b" = .ok g ∧ g.WellFormed ∧
      (∀ A ∈ g.nonterminals, ∃ v, g.cfg.Derives [.nonterminal A] (terminalForm v)) ∧
      endMarker ∉ "ab".toList ∧
    (∀ a trace, LrAnalysis.ofGrammar g = .ok a →
      shiftReduceFrom a.productions a.table.toRows (stepBudget "ab") [.text "0"]
        ("ab".toList ++ [endMarker])
        [⟨"0", String.ofList ("ab".toList ++ [endMarker]), "Initial"⟩] = .ok trace →
      ∀ step ∈ trace.steps, ∀ u,
        u ++ step.input.toList = "ab".toList ++ [endMarker] → ∃ v, u ++ v ∈ g.cfg.language) ∧
    (∀ firsts follows t first others trace, LlTable.build g firsts follows = .ok t →
      g.productions = first :: others →
      predictiveFrom g t.toPredict (stepBudget "ab") [first.head, endMarker.toString]
        ("ab".toList ++ [endMarker])
        [⟨showStack [first.head, endMarker.toString],
          String.ofList ("ab".toList ++ [endMarker]), "Initial"⟩] = .ok trace →
      ∀ step ∈ trace.steps, ∀ u,
        u ++ step.input.toList = "ab".toList ++ [endMarker] → ∃ v, u ++ v ∈ g.cfg.language) := by
  have computed : (Grammar.ofText "S->aS\nS->b").toOption.map
      (fun g => (g.productions, g.nonterminals)) =
      some ([⟨"S", ['a', 'S']⟩, ⟨"S", ['b']⟩], ["S"]) := by
    decide +kernel
  obtain ⟨g, read, listed⟩ := Option.map_eq_some_iff.mp computed
  obtain ⟨productions, nonterminals⟩ := Prod.mk.inj listed
  have read := toOption_eq_some.mp read
  have wellFormed := Grammar.wellFormed_of_plain 'A' (by decide) (by rw [productions]; decide)
  have productive : ∀ A ∈ g.nonterminals, ∃ v,
      g.cfg.Derives [.nonterminal A] (terminalForm v) := by
    intro A member
    rw [nonterminals, List.mem_singleton] at member
    subst member
    refine ⟨['b'], Relation.ReflTransGen.single (Grammar.produces_iff.mpr ?_)⟩
    refine ⟨⟨"S", ['b']⟩, by rw [productions]; simp, [], [], rfl, ?_⟩
    decide
  have unmarked : endMarker ∉ "ab".toList := by
    decide
  exact ⟨g, read, wellFormed, productive, unmarked,
    parsers_consume_sentence_starts read wellFormed productive unmarked (stepBudget "ab")⟩

end GrammarBench
