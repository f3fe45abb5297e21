import GrammarBench.Service
import GrammarBench.Proofs.Derivation
import GrammarBench.Proofs.Symbols
import GrammarBench.Proofs.Trace
import GrammarBench.Proofs.Ll.Table

/-!
# Soundness of the predictive parse

A predictive parse never finds its stack empty: the end marker it starts with at the bottom
is never popped, since the end marker on top either accepts or faces another character and
stops the parse (`MarkedStack`, `predictive_ne_stackEmpty`). This holds with any table and
from any start symbol, also for a table a client hands in.

With the table built for a well-formed grammar, the parse, within any number of steps,
accepts only texts of the grammar's language. The proof follows the parse step by step with
one invariant (`Predictive.Derived`): what has been matched, followed by the symbols on the
stack above the end marker, is what the productions applied so far derive from the start
symbol, each rewriting the first nonterminal.

* Matching a terminal moves it from the stack to the matched part.
* Applying a production replaces the nonterminal on top by the production's body. The table
  holds in a nonterminal's row only productions of that nonterminal, and the parse reads the
  production back from its text, so the symbol replaced is the production's head, though the
  parse never checks it.
* Acceptance happens when only the end marker is left on the stack and in the input, so the
  matched part is the whole input.

Main statement: `predictive_leftmostDerivation`.
-/

namespace GrammarBench

/-! ## The end marker stays at the bottom -/

theorem expected_ne_stackEmpty (top : String) (c : Char) :
    s!"Expected '{top}', found '{c}'" ≠ "Stack is empty" := by
  apply ne_of_head _ rfl (show 'E' ≠ 'S' by decide)
  show ("Expected '" ++ top ++ "', found '" ++ c.toString ++ "'").toList.head? = _
  simp only [String.toList_append, List.append_assoc]
  rfl

theorem noProduction_ne_stackEmpty (top : String) (c : Char) :
    s!"No production for {top} on '{c}'" ≠ "Stack is empty" := by
  apply ne_of_head _ rfl (show 'N' ≠ 'S' by decide)
  show ("No production for " ++ top ++ " on '" ++ c.toString ++ "'").toList.head? = _
  simp only [String.toList_append, List.append_assoc]
  rfl

theorem unknownSymbol_ne_stackEmpty (top : String) :
    s!"Unknown symbol '{top}' on stack" ≠ "Stack is empty" := by
  apply ne_of_head _ rfl (show 'U' ≠ 'S' by decide)
  show ("Unknown symbol '" ++ top ++ "' on stack").toList.head? = _
  simp only [String.toList_append, List.append_assoc]
  rfl

/-- A stack with the end marker at its bottom. -/
def MarkedStack (stack : List String) : Prop :=
  ∃ above, stack = above ++ [endMarker.toString]

/-- Where a step from a marked stack leads: to another marked stack, or to an end other than
the empty stack. -/
def KeepsMarker : Progress (List String) → Prop
  | .finished trace => trace.outcome ≠ .rejected "Stack is empty"
  | .next stack _ _ => MarkedStack stack

theorem keepsMarker_rejected {steps : List Step} {reason : String}
    {progress : Progress (List String)}
    (stopped : (.ok (.finished ⟨steps, .rejected reason⟩) : Except Fault _) = .ok progress)
    (other : reason ≠ "Stack is empty") : KeepsMarker progress := by
  simp only [Except.ok.injEq] at stopped
  subst stopped
  intro same
  exact other (Outcome.rejected.inj same)

/-- What lies below a top other than the end marker on a marked stack is marked. -/
theorem markedStack_below {top : String} {below above : List String}
    (split : above ++ [endMarker.toString] = top :: below) (notMarker : top ≠ endMarker.toString) :
    MarkedStack below := by
  cases above with
  | nil =>
      simp only [List.nil_append, List.cons.injEq] at split
      exact absurd split.1.symm notMarker
  | cons a above =>
      simp only [List.cons_append, List.cons.injEq] at split
      exact ⟨above, split.2.symm⟩

/-- One step from a marked stack keeps the end marker at the bottom. -/
theorem keepsMarker_step {g : Grammar} {table : Field} {stack : List String} {input : List Char}
    {steps : List Step} {progress : Progress (List String)} (marked : MarkedStack stack)
    (stepped : predictiveStep g table stack input steps = .ok progress) : KeepsMarker progress := by
  obtain ⟨above, rfl⟩ := marked
  unfold predictiveStep at stepped
  split at stepped
  · rename_i empty
    simp at empty
  rename_i top below split
  split at stepped
  · simp at stepped
  rename_i c rest
  split at stepped
  · simp only [Except.ok.injEq] at stepped
    subst stepped
    exact Outcome.noConfusion
  rename_i notAccepting
  split at stepped
  · split at stepped
    · rename_i matching
      simp only [Except.ok.injEq] at stepped
      subst stepped
      apply markedStack_below split
      intro isMarker
      have atMarker : c = endMarker :=
        String.singleton_inj.mp ((beq_iff_eq.mp matching).symm.trans isMarker)
      simp [isMarker, atMarker] at notAccepting
    · exact keepsMarker_rejected stepped (expected_ne_stackEmpty top c)
  rename_i notTerminal
  have notMarker : top ≠ endMarker.toString := by
    intro isMarker
    simp [isMarker] at notTerminal
  obtain ⟨rest', rfl⟩ := markedStack_below split notMarker
  split at stepped
  · obtain ⟨entry, _, stepped⟩ := bind_eq_ok.mp stepped
    split at stepped
    · exact keepsMarker_rejected stepped (noProduction_ne_stackEmpty top c)
    obtain ⟨text, _, stepped⟩ := bind_eq_ok.mp stepped
    obtain ⟨p, _, stepped⟩ := bind_eq_ok.mp stepped
    simp only [Except.ok.injEq] at stepped
    subst stepped
    show MarkedStack (if p.body == [emptyMark] then _ else _)
    split
    · exact ⟨rest', rfl⟩
    · exact ⟨p.body.map Char.toString ++ rest', by rw [List.append_assoc]⟩
  · exact keepsMarker_rejected stepped (unknownSymbol_ne_stackEmpty top)

theorem outcome_ne_stackEmpty {g : Grammar} {table : Field} {fuel : Nat} {stack : List String}
    {input : List Char} {steps : List Step} {trace : Trace} (marked : MarkedStack stack)
    (ran : predictiveFrom g table fuel stack input steps = .ok trace) :
    trace.outcome ≠ .rejected "Stack is empty" := by
  induction fuel generalizing stack input steps with
  | zero =>
      simp only [predictiveFrom, Except.ok.injEq] at ran
      subst ran
      exact Outcome.noConfusion
  | succ fuel ih =>
      simp only [predictiveFrom] at ran
      obtain ⟨progress, stepped, ran⟩ := bind_eq_ok.mp ran
      have keeps := keepsMarker_step marked stepped
      cases progress with
      | finished done =>
          simp only [pure, Except.pure, Except.ok.injEq] at ran
          exact ran ▸ keeps
      | next stack input later => exact ih keeps ran

/-- A predictive parse, with any table and from any start symbol, never finds its stack
empty. -/
theorem predictive_ne_stackEmpty {g : Grammar} {table start : Field} {input : String}
    {trace : Trace} (ran : predictive g table start input = .ok trace) :
    trace.outcome ≠ .rejected "Stack is empty" := by
  unfold predictive at ran
  split at ran
  · rename_i top
    exact outcome_ne_stackEmpty ⟨[top], rfl⟩ ran
  · simp at ran

/-! ## Applications in a trace -/

/-- The action a parse writes when it applies `p`. -/
def applyAction (p : Production) : String :=
  s!"Apply {p.text}"

theorem isPrefixOf_applyAction (p : Production) :
    "Apply ".toList.isPrefixOf (applyAction p).toList = true :=
  isPrefixOf_append "Apply " p.text

theorem isPrefixOf_matchAction (top : String) :
    "Apply ".toList.isPrefixOf (s!"Match '{top}'").toList = false := by
  show "Apply ".toList.isPrefixOf ("Match '" ++ top ++ "'").toList = false
  simp [String.toList_append, List.isPrefixOf]

namespace Predictive

/-- A grammar read from a text and well formed, with the LL(1) table built for it. -/
structure Setting (g : Grammar) (t : LlTable) : Prop where
  shape : g.ReadShape
  wellFormed : g.WellFormed
  entered : t.Entered g

/-- A parse of `w` has matched `matched`, holds `above` over the end marker on its stack, top
first, and has `rest` left before the end marker; the productions `ps` it applied, named by
its steps latest first, derive the matched part followed by the stack's symbols, each
rewriting the first nonterminal. -/
structure Derived (g : Grammar) (w matched above rest : List Char) (steps : List Step)
    (ps : List Production) : Prop where
  split : w = matched ++ rest
  unmarked : endMarker ∉ rest
  aboveUnmarked : endMarker ∉ above
  derives : g.LeftmostDerivation ps [.nonterminal g.startName]
    (terminalForm matched ++ above.map bodySymbol)
  applications : actionsWith "Apply " steps = (ps.map applyAction).reverse

/-- The parse of `w` that ended with this trace accepted by a leftmost derivation: the
productions its applications name, in order, derive `w` from the start symbol. -/
def AppliedBy (g : Grammar) (w : List Char) (trace : Trace) : Prop :=
  ∃ ps : List Production, actionsWith "Apply " trace.steps = ps.map applyAction ∧
    g.LeftmostDerivation ps [.nonterminal g.startName] (terminalForm w)

/-- Where a step from a derived configuration leads: to a derived configuration, or to the end
of a parse that, if it accepted, accepted by a leftmost derivation. -/
def Continues (g : Grammar) (w : List Char) : Progress (List String) → Prop
  | .finished trace => trace.success = true → AppliedBy g w trace
  | .next stack input steps => ∃ matched above rest ps,
      stack = above.map Char.toString ++ [endMarker.toString] ∧ input = rest ++ [endMarker] ∧
        Derived g w matched above rest steps ps

variable {g : Grammar} {t : LlTable} {w matched above rest : List Char} {steps : List Step}
  {ps : List Production}

theorem continues_rejected {steps : List Step} {reason : String}
    {progress : Progress (List String)}
    (stopped : (.ok (.finished ⟨steps, .rejected reason⟩) : Except Fault _) = .ok progress) :
    Continues g w progress := by
  simp only [Except.ok.injEq] at stopped
  subst stopped
  intro accepted
  simp [Trace.success] at accepted

/-- A cell that the parse reads as a production, in the row of a nonterminal, holds a
production of that nonterminal, and the parse reads it back as itself. -/
theorem Setting.predicted (setting : Setting g t) {name : String} {c : Char} {entry : Field}
    {text : String} {p : Production} (read : predictCell t.toPredict name c = .ok entry)
    (filled : entry.truthy = true) (asText : entry.asText "split" = .ok text)
    (line : Production.ofLine text = .ok p) :
    p ∈ g.productions ∧ p.head = name ∧ text = p.text := by
  obtain ⟨cell, rfl, inTable⟩ := LlTable.predictCell_toPredict read
  simp only [Field.asText, Except.ok.injEq] at asText
  subst asText
  have nonEmpty : cell ≠ "" := by
    intro empty
    simp [empty, Field.truthy] at filled
  obtain ⟨cells, inRows, inCells⟩ := inTable.resolve_left nonEmpty
  obtain ⟨q, member, head, rfl⟩ :=
    (setting.entered name cells inRows c cell inCells).resolve_left nonEmpty
  rw [setting.shape.reread q member, Except.ok.injEq] at line
  subst line
  exact ⟨member, head, rfl⟩

/-- Accepting with only the end marker left on the stack and in the input accepts by a
leftmost derivation. -/
theorem Derived.accept (derived : Derived g w matched [] rest steps ps) {tail : List Char}
    (split : rest ++ [endMarker] = endMarker :: tail) {step : Step}
    (action : step.action = "Accept") : AppliedBy g w ⟨(step :: steps).reverse, .accepted⟩ := by
  have noneLeft : rest = [] := by
    cases rest with
    | nil => rfl
    | cons d more =>
        simp only [List.cons_append, List.cons.injEq] at split
        exact absurd (split.1 ▸ List.mem_cons_self) derived.unmarked
  subst noneLeft
  have whole : w = matched := by
    rw [derived.split, List.append_nil]
  subst whole
  refine ⟨ps, ?_, by simpa using derived.derives⟩
  have notApplying : "Apply ".toList.isPrefixOf step.action.toList = false := by
    rw [action]
    simp [List.isPrefixOf]
  rw [actionsWith_reverse, actionsWith_cons_other steps notApplying, derived.applications,
    List.reverse_reverse]

/-- Matching the terminal on top of the stack moves it to the matched part. -/
theorem Derived.matchTerminal (derived : Derived g w matched (a :: above) rest steps ps)
    (setting : Setting g t) (terminal : a ∈ g.terminals) {tail : List Char}
    (split : rest ++ [endMarker] = a :: tail) {step : Step}
    (action : step.action = s!"Match '{a.toString}'") :
    Continues g w
      (.next (above.map Char.toString ++ [endMarker.toString]) tail (step :: steps)) := by
  have notMarker : a ≠ endMarker := fun marker =>
    Grammar.endMarker_not_mem_terminals setting.shape.recorded setting.wellFormed
      (marker ▸ terminal)
  obtain ⟨more, rfl, rfl⟩ : ∃ more, rest = a :: more ∧ tail = more ++ [endMarker] := by
    cases rest with
    | nil =>
        simp only [List.nil_append, List.cons.injEq] at split
        exact absurd split.1.symm notMarker
    | cons d more =>
        simp only [List.cons_append, List.cons.injEq] at split
        obtain ⟨rfl, rfl⟩ := split
        exact ⟨more, rfl, rfl⟩
  have lower := Grammar.terminal_not_upper setting.shape.recorded terminal
  refine ⟨matched ++ [a], above, more, ps, rfl, rfl, ?_⟩
  refine ⟨by rw [derived.split, List.append_assoc, List.singleton_append], fun marker =>
    derived.unmarked (List.mem_cons_of_mem a marker), fun marker =>
    derived.aboveUnmarked (List.mem_cons_of_mem a marker), ?_, ?_⟩
  · have derives := derived.derives
    rw [List.map_cons, bodySymbol_of_not_upper lower] at derives
    simpa using derives
  · rw [actionsWith_cons_other steps (action ▸ isPrefixOf_matchAction _), derived.applications]

/-- Applying a production of the nonterminal on top of the stack replaces it by the
production's body, one leftmost step more. -/
theorem Derived.apply (derived : Derived g w matched (a :: above) rest steps ps)
    (setting : Setting g t) (upper : Text.isUppercase a = true) {q : Production}
    (member : q ∈ g.productions) (head : q.head = a.toString) {step : Step}
    (action : step.action = applyAction q) :
    Continues g w (.next (q.body.map Char.toString ++ (above.map Char.toString ++
      [endMarker.toString])) (rest ++ [endMarker]) (step :: steps)) := by
  have rewrite : Production.LeftmostStep q (terminalForm matched ++ (a :: above).map bodySymbol)
      (terminalForm matched ++ (q.body ++ above).map bodySymbol) := by
    refine ⟨matched, above.map bodySymbol, ?_, ?_⟩
    · rw [List.map_cons, bodySymbol_of_upper upper, head]
    · rw [List.map_append, Production.form, List.append_assoc]
  refine ⟨matched, q.body ++ above, rest, ps ++ [q], by simp, rfl, ?_⟩
  refine ⟨derived.split, derived.unmarked, ?_, derived.derives.snoc member rewrite, ?_⟩
  · intro marker
    rcases List.mem_append.mp marker with inBody | inAbove
    · exact (setting.wellFormed.body_plain q member).2.1 inBody
    · exact derived.aboveUnmarked (List.mem_cons_of_mem a inAbove)
  · rw [actionsWith_cons_of_isPrefixOf steps (action ▸ isPrefixOf_applyAction q),
      derived.applications, action]
    simp

/-- With only the end marker left on the stack, a step accepts the end marker and stops on any
other character. -/
theorem Derived.step_marker (derived : Derived g w matched [] rest steps ps) {c : Char}
    {tail : List Char} (split : rest ++ [endMarker] = c :: tail)
    {progress : Progress (List String)}
    (stepped : predictiveStep g t.toPredict [endMarker.toString] (c :: tail) steps = .ok progress) :
    Continues g w progress := by
  simp only [predictiveStep] at stepped
  split at stepped
  · rename_i accepting
    have atMarker : c = endMarker := by
      simpa using accepting
    subst atMarker
    simp only [Except.ok.injEq] at stepped
    subst stepped
    exact fun _ => derived.accept split rfl
  rename_i notAccepting
  split at stepped
  · split at stepped
    · rename_i matching
      have atMarker : c = endMarker :=
        (String.singleton_inj.mp (beq_iff_eq.mp matching)).symm
      simp [atMarker] at notAccepting
    · exact continues_rejected stepped
  · rename_i notTerminal
    simp at notTerminal

/-- With a symbol other than the end marker on top, a step matches it as a terminal, replaces
it as a nonterminal by the body of the production in its cell, or stops. A body of a
well-formed grammar is never the empty mark alone, so the whole body is pushed. -/
theorem Derived.step_symbol (setting : Setting g t)
    (derived : Derived g w matched (a :: above) rest steps ps) {c : Char} {tail : List Char}
    (split : rest ++ [endMarker] = c :: tail) {progress : Progress (List String)}
    (stepped : predictiveStep g t.toPredict
      (a.toString :: (above.map Char.toString ++ [endMarker.toString])) (c :: tail) steps =
        .ok progress) :
    Continues g w progress := by
  have notMarker : a.toString ≠ endMarker.toString := fun named =>
    derived.aboveUnmarked (String.singleton_inj.mp named ▸ List.mem_cons_self)
  simp only [predictiveStep] at stepped
  split at stepped
  · rename_i accepting
    simp only [Bool.and_eq_true, beq_iff_eq] at accepting
    exact absurd accepting.1 notMarker
  split at stepped
  · rename_i terminalOrMarker
    have terminal : a ∈ g.terminals := by
      rw [beq_eq_false_iff_ne.mpr notMarker, Bool.or_false, Grammar.isTerminalName_iff]
        at terminalOrMarker
      obtain ⟨d, member, named⟩ := terminalOrMarker
      rw [String.singleton_inj.mp named]
      exact member
    split at stepped
    · rename_i matching
      have same : a = c := String.singleton_inj.mp (beq_iff_eq.mp matching)
      subst same
      simp only [Except.ok.injEq] at stepped
      subst stepped
      exact derived.matchTerminal setting terminal split rfl
    · exact continues_rejected stepped
  split at stepped
  · rename_i nonterminal
    obtain ⟨X, upper, named⟩ := Grammar.nonterminal_upper setting.shape.recorded
      setting.wellFormed (Grammar.isNonterminal_iff.mp nonterminal)
    have same : a = X := String.singleton_inj.mp named
    subst same
    obtain ⟨entry, read, stepped⟩ := bind_eq_ok.mp stepped
    split at stepped
    · exact continues_rejected stepped
    rename_i filled
    obtain ⟨text, asText, stepped⟩ := bind_eq_ok.mp stepped
    obtain ⟨q, line, stepped⟩ := bind_eq_ok.mp stepped
    obtain ⟨member, head, rfl⟩ := setting.predicted read (by simpa using filled) asText line
    have notEmpty : (q.body == [emptyMark]) = false := by
      apply beq_eq_false_iff_ne.mpr
      intro same
      exact (setting.wellFormed.body_plain q member).2.2 (same ▸ List.mem_singleton_self _)
    simp only [notEmpty, Bool.false_eq_true, if_false, Except.ok.injEq] at stepped
    subst stepped
    rw [← split]
    exact derived.apply setting upper member head rfl
  · exact continues_rejected stepped

/-- One step of the parse from a derived configuration continues as `Continues` says. -/
theorem Derived.step (setting : Setting g t) (derived : Derived g w matched above rest steps ps)
    {progress : Progress (List String)}
    (stepped : predictiveStep g t.toPredict (above.map Char.toString ++ [endMarker.toString])
      (rest ++ [endMarker]) steps = .ok progress) :
    Continues g w progress := by
  obtain ⟨c, tail, split⟩ : ∃ c tail, rest ++ [endMarker] = c :: tail :=
    List.exists_cons_of_ne_nil (by simp)
  rw [split] at stepped
  cases above with
  | nil => exact derived.step_marker split stepped
  | cons a above => exact derived.step_symbol setting split stepped

/-- A parse from a derived configuration that accepts, within any number of steps, accepts by
a leftmost derivation. -/
theorem Derived.run (setting : Setting g t) (derived : Derived g w matched above rest steps ps)
    {fuel : Nat} {trace : Trace}
    (ran : predictiveFrom g t.toPredict fuel (above.map Char.toString ++ [endMarker.toString])
      (rest ++ [endMarker]) steps = .ok trace)
    (accepted : trace.success = true) : AppliedBy g w trace := by
  induction fuel generalizing matched above rest steps ps with
  | zero =>
      simp only [predictiveFrom, Except.ok.injEq] at ran
      subst ran
      simp [Trace.success] at accepted
  | succ fuel ih =>
      simp only [predictiveFrom] at ran
      obtain ⟨progress, stepped, ran⟩ := bind_eq_ok.mp ran
      have continues := derived.step setting stepped
      cases progress with
      | finished done =>
          simp only [pure, Except.pure, Except.ok.injEq] at ran
          subst ran
          exact continues accepted
      | next stack input later =>
          obtain ⟨matched', above', rest', ps', rfl, rfl, derived'⟩ := continues
          exact ih derived' ran

/-- The configuration a predictive parse of `w` starts from, with the start symbol `X` over
the end marker. -/
theorem derived_initial {first : Production} {others : List Production}
    (listed : g.productions = first :: others) {X : Char} (upper : Text.isUppercase X = true)
    (named : first.head = X.toString) (unmarked : endMarker ∉ w) :
    Derived g w [] [X] w
      [⟨showStack [X.toString, endMarker.toString], String.ofList (w ++ [endMarker]),
        "Initial"⟩] [] := by
  have starting : g.startName = X.toString := by
    simp [Grammar.startName, listed, named]
  refine ⟨rfl, unmarked, ?_, ?_, ?_⟩
  · rw [List.mem_singleton]
    exact (ne_of_upper upper (by decide)).symm
  · show g.DerivesBy Production.LeftmostStep [] _ _
    rw [starting, List.map_singleton, bodySymbol_of_upper upper]
    exact .refl _
  · exact actionsWith_cons_other [] (by simp [List.isPrefixOf])

end Predictive

/-! ## The analysis -/

/-- The parse in the LL(1) analysis of a grammar text and a nonempty input, when the grammar
has no conflict, is the predictive parse of the input from the head of the first production,
with the table built for the grammar read from the text. -/
theorem parse_of_analyzeLl {text input : String} {g : Grammar} {r : LlReport} {trace : Trace}
    (analyzed : analyzeLl (some (.text text)) (some (.text input)) = .ok (g, .report r))
    (parsed : r.parse = some trace) :
    Grammar.ofText text = .ok g ∧ ∃ firsts follows t first rest,
      LlTable.build g firsts follows = .ok t ∧ g.productions = first :: rest ∧
        predictive g t.toPredict (.text first.head) input = .ok trace := by
  unfold analyzeLl at analyzed
  obtain ⟨g', readField, analyzed⟩ := bind_eq_ok.mp analyzed
  obtain ⟨firsts, _, analyzed⟩ := bind_eq_ok.mp analyzed
  obtain ⟨follows, _, analyzed⟩ := bind_eq_ok.mp analyzed
  split at analyzed
  · simp [pure, Except.pure] at analyzed
  rename_i t built
  dsimp only at analyzed
  split at analyzed
  · split at analyzed
    · rename_i first listed
      simp only [pure, Except.pure, inputText, Option.getD_some] at analyzed
      obtain ⟨start, starting, analyzed⟩ := bind_eq_ok.mp analyzed
      obtain ⟨chars, inputRead, analyzed⟩ := bind_eq_ok.mp analyzed
      obtain ⟨parse, parsing, analyzed⟩ := bind_eq_ok.mp analyzed
      simp only [Except.ok.injEq] at starting inputRead
      simp only [Except.ok.injEq, Prod.mk.injEq, LlAnswer.report.injEq] at analyzed
      obtain ⟨rfl, rfl⟩ := analyzed
      subst starting inputRead
      obtain ⟨done, ran, rfl⟩ := fmap_eq_ok.mp parsing
      simp only [Option.some.injEq] at parsed
      obtain ⟨rest, listed⟩ : ∃ rest, g'.productions = first :: rest := by
        cases productions : g'.productions with
        | nil => simp [productions] at listed
        | cons p rest =>
            rw [productions, List.head?_cons, Option.some.injEq] at listed
            exact ⟨rest, listed ▸ rfl⟩
      exact ⟨readField, firsts, follows, t, first, rest, built, listed, parsed ▸ ran⟩
    · simp [bind, Except.bind, throw, throwThe, MonadExceptOf.throw] at analyzed
  · simp only [pure, Except.pure, bind, Except.bind, Except.ok.injEq, Prod.mk.injEq,
      LlAnswer.report.injEq] at analyzed
    obtain ⟨rfl, rfl⟩ := analyzed
    simp at parsed

/-- The report of an answer of the LL(1) analysis, when the grammar has no conflict. -/
def LlAnswer.report? : LlAnswer → Option LlReport
  | .report r => some r
  | .conflict _ => none

@[simp] theorem LlAnswer.report?_eq_some {a : LlAnswer} {r : LlReport} :
    a.report? = some r ↔ a = .report r := by
  cases a with
  | report r' => simp [report?, eq_comm]
  | conflict c => simp [report?]

/-- A predictive parse of an input without the end marker, from the head of the first
production, with the table that the LL(1) analysis builds for a well-formed grammar when it
finds no conflict, from whatever FIRST and FOLLOW sets, never finds its stack empty, within any
number of steps. If it accepts, the productions it applies, in order, derive the input from
the start symbol, each rewriting the first nonterminal; so an accepted input is in the
grammar's language. The analysis itself parses within `predictBudget input` steps
(`parse_of_analyzeLl`). -/
theorem predictive_leftmostDerivation {text input : String} {g : Grammar}
    {firsts : List (String × CharSet)} {follows : FollowSets} {t : LlTable} {first : Production}
    {others : List Production} {fuel : Nat} {trace : Trace} (read : Grammar.ofText text = .ok g)
    (wellFormed : g.WellFormed) (unmarked : endMarker ∉ input.toList)
    (built : LlTable.build g firsts follows = .ok t) (listed : g.productions = first :: others)
    (ran : predictiveFrom g t.toPredict fuel [first.head, endMarker.toString]
      (input.toList ++ [endMarker])
      [⟨showStack [first.head, endMarker.toString], String.ofList (input.toList ++ [endMarker]),
        "Initial"⟩] = .ok trace) :
    trace.outcome ≠ .rejected "Stack is empty" ∧
      (trace.success = true → ∃ ps : List Production,
        actionsWith "Apply " trace.steps = ps.map applyAction ∧
          g.LeftmostDerivation ps [.nonterminal g.startName] (terminalForm input.toList) ∧
          input.toList ∈ g.cfg.language) := by
  refine ⟨outcome_ne_stackEmpty ⟨[first.head], rfl⟩ ran, fun accepted => ?_⟩
  have setting : Predictive.Setting g t :=
    ⟨Grammar.readShape_ofText read, wellFormed, LlTable.entered_build built⟩
  obtain ⟨X, upper, named⟩ := wellFormed.head_upper first (listed ▸ List.mem_cons_self)
  rw [named] at ran
  obtain ⟨ps, applied, derivation⟩ :=
    (Predictive.derived_initial listed upper named unmarked).run setting ran accepted
  exact ⟨ps, applied, derivation, Grammar.mem_language_of_leftmost derivation⟩

/-- The grammar `S->aS`, `S->b` is well formed and has no conflict, and the predictive parse of
`ab` in its LL(1) analysis, within the analysis's own number of steps, accepts, applying `S->aS`
and then `S->b`. -/
theorem predictive_leftmostDerivation_ab :
    ∃ g firsts follows t first others trace, Grammar.ofText "S->aS\nS->b" = .ok g ∧
      g.WellFormed ∧ endMarker ∉ "ab".toList ∧ LlTable.build g firsts follows = .ok t ∧
      g.productions = first :: others ∧
      predictiveFrom g t.toPredict (predictBudget "ab") [first.head, endMarker.toString]
        ("ab".toList ++ [endMarker])
        [⟨showStack [first.head, endMarker.toString], String.ofList ("ab".toList ++ [endMarker]),
          "Initial"⟩] = .ok trace ∧
      trace.success = true ∧ trace.outcome ≠ .rejected "Stack is empty" ∧
      (trace.success = true → ∃ ps : List Production,
        actionsWith "Apply " trace.steps = ps.map applyAction ∧
          g.LeftmostDerivation ps [.nonterminal g.startName] (terminalForm "ab".toList) ∧
          "ab".toList ∈ g.cfg.language) := by
  have computed : ((analyzeLl (some (.text "S->aS\nS->b")) (some (.text "ab"))).toOption.bind
      fun answer => (answer.2.report?.bind LlReport.parse).map
        fun trace => (answer.1.productions, trace.success)) =
      some ([⟨"S", ['a', 'S']⟩, ⟨"S", ['b']⟩], true) := by
    decide +kernel
  obtain ⟨⟨g, answer⟩, analyzed, found⟩ := Option.bind_eq_some_iff.mp computed
  obtain ⟨trace, found, computed⟩ := Option.map_eq_some_iff.mp found
  obtain ⟨r, isReport, hasParse⟩ := Option.bind_eq_some_iff.mp found
  rw [LlAnswer.report?_eq_some] at isReport
  subst isReport
  obtain ⟨productions, success⟩ := Prod.mk.inj computed
  obtain ⟨read, firsts, follows, t, first, others, built, listed, ran⟩ :=
    parse_of_analyzeLl (toOption_eq_some.mp analyzed) hasParse
  have wellFormed : g.WellFormed :=
    Grammar.wellFormed_of_plain 'A' (by decide) (by rw [productions]; decide)
  have unmarked : endMarker ∉ "ab".toList := by
    decide
  exact ⟨g, firsts, follows, t, first, others, trace, read, wellFormed, unmarked, built, listed,
    ran, success, predictive_leftmostDerivation read wellFormed unmarked built listed ran⟩

/-- The analysis is not complete when a FOLLOW set misses a character. In the grammar
`S->ABd`, `B->bA`, `A->d`, `A->`, the end of `B->bA` lets `A` be followed by `d`, so `A->d` and
`A->` compete for the cell of `A` under `d`. The one pass that computes FOLLOW sets misses that
`d` and the analysis reports no conflict, and the parse of `bd`, which the grammar derives by
`S->ABd`, `A->`, `B->bA` and `A->`, applies `A->d` after `b` and stops. -/
theorem analyzeLl_rejects_without_conflict :
    ∃ g r trace, g.WellFormed ∧ "bd".toList ∈ g.cfg.language ∧
      analyzeLl (some (.text "S->ABd\nB->bA\nA->d\nA->")) (some (.text "bd")) =
        .ok (g, .report r) ∧
      r.parse = some trace ∧ trace.success = false ∧
      trace.message = "Expected 'd', found '$'" := by
  have computed :
      ((analyzeLl (some (.text "S->ABd\nB->bA\nA->d\nA->")) (some (.text "bd"))).toOption.bind
      fun answer => (answer.2.report?.bind LlReport.parse).map
        fun trace => (answer.1.productions, trace.success, trace.message)) =
      some ([⟨"S", ['A', 'B', 'd']⟩, ⟨"B", ['b', 'A']⟩, ⟨"A", ['d']⟩, ⟨"A", []⟩], false,
        "Expected 'd', found '$'") := by
    decide +kernel
  obtain ⟨⟨g, answer⟩, analyzed, found⟩ := Option.bind_eq_some_iff.mp computed
  obtain ⟨trace, found, computed⟩ := Option.map_eq_some_iff.mp found
  obtain ⟨r, isReport, hasParse⟩ := Option.bind_eq_some_iff.mp found
  rw [LlAnswer.report?_eq_some] at isReport
  subst isReport
  obtain ⟨productions, success, message⟩ : _ ∧ _ ∧ _ := by
    simpa only [Prod.mk.injEq] using computed
  have derivation : g.LeftmostDerivation
      [⟨"S", ['A', 'B', 'd']⟩, ⟨"A", []⟩, ⟨"B", ['b', 'A']⟩, ⟨"A", []⟩]
      [.nonterminal g.startName] (terminalForm "bd".toList) := by
    have start : g.startName = "S" := by
      simp [Grammar.startName, productions]
    rw [start]
    refine .head (by simp [productions]) ⟨[], [], by decide, rfl⟩ ?_
    refine .head (by simp [productions]) ⟨[], [.nonterminal "B", .terminal 'd'], by decide, rfl⟩ ?_
    refine .head (by simp [productions]) ⟨[], [.terminal 'd'], by decide, rfl⟩ ?_
    exact .head (by simp [productions]) ⟨['b'], [.terminal 'd'], by decide, by decide⟩ (.refl _)
  exact ⟨g, r, trace, Grammar.wellFormed_of_plain 'C' (by decide) (by rw [productions]; decide),
    Grammar.mem_language_of_leftmost derivation, toOption_eq_some.mp analyzed, hasParse, success,
    message⟩

end GrammarBench
