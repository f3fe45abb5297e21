import GrammarBench.Proofs.Lr.Automaton
import GrammarBench.Proofs.Lr.Viable
import GrammarBench.Proofs.Trace

/-!
# Soundness of the shift-reduce parse

A parse with the table of a well-formed grammar, within any number of steps, accepts only
texts of the grammar's language, whatever conflicts the table builder overwrote and whatever
duplicate states the automaton holds. The proof follows the parse step by step with one
invariant (`Reached`): the stack is the stack of a chain that agrees with the automaton's
states (`ChainOk`), and the reductions made so far, latest first, derive the input from the
stack's symbols followed by the input left, each of them rewriting the last nonterminal.

* A shift pushes a terminal and the state that the table names for the goto set.
* A reduction pops the pairs of the production's body. That the popped symbols spell the
  body, which the parse never checks, follows from the finished item that wrote the cell:
  what it has seen, its whole body, ends the stack.
* Acceptance happens at an item of the start production, which has seen the whole stack, so
  the stack holds the start symbol alone and the input is used up.

Main statement: `accepted_rightmostDerivation`.
-/

namespace GrammarBench

/-! ## Reductions in a trace -/

/-- The action a parse writes for a reduction by `p`. -/
def reduceAction (p : Production) : String :=
  if p.body.isEmpty then s!"Reduce by {p.text} (epsilon)" else s!"Reduce by {p.text}"

/-- The actions of the steps that reduce, in order. -/
def reduceActions (steps : List Step) : List String :=
  (steps.filter fun s => "Reduce by ".toList.isPrefixOf s.action.toList).map Step.action

theorem reduceActions_cons_reduce {step : Step} (steps : List Step) {p : Production}
    (named : step.action = reduceAction p) :
    reduceActions (step :: steps) = reduceAction p :: reduceActions steps := by
  have prefixed : "Reduce by ".toList.isPrefixOf (reduceAction p).toList = true := by
    rw [reduceAction]
    split
    · rw [String.append_assoc]
      exact isPrefixOf_append _ _
    · exact isPrefixOf_append _ _
  rw [← named]
  exact actionsWith_cons_of_isPrefixOf steps (named ▸ prefixed)

theorem reduceActions_cons_other {step : Step} (steps : List Step)
    (other : "Reduce by ".toList.isPrefixOf step.action.toList = false) :
    reduceActions (step :: steps) = reduceActions steps :=
  actionsWith_cons_other steps other

theorem isPrefixOf_shiftAction (next : String) :
    "Reduce by ".toList.isPrefixOf (s!"Shift to state {next}").toList = false := by
  show "Reduce by ".toList.isPrefixOf ("Shift to state " ++ next).toList = false
  simp [String.toList_append, List.isPrefixOf]

theorem reduceActions_reverse (steps : List Step) :
    reduceActions steps.reverse = (reduceActions steps).reverse :=
  actionsWith_reverse steps

/-! ## The texts of the cells -/

theorem toList_shiftCell (v : Nat) : (s!"s{v}").toList = 's' :: (toString v).toList := by
  show ("s" ++ toString v).toList = _
  rw [String.toList_append]
  rfl

theorem toList_reduceCell (n : Nat) : (s!"r{n}").toList = 'r' :: (toString n).toList := by
  show ("r" ++ toString n).toList = _
  rw [String.toList_append]
  rfl

/-- The decimal text of a number starts with a digit. -/
theorem toList_toString_ne_cons {v : Nat} {c : Char} (notDigit : c.isDigit = false)
    (rest : List Char) : (toString v).toList ≠ c :: rest := by
  intro same
  have digit : c.isDigit = true := by
    apply Nat.isDigit_of_mem_toDigits (b := 10) (n := v) (by decide) (by decide)
    rw [← Nat.toList_repr]
    exact same ▸ List.mem_cons_self
  rw [digit] at notDigit
  exact Bool.noConfusion notDigit

theorem Production.eq_of_text_eq {p q : Production} {h k : Char} (namedP : p.head = h.toString)
    (namedQ : q.head = k.toString) (same : p.text = q.text) : p = q := by
  have chars := congrArg String.toList same
  simp only [Production.text, String.toList_append, namedP, namedQ, Char.toString_eq_singleton,
    String.toList_singleton, String.toList_ofList, List.singleton_append] at chars
  obtain ⟨sameHead, sameBody⟩ : h = k ∧ p.body = q.body := by
    simpa using chars
  obtain ⟨pHead, pBody⟩ := p
  obtain ⟨qHead, qBody⟩ := q
  simp only at namedP namedQ sameBody
  subst namedP namedQ sameHead sameBody
  rfl

namespace ActionTable.CellWrite

variable {g : Grammar} {ctx : ItemContext} {labels : List (List String)} {s : List Item}
  {key t : String}

theorem accept_of_eq (write : CellWrite g ctx labels s key t) (isAccept : t = "Accept") :
    key = endMarker.toString ∧ ∃ it ∈ s, it.isComplete = true ∧
      accepts ctx.productions it.head (String.ofList (it.dottedBody.filter (· != '.'))) =
        .ok true := by
  cases write with
  | accept it member finished accepting => exact ⟨rfl, it, member, finished, accepting⟩
  | reduce =>
      have chars := congrArg String.toList isAccept
      rw [toList_reduceCell] at chars
      simp at chars
  | shift =>
      have chars := congrArg String.toList isAccept
      rw [toList_shiftCell] at chars
      simp at chars
  | goto _ _ _ _ _ _ _ v =>
      have chars : (toString v).toList = 'A' :: "ccept".toList := congrArg String.toList isAccept
      exact absurd chars (toList_toString_ne_cons (by decide) _)

theorem reduce_of_toList (write : CellWrite g ctx labels s key t) {number : List Char}
    (reducing : t.toList = 'r' :: number) :
    ∃ it ∈ s, it.isComplete = true ∧
      accepts ctx.productions it.head (String.ofList (it.dottedBody.filter (· != '.'))) =
        .ok false ∧
      ∃ n, number = (toString n).toList ∧
        productionIndex ctx.productions
          (it.head ++ "->" ++ String.ofList (it.dottedBody.filter (· != '.'))) = .ok n ∧
        ∃ c ∈ it.lookahead, key = c.toString := by
  cases write with
  | accept => simp at reducing
  | reduce it member finished notAccepting n index c lookahead =>
      rw [toList_reduceCell, List.cons.injEq] at reducing
      exact ⟨it, member, finished, notAccepting, n, reducing.2.symm, index, c, lookahead, rfl⟩
  | shift =>
      rw [toList_shiftCell] at reducing
      simp at reducing
  | goto =>
      exact absurd reducing (toList_toString_ne_cons (by decide) _)

end ActionTable.CellWrite

/-! ## The setting of a parse -/

/-- The automaton and table that the analysis builds for a well-formed grammar, with the
letter `z` of the start production, which no production of the grammar mentions. -/
structure Setting (g : Grammar) (z : Char) (ctx : ItemContext) (states : List (List Item))
    (table : ActionTable) : Prop where
  recorded : g.Recorded
  wellFormed : g.WellFormed
  augmented : ∃ first rest, g.productions = first :: rest ∧
    ctx.productions = ⟨z.toString, first.head.toList⟩ :: g.productions
  unused : ∀ p ∈ g.productions, p.head ≠ z.toString ∧ z ∉ p.body
  sound : ctx.Sound g.terminals
  fitAll : ∀ s ∈ states, ∀ it ∈ s, ctx.Fit g.terminals it
  start : TopOk z states []
  built : ActionTable.build g ctx states = .ok table

namespace Setting

variable {g : Grammar} {z : Char} {ctx : ItemContext} {states : List (List Item)}
  {table : ActionTable}

theorem fresh (setting : Setting g z ctx states table) : ∀ q ∈ ctx.productions, z ∉ q.body := by
  obtain ⟨first, rest, listed, augmented⟩ := setting.augmented
  have firstUsed : first ∈ g.productions := listed ▸ List.mem_cons_self
  intro q member
  rw [augmented, List.mem_cons] at member
  rcases member with rfl | own
  · obtain ⟨X, _, named⟩ := setting.wellFormed.head_upper first firstUsed
    intro inBody
    have same : z = X := by
      simpa [named, Char.toString_eq_singleton] using inBody
    exact (setting.unused first firstUsed).1 (by rw [named, same])
  · exact (setting.unused q own).2

/-- A production of the automaton whose head is not the start letter is one of the grammar's
own. -/
theorem mem_productions (setting : Setting g z ctx states table) {q : Production}
    (member : q ∈ ctx.productions) (notStart : q.head ≠ z.toString) : q ∈ g.productions := by
  obtain ⟨first, rest, listed, augmented⟩ := setting.augmented
  rw [augmented, List.mem_cons] at member
  rcases member with rfl | own
  · exact absurd rfl notStart
  · exact own

/-- Only the start production has the start letter as head, and its body is the start symbol
alone. -/
theorem body_length_of_start (setting : Setting g z ctx states table) {q : Production}
    (member : q ∈ ctx.productions) (atStart : q.head = z.toString) : q.body.length = 1 := by
  obtain ⟨first, rest, listed, augmented⟩ := setting.augmented
  rw [augmented, List.mem_cons] at member
  rcases member with rfl | own
  · obtain ⟨X, _, named⟩ := setting.wellFormed.head_upper first (listed ▸ List.mem_cons_self)
    simp [named]
  · exact absurd atStart (setting.unused q own).1

/-- A finished item accepts exactly when its head is the start letter and its body the start
symbol. -/
theorem accepts_eq (setting : Setting g z ctx states table) (head body : String) :
    ActionTable.accepts ctx.productions head body =
      .ok (head == z.toString && body == g.startName) := by
  obtain ⟨first, rest, listed, augmented⟩ := setting.augmented
  have startName : g.startName = first.head := by
    simp [Grammar.startName, listed]
  rw [augmented, listed, startName]
  cases starting : head == z.toString with
  | true => simp only [ActionTable.accepts, starting, if_true, Bool.true_and]
  | false => simp only [ActionTable.accepts, starting, Bool.false_eq_true, if_false, Bool.false_and]

/-- The production that a reduce cell names is the production of the finished item that wrote
it, and one of the grammar's own. -/
theorem reduced (setting : Setting g z ctx states table) {it : Item}
    (fit : ctx.Fit g.terminals it)
    (notAccepting : ActionTable.accepts ctx.productions it.head
      (String.ofList (it.dottedBody.filter (· != '.'))) = .ok false) {n : Nat}
    (index : productionIndex ctx.productions
      (it.head ++ "->" ++ String.ofList (it.dottedBody.filter (· != '.'))) = .ok n)
    {p : Production} (picked : pickAt ctx.productions n = .ok p) :
    p = it.production ∧ p ∈ g.productions := by
  have plain := fit.plain setting.sound
  rw [Item.dottedBody_filter plain] at notAccepting index
  obtain ⟨q, atIndex, named⟩ := text_of_productionIndex index
  rw [getElem?_of_pickAt picked, Option.some.injEq] at atIndex
  subst atIndex
  obtain ⟨⟨k, _, _, namedP⟩, _, _⟩ :=
    setting.sound.plain p (List.mem_of_getElem? (getElem?_of_pickAt picked))
  obtain ⟨h, _, _, namedIt⟩ := plain.head_char
  have isItem : p = it.production := Production.eq_of_text_eq namedP namedIt named
  refine ⟨isItem, ?_⟩
  obtain ⟨first, rest, listed, augmented⟩ := setting.augmented
  have inProductions := fit.dotted.1
  rw [augmented, List.mem_cons] at inProductions
  rcases inProductions with isStart | own
  · have startName : g.startName = first.head := by
      simp [Grammar.startName, listed]
    simp only [Item.production, Production.mk.injEq] at isStart
    rw [setting.accepts_eq, isStart.1, isStart.2, startName] at notAccepting
    simp at notAccepting
  · exact isItem ▸ own

end Setting

/-! ## One step from a chain -/

/-- The state `v` that the table names for crossing `x` from the state on top of a chain: an
unfinished item of the top state crosses `x`, and `v` has the sorted labels of the goto set. -/
def Crossing (ctx : ItemContext) (states : List (List Item)) (chain : List (Char × Nat))
    (x : Char) (v : Nat) : Prop :=
  ∃ s, states[chainTop chain]? = some s ∧
    (∃ it ∈ s, it.isComplete = false ∧ it.nextSymbol = .ok x) ∧
    ∃ next, ctx.goto s x.toString = .ok next ∧
      lastStateWith (states.map sortedLabels) (sortedLabels next) = some v

/-- What one step of the parse does from the stack of a chain, with `c` the next input
character: it accepts by an accepting cell of the top state, stops, shifts a terminal to the
state the table names for it, or reduces by a production whose body the top symbols spell and
goes to the state the table names for the production's head. -/
inductive ChainStep (g : Grammar) (ctx : ItemContext) (states : List (List Item))
    (chain : List (Char × Nat)) (c : Char) (tail : List Char) (steps : List Step) :
    Progress (List Field) → Prop
  | accept {s : List Item} (atTop : states[chainTop chain]? = some s)
      (write : ActionTable.CellWrite g ctx (states.map sortedLabels) s c.toString "Accept")
      (step : Step) (action : step.action = "Accept") :
      ChainStep g ctx states chain c tail steps (.finished ⟨(step :: steps).reverse, .accepted⟩)
  | reject (done : List Step) (reason : String) :
      ChainStep g ctx states chain c tail steps (.finished ⟨done, .rejected reason⟩)
  | shift {v : Nat} (terminal : c ∈ g.terminals) (crossing : Crossing ctx states chain c v)
      (step : Step) (action : step.action = s!"Shift to state {v}") :
      ChainStep g ctx states chain c tail steps
        (.next (chainStack ((c, v) :: chain)) tail (step :: steps))
  | reduce {p : Production} (member : p ∈ g.productions) {H : Char}
      (upper : Text.isUppercase H = true) (named : p.head = H.toString)
      (spelled : chainSymbols chain = chainSymbols (chain.drop p.body.length) ++ p.body)
      {v : Nat} (crossing : Crossing ctx states (chain.drop p.body.length) H v) (step : Step)
      (action : step.action = reduceAction p) :
      ChainStep g ctx states chain c tail steps
        (.next (chainStack ((H, v) :: chain.drop p.body.length)) (c :: tail) (step :: steps))

variable {g : Grammar} {z : Char} {ctx : ItemContext} {states : List (List Item)}
  {table : ActionTable} {chain : List (Char × Nat)}

/-- Crossing to the state the table names keeps a chain agreeing with its states. -/
theorem ChainOk.cross (setting : Setting g z ctx states table) (chainOk : ChainOk z states chain)
    {x : Char} {v : Nat} (crossing : Crossing ctx states chain x v) :
    ChainOk z states ((x, v) :: chain) := by
  obtain ⟨s, atTop, _, next, moved, found⟩ := crossing
  exact chainOk.push setting.sound setting.fresh setting.fitAll atTop moved found

theorem ActionTable.CellWrite.shift_crossing {s : List Item} {key t : String}
    (write : ActionTable.CellWrite g ctx (states.map sortedLabels) s key t)
    (atTop : states[chainTop chain]? = some s) {target : List Char}
    (shifting : t.toList = 's' :: target) :
    ∃ x v, key = x.toString ∧ target = (toString v).toList ∧ x ∈ g.terminals ∧
      Crossing ctx states chain x v := by
  cases write with
  | accept => simp at shifting
  | reduce =>
      rw [toList_reduceCell] at shifting
      simp at shifting
  | shift it member unfinished x symbol next moved v found terminal =>
      rw [toList_shiftCell, List.cons.injEq] at shifting
      exact ⟨x, v, rfl, shifting.2.symm, by simpa using terminal, s, atTop,
        ⟨it, member, unfinished, symbol⟩, next, moved, found⟩
  | goto =>
      exact absurd shifting (toList_toString_ne_cons (by decide) _)

theorem chainSymbols_eq_drop_append {body : List Char} (suffix : body <:+ chainSymbols chain) :
    chainSymbols chain = chainSymbols (chain.drop body.length) ++ body := by
  have split : chainSymbols (chain.drop body.length) ++ chainSymbols (chain.take body.length) =
      chainSymbols chain :=
    chainSymbols_drop_append_take body.length
  have within : body.length ≤ chain.length := by
    simpa using suffix.length_le
  have taken : chainSymbols (chain.take body.length) <:+ chainSymbols chain := ⟨_, split⟩
  have sameLength : (chainSymbols (chain.take body.length)).length = body.length := by
    simp [within]
  have spelled : chainSymbols (chain.take body.length) = body :=
    (List.suffix_of_suffix_length_le taken suffix sameLength.le).eq_of_length sameLength
  calc chainSymbols chain
      = chainSymbols (chain.drop body.length) ++ chainSymbols (chain.take body.length) :=
        split.symm
    _ = chainSymbols (chain.drop body.length) ++ body := by rw [spelled]

/-- Symbols on top of a chain that spell a body are no more than the chain holds. -/
theorem length_le_of_chainSymbols_eq {body : List Char}
    (spelled : chainSymbols chain = chainSymbols (chain.drop body.length) ++ body) :
    body.length ≤ chain.length := by
  have lengths := congrArg List.length spelled
  simp only [length_chainSymbols, List.length_append, List.length_drop] at lengths
  omega

namespace Setting

/-- Under the name of a nonterminal, a cell of the state on top of a chain names the state
that the table gives for crossing the nonterminal. -/
theorem goto_crossing (setting : Setting g z ctx states table) {s : List Item}
    (atTop : states[chainTop chain]? = some s) {H : Char} (upper : Text.isUppercase H = true)
    {key t : String} (named : key = H.toString)
    (write : ActionTable.CellWrite g ctx (states.map sortedLabels) s key t) :
    ∃ v, t = toString v ∧ Crossing ctx states chain H v := by
  have notTerminal : H ∉ g.terminals := fun member => by
    rw [Grammar.terminal_not_upper setting.recorded member] at upper
    exact Bool.noConfusion upper
  have notMarker : H ≠ endMarker := ne_of_upper upper (by decide)
  cases write with
  | accept => exact absurd (String.singleton_inj.mp named).symm notMarker
  | reduce it member _ _ _ _ c lookahead =>
      have same : c = H := String.singleton_inj.mp named
      have fit := setting.fitAll s (List.mem_of_getElem? atTop) it member
      rcases fit.lookahead c lookahead with terminal | marker
      · exact absurd (same ▸ terminal) notTerminal
      · exact absurd (same ▸ marker) notMarker
  | shift _ _ _ x _ _ _ _ _ terminal =>
      have same : x = H := String.singleton_inj.mp named
      exact absurd (same ▸ (by simpa using terminal)) notTerminal
  | goto it member unfinished x symbol next moved v found =>
      have same : x = H := String.singleton_inj.mp named
      subst same
      exact ⟨v, rfl, s, atTop, ⟨it, member, unfinished, symbol⟩, next, moved, found⟩

/-- A goto after a reduction to a nonterminal, from the state on top of a chain, pushes the
state that the table gives for crossing the nonterminal. -/
theorem gotoCell_crossing (setting : Setting g z ctx states table) {s : List Item}
    (atTop : states[chainTop chain]? = some s) {cells : List (String × String)}
    (inRows : table.rows[chainTop chain]? = some cells) {H : Char}
    (upper : Text.isUppercase H = true) {state : Int} {target : Field}
    (read : gotoCell (.dict (cells.map fun (k, c) => (k, .text c))) H.toString state =
      .ok (.ok target)) :
    ∃ v, target = .text (toString v) ∧ Crossing ctx states chain H v := by
  unfold gotoCell at read
  obtain ⟨cell, lookedUp, read⟩ := bind_eq_ok.mp read
  rw [lookupOr_textCells lookedUp] at read
  simp only [pure, Except.pure, Except.ok.injEq] at read
  split at read
  · simp at read
  · rename_i written
    simp only [Except.ok.injEq] at read
    subst read
    cases found : cells.lookup H.toString with
    | none =>
        rw [found] at written
        exact absurd rfl written
    | some t =>
        rw [found] at written
        rcases ActionTable.lookup_build setting.built atTop inRows found with empty | write
        · rw [empty] at written
          exact absurd rfl written
        · obtain ⟨v, rfl, crossing⟩ := setting.goto_crossing atTop upper rfl write
          exact ⟨v, rfl, crossing⟩

theorem chainStep_rejected {c : Char} {tail : List Char} {steps done : List Step}
    {reason : String} {progress : Progress (List Field)}
    (stopped : (pure (.finished ⟨done, .rejected reason⟩) : Except Fault _) = .ok progress) :
    ChainStep g ctx states chain c tail steps progress := by
  simp only [pure, Except.pure, Except.ok.injEq] at stopped
  subst stopped
  exact .reject done reason

/-- One step of the parse from the stack of a chain that agrees with the automaton's states
does what `ChainStep` lists, whatever conflicts the table builder overwrote. -/
theorem step_cases (setting : Setting g z ctx states table) (chainOk : ChainOk z states chain)
    {c : Char} {tail : List Char} {steps : List Step} {progress : Progress (List Field)}
    (stepped : shiftReduceStep ctx.productions table.toRows (chainStack chain) (c :: tail)
      steps = .ok progress) :
    ChainStep g ctx states chain c tail steps progress := by
  obtain ⟨s, atTop, agrees⟩ := chainOk.top
  unfold shiftReduceStep at stepped
  obtain ⟨state, top, stepped⟩ := bind_eq_ok.mp stepped
  have onTop := topState_chainStack top
  subst onTop
  dsimp only at stepped
  obtain ⟨c', picked, stepped⟩ := bind_eq_ok.mp stepped
  simp only [pure, Except.pure, Except.ok.injEq] at picked
  subst picked
  obtain ⟨row, atRow, stepped⟩ := bind_eq_ok.mp stepped
  obtain ⟨cells, inRows, rfl⟩ := item_toRows atRow
  obtain ⟨member, _, stepped⟩ := bind_eq_ok.mp stepped
  split at stepped
  · exact chainStep_rejected stepped
  obtain ⟨action, atEntry, stepped⟩ := bind_eq_ok.mp stepped
  obtain ⟨t, found, rfl⟩ := entry_textCells atEntry
  split at stepped
  · exact chainStep_rejected stepped
  rename_i written
  have write := (ActionTable.lookup_build setting.built atTop inRows found).resolve_left
    (fun empty => written (by rw [empty]; rfl))
  split at stepped
  · rename_i isAccept
    obtain ⟨shown, _, stepped⟩ := bind_eq_ok.mp stepped
    simp only [pure, Except.pure, Except.ok.injEq] at stepped
    subst stepped
    have accepting : t = "Accept" := by
      simpa [Field.isText] using isAccept
    subst accepting
    exact .accept atTop write _ rfl
  obtain ⟨text, asText, stepped⟩ := bind_eq_ok.mp stepped
  simp only [Field.asText, Except.ok.injEq] at asText
  subst asText
  split at stepped
  · rename_i target shifting
    obtain ⟨shown, _, stepped⟩ := bind_eq_ok.mp stepped
    simp only [pure, Except.pure, Except.ok.injEq] at stepped
    subst stepped
    obtain ⟨x, v, keyIs, rfl, terminal, crossing⟩ := write.shift_crossing atTop shifting
    have same : x = c := String.singleton_inj.mp keyIs.symm
    subst same
    rw [String.ofList_toList]
    exact .shift terminal crossing _ rfl
  · rename_i number reducing
    obtain ⟨it, member, finished, notAccepting, n, rfl, index, d, lookahead, keyIs⟩ :=
      write.reduce_of_toList reducing
    obtain ⟨m, numeral, stepped⟩ := bind_eq_ok.mp stepped
    rw [String.ofList_toList] at numeral
    have sameIndex := numeralValue_toString numeral
    subst sameIndex
    obtain ⟨p, picked, stepped⟩ := bind_eq_ok.mp stepped
    have fit := setting.fitAll s (List.mem_of_getElem? atTop) it member
    obtain ⟨isItem, own⟩ := setting.reduced fit notAccepting index picked
    obtain ⟨H, upper, named⟩ := setting.wellFormed.head_upper p own
    have suffix : p.body <:+ chainSymbols chain := by
      rw [isItem]
      show it.body <:+ _
      rw [← Item.seen_of_isComplete (fit.plain setting.sound) finished]
      exact (agrees it member).1
    have within : p.body.length ≤ chain.length := by
      simpa using suffix.length_le
    split at stepped
    · rename_i empty
      have emptyBody : p.body = [] := List.isEmpty_iff.mp empty
      obtain ⟨shown, _, stepped⟩ := bind_eq_ok.mp stepped
      obtain ⟨moved, goto, stepped⟩ := bind_eq_ok.mp stepped
      split at stepped
      · exact chainStep_rejected stepped
      · simp only [pure, Except.pure, Except.ok.injEq] at stepped
        subst stepped
        rw [named] at goto
        obtain ⟨v, rfl, crossing⟩ := setting.gotoCell_crossing atTop inRows upper goto
        have popped : chain.drop p.body.length = chain := by
          rw [emptyBody, List.length_nil, List.drop_zero]
        have reduced : ChainStep g ctx states chain c tail steps _ := .reduce own upper named
          (chainSymbols_eq_drop_append suffix) (popped ▸ crossing)
          ⟨shown, String.ofList (c :: tail), s!"Reduce by {p.text} (epsilon)"⟩
          (by simp [reduceAction, emptyBody])
        rw [popped] at reduced
        rw [named]
        exact reduced
    · split at stepped
      · exact chainStep_rejected stepped
      · rename_i nonEmpty _
        rw [drop_chainStack within] at stepped
        obtain ⟨below, belowTop, stepped⟩ := bind_eq_ok.mp stepped
        have onBelow := topState_chainStack belowTop
        subst onBelow
        obtain ⟨shown, _, stepped⟩ := bind_eq_ok.mp stepped
        obtain ⟨belowRow, atBelowRow, stepped⟩ := bind_eq_ok.mp stepped
        obtain ⟨belowCells, inBelowRows, rfl⟩ := item_toRows atBelowRow
        obtain ⟨moved, goto, stepped⟩ := bind_eq_ok.mp stepped
        split at stepped
        · exact chainStep_rejected stepped
        · simp only [pure, Except.pure, Except.ok.injEq] at stepped
          subst stepped
          rw [named] at goto
          obtain ⟨belowState, belowAtTop, _⟩ := (chainOk.drop within).top
          obtain ⟨v, rfl, crossing⟩ :=
            setting.gotoCell_crossing belowAtTop inBelowRows upper goto
          have reduced : ChainStep g ctx states chain c tail steps _ := .reduce own upper named
            (chainSymbols_eq_drop_append suffix) crossing
            ⟨shown, String.ofList (c :: tail), s!"Reduce by {p.text}"⟩
            (by simp [reduceAction, nonEmpty])
          rw [named]
          exact reduced
  · exact chainStep_rejected stepped

end Setting

/-! ## Configurations -/

/-- A configuration that a parse of `w` reaches, with the chain of its stack, the input left
before the end marker, the steps so far, and the reductions made so far, latest first: the
chain agrees with the states, and the reductions derive `w` from the stack's symbols followed
by the input left, each rewriting the last nonterminal. -/
structure Reached (g : Grammar) (z : Char) (states : List (List Item)) (w : List Char)
    (chain : List (Char × Nat)) (rest : List Char) (steps : List Step)
    (ps : List Production) : Prop where
  chainOk : ChainOk z states chain
  unmarked : endMarker ∉ rest
  derives : g.RightmostDerivation ps ((chainSymbols chain).map bodySymbol ++ terminalForm rest)
    (terminalForm w)
  reductions : reduceActions steps = ps.map reduceAction

/-- The parse of `w` that ended with this trace accepted by a rightmost derivation: the
productions that its reductions name, read backwards, derive `w` from the start symbol. -/
def AcceptedBy (g : Grammar) (w : List Char) (trace : Trace) : Prop :=
  ∃ ps : List Production, reduceActions trace.steps = ps.map reduceAction ∧
    g.RightmostDerivation ps.reverse [.nonterminal g.startName] (terminalForm w)

/-- Where a step from a reached configuration leads: to a reached configuration, or to the end
of a parse that, if it accepted, accepted by a rightmost derivation. -/
def Continues (g : Grammar) (z : Char) (states : List (List Item)) (w : List Char) :
    Progress (List Field) → Prop
  | .finished trace => trace.success = true → AcceptedBy g w trace
  | .next stack input steps => ∃ chain rest ps, stack = chainStack chain ∧
      input = rest ++ [endMarker] ∧ Reached g z states w chain rest steps ps

variable {g : Grammar} {z : Char} {ctx : ItemContext} {states : List (List Item)}
  {table : ActionTable} {w : List Char} {chain : List (Char × Nat)} {rest : List Char}
  {steps : List Step} {ps : List Production}

theorem continues_rejected {steps : List Step} {reason : String} {progress : Progress (List Field)}
    (stopped : (pure (.finished ⟨steps, .rejected reason⟩) : Except Fault _) = .ok progress) :
    Continues g z states w progress := by
  simp only [pure, Except.pure, Except.ok.injEq] at stopped
  subst stopped
  intro accepted
  simp [Trace.success] at accepted

/-- A reduction by `p` from a chain whose top symbols spell `p`'s body, followed by the goto
to the state that the table names, reaches a configuration again. -/
theorem Reached.reduce (reached : Reached g z states w chain rest steps ps) {p : Production}
    (own : p ∈ g.productions) {H : Char} (upper : Text.isUppercase H = true)
    (named : p.head = H.toString) {below : List (Char × Nat)}
    (spelled : chainSymbols chain = chainSymbols below ++ p.body) {v : Nat}
    (extended : ChainOk z states ((H, v) :: below)) {step : Step}
    (action : step.action = reduceAction p) :
    Reached g z states w ((H, v) :: below) rest (step :: steps) (p :: ps) where
  chainOk := extended
  unmarked := reached.unmarked
  derives := by
    refine .head own ⟨(chainSymbols below).map bodySymbol, rest, ?_, ?_⟩ reached.derives
    · simp [bodySymbol_of_upper upper, named]
    · simp [spelled, Production.form]
  reductions := by
    rw [reduceActions_cons_reduce steps action, reached.reductions, List.map_cons]

/-- A shift of a terminal, to the state that the table names for crossing it, reaches a
configuration again. -/
theorem Reached.shift (setting : Setting g z ctx states table)
    (reached : Reached g z states w chain rest steps ps) {c : Char} {tail : List Char}
    (split : rest ++ [endMarker] = c :: tail) (terminal : c ∈ g.terminals) {v : Nat}
    (crossing : Crossing ctx states chain c v) {step : Step}
    (action : step.action = s!"Shift to state {v}") :
    Continues g z states w (.next (chainStack ((c, v) :: chain)) tail (step :: steps)) := by
  have notMarker : c ≠ endMarker := fun marker =>
    Grammar.endMarker_not_mem_terminals setting.recorded setting.wellFormed (marker ▸ terminal)
  obtain ⟨more, rfl, rfl⟩ : ∃ more, rest = c :: more ∧ tail = more ++ [endMarker] := by
    cases rest with
    | nil =>
        simp only [List.nil_append, List.cons.injEq] at split
        exact absurd split.1.symm notMarker
    | cons d more =>
        simp only [List.cons_append, List.cons.injEq] at split
        exact ⟨more, by rw [split.1], split.2.symm⟩
  refine ⟨(c, v) :: chain, more, ps, rfl, rfl, ?_⟩
  refine ⟨reached.chainOk.cross setting crossing,
    fun marker => reached.unmarked (List.mem_cons_of_mem c marker), ?_, ?_⟩
  · have lower := Grammar.terminal_not_upper setting.recorded terminal
    simpa [bodySymbol_of_not_upper lower] using reached.derives
  · rw [reduceActions_cons_other steps (action ▸ isPrefixOf_shiftAction _), reached.reductions]

/-- An accepting step from a reached configuration accepts by a rightmost derivation: the
accepting item has seen the whole stack, which is the start symbol, and no input is left. -/
theorem Reached.accept (setting : Setting g z ctx states table)
    (reached : Reached g z states w chain rest steps ps) {c : Char} {tail : List Char}
    (split : rest ++ [endMarker] = c :: tail) {s : List Item}
    (atTop : states[chainTop chain]? = some s) (agrees : ItemsOk z s (chainSymbols chain))
    {key : String} (keyIs : key = c.toString)
    (write : ActionTable.CellWrite g ctx (states.map sortedLabels) s key "Accept") {step : Step}
    (action : step.action = "Accept") :
    AcceptedBy g w ⟨(step :: steps).reverse, .accepted⟩ := by
  obtain ⟨marked, it, member, finished, accepting⟩ := write.accept_of_eq rfl
  have atMarker : c = endMarker := String.singleton_inj.mp (keyIs.symm.trans marked)
  have noneLeft : rest = [] := by
    cases rest with
    | nil => rfl
    | cons d more =>
        simp only [List.cons_append, List.cons.injEq] at split
        exact absurd (split.1 ▸ atMarker ▸ List.mem_cons_self) reached.unmarked
  subst noneLeft
  have plain := (setting.fitAll s (List.mem_of_getElem? atTop) it member).plain setting.sound
  rw [setting.accepts_eq, Item.dottedBody_filter plain, Except.ok.injEq, Bool.and_eq_true,
    beq_iff_eq, beq_iff_eq] at accepting
  obtain ⟨isStart, spellsStart⟩ := accepting
  have wholeStack : chainSymbols chain = it.body := by
    rw [← (agrees it member).2 isStart, Item.seen_of_isComplete plain finished]
  obtain ⟨first, more, listed, _⟩ := setting.augmented
  obtain ⟨S, upper, named⟩ :=
    setting.wellFormed.head_upper first (listed ▸ List.mem_cons_self)
  have startName : g.startName = S.toString := by
    simp [Grammar.startName, listed, named]
  have body : it.body = [S] := by
    have chars := congrArg String.toList (spellsStart.trans startName)
    simpa [Char.toString_eq_singleton] using chars
  refine ⟨ps.reverse, ?_, ?_⟩
  · have accepted : "Reduce by ".toList.isPrefixOf step.action.toList = false := by
      rw [action]
      simp [List.isPrefixOf]
    rw [reduceActions_reverse, reduceActions_cons_other steps accepted, reached.reductions,
      List.map_reverse]
  · have derivation := reached.derives
    rw [wholeStack, body, List.map_singleton, bodySymbol_of_upper upper, terminalForm_nil,
      List.append_nil, ← startName] at derivation
    rwa [List.reverse_reverse]

/-- One step of the parse from a reached configuration continues as `Continues` says. -/
theorem Reached.step (setting : Setting g z ctx states table)
    (reached : Reached g z states w chain rest steps ps) {progress : Progress (List Field)}
    (stepped : shiftReduceStep ctx.productions table.toRows (chainStack chain)
      (rest ++ [endMarker]) steps = .ok progress) :
    Continues g z states w progress := by
  obtain ⟨c, tail, split⟩ : ∃ c tail, rest ++ [endMarker] = c :: tail :=
    List.exists_cons_of_ne_nil (by simp)
  rw [split] at stepped
  cases setting.step_cases reached.chainOk stepped with
  | accept atTop write _ action =>
      obtain ⟨s, onTop, agrees⟩ := reached.chainOk.top
      obtain rfl : s = _ := Option.some.inj (onTop.symm.trans atTop)
      intro _
      exact reached.accept setting split onTop agrees rfl write action
  | reject =>
      intro accepted
      simp [Trace.success] at accepted
  | shift terminal crossing _ action => exact reached.shift setting split terminal crossing action
  | reduce member upper named spelled crossing _ action =>
      have within := length_le_of_chainSymbols_eq spelled
      exact ⟨_, rest, _ :: ps, rfl, split.symm, reached.reduce member upper named spelled
        ((reached.chainOk.drop within).cross setting crossing) action⟩

/-- A parse of `w` starts from a reached configuration: the bottom state alone, the whole input
left and no reduction made. -/
theorem reached_initial (setting : Setting g z ctx states table) (unmarked : endMarker ∉ w) :
    Reached g z states w [] w [⟨"0", String.ofList (w ++ [endMarker]), "Initial"⟩] [] := by
  refine ⟨chainOk_nil setting.start, unmarked, ?_, ?_⟩
  · show g.DerivesBy Production.RightmostStep [] _ _
    simpa using Grammar.DerivesBy.refl (terminalForm w)
  · exact reduceActions_cons_other [] (by simp [List.isPrefixOf])

/-- A parse from a reached configuration that accepts, within any number of steps, accepts by
a rightmost derivation. -/
theorem Reached.run (setting : Setting g z ctx states table)
    (reached : Reached g z states w chain rest steps ps) {fuel : Nat} {trace : Trace}
    (ran : shiftReduceFrom ctx.productions table.toRows fuel (chainStack chain)
      (rest ++ [endMarker]) steps = .ok trace)
    (accepted : trace.success = true) : AcceptedBy g w trace := by
  induction fuel generalizing chain rest steps ps with
  | zero =>
      simp only [shiftReduceFrom, Except.ok.injEq] at ran
      subst ran
      simp [Trace.success] at accepted
  | succ fuel ih =>
      simp only [shiftReduceFrom] at ran
      obtain ⟨progress, stepped, ran⟩ := bind_eq_ok.mp ran
      have continues := reached.step setting stepped
      cases progress with
      | finished done =>
          simp only [pure, Except.pure, Except.ok.injEq] at ran
          subst ran
          exact continues accepted
      | next stack input later =>
          obtain ⟨chain', rest', ps', rfl, rfl, reached'⟩ := continues
          exact ih reached' ran

/-! ## The analysis -/

/-- The analysis of a well-formed grammar read from a text builds its automaton and table in
a setting where the parse is sound. -/
theorem setting_of_ofGrammar {g : Grammar} (shape : g.ReadShape) (wellFormed : g.WellFormed)
    {a : LrAnalysis} (analyzed : LrAnalysis.ofGrammar g = .ok a) :
    ∃ z, a.grammar = g ∧ Setting g z (g.itemContext a.productions) a.states a.table := by
  unfold LrAnalysis.ofGrammar at analyzed
  obtain ⟨firsts, _, analyzed⟩ := bind_eq_ok.mp analyzed
  obtain ⟨follows, _, analyzed⟩ := bind_eq_ok.mp analyzed
  obtain ⟨productions, augmented, analyzed⟩ := bind_eq_ok.mp analyzed
  obtain ⟨z, first, rest, listed, rfl, _, unused⟩ :=
    g.augment_eq_ok shape.recorded wellFormed augmented
  obtain ⟨start, isStart, analyzed⟩ := bind_eq_ok.mp analyzed
  simp only [pure, Except.pure, Except.ok.injEq] at isStart
  subst isStart
  obtain ⟨states, built, analyzed⟩ := bind_eq_ok.mp analyzed
  obtain ⟨table, tabled, analyzed⟩ := bind_eq_ok.mp analyzed
  simp only [pure, Except.pure, Except.ok.injEq] at analyzed
  subst analyzed
  have sound := g.sound_itemContext shape wellFormed augmented
  set ctx := g.itemContext (⟨z.toString, first.head.toList⟩ :: g.productions)
  have startFit : ∀ it ∈ [Item.start ⟨z.toString, first.head.toList⟩ (.single endMarker)],
      ctx.Fit g.terminals it := by
    intro it member
    rw [List.mem_singleton] at member
    subst member
    exact ⟨⟨List.mem_cons_self, Nat.zero_le _⟩, fun d inLookahead =>
      Or.inr (CharSet.mem_single.mp inLookahead)⟩
  obtain ⟨initial, closed, atZero, spread⟩ :=
    ctx.states_forall (fun s => ∀ it ∈ s, ctx.Fit g.terminals it)
      (fun s x t fit moved it member => (ctx.mem_goto sound fit moved it member).1) built
  have initialItems := ctx.mem_closure sound startFit closed
  refine ⟨z, rfl, ⟨shape.recorded, wellFormed, ⟨first, rest, listed, rfl⟩, unused, sound,
    spread (fun it member => (initialItems it member).1), ⟨initial, atZero, ?_⟩, tabled⟩⟩
  intro it member
  have seenNothing : it.seen = [] := by
    rcases (initialItems it member).2 with isStart | ⟨atStart, _⟩
    · rw [List.mem_singleton] at isStart
      rw [isStart, Item.start_seen]
    · simp [Item.seen, atStart]
  exact ⟨seenNothing ▸ List.nil_suffix, fun _ => seenNothing⟩

/-- The parse in the LR analysis of a grammar text and a nonempty input is the shift-reduce
parse of the input with the table built for the grammar read from the text. -/
theorem parse_of_analyzeLr {text input : String} {report : LrReport} {trace : Trace}
    (analyzed : analyzeLr (some (.text text)) (some (.text input)) = .ok report)
    (parsed : report.parse = some trace) :
    ∃ g a, Grammar.ofText text = .ok g ∧ LrAnalysis.ofGrammar g = .ok a ∧
      shiftReduce a.productions a.table.toRows input = .ok trace := by
  unfold analyzeLr at analyzed
  obtain ⟨g, readField, analyzed⟩ := bind_eq_ok.mp analyzed
  obtain ⟨a, built, analyzed⟩ := bind_eq_ok.mp analyzed
  refine ⟨g, a, readField, built, ?_⟩
  dsimp only at analyzed
  split at analyzed
  · obtain ⟨chars, inputRead, analyzed⟩ := bind_eq_ok.mp analyzed
    simp only [inputText, Option.getD_some, Except.ok.injEq] at inputRead
    subst inputRead
    obtain ⟨parse, parsing, analyzed⟩ := bind_eq_ok.mp analyzed
    obtain ⟨done, ran, rfl⟩ := fmap_eq_ok.mp parsing
    simp only [pure, Except.pure, Except.ok.injEq] at analyzed
    subst analyzed
    simp only [Option.some.injEq] at parsed
    exact parsed ▸ ran
  · obtain ⟨parse, parsing, analyzed⟩ := bind_eq_ok.mp analyzed
    simp only [pure, Except.pure, Except.ok.injEq] at parsing analyzed
    subst parsing analyzed
    simp at parsed

/-- A parse of an input without the end marker, with the table that the LR analysis builds for
a well-formed grammar, that accepts within any number of steps, accepts by a rightmost
derivation: the productions that its reductions name, read backwards, derive the input from
the start symbol, the head of the first production, each rewriting the last nonterminal. So the
input is in the grammar's language, whatever conflicts the table builder overwrote and whatever
duplicate states the automaton holds. The analysis itself parses within `stepBudget input`
steps (`parse_of_analyzeLr`). -/
theorem accepted_rightmostDerivation {text input : String} {g : Grammar} {a : LrAnalysis}
    {fuel : Nat} {trace : Trace} (read : Grammar.ofText text = .ok g) (wellFormed : g.WellFormed)
    (unmarked : endMarker ∉ input.toList) (built : LrAnalysis.ofGrammar g = .ok a)
    (ran : shiftReduceFrom a.productions a.table.toRows fuel [.text "0"]
      (input.toList ++ [endMarker])
      [⟨"0", String.ofList (input.toList ++ [endMarker]), "Initial"⟩] = .ok trace)
    (accepted : trace.success = true) :
    ∃ ps : List Production, reduceActions trace.steps = ps.map reduceAction ∧
      g.RightmostDerivation ps.reverse [.nonterminal g.startName] (terminalForm input.toList) ∧
      input.toList ∈ g.cfg.language := by
  obtain ⟨z, _, setting⟩ := setting_of_ofGrammar (Grammar.readShape_ofText read) wellFormed built
  obtain ⟨ps, named, derivation⟩ := (reached_initial setting unmarked).run setting ran accepted
  exact ⟨ps, named, derivation, Grammar.mem_language_of_rightmost derivation⟩

/-- The grammar `S->aS`, `S->b` is well formed, and the parse of `ab` in its LR analysis, within
the analysis's own number of steps, accepts by the reductions of `S->b` and then `S->aS`. -/
theorem accepted_rightmostDerivation_ab :
    ∃ g a trace, Grammar.ofText "S->aS\nS->b" = .ok g ∧ g.WellFormed ∧
      endMarker ∉ "ab".toList ∧ LrAnalysis.ofGrammar g = .ok a ∧
      shiftReduceFrom a.productions a.table.toRows (stepBudget "ab") [.text "0"]
        ("ab".toList ++ [endMarker])
        [⟨"0", String.ofList ("ab".toList ++ [endMarker]), "Initial"⟩] = .ok trace ∧
      trace.success = true ∧
      ∃ ps : List Production, reduceActions trace.steps = ps.map reduceAction ∧
        g.RightmostDerivation ps.reverse [.nonterminal g.startName] (terminalForm "ab".toList) ∧
        "ab".toList ∈ g.cfg.language := by
  have listed : (Grammar.ofText "S->aS\nS->b").toOption.map Grammar.productions =
      some [⟨"S", ['a', 'S']⟩, ⟨"S", ['b']⟩] := by
    decide +kernel
  have parsed : ((analyzeLr (some (.text "S->aS\nS->b")) (some (.text "ab"))).toOption.bind
      LrReport.parse).map Trace.success = some true := by
    decide +kernel
  obtain ⟨g, read, productions⟩ := Option.map_eq_some_iff.mp listed
  obtain ⟨trace, found, success⟩ := Option.map_eq_some_iff.mp parsed
  obtain ⟨report, analyzed, hasParse⟩ := Option.bind_eq_some_iff.mp found
  replace read := toOption_eq_some.mp read
  obtain ⟨g', a, read', built, ran⟩ := parse_of_analyzeLr (toOption_eq_some.mp analyzed) hasParse
  rw [read, Except.ok.injEq] at read'
  subst read'
  have wellFormed : g.WellFormed :=
    Grammar.wellFormed_of_plain 'A' (by decide) (by rw [productions]; decide)
  have unmarked : endMarker ∉ "ab".toList := by
    decide
  exact ⟨g, a, trace, read, wellFormed, unmarked, built, ran, success,
    accepted_rightmostDerivation read wellFormed unmarked built ran success⟩

/-- The analysis is not complete when a symbol that can vanish follows a nonterminal. The
grammar `S->BCd`, `B->b`, `C->c`, `C->` is well formed and derives `bd`, by `S->BCd`, `B->b`
and `C->`, but the closure gives the item of `B` only the lookaheads in the FIRST set of `C`,
without `d`, which follows when `C` vanishes. So after `b` the table has no action on `d`. -/
theorem analyzeLr_rejects_nullable_follower :
    ∃ g report trace, Grammar.ofText "S->BCd\nB->b\nC->c\nC->" = .ok g ∧ g.WellFormed ∧
      "bd".toList ∈ g.cfg.language ∧
      analyzeLr (some (.text "S->BCd\nB->b\nC->c\nC->")) (some (.text "bd")) = .ok report ∧
      report.parse = some trace ∧ trace.success = false ∧
      trace.message = "No action for symbol 'd' in state 3" := by
  have listed : (Grammar.ofText "S->BCd\nB->b\nC->c\nC->").toOption.map Grammar.productions =
      some [⟨"S", ['B', 'C', 'd']⟩, ⟨"B", ['b']⟩, ⟨"C", ['c']⟩, ⟨"C", []⟩] := by
    decide +kernel
  have parsed :
      ((analyzeLr (some (.text "S->BCd\nB->b\nC->c\nC->")) (some (.text "bd"))).toOption.bind
      LrReport.parse).map (fun trace => (trace.success, trace.message)) =
      some (false, "No action for symbol 'd' in state 3") := by
    decide +kernel
  obtain ⟨g, read, productions⟩ := Option.map_eq_some_iff.mp listed
  obtain ⟨trace, found, result⟩ := Option.map_eq_some_iff.mp parsed
  obtain ⟨report, analyzed, hasParse⟩ := Option.bind_eq_some_iff.mp found
  obtain ⟨success, message⟩ := Prod.mk.inj result
  have derivation : g.LeftmostDerivation [⟨"S", ['B', 'C', 'd']⟩, ⟨"B", ['b']⟩, ⟨"C", []⟩]
      [.nonterminal g.startName] (terminalForm "bd".toList) := by
    have start : g.startName = "S" := by
      simp [Grammar.startName, productions]
    rw [start]
    refine .head (by simp [productions]) ⟨[], [], by decide, rfl⟩ ?_
    refine .head (by simp [productions]) ⟨[], [.nonterminal "C", .terminal 'd'], by decide, rfl⟩ ?_
    exact .head (by simp [productions]) ⟨['b'], [.terminal 'd'], by decide, by decide⟩ (.refl _)
  exact ⟨g, report, trace, toOption_eq_some.mp read,
    Grammar.wellFormed_of_plain 'A' (by decide) (by rw [productions]; decide),
    Grammar.mem_language_of_leftmost derivation, toOption_eq_some.mp analyzed, hasParse, success,
    message⟩

/-- A parse of a text of the language can stop for want of a goto. In the grammar `S->xAc`,
`S->xBd`, `S->yBc`, `S->yAd`, `A->N`, `B->N`, `N->a` the walk over the states took the goto set
over `N` of state `3`, reached over `y`, for state `6`, which holds the same items with the
lookaheads `c` and `d` on the other item. No state has the labels of that goto set, so the
cell of `N` in state `3` stays empty, and the parse of `yad` stops after reducing `a` to `N`. -/
theorem analyzeLr_misses_goto :
    ∃ g report trace,
      Grammar.ofText "S->xAc\nS->xBd\nS->yBc\nS->yAd\nA->N\nB->N\nN->a" = .ok g ∧
      g.WellFormed ∧ (∀ c ∈ "yad".toList, c ∈ g.terminals) ∧ "yad".toList ∈ g.cfg.language ∧
      analyzeLr (some (.text "S->xAc\nS->xBd\nS->yBc\nS->yAd\nA->N\nB->N\nN->a"))
        (some (.text "yad")) = .ok report ∧
      report.parse = some trace ∧ trace.success = false ∧
      trace.message = "No goto for N in state 3" := by
  have listed : (Grammar.ofText "S->xAc\nS->xBd\nS->yBc\nS->yAd\nA->N\nB->N\nN->a").toOption.map
      (fun g => (g.productions, g.terminals)) = some ([⟨"S", ['x', 'A', 'c']⟩,
        ⟨"S", ['x', 'B', 'd']⟩, ⟨"S", ['y', 'B', 'c']⟩, ⟨"S", ['y', 'A', 'd']⟩, ⟨"A", ['N']⟩,
        ⟨"B", ['N']⟩, ⟨"N", ['a']⟩], ['x', 'c', 'd', 'y', 'a']) := by
    decide +kernel
  have parsed : ((analyzeLr (some (.text "S->xAc\nS->xBd\nS->yBc\nS->yAd\nA->N\nB->N\nN->a"))
      (some (.text "yad"))).toOption.bind LrReport.parse).map
        (fun trace => (trace.success, trace.message)) =
      some (false, "No goto for N in state 3") := by
    decide +kernel
  obtain ⟨g, read, recorded⟩ := Option.map_eq_some_iff.mp listed
  obtain ⟨productions, terminals⟩ := Prod.mk.inj recorded
  obtain ⟨trace, found, result⟩ := Option.map_eq_some_iff.mp parsed
  obtain ⟨report, analyzed, hasParse⟩ := Option.bind_eq_some_iff.mp found
  obtain ⟨success, message⟩ := Prod.mk.inj result
  have derivation : g.LeftmostDerivation [⟨"S", ['y', 'A', 'd']⟩, ⟨"A", ['N']⟩, ⟨"N", ['a']⟩]
      [.nonterminal g.startName] (terminalForm "yad".toList) := by
    have start : g.startName = "S" := by
      simp [Grammar.startName, productions]
    rw [start]
    refine .head (by simp [productions]) ⟨[], [], by decide, rfl⟩ ?_
    refine .head (by simp [productions]) ⟨['y'], [.terminal 'd'], by decide, rfl⟩ ?_
    exact .head (by simp [productions]) ⟨['y'], [.terminal 'd'], by decide, by decide⟩ (.refl _)
  exact ⟨g, report, trace, toOption_eq_some.mp read,
    Grammar.wellFormed_of_plain 'Z' (by decide) (by rw [productions]; decide),
    fun c member => by
      rw [terminals]
      have checked : "yad".toList.all (· ∈ ['x', 'c', 'd', 'y', 'a']) = true := by decide
      simpa using List.all_eq_true.mp checked c member,
    Grammar.mem_language_of_leftmost derivation,
    toOption_eq_some.mp analyzed, hasParse, success, message⟩

end GrammarBench
