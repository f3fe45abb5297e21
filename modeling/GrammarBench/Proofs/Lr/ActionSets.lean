import GrammarBench.Lr.ActionSets
import GrammarBench.Proofs.Ll.Table
import GrammarBench.Proofs.Lr.Soundness

/-!
# The table of action sets against the ACTION/GOTO table

Both tables are written item by item over the same states: reductions under the lookaheads of
a finished item, the accepting cell of the finished start item, and a shift or a goto under
the symbol after the dot of an unfinished item. The ACTION/GOTO table keeps the last text
written to a cell; the table of action sets gathers the shifts and reductions of a cell and
keeps the last goto or accepting text. They also find the target of a shift or a goto
differently: the ACTION/GOTO table takes the last state whose sorted labels are those of the
goto set, the table of action sets the first state equal to it, by sorted written forms and by
lookahead sets position by position.

While the items are written, each cell of the first table holds one of the actions that the
second gathers there, or the same single text (`RowsPending`). So when no cell gathers two
actions, no two states have the same labels, and every state equal to a goto set has its
labels, the two tables say the same in every cell (`actionSets_agree_with_table`). Without the
last two conditions a shift can point to different states
(`actionSets_disagree_on_duplicate_states`).
-/

namespace GrammarBench

/-! ## Rows -/

section Rows

variable {β : Type}

/-- A key has a cell in a row exactly when some entry has that key. -/
theorem isSome_lookup (row : List (String × β)) (key : String) :
    (row.lookup key).isSome = row.any (·.1 == key) := by
  induction row with
  | nil => rfl
  | cons entry rest ih =>
      obtain ⟨k, v⟩ := entry
      rw [List.lookup_cons, List.any_cons]
      cases same : key == k with
      | true =>
          rw [beq_iff_eq.mp same]
          simp
      | false =>
          have differ : (k == key) = false :=
            beq_false_of_ne fun named => by rw [named, beq_self_eq_true] at same; cases same
          simp only [differ, Bool.false_or]
          exact ih

/-- Mapping a row by a function that keeps every key and replaces the value under `key`. -/
theorem lookup_map_replace (row : List (String × β)) {key : String} {value : β}
    {f : String × β → String × β} (replaces : ∀ k v, f (k, v) = (k, if k == key then value else v))
    (other : String) :
    (row.map f).lookup other =
      (row.lookup other).map fun v => if other == key then value else v := by
  induction row with
  | nil => rfl
  | cons entry rest ih =>
      obtain ⟨k, v⟩ := entry
      rw [List.map_cons, replaces, List.lookup_cons, List.lookup_cons]
      cases same : other == k with
      | true =>
          rw [beq_iff_eq.mp same]
          rfl
      | false => exact ih

/-- Putting a value under a key, in place or at the end, changes the cell of that key only. -/
theorem lookup_replaceOrAppend (row : List (String × β)) {key : String} {value : β}
    {f : String × β → String × β} (replaces : ∀ k v, f (k, v) = (k, if k == key then value else v))
    (other : String) :
    (if row.any (·.1 == key) then row.map f else row ++ [(key, value)]).lookup other =
      if other = key then some value else row.lookup other := by
  split
  · rename_i present
    rw [lookup_map_replace row replaces]
    by_cases same : other = key
    · subst same
      obtain ⟨v, found⟩ := Option.isSome_iff_exists.mp ((isSome_lookup row other).trans present)
      simp [found]
    · simp [same]
  · rename_i absent
    rw [List.lookup_append]
    by_cases same : other = key
    · subst same
      have missing : row.lookup other = none := by
        rw [← Option.not_isSome_iff_eq_none, isSome_lookup]
        exact absent
      simp [missing]
    · rw [if_neg same]
      simp [List.lookup_cons, beq_false_of_ne same]

end Rows

theorem lookup_writeCell (row : List (String × String)) (key value other : String) :
    (writeCell row key value).lookup other =
      if other = key then some value else row.lookup other := by
  unfold writeCell
  exact lookup_replaceOrAppend row (fun k v => by by_cases same : k = key <;> simp [same]) other

namespace ActionSetRow

theorem lookup_put (row : ActionSetRow) (key : String) (cell : ActionCell) (other : String) :
    (row.put key cell).lookup other = if other = key then some cell else row.lookup other := by
  unfold put
  exact lookup_replaceOrAppend row (fun k v => by by_cases same : k = key <;> simp [same]) other

/-- Adding an action leaves a set of actions that holds it under the key. -/
theorem addAction_eq_ok {row row' : ActionSetRow} {key action : String}
    (added : row.addAction key action = .ok row') :
    ∃ texts, action ∈ texts ∧ row' = row.put key (.actions texts) := by
  unfold addAction at added
  split at added
  · exact ⟨[action], List.mem_singleton_self action, (Except.ok.inj added).symm⟩
  · rename_i texts _
    refine ⟨_, ?_, (Except.ok.inj added).symm⟩
    split
    · rename_i held
      simpa using held
    · exact List.mem_append_right _ (List.mem_singleton_self action)
  · cases added

end ActionSetRow

/-! ## Cells written by the same items -/

/-- How a cell of the ACTION/GOTO table stands to the cell of the table of action sets that
the same items wrote: blank or missing against missing, one of the gathered actions, or the
same single text, `Accept` standing for `accept`. -/
def Pending : Option String → Option ActionCell → Prop
  | text, none => text = none ∨ text = some ""
  | text, some (.actions texts) => ∃ a ∈ texts, text = some a
  | text, some (.single t) => text = some (if t = "accept" then "Accept" else t)

/-- Two rows whose cells stand as `Pending` says, key by key. -/
def RowsPending (row : List (String × String)) (cells : ActionSetRow) : Prop :=
  ∀ key, Pending (row.lookup key) (cells.lookup key)

/-- Whether a cell holds at most one action; a single text always passes. -/
def ActionCell.oneAction : ActionCell → Bool
  | .actions texts => decide (texts.length ≤ 1)
  | .single _ => true

/-- Rows whose every entry holds at most one action have at most one action in every cell. -/
theorem singleActions_of_all {rows : List ActionSetRow}
    (checked : rows.all (fun cells => cells.all fun entry => entry.2.oneAction) = true) :
    ∀ cells ∈ rows, ∀ key texts, cells.lookup key = some (.actions texts) → texts.length ≤ 1 := by
  intro cells inRows key texts found
  have entry := List.all_eq_true.mp (List.all_eq_true.mp checked cells inRows) _
    (mem_of_lookup_eq_some found)
  simpa [ActionCell.oneAction] using entry

/-- A cell of the ACTION/GOTO table, empty when blank, agrees with a cell of the table of
action sets: an empty text with a missing cell, `sN` and `rN` with the set of that one action,
`N` with the single text `N`, and `Accept` with `accept`. -/
def CellsAgree : String → Option ActionCell → Prop
  | text, none => text = ""
  | text, some (.actions texts) => texts = [text]
  | text, some (.single t) => text = if t = "accept" then "Accept" else t

theorem rowsPending_blank (keys : List String) :
    RowsPending (keys.map fun s => (s, "")) [] := by
  intro key
  cases found : (keys.map fun s => (s, "")).lookup key with
  | none => exact Or.inl rfl
  | some t => exact Or.inr (by rw [ActionTable.lookup_blank found])

theorem RowsPending.writeAction {row : List (String × String)} {cells cells' : ActionSetRow}
    (pending : RowsPending row cells) {key action : String}
    (added : cells.addAction key action = .ok cells') :
    RowsPending (writeCell row key action) cells' := by
  obtain ⟨texts, inTexts, rfl⟩ := ActionSetRow.addAction_eq_ok added
  intro other
  rw [lookup_writeCell, ActionSetRow.lookup_put]
  by_cases same : other = key
  · rw [if_pos same, if_pos same]
    exact ⟨action, inTexts, rfl⟩
  · rw [if_neg same, if_neg same]
    exact pending other

theorem RowsPending.writeSingle {row : List (String × String)} {cells : ActionSetRow}
    (pending : RowsPending row cells) (key t : String) :
    RowsPending (writeCell row key (if t = "accept" then "Accept" else t))
      (cells.put key (.single t)) := by
  intro other
  rw [lookup_writeCell, ActionSetRow.lookup_put]
  by_cases same : other = key
  · rw [if_pos same, if_pos same]
    exact rfl
  · rw [if_neg same, if_neg same]
    exact pending other

/-- The reductions of a finished item keep two rows pending: the ACTION/GOTO table writes `rN`
under each lookahead where the table of action sets adds it. -/
theorem RowsPending.addReductions {productions : List Production} {it : Item} {n : Nat}
    (number : ActionSets.productionNumber productions it = .ok n)
    {row : List (String × String)} {cells cells' : ActionSetRow} (pending : RowsPending row cells)
    (added : ActionSets.addReductions productions it cells = .ok cells') :
    RowsPending (it.lookahead.toList.foldl (fun row c => writeCell row c.toString s!"r{n}") row)
      cells' := by
  unfold ActionSets.addReductions at added
  generalize it.lookahead.toList = lookaheads at added ⊢
  induction lookaheads generalizing row cells with
  | nil =>
      simp only [List.foldlM_nil, pure, Except.pure, Except.ok.injEq] at added
      exact added ▸ pending
  | cons c rest ih =>
      rw [List.foldlM_cons] at added
      obtain ⟨mid, step, added⟩ := bind_eq_ok.mp added
      obtain ⟨m, numbered, step⟩ := bind_eq_ok.mp step
      rw [number, Except.ok.injEq] at numbered
      subst numbered
      exact ih (pending.writeAction step) added

/-- With at most one action in each set, pending cells agree. -/
theorem cellsAgree_of_pending {text : Option String} {cell : Option ActionCell}
    (pending : Pending text cell)
    (oneAction : ∀ texts, cell = some (.actions texts) → texts.length ≤ 1) :
    CellsAgree (text.getD "") cell := by
  cases cell with
  | none => rcases pending with rfl | rfl <;> rfl
  | some cell =>
      cases cell with
      | actions texts =>
          obtain ⟨a, member, rfl⟩ := pending
          have single : texts.length = 1 :=
            le_antisymm (oneAction texts rfl) (List.length_pos_of_mem member)
          obtain ⟨b, rfl⟩ := List.length_eq_one_iff.mp single
          rw [List.mem_singleton.mp member]
          rfl
      | single t =>
          rw [pending]
          rfl

/-! ## Target states -/

theorem eq_of_getElem?_eq_some {α : Type} {l : List α} (distinct : l.Nodup) {i j : Nat} {a : α}
    (atI : l[i]? = some a) (atJ : l[j]? = some a) : i = j := by
  obtain ⟨_, isI⟩ := List.getElem?_eq_some_iff.mp atI
  obtain ⟨_, isJ⟩ := List.getElem?_eq_some_iff.mp atJ
  exact (List.Nodup.getElem_inj_iff distinct).mp (isI.trans isJ.symm)

/-- In a list without repeats the last position of a member is its only position. -/
theorem lastStateWith_eq_some {labels : List (List String)} (distinct : labels.Nodup)
    {key : List String} {f : Nat} (atF : labels[f]? = some key) :
    lastStateWith labels key = some f := by
  have keptF : (key, f) ∈ labels.zipIdx.filter (·.1 == key) :=
    List.mem_filter.mpr ⟨List.mk_mem_zipIdx_iff_getElem?.mpr atF, by simp⟩
  obtain ⟨last, isLast⟩ :=
    Option.isSome_iff_exists.mp (List.getLast?_isSome.mpr (List.ne_nil_of_mem keptF))
  obtain ⟨inZip, sameKey⟩ := List.mem_filter.mp (List.mem_of_getLast? isLast)
  have atLast : labels[last.2]? = some key := by
    rw [← beq_iff_eq.mp sameKey]
    exact List.mem_zipIdx_iff_getElem?.mp inZip
  rw [lastStateWith, isLast, Option.map_some, eq_of_getElem?_eq_some distinct atLast atF]

/-- Where no two states have the same labels and every state equal to a goto set has its
labels, the last state with the labels of the goto set is the first state equal to it. -/
theorem lastStateWith_eq_stateNumber {states : List (List Item)} {t : List Item}
    (listed : ∃ u ∈ states, sameState u t = true) (distinct : (states.map sortedLabels).Nodup)
    (spread : ∀ u ∈ states, sameState u t = true → sortedLabels u = sortedLabels t) :
    ∃ v : Nat, lastStateWith (states.map sortedLabels) (sortedLabels t) = some v ∧
      ActionSets.stateNumber states t = v := by
  cases first : states.findIdx? (sameState · t) with
  | none =>
      obtain ⟨u, member, same⟩ := listed
      have never := List.findIdx?_eq_none_iff.mp first u member
      simp only [same] at never
      cases never
  | some f =>
      obtain ⟨within, same, _⟩ := List.findIdx?_eq_some_iff_getElem.mp first
      have labelled : (states.map sortedLabels)[f]? = some (sortedLabels t) := by
        rw [List.getElem?_map, List.getElem?_eq_getElem within, Option.map_some,
          spread _ (List.getElem_mem within) same]
      refine ⟨f, lastStateWith_eq_some distinct labelled, ?_⟩
      simp [ActionSets.stateNumber, first]

/-- Every state equal to a goto set of a state, over the symbols, has the labels of that set:
no state differs from a goto set only in how its lookaheads are spread over the same items. -/
def SpreadAlike (ctx : ItemContext) (symbols : List String) (states : List (List Item)) : Prop :=
  ∀ s ∈ states, ∀ x ∈ symbols, ∀ t, ctx.goto s x = .ok t →
    ∀ u ∈ states, sameState u t = true → sortedLabels u = sortedLabels t

/-- `SpreadAlike`, computed. -/
def spreadAlike (ctx : ItemContext) (symbols : List String) (states : List (List Item)) : Bool :=
  states.all fun s => symbols.all fun x =>
    match ctx.goto s x with
    | .ok t => states.all fun u => !sameState u t || sortedLabels u == sortedLabels t
    | .error _ => true

theorem spreadAlike_iff {ctx : ItemContext} {symbols : List String} {states : List (List Item)} :
    spreadAlike ctx symbols states = true ↔ SpreadAlike ctx symbols states := by
  simp only [spreadAlike, SpreadAlike, List.all_eq_true]
  constructor
  · intro checked s inStates x inSymbols t moved u inStates' same
    have atX := checked s inStates x inSymbols
    rw [moved] at atX
    simpa [same] using List.all_eq_true.mp atX u inStates'
  · intro spread s inStates x inSymbols
    cases moved : ctx.goto s x with
    | error _ => rfl
    | ok t =>
        refine List.all_eq_true.mpr fun u inStates' => ?_
        by_cases same : sameState u t = true
        · simp [same, spread s inStates x inSymbols t moved u inStates' same]
        · simp [same]

instance (ctx : ItemContext) (symbols : List String) (states : List (List Item)) :
    Decidable (SpreadAlike ctx symbols states) :=
  decidable_of_iff _ spreadAlike_iff

/-! ## Items -/

/-- The dotted body of an item is the dot alone exactly when the body is empty. -/
theorem dottedBody_eq_dot_iff (it : Item) : it.dottedBody = ['.'] ↔ it.body = [] := by
  constructor
  · intro dotted
    have lengths := congrArg List.length dotted
    simp only [Item.dottedBody, List.length_append, List.length_cons, List.length_take,
      List.length_drop, List.length_nil] at lengths
    exact List.eq_nil_of_length_eq_zero (by omega)
  · intro empty
    simp [Item.dottedBody, empty]

/-- A state number is never the text `accept`. -/
theorem stateText_ne_accept (v : Nat) : s!"{(v : Int)}" ≠ "accept" := by
  intro same
  have chars : (toString v).toList = 'a' :: "ccept".toList := congrArg String.toList same
  exact toList_toString_ne_cons (by decide) _ chars

/-- The number of an item's production, read from its written form, is the position of its
text. -/
theorem productionNumber_eq {productions : List Production} {it : Item} (plain : it.Plain) :
    ActionSets.productionNumber productions it =
      productionIndex productions (it.head ++ "->" ++ String.ofList it.body) := by
  obtain ⟨h, notDot, _, named, written⟩ := Item.written_eq plain
  have dotted : (it.body.take it.dot ++ '.' :: it.body.drop it.dot).filter (· != '.') =
      it.body := Item.dottedBody_filter plain
  have kept : it.written.filter (· != '.') = h :: '-' :: '>' :: it.body := by
    rw [written, List.filter_cons_of_pos (by simpa using notDot),
      List.filter_cons_of_pos (by decide), List.filter_cons_of_pos (by decide), dotted]
  unfold ActionSets.productionNumber
  rw [kept, named]
  congr 1
  apply String.toList_injective
  simp [Char.toString_eq_singleton]

/-- The first production is found at position zero exactly for its own text. -/
theorem productionIndex_eq_zero_iff {p : Production} {rest : List Production} {text : String}
    {n : Nat} (index : productionIndex (p :: rest) text = .ok n) : n = 0 ↔ p.text = text := by
  constructor
  · intro zero
    subst zero
    obtain ⟨q, atZero, named⟩ := text_of_productionIndex index
    simp only [List.getElem?_cons_zero, Option.some.injEq] at atZero
    exact atZero ▸ named
  · intro same
    unfold productionIndex at index
    simp only [List.findIdx?_cons, same, beq_self_eq_true, if_true, Except.ok.injEq] at index
    exact index.symm

/-! ## One item in each table -/

namespace ActionTable

variable {g : Grammar} {ctx : ItemContext} {labels : List (List String)} {state : List Item}
  {row row' : List (String × String)} {it : Item}

/-- What a finished plain item writes: `Accept` under the end marker when it accepts, and
otherwise the reduction by its production under each of its lookaheads. -/
theorem itemCells_finished_eq_ok (plain : it.Plain) (finished : it.dot = it.body.length)
    (written : itemCells g ctx labels state row it = .ok row') :
    (accepts ctx.productions it.head (String.ofList it.body) = .ok true ∧
        row' = writeCell row endMarker.toString "Accept") ∨
      (accepts ctx.productions it.head (String.ofList it.body) = .ok false ∧
        ∃ n, productionIndex ctx.productions (it.head ++ "->" ++ String.ofList it.body) = .ok n ∧
          row' = it.lookahead.toList.foldl (fun row c => writeCell row c.toString s!"r{n}") row) := by
  unfold itemCells at written
  rw [if_pos ((Item.isComplete_iff plain).mpr finished)] at written
  obtain ⟨acc, accepted, written⟩ := bind_eq_ok.mp written
  rw [Item.dottedBody_filter plain] at accepted written
  cases acc with
  | true =>
      simp only [if_true, pure, Except.pure, Except.ok.injEq] at written
      exact Or.inl ⟨accepted, written.symm⟩
  | false =>
      simp only [Bool.false_eq_true, if_false] at written
      obtain ⟨n, index, written⟩ := bind_eq_ok.mp written
      simp only [pure, Except.pure, Except.ok.injEq] at written
      exact Or.inr ⟨accepted, n, index, written.symm⟩

/-- What an unfinished plain item writes when its goto set has a state with its labels: the
shift under a terminal, the state under a nonterminal. -/
theorem itemCells_of_unfinished (plain : it.Plain) (before : it.dot < it.body.length)
    {next : List Item} (moved : ctx.goto state it.body[it.dot].toString = .ok next) {v : Nat}
    (last : lastStateWith labels (sortedLabels next) = some v) :
    itemCells g ctx labels state row it =
      .ok (if g.terminals.contains it.body[it.dot] then
          writeCell row it.body[it.dot].toString s!"s{v}"
        else if g.isNonterminal it.body[it.dot].toString then
          writeCell row it.body[it.dot].toString s!"{v}"
        else row) := by
  have unfinished : it.isComplete = false := by
    rw [Bool.eq_false_iff, ne_eq, Item.isComplete_iff plain]
    omega
  rw [itemCells, if_neg (by simp [unfinished]), Item.nextSymbol_eq plain before]
  simp only [bind, Except.bind, moved, last]
  split
  · rfl
  · split <;> rfl

end ActionTable

namespace ActionSets

variable {ctx : ItemContext} {shifted : List String} {states : List (List Item)}
  {state : List Item} {row row' : ActionSetRow} {it : Item}

/-- What a finished plain item gathers: the reductions by its production when its body is
empty; otherwise `accept` under the end marker for the production at position zero, and the
reductions for any other. -/
theorem itemCells_finished_eq_ok (plain : it.Plain) (finished : it.dot = it.body.length)
    (gathered : itemCells ctx shifted states state row it = .ok row') :
    (it.body = [] ∧ addReductions ctx.productions it row = .ok row') ∨
      (it.body ≠ [] ∧ ∃ m, productionNumber ctx.productions it = .ok m ∧
        (m = 0 ∧ row' = row.put endMarker.toString (.single "accept") ∨
          m ≠ 0 ∧ addReductions ctx.productions it row = .ok row')) := by
  unfold itemCells at gathered
  by_cases empty : it.body = []
  · rw [if_pos (by simpa [dottedBody_eq_dot_iff] using empty)] at gathered
    exact Or.inl ⟨empty, gathered⟩
  · rw [if_neg (by simpa [dottedBody_eq_dot_iff] using empty)] at gathered
    have pieces : (it.dottedBody.splitOn '.')[1]? = some [] := by
      rw [Item.dottedBody_splitOn plain, finished, List.drop_length]
      rfl
    simp only [pieces] at gathered
    obtain ⟨m, numbered, gathered⟩ := bind_eq_ok.mp gathered
    refine Or.inr ⟨empty, m, numbered, ?_⟩
    by_cases zero : m = 0
    · rw [if_pos (by simp [zero])] at gathered
      simp only [pure, Except.pure, Except.ok.injEq] at gathered
      exact Or.inl ⟨zero, gathered.symm⟩
    · rw [if_neg (by simp [zero])] at gathered
      exact Or.inr ⟨zero, gathered⟩

/-- What an unfinished plain item gathers when its goto set is not empty: a shift to the first
state equal to the goto set under a symbol that takes shifts, and that state under any other. -/
theorem itemCells_of_unfinished (plain : it.Plain) (before : it.dot < it.body.length)
    {next : List Item} (moved : ctx.goto state it.body[it.dot].toString = .ok next)
    (nonempty : next ≠ []) :
    itemCells ctx shifted states state row it =
      if shifted.contains it.body[it.dot].toString then
        row.addAction it.body[it.dot].toString s!"s{stateNumber states next}"
      else .ok (row.put it.body[it.dot].toString (.single s!"{stateNumber states next}")) := by
  have pieces : (it.dottedBody.splitOn '.')[1]? =
      some (it.body[it.dot] :: it.body.drop (it.dot + 1)) := by
    rw [Item.dottedBody_splitOn plain, List.drop_eq_getElem_cons before]
    rfl
  have notEmpty : it.body ≠ [] := List.ne_nil_of_mem (List.getElem_mem before)
  rw [itemCells, if_neg (by simpa [dottedBody_eq_dot_iff] using notEmpty), pieces]
  simp only [bind, Except.bind, moved]
  rw [if_neg (by simpa using nonempty)]
  rfl

end ActionSets

namespace Setting

variable {g : Grammar} {z : Char} {ctx : ItemContext} {states : List (List Item)}
  {table : ActionTable}

theorem startName_ne_empty (setting : Setting g z ctx states table) : g.startName ≠ "" := by
  obtain ⟨first, rest, listed, _⟩ := setting.augmented
  obtain ⟨X, _, named⟩ := setting.wellFormed.head_upper first (listed ▸ List.mem_cons_self)
  have startName : g.startName = first.head := by
    simp [Grammar.startName, listed]
  rw [startName, named]
  intro empty
  have lengths := congrArg String.length empty
  simp [Char.toString_eq_singleton] at lengths

/-- A symbol in a body of the augmented grammar is a terminal, or an uppercase letter that
names a nonterminal. -/
theorem bodyChar_kind (setting : Setting g z ctx states table) {p : Production}
    (member : p ∈ ctx.productions) {x : Char} (inBody : x ∈ p.body) :
    x ∈ g.terminals ∨ (Text.isUppercase x = true ∧ x.toString ∈ g.nonterminals) := by
  obtain ⟨first, rest, listed, augmented⟩ := setting.augmented
  rw [augmented, List.mem_cons] at member
  rcases member with rfl | own
  · have firstUsed : first ∈ g.productions := listed ▸ List.mem_cons_self
    obtain ⟨X, upper, named⟩ := setting.wellFormed.head_upper first firstUsed
    have same : x = X := by
      simpa [named, Char.toString_eq_singleton] using inBody
    subst same
    exact Or.inr ⟨upper, named ▸ setting.recorded.head_mem first firstUsed⟩
  · cases upper : Text.isUppercase x with
    | true => exact Or.inr ⟨rfl, setting.recorded.upper_mem p own x inBody upper⟩
    | false => exact Or.inl (setting.recorded.lower_mem p own x inBody upper)

/-- A body symbol takes shifts in the table of action sets exactly when it is a terminal. -/
theorem contains_shifted (setting : Setting g z ctx states table) {x : Char}
    (kind : x ∈ g.terminals ∨ (Text.isUppercase x = true ∧ x.toString ∈ g.nonterminals)) :
    (g.terminals.map Char.toString ++ [endMarker.toString]).contains x.toString =
      g.terminals.contains x := by
  have notEnd : x ≠ endMarker := by
    rintro rfl
    rcases kind with terminal | ⟨upper, _⟩
    · exact Grammar.endMarker_not_mem_terminals setting.recorded setting.wellFormed terminal
    · exact absurd upper (by decide)
  rw [Bool.eq_iff_iff]
  simp [Char.toString_eq_singleton, String.singleton_inj, notEnd]

/-- A finished item accepts exactly when its production sits at position zero, where the start
production stands. -/
theorem accepts_iff_index_zero (setting : Setting g z ctx states table) {it : Item}
    (fit : ctx.Fit g.terminals it) {n : Nat}
    (index : productionIndex ctx.productions (it.head ++ "->" ++ String.ofList it.body) = .ok n) :
    (it.head == z.toString && String.ofList it.body == g.startName) = true ↔ n = 0 := by
  obtain ⟨first, rest, listed, augmented⟩ := setting.augmented
  have startName : g.startName = first.head := by
    simp [Grammar.startName, listed]
  obtain ⟨h, _, _, namedIt⟩ := (fit.plain setting.sound).head_char
  rw [augmented] at index
  rw [productionIndex_eq_zero_iff index, startName, Bool.and_eq_true, beq_iff_eq, beq_iff_eq]
  have isText : it.head ++ "->" ++ String.ofList it.body = it.production.text := rfl
  rw [isText]
  constructor
  · rintro ⟨head, body⟩
    have same : (⟨z.toString, first.head.toList⟩ : Production) = it.production := by
      simp only [Item.production, head, ← body, String.toList_ofList]
    rw [same]
  · intro same
    have production := Production.eq_of_text_eq rfl namedIt same
    simp only [Item.production, Production.mk.injEq] at production
    rw [← production.1, ← production.2, String.ofList_toList]
    exact ⟨rfl, rfl⟩

variable {labels : List (List String)} {shifted : List String} {s : List Item}

/-- A finished item keeps two rows pending. -/
theorem pending_of_finished (setting : Setting g z ctx states table) {it : Item}
    (fit : ctx.Fit g.terminals it) (finished : it.dot = it.body.length)
    {row row' : List (String × String)} {cells cells' : ActionSetRow}
    (pending : RowsPending row cells)
    (written : ActionTable.itemCells g ctx labels s row it = .ok row')
    (gathered : ActionSets.itemCells ctx shifted states s cells it = .ok cells') :
    RowsPending row' cells' := by
  have plain := fit.plain setting.sound
  rcases ActionTable.itemCells_finished_eq_ok plain finished written with
    ⟨accepting, rfl⟩ | ⟨rejecting, n, index, rfl⟩
  · rw [setting.accepts_eq, Except.ok.injEq] at accepting
    rcases ActionSets.itemCells_finished_eq_ok plain finished gathered with
      ⟨empty, _⟩ | ⟨_, m, numbered, ⟨_, rfl⟩ | ⟨nonzero, _⟩⟩
    · rw [empty] at accepting
      simp [Ne.symm setting.startName_ne_empty] at accepting
    · have accepted := pending.writeSingle endMarker.toString "accept"
      rwa [if_pos rfl] at accepted
    · rw [productionNumber_eq plain] at numbered
      exact absurd ((setting.accepts_iff_index_zero fit numbered).mp accepting) nonzero
  · rw [setting.accepts_eq, Except.ok.injEq] at rejecting
    rcases ActionSets.itemCells_finished_eq_ok plain finished gathered with
      ⟨_, added⟩ | ⟨_, m, numbered, ⟨zero, rfl⟩ | ⟨_, added⟩⟩
    · exact pending.addReductions ((productionNumber_eq plain).trans index) added
    · rw [productionNumber_eq plain, index, Except.ok.injEq] at numbered
      have accepting := (setting.accepts_iff_index_zero fit index).mpr (numbered.trans zero)
      rw [rejecting] at accepting
      cases accepting
    · exact pending.addReductions ((productionNumber_eq plain).trans index) added

/-- An unfinished item keeps two rows pending when every goto set of its state is empty or equal
to a state, no two states have the same labels, and every state equal to a goto set of the
item's state has the labels of that set. -/
theorem pending_of_unfinished (setting : Setting g z ctx states table)
    (distinct : (states.map sortedLabels).Nodup) {it : Item} (fit : ctx.Fit g.terminals it)
    (member : it ∈ s) (before : it.dot < it.body.length)
    (listed : ctx.GotosListed (g.nonterminals ++ g.terminals.map Char.toString) states s)
    (spread : ∀ x ∈ g.nonterminals ++ g.terminals.map Char.toString, ∀ t,
      ctx.goto s x = .ok t → ∀ u ∈ states, sameState u t = true → sortedLabels u = sortedLabels t)
    {row row' : List (String × String)} {cells cells' : ActionSetRow}
    (pending : RowsPending row cells)
    (written : ActionTable.itemCells g ctx (states.map sortedLabels) s row it = .ok row')
    (gathered : ActionSets.itemCells ctx (g.terminals.map Char.toString ++ [endMarker.toString])
      states s cells it = .ok cells') :
    RowsPending row' cells' := by
  have plain := fit.plain setting.sound
  have kind := setting.bodyChar_kind fit.dotted.1 (List.getElem_mem before)
  have walked : it.body[it.dot].toString ∈ g.nonterminals ++ g.terminals.map Char.toString := by
    rcases kind with terminal | ⟨_, named⟩
    · exact List.mem_append_right _ (List.mem_map_of_mem terminal)
    · exact List.mem_append_left _ named
  obtain ⟨next, moved, found⟩ := listed _ walked
  have nonempty : next ≠ [] := List.ne_nil_of_mem (ctx.next_mem_goto member plain before moved)
  obtain ⟨v, last, numbered⟩ := lastStateWith_eq_stateNumber (found.resolve_left nonempty)
    distinct (spread _ walked next moved)
  rw [ActionTable.itemCells_of_unfinished plain before moved last, Except.ok.injEq] at written
  subst written
  rw [ActionSets.itemCells_of_unfinished plain before moved nonempty,
    setting.contains_shifted kind, numbered] at gathered
  rcases kind with terminal | ⟨upper, named⟩
  · have shifts : g.terminals.contains it.body[it.dot] = true := List.contains_iff_mem.mpr terminal
    rw [if_pos shifts] at gathered ⊢
    exact pending.writeAction gathered
  · have noShift : g.terminals.contains it.body[it.dot] = false := by
      rw [Bool.eq_false_iff]
      intro shifts
      have lower := Grammar.terminal_not_upper setting.recorded (List.contains_iff_mem.mp shifts)
      rw [upper] at lower
      cases lower
    rw [if_neg (Bool.eq_false_iff.mp noShift)] at gathered ⊢
    rw [if_pos (Grammar.isNonterminal_iff.mpr named)]
    rw [Except.ok.injEq] at gathered
    subst gathered
    have goto := pending.writeSingle it.body[it.dot].toString s!"{(v : Int)}"
    rwa [if_neg (stateText_ne_accept v)] at goto

/-- The items of a state keep the rows of both tables pending, from the blank row and the empty
row on. -/
theorem pending_of_state (setting : Setting g z ctx states table)
    (distinct : (states.map sortedLabels).Nodup) (inStates : s ∈ states)
    (listed : ctx.GotosListed (g.nonterminals ++ g.terminals.map Char.toString) states s)
    (spread : SpreadAlike ctx (g.nonterminals ++ g.terminals.map Char.toString) states)
    {row : List (String × String)} {cells : ActionSetRow}
    (written : s.foldlM (ActionTable.itemCells g ctx (states.map sortedLabels) s)
      ((ActionTable.symbols g).map fun k => (k, "")) = .ok row)
    (gathered : s.foldlM (ActionSets.itemCells ctx
      (g.terminals.map Char.toString ++ [endMarker.toString]) states s) [] = .ok cells) :
    RowsPending row cells := by
  refine foldlM_relate RowsPending ?_ (rowsPending_blank _) written gathered
  intro row cells it row' cells' pending member written gathered
  have fit := setting.fitAll s inStates it member
  rcases Nat.lt_or_ge it.dot it.body.length with before | atEnd
  · exact setting.pending_of_unfinished distinct fit member before listed (spread s inStates)
      pending written gathered
  · exact setting.pending_of_finished fit (le_antisymm fit.dotted.2 atEnd) pending written gathered

end Setting

/-! ## The two tables of an analysis -/

/-- The analysis walks its states from the start item over the nonterminals and terminals. -/
theorem states_of_ofGrammar {g : Grammar} {a : LrAnalysis}
    (analyzed : LrAnalysis.ofGrammar g = .ok a) :
    ∃ start, (g.itemContext a.productions).states
      (g.nonterminals ++ g.terminals.map Char.toString) start = .ok a.states := by
  unfold LrAnalysis.ofGrammar at analyzed
  obtain ⟨_, _, analyzed⟩ := bind_eq_ok.mp analyzed
  obtain ⟨_, _, analyzed⟩ := bind_eq_ok.mp analyzed
  obtain ⟨productions, _, analyzed⟩ := bind_eq_ok.mp analyzed
  cases first : productions.head? with
  | none =>
      simp only [first] at analyzed
      obtain ⟨_, thrown, _⟩ := bind_eq_ok.mp analyzed
      cases thrown
  | some start =>
      simp only [first, pure_bind] at analyzed
      obtain ⟨states, walked, analyzed⟩ := bind_eq_ok.mp analyzed
      obtain ⟨_, _, analyzed⟩ := bind_eq_ok.mp analyzed
      simp only [pure, Except.pure, Except.ok.injEq] at analyzed
      subst analyzed
      exact ⟨_, walked⟩

/-- The table of action sets and the ACTION/GOTO table of a well-formed grammar's automaton
agree cell by cell, when no set of the first holds two actions, no two states have the same
labels, and no state differs from a goto set only in how its lookaheads are spread. -/
theorem actionSets_agree_with_table {text : String} {g : Grammar}
    (read : Grammar.ofText text = .ok g) (wellFormed : g.WellFormed) {a : LrAnalysis}
    (analyzed : LrAnalysis.ofGrammar g = .ok a) {rows : List ActionSetRow}
    (gathered : ActionSets.build (g.itemContext a.productions)
      (g.terminals.map Char.toString ++ [endMarker.toString]) a.states = .ok rows)
    (oneAction : ∀ cells ∈ rows, ∀ key texts,
      cells.lookup key = some (.actions texts) → texts.length ≤ 1)
    (distinct : (a.states.map sortedLabels).Nodup)
    (spread : SpreadAlike (g.itemContext a.productions)
      (g.nonterminals ++ g.terminals.map Char.toString) a.states) :
    a.table.rows.length = rows.length ∧
      ∀ (i : Nat) (row : List (String × String)) (cells : ActionSetRow),
        a.table.rows[i]? = some row → rows[i]? = some cells →
        ∀ key, CellsAgree ((row.lookup key).getD "") (cells.lookup key) := by
  obtain ⟨z, _, setting⟩ :=
    setting_of_ofGrammar (Grammar.readShape_ofText read) wellFormed analyzed
  obtain ⟨start, walked⟩ := states_of_ofGrammar analyzed
  have closed := (g.itemContext a.productions).states_closed walked
  have built := setting.built
  unfold ActionTable.build at built
  obtain ⟨tableRows, written, listed⟩ := bind_eq_ok.mp built
  simp only [pure, Except.pure, Except.ok.injEq] at listed
  rw [← listed]
  have rowsWritten := mapM_forall₂ written
  have rowsGathered := mapM_forall₂ gathered
  refine ⟨rowsWritten.length_eq.symm.trans rowsGathered.length_eq, ?_⟩
  intro i row cells atRow atCells key
  obtain ⟨s, atState⟩ : ∃ s, a.states[i]? = some s := by
    have within : i < a.states.length := by
      rw [rowsWritten.length_eq]
      exact (List.getElem?_eq_some_iff.mp atRow).1
    exact ⟨_, List.getElem?_eq_getElem within⟩
  have inStates := List.mem_of_getElem? atState
  have pending := setting.pending_of_state distinct inStates (closed s inStates) spread
    (Forall₂.of_getElem? rowsWritten atState atRow)
    (Forall₂.of_getElem? rowsGathered atState atCells)
  exact cellsAgree_of_pending (pending key) (oneAction cells (List.mem_of_getElem? atCells) key)

/-- The grammar `S->aS`, `S->b` meets the conditions, and its two tables agree. -/
theorem actionSets_agree_with_table_right_recursion :
    ∃ g a rows, Grammar.ofText "S->aS\nS->b" = .ok g ∧ g.WellFormed ∧
      LrAnalysis.ofGrammar g = .ok a ∧
      ActionSets.build (g.itemContext a.productions)
        (g.terminals.map Char.toString ++ [endMarker.toString]) a.states = .ok rows ∧
      (∀ cells ∈ rows, ∀ key texts,
        cells.lookup key = some (.actions texts) → texts.length ≤ 1) ∧
      (a.states.map sortedLabels).Nodup ∧
      SpreadAlike (g.itemContext a.productions)
        (g.nonterminals ++ g.terminals.map Char.toString) a.states ∧
      a.table.rows.length = rows.length ∧
      ∀ (i : Nat) (row : List (String × String)) (cells : ActionSetRow),
        a.table.rows[i]? = some row → rows[i]? = some cells →
        ∀ key, CellsAgree ((row.lookup key).getD "") (cells.lookup key) := by
  have computed : ((Grammar.ofText "S->aS\nS->b").toOption.bind fun g =>
      (LrAnalysis.ofGrammar g).toOption.bind fun a =>
        (ActionSets.build (g.itemContext a.productions)
          (g.terminals.map Char.toString ++ [endMarker.toString]) a.states).toOption.map fun rows =>
          (g.productions, rows.all (fun cells => cells.all fun entry => entry.2.oneAction),
            decide (a.states.map sortedLabels).Nodup,
            decide (SpreadAlike (g.itemContext a.productions)
              (g.nonterminals ++ g.terminals.map Char.toString) a.states))) =
      some ([⟨"S", ['a', 'S']⟩, ⟨"S", ['b']⟩], true, true, true) := by
    decide +kernel
  obtain ⟨g, read, computed⟩ := Option.bind_eq_some_iff.mp computed
  obtain ⟨a, analyzed, computed⟩ := Option.bind_eq_some_iff.mp computed
  obtain ⟨rows, gathered, computed⟩ := Option.map_eq_some_iff.mp computed
  simp only [Prod.mk.injEq, decide_eq_true_eq] at computed
  obtain ⟨productions, single, distinct, spread⟩ := computed
  have read := toOption_eq_some.mp read
  have analyzed := toOption_eq_some.mp analyzed
  have gathered := toOption_eq_some.mp gathered
  have wellFormed := Grammar.wellFormed_of_plain 'Z' (by decide) (by rw [productions]; decide)
  exact ⟨g, a, rows, read, wellFormed, analyzed, gathered, singleActions_of_all single, distinct,
    spread, actionSets_agree_with_table read wellFormed analyzed gathered
      (singleActions_of_all single) distinct spread⟩

/-- The two tables disagree where the walk lists two states with the same items and their
lookaheads spread differently. In the grammar `S->xAc`, `S->xBd`, `S->yBd`, `S->yAc`, `A->a`,
`B->a` the goto set on `a` after `x` holds `A->a.` with `c` and `B->a.` with `d`, and the one
after `y` the same items in the other order, so that position by position their lookaheads
differ: the walk lists both, as states 6 and 9, with the same labels. After `x`, the table of
action sets shifts to the first state equal to the goto set, 6, and the ACTION/GOTO table to
the last state with its labels, 9, although no set holds two actions. -/
theorem actionSets_disagree_on_duplicate_states :
    ∃ g a rows, Grammar.ofText "S->xAc\nS->xBd\nS->yBd\nS->yAc\nA->a\nB->a" = .ok g ∧
      g.WellFormed ∧ LrAnalysis.ofGrammar g = .ok a ∧
      ActionSets.build (g.itemContext a.productions)
        (g.terminals.map Char.toString ++ [endMarker.toString]) a.states = .ok rows ∧
      (∀ cells ∈ rows, ∀ key texts,
        cells.lookup key = some (.actions texts) → texts.length ≤ 1) ∧
      ∃ row cells, a.table.rows[2]? = some row ∧ rows[2]? = some cells ∧
        row.lookup "a" = some "s9" ∧ cells.lookup "a" = some (.actions ["s6"]) ∧
        ¬ CellsAgree ((row.lookup "a").getD "") (cells.lookup "a") := by
  have computed : ((Grammar.ofText "S->xAc\nS->xBd\nS->yBd\nS->yAc\nA->a\nB->a").toOption.bind
      fun g => (LrAnalysis.ofGrammar g).toOption.bind fun a =>
        (ActionSets.build (g.itemContext a.productions)
          (g.terminals.map Char.toString ++ [endMarker.toString]) a.states).toOption.map fun rows =>
          (g.productions, rows.all (fun cells => cells.all fun entry => entry.2.oneAction),
            a.table.rows[2]?.bind (·.lookup "a"), rows[2]?.bind (·.lookup "a"))) =
      some ([⟨"S", ['x', 'A', 'c']⟩, ⟨"S", ['x', 'B', 'd']⟩, ⟨"S", ['y', 'B', 'd']⟩,
        ⟨"S", ['y', 'A', 'c']⟩, ⟨"A", ['a']⟩, ⟨"B", ['a']⟩], true, some "s9",
        some (.actions ["s6"])) := by
    decide +kernel
  obtain ⟨g, read, computed⟩ := Option.bind_eq_some_iff.mp computed
  obtain ⟨a, analyzed, computed⟩ := Option.bind_eq_some_iff.mp computed
  obtain ⟨rows, gathered, computed⟩ := Option.map_eq_some_iff.mp computed
  simp only [Prod.mk.injEq] at computed
  obtain ⟨productions, single, shifted, gatheredShift⟩ := computed
  obtain ⟨row, atRow, shiftedRow⟩ := Option.bind_eq_some_iff.mp shifted
  obtain ⟨cells, atCells, shiftedCells⟩ := Option.bind_eq_some_iff.mp gatheredShift
  refine ⟨g, a, rows, toOption_eq_some.mp read,
    Grammar.wellFormed_of_plain 'Z' (by decide) (by rw [productions]; decide),
    toOption_eq_some.mp analyzed, toOption_eq_some.mp gathered, singleActions_of_all single,
    row, cells, atRow, atCells, shiftedRow, shiftedCells, ?_⟩
  rw [shiftedRow, shiftedCells]
  intro agree
  have same : ["s6"] = ["s9"] := agree
  exact absurd same (by decide)

end GrammarBench
