import Mathlib
import GrammarBench.Console.Workbench
import GrammarBench.Proofs.Lr.Soundness

/-!
# The conflict counts of the console's table

Under the table of action sets the console prints two numbers: the rows with a shift-reduce
conflict, and the other rows with a reduce-reduce conflict. A reader counts a row as a
shift-reduce conflict when one of its cells holds a shift and a reduction
(`ActionCell.shiftReduce`), and as a reduce-reduce conflict when one of its cells holds two
reductions and none holds a shift and a reduction (`ActionCell.reduceReduce`);
`ActionSets.conflictRows` counts so.

The console's own count (`ActionSets.conflictCounts`) looks at every cell of a row with more
than one member other than `accept`, and takes its first two members, each as a reduction
when it holds an `r` and as a shift otherwise. The members of a goto cell are the digits of
its state number, so a goto to a state numbered 10 or more counts as two shifts, and a row
that also holds a reduce-reduce conflict is counted as a shift-reduce conflict
(`workbench_counts_goto_digits_as_shifts`).

Every other cell is read right when it holds at most two actions. The actions of a built table
are reductions and shifts, and the shifts of a cell all go to the first state equal to the goto
set of the row's state over the cell's symbol, so a cell holds one shift at most
(`ActionSets.ActionsFrom`). So when every goto cell names a state numbered with one digit and no
cell gathers three actions, the console counts as a reader does
(`conflictCounts_eq_conflictRows`).
-/

namespace GrammarBench

namespace ActionCell

/-- Whether an action is a shift: its text starts with `s`. -/
def isShift (action : String) : Bool :=
  action.toList.head? == some 's'

/-- Whether an action is a reduction: its text starts with `r`. -/
def isReduction (action : String) : Bool :=
  action.toList.head? == some 'r'

/-- Whether a cell holds a shift and a reduction. -/
def shiftReduce : ActionCell → Bool
  | actions texts => texts.any isShift && texts.any isReduction
  | single _ => false

/-- Whether a cell holds two reductions or more. -/
def reduceReduce : ActionCell → Bool
  | actions texts => 2 ≤ texts.countP isReduction
  | single _ => false

end ActionCell

namespace ActionSets

/-- The conflicts of a table as a reader counts them: the rows with a cell that holds a shift
and a reduction, and the other rows with a cell that holds two reductions. -/
def conflictRows (rows : List ActionSetRow) : Nat × Nat :=
  (rows.countP fun row => row.any (·.2.shiftReduce),
    rows.countP fun row => row.any (·.2.reduceReduce) && !row.any (·.2.shiftReduce))

end ActionSets

/-- The console miscounts a row that holds a goto to a state numbered 10 or more. In the grammar
`S->Ac`, `S->Bc`, `S->aD`, `A->a`, `B->a`, `D->d`, `S->b`, `S->e`, `S->f`, `S->g`, `S->h` the
state reached over `a` holds `A->a.` and `B->a.`, both with the lookahead `c`, and `S->a.D`: its
row reduces by `A->a` and by `B->a` under `c`, and goes to state 12 under `D`. No cell of the
table holds a shift and a reduction, and that row is the only one with two reductions in a cell,
so a reader counts no shift-reduce conflict and one reduce-reduce conflict. The console counts
the digits `1` and `2` of the goto as two shifts and prints one shift-reduce conflict and no
reduce-reduce conflict. -/
theorem workbench_counts_goto_digits_as_shifts :
    ∃ g states rows,
      Grammar.ofText "S->Ac\nS->Bc\nS->aD\nA->a\nB->a\nD->d\nS->b\nS->e\nS->f\nS->g\nS->h" =
        .ok g ∧ g.WellFormed ∧
      (g.itemContext (⟨"Z", ['S']⟩ :: g.productions)).states
        (g.nonterminals ++ (g.terminals.map Char.toString ++ [endMarker.toString]))
        (Item.start ⟨"Z", ['S']⟩ (.single endMarker)) = .ok states ∧
      ActionSets.build (g.itemContext (⟨"Z", ['S']⟩ :: g.productions))
        (g.terminals.map Char.toString ++ [endMarker.toString]) states = .ok rows ∧
      rows[4]?.bind (·.lookup "c") = some (.actions ["r4", "r5"]) ∧
      rows[4]?.bind (·.lookup "D") = some (.single "12") ∧
      ActionSets.conflictRows rows = (0, 1) ∧ ActionSets.conflictCounts rows = (1, 0) ∧
      " 1 s/r conflicts | 0 r/r conflicts" ∈ (Workbench.run.run
        "S->Ac\nS->Bc\nS->aD\nA->a\nB->a\nD->d\nS->b\nS->e\nS->f\nS->g\nS->h\n\nb\n").printed := by
  have computed : ((Grammar.ofText
      "S->Ac\nS->Bc\nS->aD\nA->a\nB->a\nD->d\nS->b\nS->e\nS->f\nS->g\nS->h").toOption.bind
      fun g => ((g.itemContext (⟨"Z", ['S']⟩ :: g.productions)).states
        (g.nonterminals ++ (g.terminals.map Char.toString ++ [endMarker.toString]))
        (Item.start ⟨"Z", ['S']⟩ (.single endMarker))).toOption.bind fun states =>
          (ActionSets.build (g.itemContext (⟨"Z", ['S']⟩ :: g.productions))
            (g.terminals.map Char.toString ++ [endMarker.toString]) states).toOption.map
            fun rows => (g.productions.all (Grammar.plainProduction 'Z'),
              rows[4]?.bind (·.lookup "c"), rows[4]?.bind (·.lookup "D"),
              decide (ActionSets.conflictRows rows = (0, 1)) &&
                decide (ActionSets.conflictCounts rows = (1, 0)))) =
      some (true, some (.actions ["r4", "r5"]), some (.single "12"), true) := by
    decide +kernel
  obtain ⟨g, read, computed⟩ := Option.bind_eq_some_iff.mp computed
  obtain ⟨states, built, computed⟩ := Option.bind_eq_some_iff.mp computed
  obtain ⟨rows, tabled, computed⟩ := Option.map_eq_some_iff.mp computed
  simp only [Prod.mk.injEq, Bool.and_eq_true, decide_eq_true_eq] at computed
  obtain ⟨plain, reductions, goto, reader, console⟩ := computed
  have printed : " 1 s/r conflicts | 0 r/r conflicts" ∈ (Workbench.run.run
      "S->Ac\nS->Bc\nS->aD\nA->a\nB->a\nD->d\nS->b\nS->e\nS->f\nS->g\nS->h\n\nb\n").printed := by
    decide +kernel
  exact ⟨g, states, rows, toOption_eq_some.mp read, Grammar.wellFormed_of_plain 'Z' (by decide)
    plain, toOption_eq_some.mp built, toOption_eq_some.mp tabled, reductions, goto, reader, console,
    printed⟩

/-! ## When the console's count is right -/

namespace ActionCell

/-- A cell that the console's count reads as a reader does: a set of at most two actions,
`accept`, or a goto to a state numbered with one digit. -/
def countable : ActionCell → Bool
  | actions texts => texts.length ≤ 2
  | single text => text == "accept" || text.length ≤ 1

theorem toList_shiftText (n : Int) : (s!"s{n}").toList = 's' :: (toString n).toList := by
  show ("s" ++ toString n).toList = _
  rw [String.toList_append]
  rfl

/-- A state number is written with digits and a minus sign only. -/
theorem r_not_mem_toString (n : Int) : 'r' ∉ (toString n).toList := by
  have notDigit : ∀ m : Nat, 'r' ∉ Nat.toDigits 10 m := fun m member => by
    have digit := Nat.isDigit_of_mem_toDigits (by decide) (by decide) member
    exact absurd digit (by decide)
  cases n with
  | ofNat m => simpa [toString, Int.repr] using notDigit m
  | negSucc m => simpa [toString, Int.repr] using notDigit (m + 1)

@[simp] theorem isShift_shiftText (n : Int) : isShift s!"s{n}" = true := by
  rw [isShift, toList_shiftText]
  rfl

@[simp] theorem isReduction_shiftText (n : Int) : isReduction s!"s{n}" = false := by
  rw [isReduction, toList_shiftText]
  rfl

@[simp] theorem isShift_reduceText (n : Nat) : isShift s!"r{n}" = false := by
  rw [isShift, toList_reduceCell]
  rfl

@[simp] theorem isReduction_reduceText (n : Nat) : isReduction s!"r{n}" = true := by
  rw [isReduction, toList_reduceCell]
  rfl

/-- The console takes a member for a reduction when it holds an `r`. -/
theorem r_not_mem_shiftText (n : Int) : 'r' ∉ (s!"s{n}").toList := by
  rw [toList_shiftText]
  intro member
  rcases List.mem_cons.mp member with same | inNumber
  · exact absurd same (by decide)
  · exact r_not_mem_toString n inNumber

theorem r_mem_reduceText (n : Nat) : 'r' ∈ (s!"r{n}").toList := by
  rw [toList_reduceCell]
  exact List.mem_cons_self

/-- Distinct reductions and copies of one shift. -/
def Gathered (texts : List String) : Prop :=
  texts.Nodup ∧ ∃ shift : Int, ∀ a ∈ texts, (∃ n : Nat, a = s!"r{n}") ∨ a = s!"s{shift}"

end ActionCell

namespace ActionSets

open ActionCell

/-- What the console's count reads of a countable cell of gathered actions: a shift and a
reduction for a cell with a shift and a reduction, two reductions for a cell with two, and
nothing otherwise. -/
theorem cellCounts_of_gathered {cell : ActionCell} (fits : cell.countable = true)
    (gathered : ∀ texts, cell = .actions texts → Gathered texts) :
    cellCounts cell = (if cell.shiftReduce then 1 else 0,
      if cell.shiftReduce then 1 else if cell.reduceReduce then 2 else 0) := by
  cases cell with
  | single text =>
      by_cases accept : text = "accept"
      · subst accept
        rfl
      · have short : text.toList.length ≤ 1 := by
          simpa [ActionCell.countable, accept, String.length_toList] using fits
        have notAccept : (ActionCell.single text == .single "accept") = false := by
          simpa using accept
        rcases text.toList.length.le_one_iff_eq_zero_or_eq_one.mp short with none | one
        · simp [cellCounts, notAccept, members, List.eq_nil_of_length_eq_zero none,
            ActionCell.shiftReduce, ActionCell.reduceReduce]
        · obtain ⟨c, only⟩ := List.length_eq_one_iff.mp one
          simp [cellCounts, notAccept, members, only, ActionCell.shiftReduce,
            ActionCell.reduceReduce]
  | actions texts =>
      obtain ⟨distinct, shift, forms⟩ := gathered texts rfl
      have few : texts.length ≤ 2 := by simpa [ActionCell.countable] using fits
      have kinds : ∀ a ∈ texts,
          (isShift a = false ∧ isReduction a = true ∧ 'r' ∈ a.toList) ∨
            (a = s!"s{shift}" ∧ isShift a = true ∧ isReduction a = false ∧ 'r' ∉ a.toList) := by
        intro a member
        rcases forms a member with ⟨n, rfl⟩ | rfl
        · exact .inl ⟨isShift_reduceText n, isReduction_reduceText n, r_mem_reduceText n⟩
        · exact .inr ⟨rfl, isShift_shiftText shift, isReduction_shiftText shift,
            r_not_mem_shiftText shift⟩
      rcases texts with _ | ⟨a, _ | ⟨b, _ | ⟨c, rest⟩⟩⟩
      · rfl
      · rcases kinds a List.mem_cons_self with ⟨sa, ra, _⟩ | ⟨_, sa, ra, _⟩ <;>
          simp [cellCounts, members, ActionCell.shiftReduce, ActionCell.reduceReduce, sa, ra]
      · rcases kinds a List.mem_cons_self with ⟨sa, ra, ca⟩ | ⟨same, sa, ra, ca⟩ <;>
          rcases kinds b (by simp) with ⟨sb, rb, cb⟩ | ⟨same', sb, rb, cb⟩
        · simp [cellCounts, members, ActionCell.shiftReduce, ActionCell.reduceReduce, sa, ra, ca,
            sb, rb, cb]
        · simp [cellCounts, members, ActionCell.shiftReduce, sa, ra, ca, sb, rb, cb]
        · simp [cellCounts, members, ActionCell.shiftReduce, sa, ra, ca, sb, rb, cb]
        · simp [same, same'] at distinct
      · simp at few

/-! ### The actions each row gathers -/

variable {ctx : ItemContext} {states : List (List Item)} {state : List Item}

/-- The actions gathered in the row of `state`: in each cell they are distinct, and each is a
reduction or the shift to the first state equal to the goto set of `state` over the cell's
symbol. -/
def ActionsFrom (ctx : ItemContext) (states : List (List Item)) (state : List Item)
    (row : ActionSetRow) : Prop :=
  ∀ key texts, (key, ActionCell.actions texts) ∈ row → texts.Nodup ∧
    ∀ a ∈ texts, (∃ n : Nat, a = s!"r{n}") ∨
      ∃ t, ctx.goto state key = .ok t ∧ a = s!"s{stateNumber states t}"

theorem ActionSetRow.mem_put {row : ActionSetRow} {key : String} {cell : ActionCell}
    {entry : String × ActionCell} (member : entry ∈ row.put key cell) :
    entry ∈ row ∨ entry = (key, cell) := by
  unfold ActionSetRow.put at member
  split at member
  · obtain ⟨⟨k, v⟩, inRow, rfl⟩ := List.mem_map.mp member
    by_cases same : k = key
    · exact .inr (by simp [same])
    · exact .inl (by simpa [same] using inRow)
  · rcases List.mem_append.mp member with inRow | added
    · exact .inl inRow
    · exact .inr (List.mem_singleton.mp added)

theorem actionsFrom_nil : ActionsFrom ctx states state [] :=
  fun _ _ member => absurd member List.not_mem_nil

theorem ActionsFrom.put_single {row : ActionSetRow} (made : ActionsFrom ctx states state row)
    (key text : String) : ActionsFrom ctx states state (row.put key (.single text)) := by
  intro k texts member
  rcases ActionSetRow.mem_put member with inRow | same
  · exact made k texts inRow
  · simp at same

/-- Adding a reduction, or the shift of the cell's symbol, keeps the actions gathered. -/
theorem ActionsFrom.addAction {row row' : ActionSetRow} (made : ActionsFrom ctx states state row)
    {key action : String}
    (fits : (∃ n : Nat, action = s!"r{n}") ∨
      ∃ t, ctx.goto state key = .ok t ∧ action = s!"s{stateNumber states t}")
    (added : row.addAction key action = .ok row') : ActionsFrom ctx states state row' := by
  unfold ActionSetRow.addAction at added
  split at added
  · cases added
    intro k texts member
    rcases ActionSetRow.mem_put member with inRow | same
    · exact made k texts inRow
    · simp only [Prod.mk.injEq, ActionCell.actions.injEq] at same
      obtain ⟨rfl, rfl⟩ := same
      exact ⟨List.pairwise_singleton _ action, fun a member => List.mem_singleton.mp member ▸ fits⟩
  · rename_i texts found
    obtain ⟨distinct, each⟩ := made key texts (mem_of_lookup_eq_some found)
    cases added
    intro k texts' member
    rcases ActionSetRow.mem_put member with inRow | same
    · exact made k texts' inRow
    · simp only [Prod.mk.injEq, ActionCell.actions.injEq] at same
      obtain ⟨rfl, rfl⟩ := same
      by_cases held : texts.contains action = true
      · simp only [held, if_true]
        exact ⟨distinct, each⟩
      · simp only [held, Bool.false_eq_true, if_false]
        refine ⟨List.nodup_append.mpr ⟨distinct, List.pairwise_singleton _ action, ?_⟩,
          fun a member => ?_⟩
        · intro a inTexts b added
          rw [List.mem_singleton.mp added]
          rintro rfl
          exact held (List.contains_iff_mem.mpr inTexts)
        · rcases List.mem_append.mp member with inTexts | added
          · exact each a inTexts
          · exact List.mem_singleton.mp added ▸ fits
  · cases added

theorem ActionsFrom.addReductions {productions : List Production} {it : Item}
    {row row' : ActionSetRow} (made : ActionsFrom ctx states state row)
    (added : addReductions productions it row = .ok row') : ActionsFrom ctx states state row' := by
  unfold ActionSets.addReductions at added
  refine foldlM_invariant (ActionsFrom ctx states state) made (fun r c r' holds _ step => ?_) added
  obtain ⟨n, _, step⟩ := bind_eq_ok.mp step
  exact holds.addAction (.inl ⟨n, rfl⟩) step

/-- Every item gathers reductions, the shift of its goto set, or single texts. -/
theorem ActionsFrom.itemCells {shifted : List String} {row row' : ActionSetRow} {it : Item}
    (made : ActionsFrom ctx states state row)
    (written : itemCells ctx shifted states state row it = .ok row') :
    ActionsFrom ctx states state row' := by
  unfold ActionSets.itemCells at written
  split at written
  · exact made.addReductions written
  · split at written
    · obtain ⟨m, _, written⟩ := bind_eq_ok.mp written
      split at written
      · cases written
        exact made.put_single _ _
      · exact made.addReductions written
    · obtain ⟨m, _, written⟩ := bind_eq_ok.mp written
      split at written
      · cases written
        exact made.put_single _ _
      · exact made.addReductions written
    · obtain ⟨t, moved, written⟩ := bind_eq_ok.mp written
      split at written
      · cases written
        exact made
      · split at written
        · exact made.addAction (.inr ⟨t, moved, rfl⟩) written
        · cases written
          exact made.put_single _ _

/-- Every row of a built table gathers its actions from its state. -/
theorem actionsFrom_build {shifted : List String} {rows : List ActionSetRow}
    (built : build ctx shifted states = .ok rows) :
    ∀ row ∈ rows, ∃ state, ActionsFrom ctx states state row := by
  have rowsOf := mapM_forall₂ built
  intro row member
  obtain ⟨i, atRow⟩ := List.mem_iff_getElem?.mp member
  obtain ⟨within, _⟩ := List.getElem?_eq_some_iff.mp atRow
  have within : i < states.length := rowsOf.length_eq ▸ within
  have atState : states[i]? = some states[i] := List.getElem?_eq_getElem within
  exact ⟨_, foldlM_invariant _ actionsFrom_nil
    (fun _ _ _ made _ written => made.itemCells written) (Forall₂.of_getElem? rowsOf atState atRow)⟩

/-- The actions of a cell of a built table are gathered: distinct reductions and copies of one
shift, since every shift under a symbol goes to the same goto set. -/
theorem ActionsFrom.gathered {row : ActionSetRow} (made : ActionsFrom ctx states state row)
    {key : String} {texts : List String} (member : (key, ActionCell.actions texts) ∈ row) :
    Gathered texts := by
  obtain ⟨distinct, each⟩ := made key texts member
  refine ⟨distinct, ?_⟩
  cases moved : ctx.goto state key with
  | error fault =>
      refine ⟨0, fun a inTexts => ?_⟩
      rcases each a inTexts with reduction | ⟨t, found, _⟩
      · exact .inl reduction
      · cases found.symm.trans moved
  | ok t =>
      refine ⟨stateNumber states t, fun a inTexts => ?_⟩
      rcases each a inTexts with reduction | ⟨t', found, shift⟩
      · exact .inl reduction
      · rw [moved, Except.ok.injEq] at found
        exact .inr (found ▸ shift)

/-! ### Counting rows -/

/-- A fold over a row that adds the counts of each cell gives their sums. -/
theorem foldl_cellCounts {f : Nat × Nat → String × ActionCell → Nat × Nat}
    (step : ∀ s r entry, f (s, r) entry =
      (s + (cellCounts entry.2).1, r + (cellCounts entry.2).2))
    (row : ActionSetRow) (s r : Nat) :
    row.foldl f (s, r) = (s + (row.map fun entry => (cellCounts entry.2).1).sum,
      r + (row.map fun entry => (cellCounts entry.2).2).sum) := by
  induction row generalizing s r with
  | nil => simp
  | cons entry rest ih =>
      rw [List.foldl_cons, step, ih]
      simp only [List.map_cons, List.sum_cons, Prod.mk.injEq]
      omega

/-- A fold over rows that counts each row under at most one of two marks gives how many rows
carry each mark. -/
theorem foldl_rowMarks {F : Nat × Nat → ActionSetRow → Nat × Nat} {P Q : ActionSetRow → Bool}
    {rows : List ActionSetRow}
    (step : ∀ a b, ∀ row ∈ rows,
      F (a, b) row = (a + if P row then 1 else 0, b + if Q row then 1 else 0))
    (a b : Nat) : rows.foldl F (a, b) = (a + rows.countP P, b + rows.countP Q) := by
  induction rows generalizing a b with
  | nil => simp
  | cons row rest ih =>
      rw [List.foldl_cons, step a b row List.mem_cons_self,
        ih (fun a b row' member => step a b row' (List.mem_cons_of_mem row member))]
      simp only [List.countP_cons, Prod.mk.injEq]
      omega

end ActionSets

open ActionSets ActionCell in
/-- The console counts the conflicts of a table right whenever every goto cell names a state
numbered with one digit and no cell gathers more than two actions. A cell then adds one shift
and one reduction to its row when it holds a shift and a reduction, two reductions when it holds
two, and nothing otherwise, since the shifts of a cell all go to the same state; so a row has
counted shifts and reductions exactly when it has a cell with a shift and a reduction, and
reductions alone exactly when it has a cell with two reductions and none with a shift and a
reduction. -/
theorem conflictCounts_eq_conflictRows {ctx : ItemContext} {shifted : List String}
    {states : List (List Item)} {rows : List ActionSetRow}
    (built : build ctx shifted states = .ok rows)
    (countable : ∀ row ∈ rows, ∀ entry ∈ row, entry.2.countable = true) :
    conflictCounts rows = conflictRows rows := by
  unfold conflictCounts conflictRows
  rw [foldl_rowMarks (P := fun row => row.any (·.2.shiftReduce))
    (Q := fun row => row.any (·.2.reduceReduce) && !row.any (·.2.shiftReduce)) ?rowStep 0 0,
    Nat.zero_add, Nat.zero_add]
  intro a b row member
  obtain ⟨state, made⟩ := actionsFrom_build built row member
  have cells : ∀ entry ∈ row, cellCounts entry.2 = (if entry.2.shiftReduce then 1 else 0,
      if entry.2.shiftReduce then 1 else if entry.2.reduceReduce then 2 else 0) := by
    intro entry inRow
    refine cellCounts_of_gathered (countable row member entry inRow) fun texts same => ?_
    obtain ⟨key, cell⟩ := entry
    dsimp only at same
    subst same
    exact made.gathered inRow
  dsimp only
  rw [foldl_cellCounts (fun _ _ _ => rfl) row 0 0]
  have shifts : 0 < (row.map fun entry => (cellCounts entry.2).1).sum ↔
      row.any (·.2.shiftReduce) = true := by
    simp only [List.sum_pos_iff_exists_pos_nat, List.mem_map, List.any_eq_true]
    constructor
    · rintro ⟨_, ⟨entry, inRow, rfl⟩, positive⟩
      refine ⟨entry, inRow, ?_⟩
      rw [cells entry inRow] at positive
      by_contra absent
      simp [absent] at positive
    · rintro ⟨entry, inRow, conflict⟩
      exact ⟨_, ⟨entry, inRow, rfl⟩, by simp [cells entry inRow, conflict]⟩
  have reductions : 0 < (row.map fun entry => (cellCounts entry.2).2).sum ↔
      (row.any (·.2.shiftReduce) || row.any (·.2.reduceReduce)) = true := by
    simp only [List.sum_pos_iff_exists_pos_nat, List.mem_map, Bool.or_eq_true, List.any_eq_true]
    constructor
    · rintro ⟨_, ⟨entry, inRow, rfl⟩, positive⟩
      rw [cells entry inRow] at positive
      by_cases sr : entry.2.shiftReduce = true
      · exact .inl ⟨entry, inRow, sr⟩
      · by_cases rr : entry.2.reduceReduce = true
        · exact .inr ⟨entry, inRow, rr⟩
        · simp [sr, rr] at positive
    · rintro (⟨entry, inRow, sr⟩ | ⟨entry, inRow, rr⟩)
      · exact ⟨_, ⟨entry, inRow, rfl⟩, by simp [cells entry inRow, sr]⟩
      · refine ⟨_, ⟨entry, inRow, rfl⟩, ?_⟩
        by_cases sr : entry.2.shiftReduce = true <;> simp [cells entry inRow, sr, rr]
  simp only [Nat.zero_add, gt_iff_lt, shifts, reductions]
  cases row.any (·.2.shiftReduce) <;> cases row.any (·.2.reduceReduce) <;> rfl

/-- In `S->Ac`, `S->Bc`, `A->a`, `B->a` the state reached over `a` reduces by `A->a` and by
`B->a` under `c`. The console's table has seven states and no cell with three actions, and the
console counts its one reduce-reduce conflict right. -/
theorem conflictCounts_eq_conflictRows_reduceReduce :
    ∃ g states rows, Grammar.ofText "S->Ac\nS->Bc\nA->a\nB->a" = .ok g ∧
      (g.itemContext (⟨"Z", ['S']⟩ :: g.productions)).states
        (g.nonterminals ++ (g.terminals.map Char.toString ++ [endMarker.toString]))
        (Item.start ⟨"Z", ['S']⟩ (.single endMarker)) = .ok states ∧
      ActionSets.build (g.itemContext (⟨"Z", ['S']⟩ :: g.productions))
        (g.terminals.map Char.toString ++ [endMarker.toString]) states = .ok rows ∧
      (∀ row ∈ rows, ∀ entry ∈ row, entry.2.countable = true) ∧
      ActionSets.conflictRows rows = (0, 1) ∧
      ActionSets.conflictCounts rows = ActionSets.conflictRows rows := by
  have computed : ((Grammar.ofText "S->Ac\nS->Bc\nA->a\nB->a").toOption.bind fun g =>
      ((g.itemContext (⟨"Z", ['S']⟩ :: g.productions)).states
        (g.nonterminals ++ (g.terminals.map Char.toString ++ [endMarker.toString]))
        (Item.start ⟨"Z", ['S']⟩ (.single endMarker))).toOption.bind fun states =>
          (ActionSets.build (g.itemContext (⟨"Z", ['S']⟩ :: g.productions))
            (g.terminals.map Char.toString ++ [endMarker.toString]) states).toOption.map
            fun rows => (states.length, rows.all fun row => row.all (·.2.countable),
              ActionSets.conflictRows rows)) =
      some (7, true, (0, 1)) := by
    decide +kernel
  obtain ⟨g, read, computed⟩ := Option.bind_eq_some_iff.mp computed
  obtain ⟨states, built, computed⟩ := Option.bind_eq_some_iff.mp computed
  obtain ⟨rows, tabled, computed⟩ := Option.map_eq_some_iff.mp computed
  simp only [Prod.mk.injEq] at computed
  obtain ⟨_, readable, reader⟩ := computed
  have countable : ∀ row ∈ rows, ∀ entry ∈ row, entry.2.countable = true := by
    simpa only [List.all_eq_true] using readable
  have tabled := toOption_eq_some.mp tabled
  exact ⟨g, states, rows, toOption_eq_some.mp read, toOption_eq_some.mp built, tabled, countable,
    reader, conflictCounts_eq_conflictRows tabled countable⟩

end GrammarBench
