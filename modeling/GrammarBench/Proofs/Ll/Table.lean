import GrammarBench.Ll.Trace
import GrammarBench.Proofs.Except

/-!
# What the cells of an LL(1) table hold

The table builder enters the text of each production only in the row of its head. So every
cell of a built table is empty or holds the text of a production whose head names the row
(`LlTable.Entered`, `LlTable.entered_build`). A predictive parse reads the table through
`LlTable.toPredict`, and the entry it reads for a nonterminal and a character is a cell of
that nonterminal's row under that character, or the empty text (`LlTable.predictCell_toPredict`).
-/

namespace GrammarBench

namespace LlTable

/-- Every cell is empty or holds the text of a production of `g` whose head names the row. -/
def Entered (g : Grammar) (t : LlTable) : Prop :=
  ∀ name cells, (name, cells) ∈ t.rows → ∀ d text, (d, text) ∈ cells →
    text = "" ∨ ∃ p ∈ g.productions, p.head = name ∧ text = p.text

variable {g : Grammar}

theorem entered_blank : (blank g).Entered g := by
  intro name cells row d text cell
  simp only [blank, List.mem_map, Prod.mk.injEq] at row
  obtain ⟨_, _, _, rfl⟩ := row
  simp only [List.mem_map, Prod.mk.injEq] at cell
  obtain ⟨_, _, _, rfl⟩ := cell
  exact Or.inl rfl

/-- Entering a production of `g` in the row of its head keeps every cell empty or holding a
production of its row. -/
theorem Entered.enter {t t' : LlTable} (entered : t.Entered g) {p : Production}
    (member : p ∈ g.productions) {c : Char} (written : t.enter p.head c p.text = .ok t') :
    t'.Entered g := by
  unfold LlTable.enter at written
  split at written
  · simp at written
  · simp only [Except.ok.injEq] at written
    subst written
    intro name cells row d text cell
    simp only [List.mem_map] at row
    obtain ⟨⟨name', cells'⟩, old, rebuilt⟩ := row
    split at rebuilt
    · rename_i isHead
      simp only [Prod.mk.injEq] at rebuilt
      obtain ⟨rfl, rfl⟩ := rebuilt
      simp only [List.mem_map] at cell
      obtain ⟨⟨d', s⟩, oldCell, rewritten⟩ := cell
      split at rewritten
      · simp only [Prod.mk.injEq] at rewritten
        obtain ⟨rfl, rfl⟩ := rewritten
        exact Or.inr ⟨p, member, (beq_iff_eq.mp isHead).symm, rfl⟩
      · simp only [Prod.mk.injEq] at rewritten
        obtain ⟨rfl, rfl⟩ := rewritten
        exact entered name' cells' old d' s oldCell
    · simp only [Prod.mk.injEq] at rebuilt
      obtain ⟨rfl, rfl⟩ := rebuilt
      exact entered name' cells' old d text cell

/-- Every cell of a built LL(1) table is empty or holds the text of a production of its
row's nonterminal. -/
theorem entered_build {firsts : List (String × CharSet)} {follows : FollowSets} {t : LlTable}
    (built : build g firsts follows = .ok t) : t.Entered g := by
  unfold build at built
  apply foldlM_invariant (Entered g) entered_blank _ built
  intro t p t' entered member step
  have enterAll : ∀ {cs : List Char} {t t' : LlTable}, t.Entered g →
      cs.foldlM (fun t c => t.enter p.head c p.text) t = .ok t' → t'.Entered g :=
    fun start run => foldlM_invariant (Entered g) start
      (fun _ _ _ held _ written => held.enter member written) run
  dsimp only at step
  obtain ⟨firstPart, first, step⟩ := bind_eq_ok.mp step
  split at step
  · exact enterAll (enterAll entered first) step
  · simp only [pure, Except.pure, Except.ok.injEq] at step
    exact step ▸ enterAll entered first

/-- The entry that a predictive parse reads from a built table, for a nonterminal and a
character, is a text: a cell of that nonterminal's row under that character, or the empty
text when the table has none. -/
theorem predictCell_toPredict {t : LlTable} {name : String} {c : Char} {entry : Field}
    (read : predictCell t.toPredict name c = .ok entry) :
    ∃ text, entry = .text text ∧
      (text = "" ∨ ∃ cells, (name, cells) ∈ t.rows ∧ (c, text) ∈ cells) := by
  unfold predictCell at read
  obtain ⟨row, atRow, read⟩ := bind_eq_ok.mp read
  simp only [toPredict, Field.entry] at atRow
  split at atRow
  · rename_i found
    simp only [Except.ok.injEq] at atRow
    subst atRow
    obtain ⟨⟨name', cells⟩, inRows, same⟩ := List.mem_map.mp (mem_of_lookup_eq_some found)
    simp only [Prod.mk.injEq] at same
    obtain ⟨rfl, rfl⟩ := same
    simp only [Field.lookupOr, Except.ok.injEq] at read
    subst read
    unfold Option.getD
    split
    · rename_i cell inRow
      obtain ⟨⟨d, text⟩, inCells, same⟩ := List.mem_map.mp (mem_of_lookup_eq_some inRow)
      simp only [Prod.mk.injEq] at same
      obtain ⟨named, rfl⟩ := same
      have sameChar : d = c := String.singleton_inj.mp named
      subst sameChar
      exact ⟨text, rfl, Or.inr ⟨cells, inRows, inCells⟩⟩
    · exact ⟨"", rfl, Or.inl rfl⟩
  · simp at atRow

end LlTable

end GrammarBench
