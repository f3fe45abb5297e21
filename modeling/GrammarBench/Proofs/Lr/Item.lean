import GrammarBench.Lr.Item
import GrammarBench.Proofs.Derivation

/-!
# Reading items

Items are handled through their written form `head->α.β`, and the readings of that text
(the first dot, the pieces between dots, the labels of a state) agree with the item itself
only when neither the head nor the body holds a dot. This module names such items *plain*
and shows that their readings are the intended ones: an item is finished exactly when its dot
stands at the end of the body, the symbol after the dot is the body's character at the dot,
moving the dot advances it by one, and the label of a plain item (whose head is one
character and whose body holds no space either) determines its production and its dot.
-/

namespace GrammarBench

/-- Productions whose items read as intended: every head is one character other than a dot
or a space, and no body holds a dot or a space. -/
def PlainProductions (ps : List Production) : Prop :=
  ∀ p ∈ ps, (∃ h, h ≠ '.' ∧ h ≠ ' ' ∧ p.head = h.toString) ∧ '.' ∉ p.body ∧ ' ' ∉ p.body

namespace Item

/-- The part of the body before the dot. -/
def seen (it : Item) : List Char :=
  it.body.take it.dot

/-- The production an item reads. -/
def production (it : Item) : Production :=
  ⟨it.head, it.body⟩

/-- The item with its dot one symbol further. -/
def next (it : Item) : Item :=
  { it with dot := it.dot + 1 }

@[simp] theorem start_production (p : Production) (lookahead : CharSet) :
    (start p lookahead).production = p := rfl

@[simp] theorem start_seen (p : Production) (lookahead : CharSet) :
    (start p lookahead).seen = [] := by
  simp [start, seen]

/-- An item of the productions `ps`: it reads one of them, and its dot lies within the
body. -/
def Over (ps : List Production) (it : Item) : Prop :=
  it.production ∈ ps ∧ it.dot ≤ it.body.length

/-- An item whose head is one character other than a dot or a space, whose body holds no dot
or space, and whose dot lies within the body. -/
structure Plain (it : Item) : Prop where
  head_char : ∃ h, h ≠ '.' ∧ h ≠ ' ' ∧ it.head = h.toString
  dot_free : '.' ∉ it.body
  space_free : ' ' ∉ it.body
  dot_le : it.dot ≤ it.body.length

theorem Over.plain {ps : List Production} {it : Item} (plainProductions : PlainProductions ps)
    (dotted : it.Over ps) : it.Plain := by
  obtain ⟨headChar, dotFree, spaceFree⟩ := plainProductions it.production dotted.1
  exact ⟨headChar, dotFree, spaceFree, dotted.2⟩

variable {it : Item}

theorem take_append_drop_dot (it : Item) : it.body.take it.dot ++ it.body.drop it.dot = it.body :=
  List.take_append_drop it.dot it.body

theorem dottedBody_splitOn (plain : it.Plain) :
    it.dottedBody.splitOn '.' = [it.body.take it.dot, it.body.drop it.dot] := by
  have seenFree : '.' ∉ it.body.take it.dot := fun inSeen =>
    plain.dot_free (List.mem_of_mem_take inSeen)
  have unseenFree : '.' ∉ it.body.drop it.dot := fun inUnseen =>
    plain.dot_free (List.mem_of_mem_drop inUnseen)
  rw [dottedBody, List.splitOn_append_cons_self_of_not_mem seenFree,
    List.splitOn_eq_singleton unseenFree]

theorem written_of_head {h : Char} (named : it.head = h.toString) :
    it.written = h :: '-' :: '>' :: (it.body.take it.dot ++ '.' :: it.body.drop it.dot) := by
  simp [written, dottedBody, named, Char.toString_eq_singleton]

theorem written_eq (plain : it.Plain) :
    ∃ h, h ≠ '.' ∧ h ≠ ' ' ∧ it.head = h.toString ∧
      it.written = h :: '-' :: '>' :: (it.body.take it.dot ++ '.' :: it.body.drop it.dot) := by
  obtain ⟨h, notDot, notSpace, named⟩ := plain.head_char
  exact ⟨h, notDot, notSpace, named, written_of_head named⟩

theorem firstDot_eq (plain : it.Plain) : it.firstDot = it.dot + 3 := by
  obtain ⟨h, notDot, _, _, written⟩ := written_eq plain
  have seenFree : '.' ∉ it.body.take it.dot := fun inSeen =>
    plain.dot_free (List.mem_of_mem_take inSeen)
  have seenLength : (it.body.take it.dot).length = it.dot := by
    simp [plain.dot_le]
  rw [firstDot, written, List.idxOf_cons_ne _ notDot, List.idxOf_cons_ne _ (by decide),
    List.idxOf_cons_ne _ (by decide), List.idxOf_append_of_notMem seenFree, seenLength]
  simp

theorem written_length (plain : it.Plain) : it.written.length = it.body.length + 4 := by
  obtain ⟨h, _, _, _, written⟩ := written_eq plain
  have split := congrArg List.length (take_append_drop_dot it)
  simp only [List.length_append] at split
  rw [written]
  simp only [List.length_cons, List.length_append]
  omega

/-- A plain item is finished exactly when its dot stands at the end of the body. -/
theorem isComplete_iff (plain : it.Plain) : it.isComplete = true ↔ it.dot = it.body.length := by
  rw [isComplete, firstDot_eq plain, written_length plain, beq_iff_eq]
  omega

theorem dot_lt_of_isComplete_eq_false (plain : it.Plain) (unfinished : it.isComplete = false) :
    it.dot < it.body.length := by
  have notAtEnd : it.dot ≠ it.body.length := by
    intro atEnd
    have finished := (isComplete_iff plain).mpr atEnd
    rw [unfinished] at finished
    exact Bool.false_ne_true finished
  exact Nat.lt_of_le_of_ne plain.dot_le notAtEnd

/-- The symbol after the dot of an unfinished plain item is the body's character there. -/
theorem nextSymbol_eq (plain : it.Plain) (unfinished : it.dot < it.body.length) :
    it.nextSymbol = .ok it.body[it.dot] := by
  rw [nextSymbol, dottedBody_splitOn plain, List.drop_eq_getElem_cons unfinished]
  rfl

/-- Moving the dot of an unfinished plain item over a symbol advances it when the symbol is
the one after the dot. -/
theorem advance_eq (plain : it.Plain) (unfinished : it.dot < it.body.length) (x : String) :
    it.advance x = .ok (if it.body[it.dot].toString == x then some it.next else none) := by
  have notComplete : it.isComplete = false := by
    rw [Bool.eq_false_iff, ne_eq, isComplete_iff plain]
    omega
  rw [advance, notComplete, dottedBody_splitOn plain, List.drop_eq_getElem_cons unfinished]
  rfl

theorem advance_of_complete (finished : it.isComplete = true) (x : String) :
    it.advance x = .ok none := by
  rw [advance, finished]
  rfl

/-- A plain item moves over `x` only past a body symbol spelled `x`, and then to its next
item. -/
theorem advance_eq_some (plain : it.Plain) {x : String} {next : Item}
    (advance : it.advance x = .ok (some next)) :
    ∃ c, it.body[it.dot]? = some c ∧ c.toString = x ∧ next = it.next := by
  by_cases before : it.dot < it.body.length
  · rw [advance_eq plain before, Except.ok.injEq] at advance
    split at advance
    · rename_i sameSymbol
      simp only [Option.some.injEq] at advance
      exact ⟨_, List.getElem?_eq_getElem before, beq_iff_eq.mp sameSymbol, advance.symm⟩
    · simp at advance
  · have finished : it.isComplete = true :=
      (isComplete_iff plain).mpr (by have := plain.dot_le; omega)
    rw [advance_of_complete finished] at advance
    simp at advance

theorem seen_next {c : Char} (found : it.body[it.dot]? = some c) :
    it.next.seen = it.seen ++ [c] := by
  simp only [next, seen]
  rw [List.take_add_one, found, Option.toList_some]

/-- The body of a finished plain item, read back from its dotted form. -/
theorem dottedBody_filter (plain : it.Plain) :
    it.dottedBody.filter (· != '.') = it.body := by
  have keep : ∀ c ∈ it.body, (c != '.') = true := by
    intro c member
    simp only [bne_iff_ne, ne_eq]
    intro isDot
    exact plain.dot_free (isDot ▸ member)
  rw [dottedBody, List.filter_append, List.filter_cons_of_neg (by simp),
    ← List.filter_append, take_append_drop_dot, List.filter_eq_self.mpr keep]

/-! ## Labels -/

theorem space_not_mem_written (plain : it.Plain) : ' ' ∉ it.written := by
  obtain ⟨h, _, notSpace, _, written⟩ := written_eq plain
  rw [written]
  intro member
  simp only [List.mem_cons, List.mem_append] at member
  rcases member with isHead | isDash | isArrow | inSeen | isDot | inUnseen
  · exact notSpace isHead.symm
  · exact absurd isDash (by decide)
  · exact absurd isArrow (by decide)
  · exact plain.space_free (List.mem_of_mem_take inSeen)
  · exact absurd isDot (by decide)
  · exact plain.space_free (List.mem_of_mem_drop inUnseen)

/-- Two plain items with the same written form read the same production with the dot at the
same place. -/
theorem eq_of_written_eq {a b : Item} (plainA : a.Plain) (plainB : b.Plain)
    (same : a.written = b.written) : a.production = b.production ∧ a.dot = b.dot := by
  obtain ⟨ha, _, _, namedA, writtenA⟩ := written_eq plainA
  obtain ⟨hb, _, _, namedB, writtenB⟩ := written_eq plainB
  rw [writtenA, writtenB] at same
  simp only [List.cons.injEq, true_and] at same
  obtain ⟨sameHead, sameDotted⟩ := same
  have pieces := congrArg (List.splitOn '.') sameDotted
  rw [← dottedBody, ← dottedBody, dottedBody_splitOn plainA, dottedBody_splitOn plainB] at pieces
  simp only [List.cons.injEq, and_true] at pieces
  obtain ⟨sameSeen, sameUnseen⟩ := pieces
  have sameBody : a.body = b.body := by
    rw [← take_append_drop_dot a, ← take_append_drop_dot b, sameSeen,
      sameUnseen]
  have sameDot : a.dot = b.dot := by
    have lengths := congrArg List.length sameSeen
    simp only [List.length_take, Nat.min_eq_left plainA.dot_le,
      Nat.min_eq_left plainB.dot_le] at lengths
    exact lengths
  refine ⟨?_, sameDot⟩
  simp only [production, sameBody, namedA, namedB, sameHead]

/-- The label of a plain item starts with its written form, which no space interrupts, so
two plain items with the same label have the same written form. -/
theorem written_eq_of_label_eq {a b : Item} (plainA : a.Plain) (plainB : b.Plain)
    (same : a.label = b.label) : a.written = b.written := by
  have chars := congrArg String.toList same
  simp only [label, text, String.toList_append, String.toList_ofList] at chars
  have cutA : ' ' ∉ a.written ++ [','] := by
    simpa using space_not_mem_written plainA
  have cutB : ' ' ∉ b.written ++ [','] := by
    simpa using space_not_mem_written plainB
  have regroup : ∀ w r : List Char, w ++ ", ".toList ++ r = (w ++ [',']) ++ ' ' :: r := by
    intro w r
    simp [show ", ".toList = [',', ' '] from rfl]
  rw [regroup, regroup] at chars
  have pieces := congrArg (List.splitOn ' ') chars
  rw [List.splitOn_append_cons_self_of_not_mem cutA,
    List.splitOn_append_cons_self_of_not_mem cutB] at pieces
  have firstPiece := (List.cons.inj pieces).1
  exact List.append_cancel_right firstPiece

end Item

end GrammarBench
