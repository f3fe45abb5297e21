import GrammarBench.Grammar.Reading
import GrammarBench.Grammar.First
import GrammarBench.Proofs.Except

/-!
# The symbols of a grammar that was read

Reading a grammar records its symbols as it goes: each head and each uppercase body
character as a nonterminal, each other body character as a terminal. `Grammar.Recorded`
states what the records then hold, and `Grammar.readShape_ofText` shows that every grammar
read from a text satisfies it; the bodies of such a grammar hold no spaces, since spaces are
removed from each line before it is read.

`Grammar.WellFormed` is the shape of grammar that the parsers are meant for: every head a
single uppercase character, no dot, end marker or empty mark in a body, and a capital letter
left free for the start production. Over a recorded grammar of that shape the terminals are
exactly the body characters that are not uppercase, the nonterminals exactly the heads and
the uppercase body characters, and FIRST sets hold terminals and the empty mark only.
-/

namespace GrammarBench

namespace Grammar

/-! ## Recording one production -/

@[simp] theorem noteNonterminal_productions (g : Grammar) (name : String) :
    (g.noteNonterminal name).productions = g.productions := by
  unfold noteNonterminal
  split <;> rfl

@[simp] theorem noteNonterminal_terminals (g : Grammar) (name : String) :
    (g.noteNonterminal name).terminals = g.terminals := by
  unfold noteNonterminal
  split <;> rfl

@[simp] theorem mem_noteNonterminal {g : Grammar} {name other : String} :
    other ∈ (g.noteNonterminal name).nonterminals ↔ other ∈ g.nonterminals ∨ other = name := by
  unfold noteNonterminal
  split
  · rename_i known
    have known : name ∈ g.nonterminals := List.contains_iff_mem.mp known
    constructor
    · exact Or.inl
    · rintro (member | rfl)
      · exact member
      · exact known
  · simp

@[simp] theorem noteSymbol_productions (g : Grammar) (c : Char) :
    (g.noteSymbol c).productions = g.productions := by
  unfold noteSymbol
  split
  · simp
  · split <;> rfl

theorem mem_noteSymbol_nonterminals {g : Grammar} {c : Char} {name : String} :
    name ∈ (g.noteSymbol c).nonterminals ↔
      name ∈ g.nonterminals ∨ (Text.isUppercase c = true ∧ name = c.toString) := by
  unfold noteSymbol
  split
  · rename_i upper
    simp [upper]
  · rename_i lower
    split <;> simp [lower]

theorem mem_noteSymbol_terminals {g : Grammar} {c d : Char} :
    d ∈ (g.noteSymbol c).terminals ↔
      d ∈ g.terminals ∨ (Text.isUppercase c = false ∧ d = c) := by
  unfold noteSymbol
  split
  · rename_i upper
    simp [upper]
  · rename_i lower
    simp only [Bool.not_eq_true] at lower
    split
    · rename_i known
      have known : c ∈ g.terminals := List.contains_iff_mem.mp known
      constructor
      · exact Or.inl
      · rintro (member | ⟨-, rfl⟩)
        · exact member
        · exact known
    · simp [lower]

theorem foldl_noteSymbol_productions (body : List Char) (g : Grammar) :
    (body.foldl noteSymbol g).productions = g.productions := by
  induction body generalizing g with
  | nil => rfl
  | cons c rest ih => simp [ih]

theorem mem_foldl_noteSymbol_nonterminals {body : List Char} {g : Grammar} {name : String} :
    name ∈ (body.foldl noteSymbol g).nonterminals ↔
      name ∈ g.nonterminals ∨ ∃ c ∈ body, Text.isUppercase c = true ∧ name = c.toString := by
  induction body generalizing g with
  | nil => simp
  | cons c rest ih =>
      simp only [List.foldl_cons, ih, mem_noteSymbol_nonterminals, List.mem_cons,
        exists_eq_or_imp]
      tauto

theorem mem_foldl_noteSymbol_terminals {body : List Char} {g : Grammar} {d : Char} :
    d ∈ (body.foldl noteSymbol g).terminals ↔
      d ∈ g.terminals ∨ (d ∈ body ∧ Text.isUppercase d = false) := by
  induction body generalizing g with
  | nil => simp
  | cons c rest ih =>
      simp only [List.foldl_cons, ih, mem_noteSymbol_terminals, List.mem_cons]
      constructor
      · rintro ((member | ⟨lower, rfl⟩) | ⟨later, lower⟩)
        · exact Or.inl member
        · exact Or.inr ⟨Or.inl rfl, lower⟩
        · exact Or.inr ⟨Or.inr later, lower⟩
      · rintro (member | ⟨rfl | later, lower⟩)
        · exact Or.inl (Or.inl member)
        · exact Or.inl (Or.inr ⟨lower, rfl⟩)
        · exact Or.inr ⟨later, lower⟩

@[simp] theorem add_productions (g : Grammar) (p : Production) :
    (g.add p).productions = g.productions ++ [p] := by
  simp [add, foldl_noteSymbol_productions]

theorem mem_add_nonterminals {g : Grammar} {p : Production} {name : String} :
    name ∈ (g.add p).nonterminals ↔ name ∈ g.nonterminals ∨ name = p.head ∨
      ∃ c ∈ p.body, Text.isUppercase c = true ∧ name = c.toString := by
  simp only [add, mem_foldl_noteSymbol_nonterminals, mem_noteNonterminal]
  tauto

theorem mem_add_terminals {g : Grammar} {p : Production} {d : Char} :
    d ∈ (g.add p).terminals ↔ d ∈ g.terminals ∨ (d ∈ p.body ∧ Text.isUppercase d = false) := by
  simp only [add, mem_foldl_noteSymbol_terminals, noteNonterminal_terminals]

/-! ## What reading records -/

/-- What reading records about a grammar's symbols: every head and every uppercase body
character is a nonterminal, every other body character a terminal, and nothing else is
recorded. -/
structure Recorded (g : Grammar) : Prop where
  head_mem : ∀ p ∈ g.productions, p.head ∈ g.nonterminals
  upper_mem : ∀ p ∈ g.productions, ∀ c ∈ p.body, Text.isUppercase c = true →
    c.toString ∈ g.nonterminals
  lower_mem : ∀ p ∈ g.productions, ∀ c ∈ p.body, Text.isUppercase c = false → c ∈ g.terminals
  terminal_lower : ∀ c ∈ g.terminals, Text.isUppercase c = false ∧ ∃ p ∈ g.productions, c ∈ p.body
  nonterminal_used : ∀ name ∈ g.nonterminals, ∃ p ∈ g.productions,
    name = p.head ∨ ∃ c ∈ p.body, Text.isUppercase c = true ∧ name = c.toString

theorem recorded_empty : empty.Recorded where
  head_mem := by simp [empty]
  upper_mem := by simp [empty]
  lower_mem := by simp [empty]
  terminal_lower := by simp [empty]
  nonterminal_used := by simp [empty]

theorem Recorded.add {g : Grammar} (recorded : g.Recorded) (p : Production) :
    (g.add p).Recorded where
  head_mem := by
    intro q member
    simp only [add_productions, List.mem_append, List.mem_singleton] at member
    rw [mem_add_nonterminals]
    rcases member with old | rfl
    · exact Or.inl (recorded.head_mem q old)
    · exact Or.inr (Or.inl rfl)
  upper_mem := by
    intro q member c inBody upper
    simp only [add_productions, List.mem_append, List.mem_singleton] at member
    rw [mem_add_nonterminals]
    rcases member with old | rfl
    · exact Or.inl (recorded.upper_mem q old c inBody upper)
    · exact Or.inr (Or.inr ⟨c, inBody, upper, rfl⟩)
  lower_mem := by
    intro q member c inBody lower
    simp only [add_productions, List.mem_append, List.mem_singleton] at member
    rw [mem_add_terminals]
    rcases member with old | rfl
    · exact Or.inl (recorded.lower_mem q old c inBody lower)
    · exact Or.inr ⟨inBody, lower⟩
  terminal_lower := by
    intro c member
    simp only [mem_add_terminals] at member
    simp only [add_productions, List.mem_append, List.mem_singleton]
    rcases member with old | ⟨inBody, lower⟩
    · obtain ⟨lower, q, used, inBody⟩ := recorded.terminal_lower c old
      exact ⟨lower, q, Or.inl used, inBody⟩
    · exact ⟨lower, p, Or.inr rfl, inBody⟩
  nonterminal_used := by
    intro name member
    simp only [mem_add_nonterminals] at member
    simp only [add_productions, List.mem_append, List.mem_singleton]
    rcases member with old | named | ⟨c, inBody, upper, named⟩
    · obtain ⟨q, used, source⟩ := recorded.nonterminal_used name old
      exact ⟨q, Or.inl used, source⟩
    · exact ⟨p, Or.inr rfl, Or.inl named⟩
    · exact ⟨p, Or.inr rfl, Or.inr ⟨c, inBody, upper, named⟩⟩

/-! ## Reading a text -/

theorem mem_of_mem_cutArrows {cs piece : List Char} {c : Char} (cut : piece ∈ Text.cutArrows cs)
    (inPiece : c ∈ piece) : c ∈ cs := by
  fun_induction Text.cutArrows cs generalizing piece with
  | case1 =>
      simp only [List.mem_singleton] at cut
      subst cut
      simp at inPiece
  | case2 rest ih =>
      simp only [List.mem_cons] at cut
      rcases cut with rfl | later
      · simp at inPiece
      · exact List.mem_cons_of_mem _ (List.mem_cons_of_mem _ (ih later inPiece))
  | case3 d rest _ first pieces split ih =>
      simp only [List.mem_cons] at cut
      rcases cut with rfl | later
      · simp only [List.mem_cons] at inPiece
        rcases inPiece with rfl | inFirst
        · exact List.mem_cons_self
        · exact List.mem_cons_of_mem _ (ih (split ▸ List.mem_cons_self) inFirst)
      · exact List.mem_cons_of_mem _ (ih (split ▸ List.mem_cons_of_mem _ later) inPiece)
  | case4 d rest _ split => exact absurd split (Text.cutArrows_ne_nil rest)

/-- A production read from a cleaned line has no space in its body. -/
theorem space_not_mem_of_ofLine {line : String} {p : Production}
    (read : Production.ofLine (cleanLine line) = .ok p) : ' ' ∉ p.body := by
  unfold Production.ofLine at read
  split at read
  · rename_i head body cut
    simp only [Except.ok.injEq] at read
    subst read
    intro space
    have inLine := mem_of_mem_cutArrows (cut ▸ List.mem_cons_of_mem _ List.mem_cons_self) space
    simp [cleanLine] at inLine
  · simp at read
  · simp at read

/-- A production reads back from its own text. -/
theorem ofLine_text {line : String} {p : Production} (read : Production.ofLine line = .ok p) :
    Production.ofLine p.text = .ok p := by
  have original := read
  unfold Production.ofLine at read
  split at read
  · rename_i head body cut
    simp only [Except.ok.injEq] at read
    subst read
    have same : (⟨String.ofList head, body⟩ : Production).text = line := by
      apply String.ext
      rw [← Text.joinArrows_cutArrows line.toList, cut]
      simp [Production.text, Text.joinArrows]
    rw [same]
    exact original
  · simp at read
  · simp at read

/-- What reading keeps true of every grammar read so far: its symbols are recorded, no body
holds a space, and every production reads back from its own text. -/
structure ReadShape (g : Grammar) : Prop where
  recorded : g.Recorded
  space_free : ∀ p ∈ g.productions, ' ' ∉ p.body
  reread : ∀ p ∈ g.productions, Production.ofLine p.text = .ok p

theorem readShape_addLine {g g' : Grammar} {line : String} (shape : g.ReadShape)
    (added : g.addLine line = .ok g') : g'.ReadShape := by
  unfold addLine at added
  dsimp only at added
  split at added
  · simp only [Except.ok.injEq] at added
    exact added ▸ shape
  · obtain ⟨p, read, rfl⟩ := map_eq_ok.mp added
    refine ⟨shape.recorded.add p, ?_, ?_⟩
    · intro q member
      simp only [add_productions, List.mem_append, List.mem_singleton] at member
      rcases member with old | rfl
      · exact shape.space_free q old
      · exact space_not_mem_of_ofLine read
    · intro q member
      simp only [add_productions, List.mem_append, List.mem_singleton] at member
      rcases member with old | rfl
      · exact shape.reread q old
      · exact ofLine_text read

/-- Every grammar read from a text records its symbols exactly, has no space in a body, and
has productions that read back from their texts. -/
theorem readShape_ofText {text : String} {g : Grammar} (read : ofText text = .ok g) :
    g.ReadShape := by
  apply foldlM_invariant ReadShape _ _ read
  · exact ⟨recorded_empty, by simp [empty], by simp [empty]⟩
  · intro g line g' shape _ added
    exact readShape_addLine shape added

/-! ## Well-formed grammars -/

/-- The grammars the parsers are meant for: every head is a single uppercase character, no
body holds a dot, the end marker or the empty mark, and some capital letter is neither a head
nor used in a body, so that the start production can be added. -/
structure WellFormed (g : Grammar) : Prop where
  head_upper : ∀ p ∈ g.productions, ∃ X, Text.isUppercase X = true ∧ p.head = X.toString
  body_plain : ∀ p ∈ g.productions, '.' ∉ p.body ∧ endMarker ∉ p.body ∧ emptyMark ∉ p.body
  letter_free : ∃ z, 'A' ≤ z ∧ z ≤ 'Z' ∧ ∀ p ∈ g.productions, p.head ≠ z.toString ∧ z ∉ p.body

/-- Whether a production has the shape that `WellFormed` asks for, with `z` unused: a head of
one uppercase character, and a body without a dot, the end marker, the empty mark or `z`. -/
def plainProduction (z : Char) (p : Production) : Bool :=
  (match p.head.toList with
    | [X] => Text.isUppercase X
    | _ => false) &&
  !p.body.contains '.' && !p.body.contains endMarker && !p.body.contains emptyMark &&
  p.head != z.toString && !p.body.contains z

/-- A grammar whose productions are all plain, with a capital letter `z` unused, is well
formed. -/
theorem wellFormed_of_plain {g : Grammar} (z : Char) (capital : 'A' ≤ z ∧ z ≤ 'Z')
    (plain : g.productions.all (plainProduction z) = true) : g.WellFormed := by
  have each : ∀ p ∈ g.productions, plainProduction z p = true := List.all_eq_true.mp plain
  refine ⟨?_, ?_, ⟨z, capital.1, capital.2, ?_⟩⟩
  · intro p member
    have checked := each p member
    simp only [plainProduction, Bool.and_eq_true] at checked
    obtain ⟨⟨⟨⟨⟨headChecked, _⟩, _⟩, _⟩, _⟩, _⟩ := checked
    split at headChecked
    · rename_i X chars
      exact ⟨X, headChecked, String.ext (by simp [chars])⟩
    · exact absurd headChecked Bool.false_ne_true
  · intro p member
    have checked := each p member
    simp only [plainProduction, Bool.and_eq_true, Bool.not_eq_true', List.contains_eq_mem,
      decide_eq_false_iff_not] at checked
    exact ⟨checked.1.1.1.1.2, checked.1.1.1.2, checked.1.1.2⟩
  · intro p member
    have checked := each p member
    simp only [plainProduction, Bool.and_eq_true, Bool.not_eq_true', List.contains_eq_mem,
      decide_eq_false_iff_not, bne_iff_ne] at checked
    exact ⟨checked.1.2, checked.2⟩

theorem isTerminalName_iff {g : Grammar} {name : String} :
    g.isTerminalName name = true ↔ ∃ c ∈ g.terminals, name = c.toString := by
  simp only [isTerminalName, List.any_eq_true, beq_iff_eq]
  constructor
  · intro ⟨c, member, named⟩
    exact ⟨c, member, named.symm⟩
  · intro ⟨c, member, named⟩
    exact ⟨c, member, named.symm⟩

theorem isNonterminal_iff {g : Grammar} {name : String} :
    g.isNonterminal name = true ↔ name ∈ g.nonterminals := by
  simp [isNonterminal]

variable {g : Grammar}

/-- Over a recorded well-formed grammar every nonterminal is named by one uppercase
character. -/
theorem nonterminal_upper (recorded : g.Recorded) (wellFormed : g.WellFormed) {name : String}
    (member : name ∈ g.nonterminals) : ∃ X, Text.isUppercase X = true ∧ name = X.toString := by
  obtain ⟨p, used, source⟩ := recorded.nonterminal_used name member
  rcases source with isHead | ⟨c, _, upper, named⟩
  · exact isHead ▸ wellFormed.head_upper p used
  · exact ⟨c, upper, named⟩

theorem terminal_not_upper (recorded : g.Recorded) {c : Char} (member : c ∈ g.terminals) :
    Text.isUppercase c = false :=
  (recorded.terminal_lower c member).1

/-- The end marker is not a terminal of a recorded well-formed grammar. -/
theorem endMarker_not_mem_terminals (recorded : g.Recorded) (wellFormed : g.WellFormed) :
    endMarker ∉ g.terminals := by
  intro member
  obtain ⟨_, p, used, inBody⟩ := recorded.terminal_lower endMarker member
  exact (wellFormed.body_plain p used).2.1 inBody

/-! ## FIRST sets -/

/-- A set of terminals and possibly the empty mark, as FIRST sets are. -/
def FirstLike (g : Grammar) (s : CharSet) : Prop :=
  ∀ d ∈ s, d ∈ g.terminals ∨ d = emptyMark

theorem firstLike_union {s t : CharSet} (left : g.FirstLike s) (right : g.FirstLike t) :
    g.FirstLike (s.union t) := by
  intro d member
  rcases CharSet.mem_union.mp member with inLeft | inRight
  · exact left d inLeft
  · exact right d inRight

theorem firstLike_erase {s : CharSet} (like : g.FirstLike s) (c : Char) :
    g.FirstLike (s.erase c) :=
  fun d member => like d (CharSet.mem_erase.mp member).2

theorem firstLike_emptyMark : g.FirstLike (.single emptyMark) := by
  intro d member
  exact Or.inr (CharSet.mem_single.mp member)

/-! ### What every FIRST set has -/

section Invariant

/-- A property of character sets that the computation of FIRST sets keeps: the empty set
and the empty mark's set have it, the FIRST set of each terminal has it, adding a set that
has it keeps it, and so does taking out the empty mark. -/
structure FirstInvariant (g : Grammar) (P : CharSet → Prop) : Prop where
  empty : P CharSet.empty
  mark : P (.single emptyMark)
  terminal : ∀ c ∈ g.terminals, P (CharSet.ofList c.toString.toList)
  union : ∀ s t, P s → P t → P (s.union t)
  erase : ∀ s, P s → P (s.erase emptyMark)

variable {P : CharSet → Prop}

theorem FirstInvariant.own (inv : g.FirstInvariant P) {name : String} {acc more result : CharSet}
    (accHolds : P acc) (moreHolds : P more) (owned : g.own name acc more = .ok result) :
    P result := by
  unfold Grammar.own at owned
  split at owned
  · simp only [Except.ok.injEq] at owned
    exact owned ▸ inv.union acc more accHolds moreHolds
  · simp at owned

theorem FirstInvariant.bodyFirst (inv : g.FirstInvariant P) {name : String}
    {child : Char → Except Fault CharSet} (children : ∀ y t, child y = .ok t → P t)
    {body : List Char} {acc result : CharSet} (accHolds : P acc)
    (read : g.bodyFirst name child body acc = .ok result) : P result := by
  induction body generalizing acc with
  | nil =>
      simp only [Grammar.bodyFirst, Except.ok.injEq] at read
      exact read ▸ accHolds
  | cons y rest ih =>
      unfold Grammar.bodyFirst at read
      split at read
      · exact ih accHolds read
      · obtain ⟨t, found, next⟩ := bind_eq_ok.mp read
        obtain ⟨acc', owned, next⟩ := bind_eq_ok.mp next
        have acc'Holds := inv.own accHolds (inv.erase t (children y t found)) owned
        split at next
        · simp only [Except.ok.injEq] at next
          exact next ▸ acc'Holds
        · split at next
          · exact inv.own acc'Holds inv.mark next
          · exact ih acc'Holds next

theorem FirstInvariant.firstFrame (inv : g.FirstInvariant P) {name : String}
    {child : Char → Except Fault CharSet} (children : ∀ y t, child y = .ok t → P t)
    {result : CharSet} (read : g.firstFrame name child = .ok result) : P result := by
  unfold Grammar.firstFrame at read
  obtain ⟨acc, folded, checked⟩ := bind_eq_ok.mp read
  have accHolds : P acc := by
    apply foldlM_invariant P inv.empty _ folded
    intro acc p acc' holds _ step
    split at step
    · simp only [Except.ok.injEq] at step
      exact step ▸ holds
    · split at step
      · exact inv.own holds inv.mark step
      · exact inv.bodyFirst children holds step
  split at checked
  · simp only [Except.ok.injEq] at checked
    exact checked ▸ accHolds
  · simp at checked

/-- Every FIRST set has a property that the computation keeps. -/
theorem FirstInvariant.firstWithin (inv : g.FirstInvariant P) {fuel : Nat} {path : List String}
    {name : String} {result : CharSet} (read : g.firstWithin fuel path name = .ok result) :
    P result := by
  induction fuel generalizing path name result with
  | zero => simp [Grammar.firstWithin] at read
  | succ fuel ih =>
      unfold Grammar.firstWithin at read
      split at read
      · rename_i terminal
        simp only [Except.ok.injEq] at read
        obtain ⟨c, member, rfl⟩ := isTerminalName_iff.mp terminal
        exact read ▸ inv.terminal c member
      · split at read
        · simp at read
        · exact inv.firstFrame (fun _ _ found => ih found) read

end Invariant

theorem firstInvariant_firstLike : g.FirstInvariant g.FirstLike where
  empty d member := absurd member (CharSet.not_mem_empty d)
  mark := firstLike_emptyMark
  terminal c member d inSet := by
    simp only [CharSet.mem_ofList, Char.toString_eq_singleton, String.toList_singleton,
      List.mem_singleton] at inSet
    exact Or.inl (inSet ▸ member)
  union _ _ left right := firstLike_union left right
  erase _ like := firstLike_erase like emptyMark

theorem firstInvariant_ascending : g.FirstInvariant CharSet.Ascending where
  empty := CharSet.ascending_empty
  mark := CharSet.ascending_single emptyMark
  terminal _ _ := CharSet.ascending_ofList _
  union _ t ascending _ := ascending.union t
  erase _ ascending := ascending.erase emptyMark

/-- FIRST sets hold terminals and the empty mark only. -/
theorem firstLike_firstWithin {fuel : Nat} {path : List String} {name : String}
    {result : CharSet} (read : g.firstWithin fuel path name = .ok result) :
    g.FirstLike result :=
  firstInvariant_firstLike.firstWithin read

theorem firstLike_firstOfChar {c : Char} {result : CharSet}
    (read : g.firstOfChar c = .ok result) : g.FirstLike result :=
  firstLike_firstWithin read

end Grammar

end GrammarBench
