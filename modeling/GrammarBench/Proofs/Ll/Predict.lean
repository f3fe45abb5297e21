import Mathlib.Data.List.Duplicate
import GrammarBench.Proofs.Ll.Table
import GrammarBench.Proofs.Sets.Follow

/-!
# The LL(1) table against its specification

The table builder enters each production `A->β`, in order, in the columns that it predicts
(`LlTable.Predicts`): the FIRST set of `β`, read over the kept FIRST sets, without the empty
mark, and, when that set holds the empty mark, the FOLLOW set of `A`. It stops at the first
cell that already holds a production. Read as one list of entries (`LlTable.entries`), the
build is a run of `LlTable.enter` over a table of empty cells; such a run fails exactly at the
first entry into a cell entered before, and otherwise leaves in every cell the one text
entered there (`LlTable.enterAll_grid_eq_ok`, `LlTable.duplicate_of_enterAll_grid`).

So the builder reports a conflict exactly when some cell is written twice, by two productions
of one head that both predict the column, or by one production whose FIRST part and FOLLOW
part share the column (`LlTable.WrittenTwice`), and the cell it names is such a cell. Without
a conflict every cell holds the one production that predicts it, or nothing. FIRST and FOLLOW
sets are listed in ascending order, so neither part of one production names a column twice.

Main statement: `LlTable.build_eq_spec`.
-/

namespace GrammarBench

theorem Production.text_ne_empty (p : Production) : p.text ≠ "" := by
  intro empty
  have length := congrArg String.length empty
  simp [Production.text] at length

/-- The FIRST set of a body, read over kept sets that have a property the computation of FIRST
sets keeps, has it too. -/
theorem Grammar.FirstInvariant.bodyPredict {g : Grammar} {P : CharSet → Prop}
    (inv : g.FirstInvariant P) {kept : String → CharSet} (keptHas : ∀ name, P (kept name))
    (body : List Char) : P (bodyPredict g kept body) := by
  induction body with
  | nil => exact inv.mark
  | cons y rest ih =>
      unfold GrammarBench.bodyPredict
      split
      · rename_i terminal
        have own := inv.terminal y (List.contains_iff_mem.mp terminal)
        simpa [CharSet.ofList, CharSet.insert, CharSet.empty, CharSet.single,
          insertAscending] using own
      · dsimp only
        split
        · exact inv.union _ _ (inv.erase _ (keptHas _)) ih
        · exact keptHas _

namespace LlTable

variable {g : Grammar}

/-! ## Tables as cell functions -/

/-- The table over the nonterminals and the columns of `g` whose cell in row `A` and column
`c` holds `f A c`. -/
def grid (g : Grammar) (f : String → Char → String) : LlTable :=
  ⟨g.nonterminals.map fun name => (name, (columns g).map fun c => (c, f name c))⟩

theorem blank_eq_grid : blank g = grid g fun _ _ => "" := rfl

theorem lookup_map_pair {α β : Type} [BEq α] [LawfulBEq α] (keys : List α) (value : α → β)
    (a : α) : (keys.map fun k => (k, value k)).lookup a =
      if a ∈ keys then some (value a) else none := by
  induction keys with
  | nil => simp
  | cons k rest ih =>
      by_cases same : a = k
      · subst same
        simp
      · have differ : (a == k) = false := beq_eq_false_iff_ne.mpr same
        simp [List.lookup_cons, differ, same, ih]

theorem cell_grid {f : String → Char → String} {A : String} {c : Char}
    (row : A ∈ g.nonterminals) (column : c ∈ columns g) : (grid g f).cell A c = f A c := by
  simp [cell, grid, lookup_map_pair, row, column]

/-- The cell function with `text` written in row `A` and column `c`. -/
def write (f : String → Char → String) (A : String) (c : Char) (text : String) :
    String → Char → String :=
  fun B d => if B = A ∧ d = c then text else f B d

/-- Entering a text in an empty cell of a grid writes it there; a cell that holds a text is a
conflict. -/
theorem enter_grid (f : String → Char → String) {A : String} {c : Char}
    (row : A ∈ g.nonterminals) (column : c ∈ columns g) (text : String) :
    (grid g f).enter A c text =
      if f A c = "" then .ok (grid g (write f A c text)) else .error ⟨A, c⟩ := by
  unfold enter
  rw [cell_grid row column]
  by_cases empty : f A c = ""
  · simp only [empty, bne_self_eq_false, Bool.false_eq_true, if_false, if_true,
      Except.ok.injEq]
    simp only [grid, List.map_map, LlTable.mk.injEq]
    apply List.map_congr_left
    intro name _
    by_cases same : name = A
    · subst same
      simp only [write, true_and, List.map_map, Function.comp_def, beq_self_eq_true, if_true]
      congr 1
      apply List.map_congr_left
      intro d _
      by_cases hit : d = c <;> simp [hit]
    · simp [write, same]
  · simp [empty]

/-! ## Runs of entries -/

/-- One entry of the builder: a production text for the cell of a row and a column. -/
structure Entry where
  row : String
  column : Char
  text : String

/-- The cell an entry is for. -/
def Entry.cell (e : Entry) : String × Char := (e.row, e.column)

/-- The entry is for a cell of the table and writes a text. -/
def Entry.Fits (g : Grammar) (e : Entry) : Prop :=
  e.row ∈ g.nonterminals ∧ e.column ∈ columns g ∧ e.text ≠ ""

/-- Makes the entries in order, stopping at the first conflict. -/
def enterAll (t : LlTable) (entries : List Entry) : Except LlConflict LlTable :=
  entries.foldlM (fun t e => t.enter e.row e.column e.text) t

/-- The cell function after the entries, each written over what is there. -/
def writeAll (f : String → Char → String) (entries : List Entry) : String → Char → String :=
  entries.foldl (fun f e => write f e.row e.column e.text) f

theorem enterAll_cons (t : LlTable) (e : Entry) (rest : List Entry) :
    enterAll t (e :: rest) = t.enter e.row e.column e.text >>= fun t => enterAll t rest :=
  rfl

section Run

variable {entries : List Entry} {f : String → Char → String}

theorem write_of_ne {A : String} {d : Char} {e : Entry} (other : e.cell ≠ (A, d)) :
    write f e.row e.column e.text A d = f A d := by
  have differ : ¬(A = e.row ∧ d = e.column) := by
    rintro ⟨rfl, rfl⟩
    exact other rfl
  simp [write, differ]

/-- A cell that no entry is for keeps its text. -/
theorem writeAll_of_not_mem {A : String} {d : Char}
    (untouched : (A, d) ∉ entries.map Entry.cell) : writeAll f entries A d = f A d := by
  induction entries generalizing f with
  | nil => rfl
  | cons e rest ih =>
      simp only [List.map_cons, List.mem_cons, not_or] at untouched
      have other : e.cell ≠ (A, d) := fun same => untouched.1 same.symm
      rw [writeAll, List.foldl_cons, ← writeAll, ih untouched.2, write_of_ne other]

/-- Among entries for distinct cells, each leaves its text in its cell. -/
theorem writeAll_of_mem (distinct : (entries.map Entry.cell).Nodup) {e : Entry}
    (member : e ∈ entries) : writeAll f entries e.row e.column = e.text := by
  induction entries generalizing f with
  | nil => cases member
  | cons e' rest ih =>
      rw [List.map_cons, List.nodup_cons] at distinct
      rw [writeAll, List.foldl_cons, ← writeAll]
      rcases List.mem_cons.mp member with rfl | later
      · rw [writeAll_of_not_mem distinct.1]
        simp [write]
      · exact ih distinct.2 later

/-- Entries for distinct empty cells of a grid all go through, and the grid then holds
their texts. -/
theorem enterAll_grid_eq_ok (fits : ∀ e ∈ entries, e.Fits g)
    (distinct : (entries.map Entry.cell).Nodup) (free : ∀ e ∈ entries, f e.row e.column = "") :
    enterAll (grid g f) entries = .ok (grid g (writeAll f entries)) := by
  induction entries generalizing f with
  | nil => rfl
  | cons e rest ih =>
      obtain ⟨row, column, _⟩ := fits e List.mem_cons_self
      rw [List.map_cons, List.nodup_cons] at distinct
      rw [enterAll_cons, enter_grid f row column, if_pos (free e List.mem_cons_self)]
      refine ih (fun e' later => fits e' (List.mem_cons_of_mem e later)) distinct.2 ?_
      intro e' later
      have other : e.cell ≠ e'.cell := fun same =>
        distinct.1 (same ▸ List.mem_map_of_mem later)
      rw [write_of_ne other]
      exact free e' (List.mem_cons_of_mem e later)

/-- A run that goes through made entries for distinct cells, each empty before: a later entry
for the same cell would find the text of the earlier one there. -/
theorem distinct_of_enterAll_grid (fits : ∀ e ∈ entries, e.Fits g) {t : LlTable}
    (run : enterAll (grid g f) entries = .ok t) :
    (entries.map Entry.cell).Nodup ∧ ∀ e ∈ entries, f e.row e.column = "" := by
  induction entries generalizing f with
  | nil => simp
  | cons e rest ih =>
      obtain ⟨row, column, written⟩ := fits e List.mem_cons_self
      rw [enterAll_cons, enter_grid f row column] at run
      by_cases free : f e.row e.column = ""
      · rw [if_pos free] at run
        obtain ⟨distinct, rest_free⟩ :=
          ih (fun e' later => fits e' (List.mem_cons_of_mem e later)) run
        have fresh : ∀ e' ∈ rest, e.cell ≠ e'.cell := by
          intro e' later same
          have found := rest_free e' later
          simp only [write, Entry.cell, Prod.mk.injEq] at same found
          rw [if_pos ⟨same.1.symm, same.2.symm⟩] at found
          exact written found
        refine ⟨?_, ?_⟩
        · rw [List.map_cons, List.nodup_cons]
          refine ⟨fun member => ?_, distinct⟩
          obtain ⟨e', later, same⟩ := List.mem_map.mp member
          exact fresh e' later same.symm
        · intro e' member
          rcases List.mem_cons.mp member with rfl | later
          · exact free
          · have found := rest_free e' later
            rwa [write_of_ne (fresh e' later)] at found
      · rw [if_neg free] at run
        cases run

/-- A run that fails stops at an entry for a cell that held a text before the run, or for a
cell entered twice. -/
theorem duplicate_of_enterAll_grid (fits : ∀ e ∈ entries, e.Fits g) {c : LlConflict}
    (run : enterAll (grid g f) entries = .error c) :
    (f c.head c.terminal ≠ "" ∧ (c.head, c.terminal) ∈ entries.map Entry.cell) ∨
      List.Duplicate (c.head, c.terminal) (entries.map Entry.cell) := by
  induction entries generalizing f with
  | nil => cases run
  | cons e rest ih =>
      obtain ⟨row, column, written⟩ := fits e List.mem_cons_self
      rw [enterAll_cons, enter_grid f row column] at run
      by_cases free : f e.row e.column = ""
      · rw [if_pos free] at run
        rw [List.map_cons]
        rcases ih (fun e' later => fits e' (List.mem_cons_of_mem e later)) run with
          ⟨held, later⟩ | twice
        · by_cases same : e.cell = (c.head, c.terminal)
          · exact Or.inr (same ▸ List.duplicate_cons_self_iff.mpr (same ▸ later))
          · rw [write_of_ne same] at held
            exact Or.inl ⟨held, List.mem_cons_of_mem _ later⟩
        · exact Or.inr (twice.duplicate_cons e.cell)
      · rw [if_neg free] at run
        cases run
        exact Or.inl ⟨free, List.mem_cons_self⟩

end Run

/-! ## The builder's entries -/

section Builder

variable {firsts : List (String × CharSet)} {follows : FollowSets}

/-- The kept FIRST sets, by name, as the builder reads them: a name with none reads empty. -/
def keptOf (firsts : List (String × CharSet)) (name : String) : CharSet :=
  (firsts.lookup name).getD CharSet.empty

/-- The FIRST set of a production's body, read over the kept FIRST sets. -/
def bodySet (g : Grammar) (firsts : List (String × CharSet)) (p : Production) : CharSet :=
  predictFirst g (keptOf firsts) p.body

/-- The columns the builder enters a production in: its FIRST part, then its FOLLOW part. -/
def columnsOf (g : Grammar) (firsts : List (String × CharSet)) (follows : FollowSets)
    (p : Production) : List Char :=
  ((bodySet g firsts p).erase emptyMark).toList ++
    if (bodySet g firsts p).contains emptyMark then (follows.get p.head).toList else []

/-- The builder's entries, production by production. -/
def entries (g : Grammar) (firsts : List (String × CharSet)) (follows : FollowSets) :
    List Entry :=
  g.productions.flatMap fun p => (columnsOf g firsts follows p).map fun c => ⟨p.head, c, p.text⟩

theorem enterAll_append (t : LlTable) (xs ys : List Entry) :
    enterAll t (xs ++ ys) = enterAll t xs >>= fun t => enterAll t ys :=
  List.foldlM_append

/-- The builder makes its entries in order over the blank table. -/
theorem build_eq_enterAll : build g firsts follows = enterAll (blank g) (entries g firsts follows) := by
  unfold build entries
  generalize blank g = t
  generalize g.productions = ps
  induction ps generalizing t with
  | nil => rfl
  | cons p rest ih =>
      dsimp only at ih ⊢
      rw [List.foldlM_cons, List.flatMap_cons, enterAll_append]
      simp only [ih]
      congr 1
      have kept : (fun name => (firsts.lookup name).getD CharSet.empty) = keptOf firsts := rfl
      rw [kept, columnsOf, List.map_append, enterAll_append]
      simp only [enterAll, List.foldlM_map, bodySet]
      split
      · rename_i vanishes
        simp only [vanishes, if_true]
      · rename_i stays
        simp only [stays, Bool.false_eq_true, if_false, List.foldlM_nil]

/-- `p` predicts the column `t`: `t` is in the FIRST set of its body without the empty mark,
or that set holds the empty mark and `t` is in the FOLLOW set of its head. -/
def Predicts (g : Grammar) (firsts : List (String × CharSet)) (follows : FollowSets)
    (p : Production) (t : Char) : Prop :=
  t ∈ (bodySet g firsts p).erase emptyMark ∨
    (emptyMark ∈ bodySet g firsts p ∧ t ∈ follows.get p.head)

/-- The cell of row `A` and column `t` is written twice: by two productions of `A`, at two
places of the grammar, that both predict `t`, or by one production of `A` whose FIRST part
and FOLLOW part both hold `t`. -/
def WrittenTwice (g : Grammar) (firsts : List (String × CharSet)) (follows : FollowSets)
    (A : String) (t : Char) : Prop :=
  (∃ p q, List.Sublist [p, q] g.productions ∧ p.head = A ∧ q.head = A ∧
      Predicts g firsts follows p t ∧ Predicts g firsts follows q t) ∨
    ∃ p ∈ g.productions, p.head = A ∧ t ∈ (bodySet g firsts p).erase emptyMark ∧
      emptyMark ∈ bodySet g firsts p ∧ t ∈ follows.get A

theorem mem_columnsOf {p : Production} {t : Char} :
    t ∈ columnsOf g firsts follows p ↔ Predicts g firsts follows p t := by
  by_cases vanishes : emptyMark ∈ bodySet g firsts p <;> simp [columnsOf, Predicts, vanishes]

theorem cells_entries : (entries g firsts follows).map Entry.cell =
    g.productions.flatMap fun p => (columnsOf g firsts follows p).map fun c => (p.head, c) := by
  simp [entries, List.map_flatMap, Entry.cell, Function.comp_def]

/-! ## Where the entries go -/

theorem keptOf_has {P : CharSet → Prop} (inv : g.FirstInvariant P)
    (computed : g.firstSets = .ok firsts) (name : String) : P (keptOf firsts name) := by
  unfold keptOf
  cases found : firsts.lookup name with
  | none => exact inv.empty
  | some s => exact Grammar.firstSets_invariant inv computed _ (mem_of_lookup_eq_some found)

theorem bodySet_has {P : CharSet → Prop} (inv : g.FirstInvariant P)
    (computed : g.firstSets = .ok firsts) (p : Production) : P (bodySet g firsts p) :=
  inv.bodyPredict (keptOf_has inv computed) p.body

theorem mem_columns {c : Char} : c ∈ columns g ↔ c ∈ g.terminals ∨ c = endMarker := by
  unfold columns
  split
  · rename_i listed
    constructor
    · exact Or.inl
    · rintro (terminal | rfl)
      · exact terminal
      · exact List.contains_iff_mem.mp listed
  · simp

/-- Every column a production predicts is a column of the table: FIRST sets hold terminals
and the empty mark, FOLLOW sets terminals and the end marker. -/
theorem mem_columns_of_predicts (computed : g.firstSets = .ok firsts)
    (followed : g.followSets = .ok follows) {p : Production} {t : Char}
    (predicts : Predicts g firsts follows p t) : t ∈ columns g := by
  rw [mem_columns]
  rcases predicts with first | ⟨_, follow⟩
  · obtain ⟨notMark, member⟩ := CharSet.mem_erase.mp first
    rcases bodySet_has Grammar.firstInvariant_firstLike computed p t member with terminal | mark
    · exact Or.inl terminal
    · exact absurd mark notMark
  · exact ((Grammar.followSets_shaped followed).get p.head).2 t follow

/-- Every entry of the builder is for a cell of the table and writes a production's text. -/
theorem entries_fit (recorded : g.Recorded) (computed : g.firstSets = .ok firsts)
    (followed : g.followSets = .ok follows) : ∀ e ∈ entries g firsts follows, e.Fits g := by
  intro e member
  obtain ⟨p, used, entry⟩ := List.mem_flatMap.mp member
  obtain ⟨c, column, rfl⟩ := List.mem_map.mp entry
  exact ⟨recorded.head_mem p used,
    mem_columns_of_predicts computed followed (mem_columnsOf.mp column), p.text_ne_empty⟩

/-! ## Cells written twice -/

theorem duplicate_append_iff {α : Type} [DecidableEq α] {u v : List α} {x : α} :
    List.Duplicate x (u ++ v) ↔
      List.Duplicate x u ∨ List.Duplicate x v ∨ (x ∈ u ∧ x ∈ v) := by
  simp only [List.duplicate_iff_two_le_count, List.count_append, ← List.count_pos_iff]
  omega

/-- An element is twice in the lists of a list's members when it is twice in the list of one
member, or in the lists of two members at two places. -/
theorem duplicate_flatMap_iff {α β : Type} [DecidableEq β] {l : List α} {F : α → List β}
    {x : β} : List.Duplicate x (l.flatMap F) ↔
      (∃ a ∈ l, List.Duplicate x (F a)) ∨ ∃ a b, List.Sublist [a, b] l ∧ x ∈ F a ∧ x ∈ F b := by
  induction l with
  | nil => simp [List.not_duplicate_nil]
  | cons a l ih =>
      rw [List.flatMap_cons, duplicate_append_iff, ih]
      constructor
      · rintro (here | (⟨b, later, twice⟩ | ⟨b, c, pair, inB, inC⟩) | ⟨inA, inRest⟩)
        · exact Or.inl ⟨a, List.mem_cons_self, here⟩
        · exact Or.inl ⟨b, List.mem_cons_of_mem a later, twice⟩
        · exact Or.inr ⟨b, c, pair.cons a, inB, inC⟩
        · obtain ⟨b, later, inB⟩ := List.mem_flatMap.mp inRest
          exact Or.inr ⟨a, b, List.cons_sublist_cons.mpr (List.singleton_sublist.mpr later),
            inA, inB⟩
      · rintro (⟨b, member, twice⟩ | ⟨b, c, pair, inB, inC⟩)
        · rcases List.mem_cons.mp member with rfl | later
          · exact Or.inl twice
          · exact Or.inr (Or.inl (Or.inl ⟨b, later, twice⟩))
        · rcases List.sublist_cons_iff.mp pair with pair | ⟨r, first, rest⟩
          · exact Or.inr (Or.inl (Or.inr ⟨b, c, pair, inB, inC⟩))
          · simp only [List.cons.injEq] at first
            obtain ⟨rfl, rfl⟩ := first
            exact Or.inr (Or.inr ⟨inB,
              List.mem_flatMap.mpr ⟨c, List.singleton_sublist.mp rest, inC⟩⟩)

theorem duplicate_map_pair {α β : Type} {a x : α} {l : List β} {y : β} :
    List.Duplicate (x, y) (l.map fun b => (a, b)) ↔ a = x ∧ List.Duplicate y l := by
  induction l with
  | nil => simp [List.not_duplicate_nil]
  | cons b l ih =>
      simp only [List.map_cons, List.duplicate_cons_iff, ih, Prod.mk.injEq, List.mem_map]
      constructor
      · rintro (⟨⟨rfl, rfl⟩, _, member, same⟩ | ⟨rfl, twice⟩)
        · simp only [true_and] at same
          exact ⟨rfl, Or.inl ⟨rfl, same ▸ member⟩⟩
        · exact ⟨rfl, Or.inr twice⟩
      · rintro ⟨rfl, ⟨rfl, member⟩ | twice⟩
        · exact Or.inl ⟨⟨rfl, rfl⟩, b, member, rfl, rfl⟩
        · exact Or.inr ⟨rfl, twice⟩

/-- One production names a column twice only when its FIRST part and its FOLLOW part both
hold it: each part is listed in ascending order. -/
theorem duplicate_columnsOf_iff {p : Production} {t : Char}
    (bodyAscending : (bodySet g firsts p).Ascending)
    (followAscending : (follows.get p.head).Ascending) :
    List.Duplicate t (columnsOf g firsts follows p) ↔
      t ∈ (bodySet g firsts p).erase emptyMark ∧ emptyMark ∈ bodySet g firsts p ∧
        t ∈ follows.get p.head := by
  have firstPart : ¬ List.Duplicate t ((bodySet g firsts p).erase emptyMark).toList :=
    fun twice => twice.not_nodup (bodyAscending.erase emptyMark).nodup
  have followPart : ¬ List.Duplicate t (follows.get p.head).toList :=
    fun twice => twice.not_nodup followAscending.nodup
  by_cases vanishes : emptyMark ∈ bodySet g firsts p
  · simp [columnsOf, vanishes, duplicate_append_iff, firstPart, followPart]
  · simp [columnsOf, vanishes, firstPart]

theorem mem_row_iff {p : Production} {A : String} {t : Char} :
    (A, t) ∈ (columnsOf g firsts follows p).map (fun c => (p.head, c)) ↔
      p.head = A ∧ Predicts g firsts follows p t := by
  simp [mem_columnsOf, and_comm]

/-- The builder enters a cell twice exactly when the cell is written twice. -/
theorem duplicate_cells_iff
    (ascending : ∀ p ∈ g.productions,
      (bodySet g firsts p).Ascending ∧ (follows.get p.head).Ascending)
    {A : String} {t : Char} :
    List.Duplicate (A, t) ((entries g firsts follows).map Entry.cell) ↔
      WrittenTwice g firsts follows A t := by
  rw [cells_entries, duplicate_flatMap_iff]
  constructor
  · rintro (⟨p, used, twice⟩ | ⟨p, q, pair, inP, inQ⟩)
    · obtain ⟨head, twice⟩ := duplicate_map_pair.mp twice
      obtain ⟨first, vanishes, follow⟩ :=
        (duplicate_columnsOf_iff (ascending p used).1 (ascending p used).2).mp twice
      exact Or.inr ⟨p, used, head, first, vanishes, head ▸ follow⟩
    · obtain ⟨headP, predictsP⟩ := mem_row_iff.mp inP
      obtain ⟨headQ, predictsQ⟩ := mem_row_iff.mp inQ
      exact Or.inl ⟨p, q, pair, headP, headQ, predictsP, predictsQ⟩
  · rintro (⟨p, q, pair, headP, headQ, predictsP, predictsQ⟩ |
      ⟨p, used, head, first, vanishes, follow⟩)
    · exact Or.inr ⟨p, q, pair, mem_row_iff.mpr ⟨headP, predictsP⟩,
        mem_row_iff.mpr ⟨headQ, predictsQ⟩⟩
    · refine Or.inl ⟨p, used, duplicate_map_pair.mpr ⟨head, ?_⟩⟩
      subst head
      exact (duplicate_columnsOf_iff (ascending p used).1 (ascending p used).2).mpr
        ⟨first, vanishes, follow⟩

/-! ## The table against its specification -/

/-- The LL(1) table builder meets its specification, over a grammar as reading records it and
the FIRST and FOLLOW sets computed from it. Every cell it reads or writes exists: the row of
each head, the column of each predicted character, and the kept FIRST set of each nonterminal
of a body. It reports a conflict exactly when some cell is written twice, and the cell it
names is such a cell. Otherwise each cell holds the text of the one production that predicts
it, or is empty when none does. -/
theorem build_spec {text : String} (read : Grammar.ofText text = .ok g)
    (computed : g.firstSets = .ok firsts) (followed : g.followSets = .ok follows) :
    (∀ p ∈ g.productions, p.head ∈ g.nonterminals ∧
      (∀ y ∈ p.body, y ∈ g.terminals ∨ y.toString ∈ firsts.map Prod.fst) ∧
      ∀ t, Predicts g firsts follows p t → t ∈ columns g) ∧
    ((∃ c, build g firsts follows = .error c) ↔ ∃ A t, WrittenTwice g firsts follows A t) ∧
    (∀ c, build g firsts follows = .error c →
      WrittenTwice g firsts follows c.head c.terminal) ∧
    ∀ table, build g firsts follows = .ok table →
      ∀ A ∈ g.nonterminals, ∀ t ∈ columns g,
        (table.cell A t = "" ∧ ∀ p ∈ g.productions, p.head = A →
          ¬ Predicts g firsts follows p t) ∨
        ∃ p ∈ g.productions, p.head = A ∧ Predicts g firsts follows p t ∧
          table.cell A t = p.text ∧ ¬ WrittenTwice g firsts follows A t := by
  have recorded := (Grammar.readShape_ofText read).recorded
  have fits := entries_fit recorded computed followed
  have twice : ∀ A t, List.Duplicate (A, t) ((entries g firsts follows).map Entry.cell) ↔
      WrittenTwice g firsts follows A t := fun _ _ =>
    duplicate_cells_iff fun p _ => ⟨bodySet_has Grammar.firstInvariant_ascending computed p,
      ((Grammar.followSets_shaped followed).get p.head).1⟩
  rw [build_eq_enterAll, blank_eq_grid]
  have named : ∀ c, enterAll (grid g fun _ _ => "") (entries g firsts follows) = .error c →
      WrittenTwice g firsts follows c.head c.terminal := by
    intro c failed
    rcases duplicate_of_enterAll_grid fits failed with ⟨held, _⟩ | entered
    · exact absurd rfl held
    · exact (twice _ _).mp entered
  refine ⟨?cells, ⟨?fails, ?written⟩, named, ?table⟩
  case cells =>
    intro p used
    refine ⟨recorded.head_mem p used, fun y inBody => ?_,
      fun t => mem_columns_of_predicts computed followed⟩
    cases upper : Text.isUppercase y
    · exact Or.inl (recorded.lower_mem p used y inBody upper)
    · rw [(Grammar.firstSets_eq_ok computed).1]
      exact Or.inr (recorded.upper_mem p used y inBody upper)
  case fails =>
    rintro ⟨c, failed⟩
    exact ⟨c.head, c.terminal, named c failed⟩
  case written =>
    rintro ⟨A, t, written⟩
    cases run : enterAll (grid g fun _ _ => "") (entries g firsts follows) with
    | error c => exact ⟨c, rfl⟩
    | ok table =>
        have distinct := (distinct_of_enterAll_grid fits run).1
        exact absurd distinct ((twice A t).mpr written).not_nodup
  case table =>
    intro table run A row t column
    have distinct := (distinct_of_enterAll_grid fits run).1
    rw [enterAll_grid_eq_ok fits distinct fun _ _ => rfl, Except.ok.injEq] at run
    subst run
    rw [cell_grid row column]
    by_cases predicted : ∃ p ∈ g.productions, p.head = A ∧ Predicts g firsts follows p t
    · obtain ⟨p, used, head, predicts⟩ := predicted
      have member : (⟨A, t, p.text⟩ : Entry) ∈ entries g firsts follows :=
        List.mem_flatMap.mpr ⟨p, used, List.mem_map.mpr ⟨t, mem_columnsOf.mpr predicts, by rw [head]⟩⟩
      exact Or.inr ⟨p, used, head, predicts, writeAll_of_mem distinct member,
        fun written => ((twice A t).mpr written).not_nodup distinct⟩
    · refine Or.inl ⟨writeAll_of_not_mem fun inCells => ?_,
        fun p used head predicts => predicted ⟨p, used, head, predicts⟩⟩
      rw [cells_entries] at inCells
      obtain ⟨p, used, inRow⟩ := List.mem_flatMap.mp inCells
      exact predicted ⟨p, used, mem_row_iff.mp inRow⟩

/-- The specification at `S->Aa`, `A->a`, `A->`, whose table has a conflict: `A->a` and `A->`
both predict `a`, the second through the FOLLOW set of `A`. -/
theorem build_spec_vanishing_conflict :
    ∃ g firsts follows, Grammar.ofText "S->Aa\nA->a\nA->" = .ok g ∧
      g.firstSets = .ok firsts ∧ g.followSets = .ok follows ∧
    (∀ p ∈ g.productions, p.head ∈ g.nonterminals ∧
      (∀ y ∈ p.body, y ∈ g.terminals ∨ y.toString ∈ firsts.map Prod.fst) ∧
      ∀ t, Predicts g firsts follows p t → t ∈ columns g) ∧
    ((∃ c, build g firsts follows = .error c) ↔ ∃ A t, WrittenTwice g firsts follows A t) ∧
    (∀ c, build g firsts follows = .error c →
      WrittenTwice g firsts follows c.head c.terminal) ∧
    ∀ table, build g firsts follows = .ok table →
      ∀ A ∈ g.nonterminals, ∀ t ∈ columns g,
        (table.cell A t = "" ∧ ∀ p ∈ g.productions, p.head = A →
          ¬ Predicts g firsts follows p t) ∨
        ∃ p ∈ g.productions, p.head = A ∧ Predicts g firsts follows p t ∧
          table.cell A t = p.text ∧ ¬ WrittenTwice g firsts follows A t := by
  have computed : ((Grammar.ofText "S->Aa\nA->a\nA->").toOption.bind fun g =>
      g.firstSets.toOption.bind fun _ => g.followSets.toOption).isSome := by
    decide +kernel
  obtain ⟨follows, found⟩ := Option.isSome_iff_exists.mp computed
  obtain ⟨g, read, found⟩ := Option.bind_eq_some_iff.mp found
  obtain ⟨firsts, firstsFound, followed⟩ := Option.bind_eq_some_iff.mp found
  have read := toOption_eq_some.mp read
  have computed := toOption_eq_some.mp firstsFound
  have followed := toOption_eq_some.mp followed
  exact ⟨g, firsts, follows, read, computed, followed, build_spec read computed followed⟩

end Builder

end LlTable

end GrammarBench
