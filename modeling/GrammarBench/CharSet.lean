/-!
# Sets of characters

FIRST and FOLLOW sets and lookaheads are sets of characters. A set is kept as the list of
its members in ascending order of code point, without repeats, so that two sets with the same
members are the same value and the members come out sorted.
-/

namespace GrammarBench

/-- Inserts a character into an ascending list without repeats. -/
def insertAscending (c : Char) : List Char → List Char
  | [] => [c]
  | d :: ds => if c < d then c :: d :: ds else if c = d then d :: ds else d :: insertAscending c ds

/-- Inserting adds the character and keeps every member. -/
@[simp] theorem mem_insertAscending {c d : Char} {l : List Char} :
    d ∈ insertAscending c l ↔ d = c ∨ d ∈ l := by
  induction l with
  | nil => simp [insertAscending]
  | cons x xs ih =>
    simp only [insertAscending]
    split
    · simp
    · split
      · rename_i same
        subst same
        simp only [List.mem_cons]
        constructor
        · intro h
          exact Or.inr h
        · rintro (h | h | h) <;> simp [h]
      · simp only [List.mem_cons, ih]
        constructor
        · rintro (h | h | h) <;> simp [h]
        · rintro (h | h | h) <;> simp [h]

/-- Inserting into an ascending list keeps it ascending. -/
theorem pairwise_insertAscending {c : Char} {l : List Char} (ascending : l.Pairwise (· < ·)) :
    (insertAscending c l).Pairwise (· < ·) := by
  induction l with
  | nil => exact List.pairwise_singleton _ c
  | cons d ds ih =>
      have tail := List.pairwise_cons.mp ascending
      unfold insertAscending
      split
      · rename_i before
        refine List.Pairwise.cons ?_ ascending
        intro x member
        rcases List.mem_cons.mp member with rfl | later
        · exact before
        · exact Char.lt_trans before (tail.1 x later)
      · split
        · exact ascending
        · rename_i notBefore notSame
          have after : d < c := by
            apply Classical.byContradiction
            intro notAfter
            exact notSame (Char.le_antisymm (Char.not_lt.mp notAfter) (Char.not_lt.mp notBefore))
          refine List.Pairwise.cons ?_ (ih tail.2)
          intro x member
          rcases mem_insertAscending.mp member with rfl | later
          · exact after
          · exact tail.1 x later

/-- A finite set of characters, listed in ascending order without repeats. -/
structure CharSet where
  toList : List Char
  deriving DecidableEq, Repr

namespace CharSet

/-- The empty set. -/
def empty : CharSet := ⟨[]⟩

instance : EmptyCollection CharSet := ⟨empty⟩

/-- The set with one member. -/
def single (c : Char) : CharSet := ⟨[c]⟩

/-- The set with one more member. -/
def insert (s : CharSet) (c : Char) : CharSet := ⟨insertAscending c s.toList⟩

/-- Whether a character is a member. -/
def contains (s : CharSet) (c : Char) : Bool := s.toList.contains c

/-- The members of both sets. -/
def union (s t : CharSet) : CharSet := t.toList.foldl insert s

/-- The set without one member. -/
def erase (s : CharSet) (c : Char) : CharSet := ⟨s.toList.filter (· != c)⟩

/-- The set of the characters of a list. -/
def ofList (cs : List Char) : CharSet := cs.foldl insert empty

/-- Whether the set has no member. -/
def isEmpty (s : CharSet) : Bool := s.toList.isEmpty

/-- The members as one-character texts, in ascending order. -/
def names (s : CharSet) : List String := s.toList.map Char.toString

instance : Membership Char CharSet := ⟨fun s c => c ∈ s.toList⟩

@[simp] theorem mem_mk {c : Char} {cs : List Char} : c ∈ CharSet.mk cs ↔ c ∈ cs := Iff.rfl

@[simp] theorem mem_toList {s : CharSet} {c : Char} : c ∈ s.toList ↔ c ∈ s := Iff.rfl

/-- The Boolean test agrees with membership. -/
@[simp] theorem contains_iff {s : CharSet} {c : Char} : s.contains c = true ↔ c ∈ s := by
  simp only [contains, List.contains_iff_mem]
  exact Iff.rfl

@[simp] theorem not_mem_empty (c : Char) : c ∉ empty := by
  simp [empty]

@[simp] theorem mem_single {c d : Char} : d ∈ single c ↔ d = c := by
  simp [single]

@[simp] theorem mem_insert {s : CharSet} {c d : Char} : d ∈ s.insert c ↔ d = c ∨ d ∈ s := by
  simp only [insert, mem_mk, mem_insertAscending]
  exact Iff.rfl

/-- Inserting the characters of a list one by one adds exactly them. -/
theorem mem_foldl_insert {cs : List Char} {s : CharSet} {d : Char} :
    d ∈ cs.foldl insert s ↔ d ∈ s ∨ d ∈ cs := by
  induction cs generalizing s with
  | nil => simp
  | cons x xs ih =>
    simp only [List.foldl_cons, ih, mem_insert, List.mem_cons]
    constructor
    · rintro ((h | h) | h) <;> simp [h]
    · rintro (h | h | h) <;> simp [h]

@[simp] theorem mem_union {s t : CharSet} {d : Char} : d ∈ s.union t ↔ d ∈ s ∨ d ∈ t := by
  simp only [union, mem_foldl_insert]
  exact Iff.rfl

@[simp] theorem mem_erase {s : CharSet} {c d : Char} : d ∈ s.erase c ↔ d ≠ c ∧ d ∈ s := by
  simp only [erase, mem_mk, List.mem_filter, bne_iff_ne, ne_eq]
  exact ⟨fun h => ⟨h.2, h.1⟩, fun h => ⟨h.2, h.1⟩⟩

@[simp] theorem mem_ofList {cs : List Char} {d : Char} : d ∈ ofList cs ↔ d ∈ cs := by
  simp [ofList, mem_foldl_insert]

/-! ## Ascending order -/

/-- The members are listed in strictly ascending order, so none is listed twice. Every set
built from `empty` and `single` by `insert`, `union` and `erase` is. -/
def Ascending (s : CharSet) : Prop :=
  s.toList.Pairwise (· < ·)

theorem ascending_empty : empty.Ascending :=
  List.Pairwise.nil

theorem ascending_single (c : Char) : (single c).Ascending :=
  List.pairwise_singleton _ c

theorem Ascending.insert {s : CharSet} (ascending : s.Ascending) (c : Char) :
    (s.insert c).Ascending :=
  pairwise_insertAscending ascending

theorem Ascending.union {s : CharSet} (ascending : s.Ascending) (t : CharSet) :
    (s.union t).Ascending := by
  unfold CharSet.union
  induction t.toList generalizing s with
  | nil => exact ascending
  | cons c rest ih => exact ih (ascending.insert c)

theorem Ascending.erase {s : CharSet} (ascending : s.Ascending) (c : Char) :
    (s.erase c).Ascending :=
  List.Pairwise.filter _ ascending

theorem ascending_ofList (cs : List Char) : (ofList cs).Ascending :=
  ascending_empty.union ⟨cs⟩

/-- An ascending set lists each member once. -/
theorem Ascending.nodup {s : CharSet} (ascending : s.Ascending) : s.toList.Nodup := by
  apply ascending.imp
  intro a b below same
  rw [same] at below
  exact Char.lt_irrefl b below

example : (ofList ['b', 'a', 'b']).toList = ['a', 'b'] := by decide
example : ((ofList ['$', 'a']).union (ofList ['a', 'ϵ'])).toList = ['$', 'a', 'ϵ'] := by decide

end CharSet

end GrammarBench
