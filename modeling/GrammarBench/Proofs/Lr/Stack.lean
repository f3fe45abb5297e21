import GrammarBench.Service
import GrammarBench.Proofs.Except

/-!
# The stack of a shift-reduce parse

A parse with the table the workbench builds keeps texts on its stack: above the bottom state
`0`, a symbol and a state for each symbol shifted or reduced to. Such a stack is the stack of
a *chain* of symbol and state pairs (`chainStack`). Its states are read back as the numbers
that were written (`Text.readInt_toString`), and a reduction pops whole pairs
(`drop_chainStack`). The table itself is read through its rows, dictionaries of texts.
-/

namespace GrammarBench

namespace Text

theorem toNat_of_isDigit {c : Char} (digit : c.isDigit = true) : 48 ≤ c.toNat ∧ c.toNat ≤ 57 := by
  simp only [Char.isDigit, Bool.and_eq_true, decide_eq_true_eq, UInt32.le_iff_toNat_le] at digit
  have zero : '0'.val.toNat = 48 := rfl
  have nine : '9'.val.toNat = 57 := rfl
  simp only [Char.toNat]
  omega

theorem toAsciiDigit_of_isDigit {c : Char} (digit : c.isDigit = true) : toAsciiDigit c = c := by
  have small : c.toNat < 127 := by
    have range := toNat_of_isDigit digit
    omega
  simp [toAsciiDigit, small]

theorem isAsciiBlank_of_isDigit {c : Char} (digit : c.isDigit = true) :
    isAsciiBlank c = false := by
  have range := toNat_of_isDigit digit
  have notSpace : c ≠ ' ' := by
    intro same
    rw [same] at range
    exact absurd range (by decide)
  simp only [isAsciiBlank, Bool.or_eq_false_iff, beq_eq_false_iff_ne, ne_eq, notSpace,
    not_false_eq_true, Bool.and_eq_false_iff, decide_eq_false_iff_not, Nat.not_le, true_and]
  omega

theorem splitSign_of_isDigit {d : Char} (digit : d.isDigit = true) (ds : List Char) :
    splitSign (d :: ds) = (false, d :: ds) := by
  have notMinus : d ≠ '-' := fun same => absurd (same ▸ digit) (by decide)
  have notPlus : d ≠ '+' := fun same => absurd (same ▸ digit) (by decide)
  unfold splitSign
  split
  · rename_i same
    exact absurd (List.cons.inj same).1 notMinus
  · rename_i same
    exact absurd (List.cons.inj same).1 notPlus
  · rfl

/-- A run of digits is scanned to its end. -/
theorem digitRun_of_isDigit {cs : List Char} (digits : ∀ c ∈ cs, c.isDigit = true)
    (nonempty : cs ≠ []) (acc : List Char) (after : Bool) :
    digitRun cs acc after = some (cs.reverse ++ acc, []) := by
  induction cs generalizing acc after with
  | nil => exact absurd rfl nonempty
  | cons c rest ih =>
      have digit := digits c List.mem_cons_self
      have notUnderscore : c ≠ '_' := fun same => absurd (same ▸ digit) (by decide)
      rw [digitRun.eq_3 _ _ _ _ notUnderscore]
      simp only [digit, if_true]
      cases rest with
      | nil => simp [digitRun]
      | cons d more =>
          rw [ih (fun e member => digits e (List.mem_cons_of_mem c member)) (by simp)]
          simp

theorem digitsValue_reverse (cs : List Char) :
    digitsValue cs.reverse = Nat.ofDigitChars 10 cs 0 := by
  simp only [digitsValue, List.foldr_reverse, Nat.ofDigitChars, Nat.mul_comm]

/-- The numeral reader reads back the decimal text of a number, when it reads it at all: a
numeral of too many digits is refused. -/
theorem readInt_toString {v : Nat} {n : Int} (read : readInt (toString v) = .ok n) : n = v := by
  have chars : (toString v).toList = Nat.toDigits 10 v := Nat.toList_repr
  have digits : ∀ c ∈ Nat.toDigits 10 v, c.isDigit = true := fun c member =>
    Nat.isDigit_of_mem_toDigits (by decide) (by decide) member
  have ascii : (Nat.toDigits 10 v).map toAsciiDigit = Nat.toDigits 10 v := by
    conv => rhs; rw [← List.map_id (Nat.toDigits 10 v)]
    exact List.map_congr_left (fun c member => toAsciiDigit_of_isDigit (digits c member))
  obtain ⟨d, ds, split⟩ := List.exists_cons_of_ne_nil (Nat.toDigits_ne_nil (n := v) (b := 10))
  have first := digits d (split ▸ List.mem_cons_self)
  have run := digitRun_of_isDigit (split ▸ digits) (List.cons_ne_nil d ds) [] true
  unfold readInt at read
  rw [chars, ascii, split, List.dropWhile_cons_of_neg (by simp [isAsciiBlank_of_isDigit first])]
    at read
  dsimp only at read
  rw [splitSign_of_isDigit first, run] at read
  simp only [List.append_nil, List.all_nil, if_true, Bool.false_eq_true, if_false] at read
  split at read
  · simp at read
  · simp only [Except.ok.injEq] at read
    rw [← read, digitsValue_reverse, ← split, Nat.ofDigitChars_ten_toDigits]

end Text

theorem numeralValue_toString {v : Nat} {n : Int}
    (read : Field.numeralValue (toString v) = .ok n) : n = v := by
  unfold Field.numeralValue at read
  split at read
  · rename_i m readOk
    simp only [Except.ok.injEq] at read
    exact read ▸ Text.readInt_toString readOk
  · simp at read
  · simp at read

theorem getElem?_of_pickAt {α : Type} {xs : List α} {n : Nat} {x : α}
    (picked : pickAt xs n = .ok x) : xs[n]? = some x := by
  unfold pickAt at picked
  split at picked
  · simp at picked
  · rw [pickAt?_nonneg] at picked
    split at picked
    · rename_i found
      simp only [Except.ok.injEq] at picked
      exact picked ▸ found
    · simp at picked

/-! ## Chains -/

/-- The stack of a chain of symbols and states, top first, over the bottom state `0`. -/
def chainStack : List (Char × Nat) → List Field
  | [] => [.text "0"]
  | (x, v) :: rest => .text (toString v) :: .text x.toString :: chainStack rest

/-- The state on top of a chain. -/
def chainTop : List (Char × Nat) → Nat
  | [] => 0
  | (_, v) :: _ => v

/-- The symbols of a chain, from the bottom of the stack up. -/
def chainSymbols (chain : List (Char × Nat)) : List Char :=
  (chain.map Prod.fst).reverse

variable {chain : List (Char × Nat)}

@[simp] theorem chainSymbols_nil : chainSymbols [] = [] := rfl

@[simp] theorem chainSymbols_cons (x : Char) (v : Nat) (rest : List (Char × Nat)) :
    chainSymbols ((x, v) :: rest) = chainSymbols rest ++ [x] := by
  simp [chainSymbols]

@[simp] theorem length_chainSymbols : (chainSymbols chain).length = chain.length := by
  simp [chainSymbols]

@[simp] theorem length_chainStack : (chainStack chain).length = 2 * chain.length + 1 := by
  induction chain with
  | nil => rfl
  | cons link rest ih =>
      obtain ⟨x, v⟩ := link
      simp only [chainStack, List.length_cons, ih]
      omega

/-- The state read from the top of a chain's stack is the chain's top state. -/
theorem topState_chainStack {s : Int} (read : topState (chainStack chain) = .ok s) :
    s = chainTop chain := by
  cases chain with
  | nil =>
      change Field.numeralValue "0" = .ok s at read
      exact numeralValue_toString (v := 0) read
  | cons link rest =>
      obtain ⟨x, v⟩ := link
      exact numeralValue_toString read

/-- Popping twice as many entries as there are pairs to pop leaves the rest of the chain. -/
theorem drop_chainStack {n : Nat} (within : n ≤ chain.length) :
    (chainStack chain).drop (2 * n) = chainStack (chain.drop n) := by
  induction chain generalizing n with
  | nil =>
      have none : n = 0 := by simpa using within
      subst none
      rfl
  | cons link rest ih =>
      obtain ⟨x, v⟩ := link
      cases n with
      | zero => rfl
      | succ n =>
          have twice : 2 * (n + 1) = 2 * n + 1 + 1 := by omega
          rw [twice, chainStack, List.drop_succ_cons, List.drop_succ_cons, List.drop_succ_cons]
          exact ih (by simpa using within)

theorem chainSymbols_drop_append_take (n : Nat) :
    chainSymbols (chain.drop n) ++ chainSymbols (chain.take n) = chainSymbols chain := by
  simp only [chainSymbols, ← List.reverse_append, ← List.map_append, List.take_append_drop]

/-! ## The rows of a table -/

theorem lookup_textCells (cells : List (String × String)) (key : String) :
    (cells.map fun (k, c) => (k, Field.text c)).lookup key = (cells.lookup key).map .text := by
  induction cells with
  | nil => rfl
  | cons cell rest ih =>
      obtain ⟨k, c⟩ := cell
      simp only [List.map_cons, List.lookup_cons]
      cases key == k with
      | true => rfl
      | false => exact ih

/-- The row of a state, read from a table handed over as a list of dictionaries. -/
theorem item_toRows {t : ActionTable} {v : Nat} {row : Field} (read : t.toRows.item v = .ok row) :
    ∃ cells, t.rows[v]? = some cells ∧ row = .dict (cells.map fun (k, c) => (k, .text c)) := by
  simp only [ActionTable.toRows, Field.item, pickAt] at read
  split at read
  · simp at read
  · split at read
    · rename_i found
      rw [pickAt?_nonneg, List.getElem?_map] at found
      simp only [Except.ok.injEq] at read
      obtain ⟨cells, inRows, rfl⟩ := Option.map_eq_some_iff.mp found
      exact ⟨cells, inRows, read.symm⟩
    · simp at read

theorem entry_textCells {cells : List (String × String)} {key : String} {cell : Field}
    (read : (Field.dict (cells.map fun (k, c) => (k, .text c))).entry key = .ok cell) :
    ∃ t, cells.lookup key = some t ∧ cell = .text t := by
  simp only [Field.entry, lookup_textCells] at read
  split at read
  · rename_i found
    simp only [Except.ok.injEq] at read
    obtain ⟨t, inRow, rfl⟩ := Option.map_eq_some_iff.mp found
    exact ⟨t, inRow, read.symm⟩
  · simp at read

theorem lookupOr_textCells {cells : List (String × String)} {key : String} {cell : Field}
    (read : (Field.dict (cells.map fun (k, c) => (k, .text c))).lookupOr key = .ok cell) :
    cell = .text ((cells.lookup key).getD "") := by
  simp only [Field.lookupOr, lookup_textCells, Except.ok.injEq] at read
  rw [← read]
  cases cells.lookup key <;> rfl

end GrammarBench
