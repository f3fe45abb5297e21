import Mathlib.Data.List.ProdSigma
import GrammarBench.Proofs.Lr.Closure

/-!
# The closure ends within its step budget

The closure of a kernel walks its list of items once, from the front, while the list grows.
Every item it adds is a start item of a production, with a lookahead that a kernel item gives
or that the FIRST set of some character of the productions gives, and it is the same as no
item before it. So the list never outgrows the kernel plus one item for each production and
each such lookahead (`ItemContext.Grown.size_lt`), and `closureBound` steps take the walk past
its end: any larger budget gives the same closure (`ItemContext.closeFrom_of_closureBound_le`).
This holds of every context, whatever its FIRST sets answer.

Over plain productions whose body characters all have FIRST sets, the walk also never faults
(`ItemContext.exists_closure_eq_ok`), and the closure of a kernel without repeated items has
none either (`ItemContext.nodup_closure`).
-/

namespace GrammarBench

namespace Item

@[simp] theorem same_self (it : Item) : it.same it = true := by
  simp [same]

theorem ne_of_same_eq_false {a b : Item} (apart : a.same b = false) : a ≠ b := by
  rintro rfl
  simp at apart

/-- The character whose FIRST set gives the lookahead of the items added for a plain item is
the body's character one place after the dot. -/
theorem lookaheadSource_eq {it : Item} (plain : it.Plain) :
    it.lookaheadSource = it.body[it.dot + 1]? := by
  obtain ⟨h, _, _, _, written⟩ := written_eq plain
  have seenLength : (it.body.take it.dot).length = it.dot := by
    simp [plain.dot_le]
  rw [lookaheadSource, firstDot_eq plain, written]
  rw [show it.dot + 3 + 2 = it.dot + 2 + 3 by omega]
  simp only [List.getElem?_cons_succ]
  rw [List.getElem?_append_right (by omega), seenLength,
    show it.dot + 2 - it.dot = 1 + 1 by omega, List.getElem?_cons_succ, List.getElem?_drop]

end Item

namespace ItemContext

variable {ctx : ItemContext} {kernel : List Item} {items : Array Item}

/-! ## The lookaheads a closure can give -/

/-- The characters of the productions' written forms: the arrow, the dot, and every character
of a head or a body. -/
def alphabet (ctx : ItemContext) : List Char :=
  ['-', '>', '.'] ++ ctx.productions.flatMap fun p => p.head.toList ++ p.body

theorem foldl_alphabetBound (ps : List Production) (n : Nat) :
    ps.foldl (fun n p => n + p.head.length + p.body.length) n =
      n + (ps.flatMap fun p => p.head.toList ++ p.body).length := by
  induction ps generalizing n with
  | nil => simp
  | cons p rest ih =>
      rw [List.foldl_cons, ih, List.flatMap_cons, List.length_append, List.length_append,
        String.length_toList]
      omega

theorem length_alphabet : ctx.alphabet.length = ctx.alphabetBound := by
  rw [alphabetBound, foldl_alphabetBound, alphabet, List.length_append]
  rfl

/-- Every character of the written form of an item of the productions is in the alphabet. -/
theorem mem_alphabet {it : Item} (member : it.production ∈ ctx.productions) {c : Char}
    (inWritten : c ∈ it.written) : c ∈ ctx.alphabet := by
  simp only [Item.written, Item.dottedBody, List.mem_append, List.mem_cons] at inWritten
  simp only [alphabet, List.mem_append, List.mem_cons, List.mem_flatMap, List.not_mem_nil,
    or_false]
  have fromProduction : c ∈ it.head.toList ∨ c ∈ it.body → ∃ p ∈ ctx.productions,
      c ∈ p.head.toList ∨ c ∈ p.body :=
    fun inParts => ⟨it.production, member, inParts⟩
  rcases inWritten with inHead | rfl | rfl | inSeen | rfl | inUnseen
  · exact .inr (fromProduction (.inl inHead))
  · exact .inl (.inl rfl)
  · exact .inl (.inr (.inl rfl))
  · exact .inr (fromProduction (.inr (List.mem_of_mem_take inSeen)))
  · exact .inl (.inr (.inr rfl))
  · exact .inr (fromProduction (.inr (List.mem_of_mem_drop inUnseen)))

/-- The lookaheads that the FIRST sets of the alphabet's characters give. -/
def alphabetLookaheads (ctx : ItemContext) : List CharSet :=
  ctx.alphabet.filterMap fun c => ((ctx.firstOf c).map (·.erase emptyMark)).toOption

/-- The items added for an item of the productions get a lookahead that the FIRST set of an
alphabet character gives, or the item's own. -/
theorem addedLookahead_mem {it : Item} {la : CharSet} (member : it.production ∈ ctx.productions)
    (lookahead : ctx.addedLookahead it = .ok la) :
    la ∈ ctx.alphabetLookaheads ∨ la = it.lookahead := by
  unfold addedLookahead at lookahead
  split at lookahead
  · rename_i c source
    have inWritten : c ∈ it.written := List.mem_of_getElem? source
    exact .inl (List.mem_filterMap.mpr
      ⟨c, mem_alphabet member inWritten, toOption_eq_some.mpr lookahead⟩)
  · exact .inr (Except.ok.inj lookahead).symm

/-- The lookaheads the closure of `kernel` can give to the items it adds: those the kernel's
items give, and those of the alphabet. -/
def lookaheads (ctx : ItemContext) (kernel : List Item) : List CharSet :=
  kernel.filterMap (fun it => (ctx.addedLookahead it).toOption) ++ ctx.alphabetLookaheads

theorem length_lookaheads_le :
    (ctx.lookaheads kernel).length ≤ kernel.length + ctx.alphabetBound := by
  have fromKernel := List.length_filterMap_le (fun it => (ctx.addedLookahead it).toOption) kernel
  have fromAlphabet := List.length_filterMap_le
    (fun c => ((ctx.firstOf c).map (·.erase emptyMark)).toOption) ctx.alphabet
  rw [length_alphabet] at fromAlphabet
  rw [lookaheads, List.length_append]
  exact Nat.add_le_add fromKernel fromAlphabet

/-! ## What the closure grows -/

/-- A start item of a production, with a lookahead that the closure of `kernel` can give. -/
def Started (ctx : ItemContext) (kernel : List Item) (it : Item) : Prop :=
  it.dot = 0 ∧ it.production ∈ ctx.productions ∧ it.lookahead ∈ ctx.lookaheads kernel

/-- What the closure of `kernel` has grown so far: the kernel followed by started items, each
the same as no item before it. -/
def Grown (ctx : ItemContext) (kernel : List Item) (items : Array Item) : Prop :=
  ∃ added, items.toList = kernel ++ added ∧ (∀ it ∈ added, ctx.Started kernel it) ∧
    added.Pairwise (fun a b => a.same b = false) ∧ ∀ a ∈ kernel, ∀ b ∈ added, a.same b = false

theorem grown_kernel : ctx.Grown kernel kernel.toArray :=
  ⟨[], by simp, by simp, List.Pairwise.nil, by simp⟩

theorem Grown.add {it : Item} (grown : ctx.Grown kernel items) (started : ctx.Started kernel it) :
    ctx.Grown kernel (addItem items it) := by
  obtain ⟨added, listed, starts, apart, fresh⟩ := grown
  unfold addItem
  split
  · exact ⟨added, listed, starts, apart, fresh⟩
  · rename_i known
    simp only [Bool.not_eq_true, Array.any_eq_false'] at known
    have new : ∀ a ∈ kernel ++ added, a.same it = false := by
      intro a member
      rw [← listed, Array.mem_toList_iff] at member
      simpa using known a member
    refine ⟨added ++ [it], by simp [listed], ?_, ?_, ?_⟩
    · intro b member
      rcases List.mem_append.mp member with old | isNew
      · exact starts b old
      · exact (List.mem_singleton.mp isNew) ▸ started
    · refine List.pairwise_append.mpr ⟨apart, List.pairwise_singleton _ it, ?_⟩
      intro a inAdded b isNew
      rw [List.mem_singleton.mp isNew]
      exact new a (List.mem_append_right kernel inAdded)
    · intro a inKernel b member
      rcases List.mem_append.mp member with old | isNew
      · exact fresh a inKernel b old
      · rw [List.mem_singleton.mp isNew]
        exact new a (List.mem_append_left added inKernel)

/-- The pass over the productions for one item keeps the closure grown, when the lookahead it
adds with is one the closure can give. -/
theorem Grown.addStarts {la : CharSet} (grown : ctx.Grown kernel items)
    (allowed : la ∈ ctx.lookaheads kernel) (y : Char) :
    ctx.Grown kernel (ctx.productions.foldl (fun acc p =>
      if p.head == y.toString then addItem acc (Item.start p la) else acc) items) := by
  refine List.foldlRecOn (motive := ctx.Grown kernel) _ _ grown ?_
  intro acc held p member
  split
  · exact held.add ⟨rfl, by simpa using member, allowed⟩
  · exact held

/-- Every item of a grown closure adds with a lookahead that the closure can give. -/
theorem Grown.lookahead_mem {it : Item} {la : CharSet} (grown : ctx.Grown kernel items)
    (member : it ∈ items) (lookahead : ctx.addedLookahead it = .ok la) :
    la ∈ ctx.lookaheads kernel := by
  obtain ⟨added, listed, starts, _, _⟩ := grown
  rw [← Array.mem_toList_iff, listed] at member
  rcases List.mem_append.mp member with inKernel | inAdded
  · exact List.mem_append_left _
      (List.mem_filterMap.mpr ⟨it, inKernel, toOption_eq_some.mpr lookahead⟩)
  · obtain ⟨_, production, inherited⟩ := starts it inAdded
    rcases addedLookahead_mem production lookahead with fromAlphabet | rfl
    · exact List.mem_append_right _ fromAlphabet
    · exact inherited

/-- A grown closure holds the kernel and at most one item for each production and each
lookahead the closure can give. -/
theorem Grown.size_le (grown : ctx.Grown kernel items) :
    items.size ≤ kernel.length + ctx.productions.length * (ctx.lookaheads kernel).length := by
  obtain ⟨added, listed, starts, apart, _⟩ := grown
  have distinct : added.Nodup := apart.imp Item.ne_of_same_eq_false
  have keyed : (added.map fun it => (it.production, it.lookahead)).Nodup := by
    refine distinct.map_on fun a inA b inB same => ?_
    obtain ⟨dotA, _, _⟩ := starts a inA
    obtain ⟨dotB, _, _⟩ := starts b inB
    cases a
    cases b
    simp_all [Item.production]
  have covered : added.map (fun it => (it.production, it.lookahead)) ⊆
      ctx.productions ×ˢ ctx.lookaheads kernel := by
    intro key member
    obtain ⟨it, inAdded, rfl⟩ := List.mem_map.mp member
    obtain ⟨_, production, allowed⟩ := starts it inAdded
    exact List.mem_product.mpr ⟨production, allowed⟩
  have bound := keyed.length_le_of_subset covered
  rw [List.length_map, List.length_product] at bound
  have sized : items.size = kernel.length + added.length := by
    rw [← Array.length_toList, listed, List.length_append]
  omega

theorem Grown.size_lt (grown : ctx.Grown kernel items) : items.size < ctx.closureBound kernel := by
  have bound := grown.size_le
  have fewer : ctx.productions.length * (ctx.lookaheads kernel).length ≤
      ctx.productions.length * (kernel.length + ctx.alphabetBound) :=
    Nat.mul_le_mul_left _ length_lookaheads_le
  rw [closureBound]
  omega

/-- A grown closure repeats no item when its kernel does not. -/
theorem Grown.nodup (grown : ctx.Grown kernel items) (distinct : kernel.Nodup) :
    items.toList.Nodup := by
  obtain ⟨added, listed, _, apart, fresh⟩ := grown
  rw [listed, List.nodup_append]
  exact ⟨distinct, apart.imp Item.ne_of_same_eq_false,
    fun a inKernel b inAdded => Item.ne_of_same_eq_false (fresh a inKernel b inAdded)⟩

/-! ## The walk of the closure -/

/-- The walk keeps the closure grown. -/
theorem closeFrom_grown {fuel k : Nat} {result : Array Item} (grown : ctx.Grown kernel items)
    (run : ctx.closeFrom fuel items k = .ok result) : ctx.Grown kernel result := by
  induction fuel generalizing items k with
  | zero =>
      simp only [closeFrom, Except.ok.injEq] at run
      exact run ▸ grown
  | succ fuel ih =>
      unfold closeFrom at run
      split at run
      · simp only [Except.ok.injEq] at run
        exact run ▸ grown
      · rename_i it found
        split at run
        · exact ih grown run
        · obtain ⟨y, _, run⟩ := bind_eq_ok.mp run
          obtain ⟨la, lookahead, run⟩ := bind_eq_ok.mp run
          exact ih (grown.addStarts (grown.lookahead_mem (Array.mem_of_getElem? found)
            lookahead) y) run

/-- Steps beyond the closure's budget change nothing: once the walk has room for more steps
than the grown list can hold items, it stops at the end of the list. -/
theorem closeFrom_add_fuel {fuel k : Nat} (grown : ctx.Grown kernel items)
    (enough : ctx.closureBound kernel ≤ k + fuel) (more : Nat) :
    ctx.closeFrom (fuel + more) items k = ctx.closeFrom fuel items k := by
  induction fuel generalizing items k with
  | zero =>
      have past : items[k]? = none := by
        have := grown.size_lt
        exact Array.getElem?_eq_none (by omega)
      cases more with
      | zero => rfl
      | succ more => simp [closeFrom, past]
  | succ fuel ih =>
      rw [show fuel + 1 + more = fuel + more + 1 by omega]
      unfold closeFrom
      cases found : items[k]? with
      | none => rfl
      | some it =>
          dsimp only
          split
          · exact ih grown (by omega)
          · cases symbol : it.nextSymbol with
            | error fault => rfl
            | ok y =>
                cases lookahead : ctx.addedLookahead it with
                | error fault => rfl
                | ok la =>
                    have allowed := grown.lookahead_mem (Array.mem_of_getElem? found) lookahead
                    exact ih (grown.addStarts allowed y) (by omega)

/-- With at least `closureBound` steps the walk computes the closure. -/
theorem closeFrom_of_closureBound_le {fuel : Nat} (enough : ctx.closureBound kernel ≤ fuel) :
    (ctx.closeFrom fuel kernel.toArray 0).map Array.toList = ctx.closure kernel := by
  obtain ⟨more, rfl⟩ := Nat.exists_eq_add_of_le enough
  rw [closure, closeFrom_add_fuel grown_kernel (by omega)]

/-- The closure of a kernel without repeated items repeats no item. -/
theorem nodup_closure {result : List Item} (distinct : kernel.Nodup)
    (closed : ctx.closure kernel = .ok result) : result.Nodup := by
  obtain ⟨found, run, rfl⟩ := map_eq_ok.mp closed
  exact (closeFrom_grown grown_kernel run).nodup distinct

/-! ## A walk without faults -/

theorem Grown.dotted (grown : ctx.Grown kernel items)
    (kernelDotted : ∀ it ∈ kernel, it.Over ctx.productions) :
    ∀ it ∈ items, it.Over ctx.productions := by
  obtain ⟨added, listed, starts, _, _⟩ := grown
  intro it member
  rw [← Array.mem_toList_iff, listed] at member
  rcases List.mem_append.mp member with inKernel | inAdded
  · exact kernelDotted it inKernel
  · obtain ⟨atStart, production, _⟩ := starts it inAdded
    exact ⟨production, by omega⟩

/-- The lookahead for the items added for a plain item is computed when the FIRST set of its
body character one place after the dot is. -/
theorem exists_addedLookahead_eq_ok {it : Item} (plain : it.Plain)
    (answers : ∀ c ∈ it.body, ∃ s, ctx.firstOf c = .ok s) :
    ∃ la, ctx.addedLookahead it = .ok la := by
  unfold addedLookahead
  rw [Item.lookaheadSource_eq plain]
  cases source : it.body[it.dot + 1]? with
  | none => exact ⟨_, rfl⟩
  | some c =>
      obtain ⟨s, found⟩ := answers c (List.mem_of_getElem? source)
      exact ⟨s.erase emptyMark, by simp [found, Except.map]⟩

variable (plain : PlainProductions ctx.productions)
  (answers : ∀ p ∈ ctx.productions, ∀ c ∈ p.body, ∃ s, ctx.firstOf c = .ok s)
include plain answers

/-- Over plain productions whose body characters all have FIRST sets, the walk of the closure
of items of the productions never faults. -/
theorem exists_closeFrom_eq_ok (kernelDotted : ∀ it ∈ kernel, it.Over ctx.productions)
    (fuel : Nat) :
    ∀ {items : Array Item} {k : Nat}, ctx.Grown kernel items →
      ∃ result, ctx.closeFrom fuel items k = .ok result := by
  induction fuel with
  | zero => exact fun _ => ⟨_, rfl⟩
  | succ fuel ih =>
      intro items k grown
      unfold closeFrom
      cases found : items[k]? with
      | none => exact ⟨items, rfl⟩
      | some it =>
          dsimp only
          split
          · exact ih grown
          · rename_i unfinished
            have dotted := grown.dotted kernelDotted it (Array.mem_of_getElem? found)
            have itPlain := dotted.plain plain
            have before := Item.dot_lt_of_isComplete_eq_false itPlain (by simpa using unfinished)
            obtain ⟨la, lookahead⟩ := exists_addedLookahead_eq_ok itPlain
              (answers it.production dotted.1)
            have allowed := grown.lookahead_mem (Array.mem_of_getElem? found) lookahead
            obtain ⟨result, run⟩ := ih (k := k + 1) (grown.addStarts allowed it.body[it.dot])
            exact ⟨result, by simp only [Item.nextSymbol_eq itPlain before, lookahead]; exact run⟩

theorem exists_closure_eq_ok (kernelDotted : ∀ it ∈ kernel, it.Over ctx.productions) :
    ∃ result, ctx.closure kernel = .ok result := by
  obtain ⟨found, run⟩ :=
    exists_closeFrom_eq_ok plain answers kernelDotted (ctx.closureBound kernel) (k := 0)
      grown_kernel
  exact ⟨found.toList, by rw [closure, run]; rfl⟩

end ItemContext

end GrammarBench
