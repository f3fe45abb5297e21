import GrammarBench.Lr.Closure
import GrammarBench.Proofs.Except
import GrammarBench.Proofs.Lr.Item

/-!
# What closure and goto produce

The closure of a list of items only ever adds start items of productions whose head is the
symbol after the dot of an item already there. `ItemContext.closeFrom_forall` turns this
into an induction principle: a property of the kernel that every such addition keeps holds of
the whole closure.

Over plain productions, and with FIRST sets that hold terminals and the empty mark only, the
items of a closure are then items of the productions whose lookaheads are terminals or the
end marker (`ItemContext.Fit`), and each of them is a kernel item or a start item whose head
is a character of some body. Every item of a goto set is therefore an item of the source set
with its dot moved over the symbol, or such a start item (`ItemContext.mem_goto`).
-/

namespace GrammarBench

namespace ItemContext

variable {ctx : ItemContext}

/-- The items of the automaton: items of its productions whose lookaheads are terminals of
`terminals` or the end marker. -/
structure Fit (ctx : ItemContext) (terminals : List Char) (it : Item) : Prop where
  dotted : it.Over ctx.productions
  lookahead : ∀ d ∈ it.lookahead, d ∈ terminals ∨ d = endMarker

/-- What the automaton needs of its context: plain productions, and FIRST sets of terminals
and the empty mark. -/
structure Sound (ctx : ItemContext) (terminals : List Char) : Prop where
  plain : PlainProductions ctx.productions
  firstOf : ∀ c s, ctx.firstOf c = .ok s → ∀ d ∈ s, d ∈ terminals ∨ d = emptyMark

theorem mem_addItem {items : Array Item} {it other : Item} (member : other ∈ addItem items it) :
    other ∈ items ∨ other = it := by
  unfold addItem at member
  split at member
  · exact Or.inl member
  · exact Array.mem_push.mp member

/-- A property of the items that every start item the closure adds keeps holds of the whole
closure. -/
theorem closeFrom_forall (Q : Item → Prop)
    (grow : ∀ it y la p, Q it → it.isComplete = false → it.nextSymbol = .ok y →
      ctx.addedLookahead it = .ok la → p ∈ ctx.productions → p.head = y.toString →
        Q (Item.start p la))
    {fuel : Nat} {items result : Array Item} {k : Nat} (start : ∀ it ∈ items, Q it)
    (run : ctx.closeFrom fuel items k = .ok result) : ∀ it ∈ result, Q it := by
  induction fuel generalizing items k with
  | zero =>
      simp only [closeFrom, Except.ok.injEq] at run
      exact run ▸ start
  | succ fuel ih =>
      unfold closeFrom at run
      split at run
      · simp only [Except.ok.injEq] at run
        exact run ▸ start
      · rename_i it found
        have holds : Q it := start it (Array.mem_of_getElem? found)
        split at run
        · exact ih start run
        · rename_i unfinished
          obtain ⟨y, symbol, run⟩ := bind_eq_ok.mp run
          obtain ⟨la, lookahead, run⟩ := bind_eq_ok.mp run
          apply ih _ run
          refine List.foldlRecOn (motive := fun acc => ∀ it ∈ acc, Q it) _ _ start ?_
          intro acc inAcc p inProductions
          split
          · rename_i named
            intro other member
            rcases mem_addItem member with old | rfl
            · exact inAcc other old
            · exact grow it y la p holds (by simpa using unfinished) symbol lookahead
                inProductions (by simpa using named)
          · exact inAcc

theorem closure_forall (Q : Item → Prop)
    (grow : ∀ it y la p, Q it → it.isComplete = false → it.nextSymbol = .ok y →
      ctx.addedLookahead it = .ok la → p ∈ ctx.productions → p.head = y.toString →
        Q (Item.start p la))
    {kernel items : List Item} (start : ∀ it ∈ kernel, Q it)
    (closed : ctx.closure kernel = .ok items) : ∀ it ∈ items, Q it := by
  obtain ⟨result, run, rfl⟩ := map_eq_ok.mp closed
  intro it member
  exact closeFrom_forall Q grow (fun it member => start it (by simpa using member)) run it
    (by simpa using member)

/-! ## The items of closures and goto sets -/

variable {terminals : List Char}

theorem Fit.plain (sound : ctx.Sound terminals) {it : Item} (fit : ctx.Fit terminals it) :
    it.Plain :=
  fit.dotted.plain sound.plain

theorem fit_start (sound : ctx.Sound terminals) {it : Item} {la : CharSet} {p : Production}
    (fit : ctx.Fit terminals it) (lookahead : ctx.addedLookahead it = .ok la)
    (member : p ∈ ctx.productions) : ctx.Fit terminals (Item.start p la) where
  dotted := ⟨by simpa using member, Nat.zero_le _⟩
  lookahead := by
    intro d inLookahead
    unfold addedLookahead at lookahead
    split at lookahead
    · obtain ⟨s, found, rfl⟩ := map_eq_ok.mp lookahead
      obtain ⟨notEmpty, inFirst⟩ := CharSet.mem_erase.mp inLookahead
      rcases sound.firstOf _ s found d inFirst with terminal | empty
      · exact Or.inl terminal
      · exact absurd empty notEmpty
    · simp only [Except.ok.injEq] at lookahead
      exact fit.lookahead d (lookahead ▸ inLookahead)

/-- A start item of a production whose head is a character of some body: what the closure
adds. -/
def Added (ctx : ItemContext) (it : Item) : Prop :=
  it.dot = 0 ∧ ∃ q ∈ ctx.productions, ∃ y ∈ q.body, it.head = y.toString

/-- Every item of a closure of fit items is fit, and it is a kernel item or an added one. -/
theorem mem_closure (sound : ctx.Sound terminals) {kernel items : List Item}
    (kernelFit : ∀ it ∈ kernel, ctx.Fit terminals it) (closed : ctx.closure kernel = .ok items) :
    ∀ it ∈ items, ctx.Fit terminals it ∧ (it ∈ kernel ∨ ctx.Added it) := by
  apply closure_forall (fun it => ctx.Fit terminals it ∧ (it ∈ kernel ∨ ctx.Added it)) _ _ closed
  · intro it y la p holds unfinished symbol lookahead member named
    have plain := holds.1.plain sound
    have before := Item.dot_lt_of_isComplete_eq_false plain unfinished
    rw [Item.nextSymbol_eq plain before, Except.ok.injEq] at symbol
    refine ⟨fit_start sound holds.1 lookahead member, Or.inr ⟨rfl, ?_⟩⟩
    exact ⟨it.production, holds.1.dotted.1, y, symbol ▸ List.getElem_mem before, named⟩
  · intro it member
    exact ⟨kernelFit it member, Or.inl member⟩

/-- A property of items that every fit item with its dot moved over `x` has, and that every
start item the closure adds keeps, holds of the whole goto set over `x`. -/
theorem goto_forall (sound : ctx.Sound terminals) (Q : Item → Prop)
    (grow : ∀ it y la p, Q it → it.isComplete = false → it.nextSymbol = .ok y →
      ctx.addedLookahead it = .ok la → p ∈ ctx.productions → p.head = y.toString →
        Q (Item.start p la))
    {items result : List Item} {x : String} (itemsFit : ∀ it ∈ items, ctx.Fit terminals it)
    (kernel : ∀ source ∈ items, ∀ c, source.body[source.dot]? = some c → c.toString = x →
      Q source.next)
    (moved : ctx.goto items x = .ok result) : ∀ it ∈ result, Q it := by
  obtain ⟨kernelItems, advanced, closed⟩ := bind_eq_ok.mp moved
  refine closure_forall Q grow (fun it member => ?_) closed
  obtain ⟨source, inItems, advance⟩ := mem_filterMapM advanced member
  obtain ⟨c, found, named, rfl⟩ :=
    Item.advance_eq_some ((itemsFit source inItems).plain sound) advance
  exact kernel source inItems c found named

/-- Every item of a goto set of fit items is fit, and it is an item of the source set with its
dot moved over the symbol, or an added one. -/
theorem mem_goto (sound : ctx.Sound terminals) {items result : List Item} {x : String}
    (itemsFit : ∀ it ∈ items, ctx.Fit terminals it) (moved : ctx.goto items x = .ok result) :
    ∀ it ∈ result, ctx.Fit terminals it ∧
      ((∃ source ∈ items, ∃ c, source.body[source.dot]? = some c ∧ c.toString = x ∧
        it = source.next) ∨ ctx.Added it) := by
  obtain ⟨kernel, advanced, closed⟩ := bind_eq_ok.mp moved
  have kernelFrom : ∀ it ∈ kernel, ctx.Fit terminals it ∧ ∃ source ∈ items, ∃ c,
      source.body[source.dot]? = some c ∧ c.toString = x ∧ it = source.next := by
    intro it member
    obtain ⟨source, inItems, advance⟩ := mem_filterMapM advanced member
    have fit := itemsFit source inItems
    obtain ⟨c, found, named, rfl⟩ := Item.advance_eq_some (fit.plain sound) advance
    have before : source.dot < source.body.length := (List.getElem?_eq_some_iff.mp found).1
    exact ⟨⟨⟨fit.dotted.1, before⟩, fit.lookahead⟩, source, inItems, c, found, named, rfl⟩
  intro it member
  obtain ⟨fit, origin⟩ := mem_closure sound (fun it member => (kernelFrom it member).1) closed
    it member
  refine ⟨fit, ?_⟩
  rcases origin with inKernel | added
  · exact Or.inl (kernelFrom it inKernel).2
  · exact Or.inr added

/-! ## Kernels stay -/

theorem mem_addItem_of_mem {items : Array Item} {it other : Item} (member : other ∈ items) :
    other ∈ addItem items it := by
  unfold addItem
  split
  · exact member
  · exact Array.mem_push_of_mem it member

/-- The closure only adds items. -/
theorem mem_closeFrom_of_mem {fuel : Nat} {items result : Array Item} {k : Nat} {it : Item}
    (member : it ∈ items) (run : ctx.closeFrom fuel items k = .ok result) : it ∈ result := by
  induction fuel generalizing items k with
  | zero =>
      simp only [closeFrom, Except.ok.injEq] at run
      exact run ▸ member
  | succ fuel ih =>
      unfold closeFrom at run
      split at run
      · simp only [Except.ok.injEq] at run
        exact run ▸ member
      · split at run
        · exact ih member run
        · obtain ⟨y, _, run⟩ := bind_eq_ok.mp run
          obtain ⟨la, _, run⟩ := bind_eq_ok.mp run
          refine ih ?_ run
          refine List.foldlRecOn (motive := fun acc => it ∈ acc) _ _ member ?_
          intro acc inAcc p _
          split
          · exact mem_addItem_of_mem inAcc
          · exact inAcc

theorem mem_closure_of_mem {kernel items : List Item} {it : Item} (member : it ∈ kernel)
    (closed : ctx.closure kernel = .ok items) : it ∈ items := by
  obtain ⟨result, run, rfl⟩ := map_eq_ok.mp closed
  exact Array.mem_toList_iff.mpr (mem_closeFrom_of_mem (by simpa using member) run)

/-- The goto set over the symbol after the dot of an item holds the item with its dot moved. -/
theorem next_mem_goto {items result : List Item} {it : Item} (member : it ∈ items)
    (plain : it.Plain) (before : it.dot < it.body.length)
    (moved : ctx.goto items it.body[it.dot].toString = .ok result) : it.next ∈ result := by
  obtain ⟨kernel, advanced, closed⟩ := bind_eq_ok.mp moved
  have inKernel : it.next ∈ kernel :=
    mem_filterMapM_of advanced member (by simp [Item.advance_eq plain before])
  exact mem_closure_of_mem inKernel closed

end ItemContext

end GrammarBench
