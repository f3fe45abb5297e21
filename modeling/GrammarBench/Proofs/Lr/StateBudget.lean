import Mathlib.Data.List.Permutation
import Mathlib.Data.List.Sublists
import GrammarBench.Proofs.Lr.Automaton
import GrammarBench.Proofs.Lr.ClosureBudget

/-!
# The walk over the states ends

In a sound context every state the walk lists is a list of items of the productions, none
twice, whose lookaheads are the start item's or those of the alphabet
(`ItemContext.Shaped`). Finitely many lists are such states, and the walk never lists two
states equal by `sameState`, let alone equal ones, so its list of states never outgrows the
number of such lists (`ItemContext.Walked.size_le`). With that many steps the walk passes
its last state, and more steps change nothing (`ItemContext.statesFrom_add_fuel`).

When the FIRST sets of all body characters are computed, no goto set faults either, and the
item sets of the context end (`ItemContext.itemSetsEnd_of_sound`): every closure is computed
within its budget, and the walk ends at one list of states for every budget past a bound.
-/

namespace GrammarBench

section Runs

variable {ε α β : Type}

theorem bind_congr_of_ok {x : Except ε α} {f g : α → Except ε β}
    (agree : ∀ a, x = .ok a → f a = g a) : x >>= f = x >>= g := by
  cases x with
  | error fault => rfl
  | ok a => exact agree a rfl

/-- A `filterMapM` whose every call succeeds succeeds. -/
theorem exists_filterMapM_eq_ok {f : α → Except ε (Option β)} {xs : List α}
    (calls : ∀ x ∈ xs, ∃ y, f x = .ok y) : ∃ ys, xs.filterMapM f = .ok ys := by
  induction xs with
  | nil => exact ⟨[], rfl⟩
  | cons x rest ih =>
      obtain ⟨y, first⟩ := calls x List.mem_cons_self
      obtain ⟨ys, others⟩ := ih fun z member => calls z (List.mem_cons_of_mem x member)
      simp only [List.filterMapM_cons, first]
      cases y with
      | none => exact ⟨ys, others⟩
      | some z => exact ⟨z :: ys, by rw [others]; rfl⟩

/-- A successful `filterMapM` over entries without repeats, no two of which give the same
result, repeats no result. -/
theorem nodup_filterMapM {f : α → Except ε (Option β)} {xs : List α} {ys : List β}
    (injective : ∀ x ∈ xs, ∀ x' ∈ xs, ∀ y, f x = .ok (some y) → f x' = .ok (some y) → x = x')
    (distinct : xs.Nodup) (run : xs.filterMapM f = .ok ys) : ys.Nodup := by
  induction xs generalizing ys with
  | nil =>
      simp only [List.filterMapM_nil, pure, Except.pure, Except.ok.injEq] at run
      exact run ▸ List.nodup_nil
  | cons x rest ih =>
      obtain ⟨fresh, restDistinct⟩ := List.nodup_cons.mp distinct
      have restInjective : ∀ a ∈ rest, ∀ b ∈ rest, ∀ y, f a = .ok (some y) →
          f b = .ok (some y) → a = b := fun a inA b inB =>
        injective a (List.mem_cons_of_mem x inA) b (List.mem_cons_of_mem x inB)
      simp only [List.filterMapM_cons] at run
      obtain ⟨kept, first, remaining⟩ := bind_eq_ok.mp run
      cases kept with
      | none => exact ih restInjective restDistinct remaining
      | some z =>
          obtain ⟨zs, others, collected⟩ := bind_eq_ok.mp remaining
          simp only [pure, Except.pure, Except.ok.injEq] at collected
          subst collected
          refine List.nodup_cons.mpr ⟨fun later => ?_, ih restInjective restDistinct others⟩
          obtain ⟨x', inRest, again⟩ := mem_filterMapM others later
          have same := injective x List.mem_cons_self x' (List.mem_cons_of_mem x inRest) z
            first again
          exact fresh (same ▸ inRest)

end Runs

theorem Item.next_injective {a b : Item} (same : a.next = b.next) : a = b := by
  cases a
  cases b
  simp only [Item.next, Item.mk.injEq, Nat.add_right_cancel_iff] at same
  simp only [same]

namespace ItemContext

variable {ctx : ItemContext} {terminals : List Char} {start : Item} {symbols : List String}

/-! ## The shape of the states -/

/-- The lookaheads of the automaton's items: the start item's, and those of the alphabet. -/
def stateLookaheads (ctx : ItemContext) (start : Item) : List CharSet :=
  start.lookahead :: ctx.alphabetLookaheads

/-- A list of items that can be a state of the automaton: fit items, none twice, with
lookaheads of the automaton. -/
structure Shaped (ctx : ItemContext) (terminals : List Char) (start : Item) (s : List Item) :
    Prop where
  nodup : s.Nodup
  fit : ∀ it ∈ s, ctx.Fit terminals it
  lookahead : ∀ it ∈ s, it.lookahead ∈ ctx.stateLookaheads start

/-- The items of a goto set and of a closure read productions with lookaheads of the
automaton, when the items they start from do. -/
def Stocked (ctx : ItemContext) (start : Item) (it : Item) : Prop :=
  it.production ∈ ctx.productions ∧ it.lookahead ∈ ctx.stateLookaheads start

theorem stocked_start {it : Item} {la : CharSet} {p : Production}
    (stocked : ctx.Stocked start it) (lookahead : ctx.addedLookahead it = .ok la)
    (member : p ∈ ctx.productions) : ctx.Stocked start (Item.start p la) := by
  refine ⟨by simpa using member, ?_⟩
  rcases addedLookahead_mem stocked.1 lookahead with fromAlphabet | rfl
  · exact List.mem_cons_of_mem _ fromAlphabet
  · exact stocked.2

theorem Shaped.of_closure (sound : ctx.Sound terminals) {kernel s : List Item}
    (distinct : kernel.Nodup) (kernelFit : ∀ it ∈ kernel, ctx.Fit terminals it)
    (kernelStocked : ∀ it ∈ kernel, ctx.Stocked start it) (closed : ctx.closure kernel = .ok s) :
    ctx.Shaped terminals start s where
  nodup := nodup_closure distinct closed
  fit it member := (mem_closure sound kernelFit closed it member).1
  lookahead it member := (closure_forall (ctx.Stocked start)
    (fun _ _ _ _ stocked _ _ lookahead member _ => stocked_start stocked lookahead member)
    kernelStocked closed it member).2

/-- A goto set of a state is a state. -/
theorem Shaped.goto (sound : ctx.Sound terminals) {s t : List Item} {x : String}
    (shaped : ctx.Shaped terminals start s) (moved : ctx.goto s x = .ok t) :
    ctx.Shaped terminals start t := by
  obtain ⟨kernel, advanced, closed⟩ := bind_eq_ok.mp moved
  have origin : ∀ it ∈ kernel, ∃ source ∈ s, source.dot < source.body.length ∧
      it = source.next := by
    intro it member
    obtain ⟨source, inS, advance⟩ := mem_filterMapM advanced member
    obtain ⟨_, found, _, rfl⟩ := Item.advance_eq_some ((shaped.fit source inS).plain sound) advance
    exact ⟨source, inS, (List.getElem?_eq_some_iff.mp found).1, rfl⟩
  have distinct : kernel.Nodup := by
    refine nodup_filterMapM (fun a inA b inB y movedA movedB => ?_) shaped.nodup advanced
    obtain ⟨_, _, _, rfl⟩ := Item.advance_eq_some ((shaped.fit a inA).plain sound) movedA
    obtain ⟨_, _, _, same⟩ := Item.advance_eq_some ((shaped.fit b inB).plain sound) movedB
    exact Item.next_injective same
  refine Shaped.of_closure sound distinct (fun it member => ?_) (fun it member => ?_) closed
  · obtain ⟨source, inS, before, rfl⟩ := origin it member
    have fit := shaped.fit source inS
    exact ⟨⟨fit.dotted.1, before⟩, fit.lookahead⟩
  · obtain ⟨source, inS, _, rfl⟩ := origin it member
    exact ⟨(shaped.fit source inS).dotted.1, shaped.lookahead source inS⟩

/-- The first state, the closure of a fit start item, is a state. -/
theorem shaped_first (sound : ctx.Sound terminals) (startFit : ctx.Fit terminals start)
    {first : List Item} (closed : ctx.closure [start] = .ok first) :
    ctx.Shaped terminals start first := by
  refine Shaped.of_closure sound (List.nodup_singleton start) (fun it member => ?_)
    (fun it member => ?_) closed
  · rw [List.mem_singleton.mp member]
    exact startFit
  · rw [List.mem_singleton.mp member]
    exact ⟨startFit.dotted.1, List.mem_cons_self⟩

/-! ## Finitely many states -/

/-- The items of the productions with a lookahead from `las`. -/
def itemsOver (ctx : ItemContext) (las : List CharSet) : List Item :=
  ctx.productions.flatMap fun p => (List.range (p.body.length + 1)).flatMap fun d =>
    las.map fun la => ⟨p.head, p.body, d, la⟩

theorem mem_itemsOver {las : List CharSet} {it : Item} (dotted : it.Over ctx.productions)
    (allowed : it.lookahead ∈ las) : it ∈ ctx.itemsOver las := by
  simp only [itemsOver, List.mem_flatMap, List.mem_range, List.mem_map]
  exact ⟨it.production, dotted.1, it.dot, Nat.lt_succ_of_le dotted.2, it.lookahead, allowed, rfl⟩

/-- The lists of items of `itemsOver las` without repeats, each in every order. -/
def stateSpace (ctx : ItemContext) (las : List CharSet) : List (List Item) :=
  (ctx.itemsOver las).sublists.flatMap List.permutations

theorem Shaped.mem_stateSpace {s : List Item} (shaped : ctx.Shaped terminals start s) :
    s ∈ ctx.stateSpace (ctx.stateLookaheads start) := by
  have within : s ⊆ ctx.itemsOver (ctx.stateLookaheads start) := fun it member =>
    mem_itemsOver (shaped.fit it member).dotted (shaped.lookahead it member)
  obtain ⟨l, reordered, sub⟩ := List.subperm_of_subset shaped.nodup within
  exact List.mem_flatMap.mpr ⟨l, List.mem_sublists.mpr sub, List.mem_permutations.mpr reordered.symm⟩

/-- A list of states the walk can have built: states, no two equal by `sameState`. -/
def Walked (ctx : ItemContext) (terminals : List Char) (start : Item)
    (states : Array (List Item)) : Prop :=
  (∀ s ∈ states, ctx.Shaped terminals start s) ∧
    states.toList.Pairwise fun u t => sameState u t = false

/-- The number of lists of states the walk can have built, at most. -/
def walkBound (ctx : ItemContext) (start : Item) : Nat :=
  (ctx.stateSpace (ctx.stateLookaheads start)).length

/-- The walk lists at most `walkBound` states. States equal by `sameState` include equal ones,
so no state is listed twice. -/
theorem Walked.size_le {states : Array (List Item)} (walked : ctx.Walked terminals start states) :
    states.size ≤ ctx.walkBound start := by
  have distinct : states.toList.Nodup := walked.2.imp fun {u t} apart same => by
    subst same
    simp at apart
  have within : states.toList ⊆ ctx.stateSpace (ctx.stateLookaheads start) := fun s member =>
    (walked.1 s (Array.mem_toList_iff.mp member)).mem_stateSpace
  rw [← Array.length_toList]
  exact distinct.length_le_of_subset within

theorem walked_first (sound : ctx.Sound terminals) (startFit : ctx.Fit terminals start)
    {first : List Item} (closed : ctx.closure [start] = .ok first) :
    ctx.Walked terminals start #[first] := by
  refine ⟨fun s member => ?_, by simp⟩
  rw [Array.mem_singleton.mp member]
  exact shaped_first sound startFit closed

/-- The pass of the walk over the symbols at one of its states keeps the list walked. -/
theorem Walked.symbolPass (sound : ctx.Sound terminals) {s : List Item}
    {states grown : Array (List Item)} (walked : ctx.Walked terminals start states)
    (shaped : ctx.Shaped terminals start s)
    (pass : symbols.foldlM (fun (states : Array (List Item)) x => do
      let t ← ctx.goto s x
      pure (if t.isEmpty || states.any (sameState · t) then states else states.push t))
      states = .ok grown) :
    ctx.Walked terminals start grown := by
  refine ⟨fun t member => ?_, ?_⟩
  · rcases (symbolPass_extends pass).2 t member with old | ⟨x, moved⟩
    · exact walked.1 t old
    · exact shaped.goto sound moved
  · exact symbolPass_invariant (fun states => states.toList.Pairwise fun u t => sameState u t = false)
      (fun _ _ apart fresh => pairwise_push_of_fresh apart fresh) walked.2 pass

/-- The item sets over a context end: the closure of every kernel of fit items is computed
without a fault, and every budget from `closureBound` on computes it; the walk over the states
from the closure of the start item ends without a fault, at one list of states for every
budget from some bound on. -/
structure ItemSetsEnd (ctx : ItemContext) (terminals : List Char) (symbols : List String)
    (start : Item) : Prop where
  closes : ∀ kernel : List Item, (∀ it ∈ kernel, ctx.Fit terminals it) →
    ∃ items, ctx.closure kernel = .ok items ∧ ∀ fuel, ctx.closureBound kernel ≤ fuel →
      (ctx.closeFrom fuel kernel.toArray 0).map Array.toList = .ok items
  walks : ∃ first bound found, ctx.closure [start] = .ok first ∧
    ∀ fuel, bound ≤ fuel → ctx.statesFrom symbols fuel #[first] 0 = .ok found

/-! ## The walk ends -/

variable (sound : ctx.Sound terminals)
include sound

/-- Steps beyond the walk's bound change nothing: once the walk has room for more steps than
a walked list can hold states, it stops past the last state. -/
theorem statesFrom_add_fuel {fuel k : Nat} {states : Array (List Item)}
    (walked : ctx.Walked terminals start states) (enough : ctx.walkBound start ≤ k + fuel)
    (more : Nat) :
    ctx.statesFrom symbols (fuel + more) states k = ctx.statesFrom symbols fuel states k := by
  induction fuel generalizing states k with
  | zero =>
      have past : states[k]? = none := Array.getElem?_eq_none (by have := walked.size_le; omega)
      cases more with
      | zero => rfl
      | succ more => simp [statesFrom, past]
  | succ fuel ih =>
      rw [show fuel + 1 + more = fuel + more + 1 by omega]
      unfold statesFrom
      cases found : states[k]? with
      | none => rfl
      | some s =>
          have shaped := walked.1 s (Array.mem_of_getElem? found)
          refine bind_congr_of_ok fun grown pass => ?_
          exact ih (walked.symbolPass sound shaped pass) (by omega)

variable (answers : ∀ p ∈ ctx.productions, ∀ c ∈ p.body, ∃ s, ctx.firstOf c = .ok s)
include answers

/-- A goto set of a state is computed without a fault, when the FIRST sets of all body
characters are. -/
theorem exists_goto_eq_ok {s : List Item} (shaped : ctx.Shaped terminals start s) (x : String) :
    ∃ t, ctx.goto s x = .ok t := by
  have advances : ∀ it ∈ s, ∃ next, it.advance x = .ok next := by
    intro it member
    have plain := (shaped.fit it member).plain sound
    cases complete : it.isComplete with
    | true => exact ⟨none, Item.advance_of_complete complete x⟩
    | false => exact ⟨_, Item.advance_eq plain (Item.dot_lt_of_isComplete_eq_false plain complete) x⟩
  obtain ⟨kernel, advanced⟩ := exists_filterMapM_eq_ok advances
  have kernelDotted : ∀ it ∈ kernel, it.Over ctx.productions := by
    intro it member
    obtain ⟨source, inS, advance⟩ := mem_filterMapM advanced member
    have fit := shaped.fit source inS
    obtain ⟨c, found, _, rfl⟩ := Item.advance_eq_some (fit.plain sound) advance
    exact ⟨fit.dotted.1, (List.getElem?_eq_some_iff.mp found).1⟩
  obtain ⟨t, closed⟩ := exists_closure_eq_ok sound.plain answers kernelDotted
  exact ⟨t, by rw [goto, advanced]; exact closed⟩

/-- The pass of the walk over the symbols at a state is computed without a fault. -/
theorem exists_symbolPass_eq_ok {s : List Item} (shaped : ctx.Shaped terminals start s)
    (names : List String) (states : Array (List Item)) :
    ∃ grown, names.foldlM (fun (states : Array (List Item)) x => do
      let t ← ctx.goto s x
      pure (if t.isEmpty || states.any (sameState · t) then states else states.push t))
      states = .ok grown := by
  refine exists_foldlM_eq_ok (fun acc x _ => ?_) states
  obtain ⟨t, moved⟩ := exists_goto_eq_ok sound answers shaped x
  exact ⟨_, by rw [moved]; rfl⟩

/-- Within the walk's bound, the walk from a walked list ends without a fault. -/
theorem exists_statesFrom_eq_ok {fuel k : Nat} {states : Array (List Item)}
    (walked : ctx.Walked terminals start states) (enough : ctx.walkBound start ≤ k + fuel) :
    ∃ found, ctx.statesFrom symbols fuel states k = .ok found := by
  induction fuel generalizing states k with
  | zero =>
      have past : states[k]? = none := Array.getElem?_eq_none (by have := walked.size_le; omega)
      exact ⟨states, by simp [statesFrom, past]⟩
  | succ fuel ih =>
      unfold statesFrom
      cases found : states[k]? with
      | none => exact ⟨states, rfl⟩
      | some s =>
          have shaped := walked.1 s (Array.mem_of_getElem? found)
          obtain ⟨grown, pass⟩ := exists_symbolPass_eq_ok sound answers shaped symbols states
          obtain ⟨result, run⟩ := ih (k := k + 1) (walked.symbolPass sound shaped pass) (by omega)
          exact ⟨result, bind_eq_ok.mpr ⟨grown, pass, run⟩⟩

/-- Over a sound context whose body characters all have FIRST sets, the item sets from a fit
start item end. -/
theorem itemSetsEnd_of_sound (startFit : ctx.Fit terminals start) :
    ctx.ItemSetsEnd terminals symbols start where
  closes kernel kernelFit := by
    obtain ⟨items, closed⟩ :=
      exists_closure_eq_ok sound.plain answers fun it member => (kernelFit it member).dotted
    exact ⟨items, closed, fun fuel enough => (closeFrom_of_closureBound_le enough).trans closed⟩
  walks := by
    obtain ⟨first, closed⟩ : ∃ first, ctx.closure [start] = .ok first :=
      exists_closure_eq_ok sound.plain answers fun it member =>
        (List.mem_singleton.mp member ▸ startFit).dotted
    have walked := walked_first sound startFit closed
    obtain ⟨found, run⟩ : ∃ found,
        ctx.statesFrom symbols (ctx.walkBound start) #[first] 0 = .ok found :=
      exists_statesFrom_eq_ok sound answers walked (by omega)
    refine ⟨first, ctx.walkBound start, found, closed, fun fuel enough => ?_⟩
    obtain ⟨more, rfl⟩ := Nat.exists_eq_add_of_le enough
    rw [statesFrom_add_fuel sound walked (by omega)]
    exact run

end ItemContext

end GrammarBench
