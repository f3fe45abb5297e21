import GrammarBench.Proofs.Lr.Forest
import GrammarBench.Proofs.Lr.Soundness

/-!
# Termination of the shift-reduce parse

A shift-reduce parse with the table of a well-formed grammar ends, for every input, when no
nonterminal derives itself alone and none is hidden left recursive. This holds whatever
conflicts the table builder overwrote and whatever duplicate states the automaton holds. Left
recursion in plain sight, `A->Aβ`, is allowed.

Every step adds one node to a forest of parse trees over the symbols of the stack (`Grown`): a
shift adds a leaf, and a reduction adds a node for the production's head over the trees of the
top symbols, which spell the body. So the number of steps taken is the number of nodes, which
`Grammar.Forest.nodes_le` bounds by the number of trees and the letters read. It remains to
bound the stack. A symbol that cannot vanish has a tree that yields a letter, so such symbols
are at most as many as the letters read. Runs of symbols that can vanish are short, because
each state on the stack bounds the vanishing symbols at the end of the stack below it
(`ItemsBounded`).

That bound is an invariant of the automaton. Take an item `A->α.β` with `L` the longest body:
the vanishing tail plus `L` times the weight of `A` is at most `L (H + 1)` plus the length of
`α`. The weight of `A` is the number of heads that `A` reaches behind a nonempty run of
vanishing symbols (`Grammar.headWeight`). The closure adds an item for `Y` from `A->α.Yβ`. If
`α` is empty, `Y` weighs at most what `A` does. If `α` is nonempty and all of it can vanish,
`A` reaches `Y` behind it, so `Y` weighs less by one, when no nonterminal is hidden left
recursive. Otherwise the vanishing tail ends inside `α`.

Main statement: `shiftReduce_terminates`.
-/

namespace GrammarBench

namespace Grammar

variable {g : Grammar}

/-! ## Vanishing tails -/

open Classical in
/-- The number of symbols at the end of a form that can vanish. -/
noncomputable def vanishingTail (g : Grammar) (xs : Sentential) : Nat :=
  xs.foldl (fun n x => if g.Nullable x then n + 1 else 0) 0

open Classical in
theorem vanishingTail_concat (xs : Sentential) (x : Symbol Char String) :
    g.vanishingTail (xs ++ [x]) = if g.Nullable x then g.vanishingTail xs + 1 else 0 := by
  simp [vanishingTail, List.foldl_append]

theorem vanishingTail_append_le (xs ys : Sentential) :
    g.vanishingTail (xs ++ ys) ≤ g.vanishingTail xs + ys.length := by
  induction ys using List.reverseRecOn with
  | nil => simp
  | append_singleton ys y ih =>
      rw [← List.append_assoc, vanishingTail_concat, List.length_append, List.length_singleton]
      split <;> omega

/-- A symbol that cannot vanish among the last symbols of a form cuts its vanishing tail
short. -/
theorem vanishingTail_lt {xs ys : Sentential} (suffix : ys <:+ xs) {y : Symbol Char String}
    (member : y ∈ ys) (solid : ¬ g.Nullable y) : g.vanishingTail xs < ys.length := by
  obtain ⟨front, rfl⟩ := suffix
  obtain ⟨before, after, rfl⟩ := List.append_of_mem member
  have cut : g.vanishingTail (front ++ before ++ [y]) = 0 := by
    rw [vanishingTail_concat, if_neg solid]
  have tail := vanishingTail_append_le (g := g) (front ++ before ++ [y]) after
  rw [cut] at tail
  have regrouped : front ++ (before ++ y :: after) = front ++ before ++ [y] ++ after := by
    simp
  rw [regrouped]
  simp only [List.length_append, List.length_cons]
  omega

open Classical in
theorem solidCount_concat (xs : Sentential) (x : Symbol Char String) :
    g.solidCount (xs ++ [x]) = g.solidCount xs + if g.Nullable x then 0 else 1 := by
  simp only [solidCount, List.countP_append, List.countP_singleton, decide_not]
  split <;> simp_all

/-- A nonterminal of a body after symbols that can vanish reaches, behind vanishing symbols,
only heads that the production's head reaches. -/
theorem hiddenRank_le_of_form {p : Production} (member : p ∈ g.productions) {B : String}
    {front back : Sentential} (split : p.form = front ++ .nonterminal B :: back)
    (vanish : ∀ x ∈ front, g.Nullable x) :
    g.reachRank g.HiddenReach B ≤ g.reachRank g.HiddenReach p.head :=
  reachRank_mono fun _ further => HiddenReach.of_form member split vanish further

/-- Behind a nonempty run of symbols that can vanish, a nonterminal of a body ranks strictly
below the head, when nothing is hidden left recursive. -/
theorem hiddenRank_lt_of_form (noHidden : ∀ A, ¬ g.HiddenLeftRecursive A) {p : Production}
    (member : p ∈ g.productions) {B : String} {front back : Sentential}
    (split : p.form = front ++ .nonterminal B :: back) (nonempty : front ≠ [])
    (vanish : ∀ x ∈ front, g.Nullable x) (head : B ∈ g.heads) :
    g.reachRank g.HiddenReach B < g.reachRank g.HiddenReach p.head :=
  reachRank_lt (hiddenReach_of_form member split nonempty vanish)
    (fun _ further => HiddenReach.of_form member split vanish further)
    (fun loop => noHidden _ loop.hiddenLeftRecursive) head

/-! ## Weights and bounds -/

/-- The weight of an item's head in the bound on vanishing symbols: the number of heads it
reaches behind a nonempty run of vanishing symbols, and the number of all heads for the start
letter `z`. -/
noncomputable def headWeight (g : Grammar) (z : Char) (head : String) : Nat :=
  if head = z.toString then g.heads.card else g.reachRank g.HiddenReach head

theorem headWeight_le (z : Char) (head : String) : g.headWeight z head ≤ g.heads.card := by
  unfold headWeight
  split
  · exact le_refl _
  · exact reachRank_le _ _

/-- The most symbols that can vanish at the end of the stack of a parse. -/
def tailBound (g : Grammar) : Nat :=
  g.maxBody * (g.heads.card + 2) + 1

theorem tailBound_eq : g.tailBound = g.maxBody * g.heads.card + g.maxBody + g.maxBody + 1 := by
  rw [tailBound, Nat.mul_succ, Nat.mul_succ]

/-- A bound on the steps of a parse that reads `k` characters: at most `c + (c + 1) k` trees,
where `c` is `tailBound`, of at most `treeBound k (H + 1)` nodes each. -/
def parseBound (g : Grammar) (k : Nat) : Nat :=
  (g.tailBound + (g.tailBound + 1) * k) * g.treeBound k (g.heads.card + 1)

/-- An item bounds the symbols that can vanish at the end of a stack: it has seen symbols that
end the stack, and the vanishing tail plus `L` times the weight of its head is at most
`L (H + 1)` plus the length of what it has seen. -/
def ItemBounded (g : Grammar) (z : Char) (symbols : List Char) (it : Item) : Prop :=
  it.seen <:+ symbols ∧
    g.vanishingTail (symbols.map bodySymbol) + g.maxBody * g.headWeight z it.head ≤
      g.maxBody * (g.heads.card + 1) + it.seen.length

/-- A state bounds the vanishing symbols at the end of a stack: there are at most `tailBound`
of them, and every item of the state bounds them. -/
def ItemsBounded (g : Grammar) (z : Char) (s : List Item) (symbols : List Char) : Prop :=
  g.vanishingTail (symbols.map bodySymbol) ≤ g.tailBound ∧ ∀ it ∈ s, g.ItemBounded z symbols it

/-- Moving the dot over a symbol keeps an item bounded: the symbol either lengthens both the
vanishing tail and what the item has seen, or ends the tail. -/
theorem ItemBounded.next {z : Char} {symbols : List Char} {it : Item}
    (bounded : g.ItemBounded z symbols it) {c : Char} (found : it.body[it.dot]? = some c) :
    g.ItemBounded z (symbols ++ [c]) it.next := by
  obtain ⟨⟨front, spelled⟩, within⟩ := bounded
  have light := Nat.mul_le_mul_left g.maxBody (headWeight_le (g := g) z it.head)
  have seen := Item.seen_next found
  refine ⟨⟨front, by rw [seen, ← List.append_assoc, spelled]⟩, ?_⟩
  rw [seen, List.map_append, List.map_singleton, vanishingTail_concat, List.length_append,
    List.length_singleton, Nat.mul_succ]
  show _ + g.maxBody * g.headWeight z it.head ≤ _
  rw [Nat.mul_succ] at within
  split <;> omega

end Grammar

/-! ## Items that bound the vanishing tail -/

/-- The body of an unfinished plain item: what it has seen, the symbol after the dot, and the
rest. -/
theorem Item.form_split {it : Item} (before : it.dot < it.body.length) :
    it.production.form = it.seen.map bodySymbol ++
      bodySymbol it.body[it.dot] :: (it.body.drop (it.dot + 1)).map bodySymbol := by
  have split : it.body = it.seen ++ it.body[it.dot] :: it.body.drop (it.dot + 1) := by
    rw [Item.seen, List.getElem_cons_drop, List.take_append_drop]
  show it.body.map bodySymbol = _
  conv_lhs => rw [split]
  rw [List.map_append, List.map_cons]

variable {g : Grammar} {z : Char} {ctx : ItemContext} {states : List (List Item)}
  {table : ActionTable}

namespace Setting

/-- The productions of the automaton have at most `L + 1` body symbols: the start production
has one. -/
theorem body_length_le (setting : Setting g z ctx states table) {q : Production}
    (member : q ∈ ctx.productions) : q.body.length ≤ g.maxBody + 1 := by
  by_cases atStart : q.head = z.toString
  · rw [setting.body_length_of_start member atStart]
    omega
  · have := Grammar.length_le_maxBody (setting.mem_productions member atStart)
    omega

/-- The closure keeps items bounded. It adds an item for `Y` from an item `A->α.Yβ`, and the
new item has seen nothing. If `α` is empty, `Y` weighs at most what `A` does. If `α` is
nonempty and can vanish, `Y` weighs at least one less. Otherwise the vanishing tail is shorter
than `α`. -/
theorem itemBounded_start (setting : Setting g z ctx states table)
    (noHidden : ∀ A, ¬ g.HiddenLeftRecursive A) {symbols : List Char} {it : Item}
    (fit : ctx.Fit g.terminals it) (bounded : g.ItemBounded z symbols it)
    (unfinished : it.isComplete = false) {y : Char} (symbol : it.nextSymbol = .ok y)
    {p : Production} (member : p ∈ ctx.productions) (named : p.head = y.toString)
    (la : CharSet) : g.ItemBounded z symbols (Item.start p la) := by
  have plain := fit.plain setting.sound
  have before := Item.dot_lt_of_isComplete_eq_false plain unfinished
  rw [Item.nextSymbol_eq plain before, Except.ok.injEq] at symbol
  subst symbol
  have notStartName : it.body[it.dot].toString ≠ z.toString := fun same =>
    setting.fresh it.production fit.dotted.1
      (String.singleton_inj.mp same ▸ List.getElem_mem before)
  have own := setting.mem_productions member (named ▸ notStartName)
  obtain ⟨Y, upper, namedY⟩ := setting.wellFormed.head_upper p own
  have sameY : it.body[it.dot] = Y := String.singleton_inj.mp (named.symm.trans namedY)
  have headIn : it.body[it.dot].toString ∈ g.heads := named ▸ Grammar.mem_heads own
  have weight : g.headWeight z p.head = g.reachRank g.HiddenReach it.body[it.dot].toString := by
    rw [Grammar.headWeight, named, if_neg notStartName]
  have light := Grammar.reachRank_le (g := g) g.HiddenReach it.body[it.dot].toString
  have lightScaled := Nat.mul_le_mul_left g.maxBody light
  obtain ⟨suffix, within⟩ := bounded
  rw [Nat.mul_succ] at within
  refine ⟨by simp, ?_⟩
  show _ + g.maxBody * g.headWeight z p.head ≤ g.maxBody * (g.heads.card + 1) + [].length
  rw [weight, List.length_nil, Nat.add_zero, Nat.mul_succ]
  by_cases atStart : it.head = z.toString
  · have single : it.body.length = 1 := setting.body_length_of_start fit.dotted.1 atStart
    have seenNothing : it.seen = [] := by
      simp only [Item.seen, List.take_eq_nil_iff]
      omega
    have startWeight : g.headWeight z it.head = g.heads.card := by
      rw [Grammar.headWeight, if_pos atStart]
    rw [startWeight, seenNothing, List.length_nil, Nat.add_zero] at within
    omega
  · have ownItem := setting.mem_productions fit.dotted.1 atStart
    have itWeight : g.headWeight z it.head = g.reachRank g.HiddenReach it.head := by
      rw [Grammar.headWeight, if_neg atStart]
    rw [itWeight] at within
    have split := Item.form_split before
    rw [sameY, bodySymbol_of_upper upper, ← sameY] at split
    have wide : it.seen.length ≤ g.maxBody :=
      (List.length_take_le' _ _).trans (Grammar.length_le_maxBody ownItem)
    by_cases vanish : ∀ x ∈ it.seen.map bodySymbol, g.Nullable x
    · by_cases empty : it.seen = []
      · have lower : g.reachRank g.HiddenReach it.body[it.dot].toString ≤
            g.reachRank g.HiddenReach it.head :=
          Grammar.hiddenRank_le_of_form ownItem split vanish
        have lowerScaled := Nat.mul_le_mul_left g.maxBody lower
        rw [empty, List.length_nil] at within
        omega
      · have lower : g.reachRank g.HiddenReach it.body[it.dot].toString <
            g.reachRank g.HiddenReach it.head :=
          Grammar.hiddenRank_lt_of_form noHidden ownItem split (by simpa using empty) vanish
            headIn
        have lowerScaled := Nat.mul_le_mul_left g.maxBody lower
        rw [Nat.mul_succ] at lowerScaled
        omega
    · simp only [not_forall] at vanish
      obtain ⟨x, member, solid⟩ := vanish
      have short := Grammar.vanishingTail_lt (suffix.map bodySymbol) member solid
      rw [List.length_map] at short
      omega

/-- A goto set of a bounded state over a symbol that an item of the state crosses is bounded
for the stack extended by that symbol. -/
theorem itemsBounded_goto (setting : Setting g z ctx states table)
    (noHidden : ∀ A, ¬ g.HiddenLeftRecursive A) {s t : List Item} {symbols : List Char}
    {x : Char} (bounded : g.ItemsBounded z s symbols) (fitS : ∀ it ∈ s, ctx.Fit g.terminals it)
    {it : Item} (member : it ∈ s) (unfinished : it.isComplete = false)
    (symbol : it.nextSymbol = .ok x) (moved : ctx.goto s x.toString = .ok t) :
    g.ItemsBounded z t (symbols ++ [x]) := by
  have all : ∀ it ∈ t, ctx.Fit g.terminals it ∧ g.ItemBounded z (symbols ++ [x]) it := by
    refine ctx.goto_forall setting.sound _ ?_ fitS ?_ moved
    · intro it y la p holds unfinished symbol lookahead member named
      exact ⟨ItemContext.fit_start setting.sound holds.1 lookahead member,
        setting.itemBounded_start noHidden holds.1 holds.2 unfinished symbol member named la⟩
    · intro source inS c found named
      have same : c = x := String.singleton_inj.mp named
      subst same
      have fit := fitS source inS
      have within : source.dot < source.body.length := by
        have := List.getElem?_eq_some_iff.mp found
        exact this.1
      exact ⟨⟨⟨fit.dotted.1, within⟩, fit.lookahead⟩, (bounded.2 source inS).next found⟩
  have plain := (fitS it member).plain setting.sound
  have before := Item.dot_lt_of_isComplete_eq_false plain unfinished
  rw [Item.nextSymbol_eq plain before, Except.ok.injEq] at symbol
  subst symbol
  have crossed := ctx.next_mem_goto member plain before moved
  obtain ⟨_, within⟩ := (all it.next crossed).2
  have seenShort : it.next.seen.length ≤ g.maxBody + 1 :=
    (List.length_take_le' _ _).trans (setting.body_length_le (fitS it member).dotted.1)
  refine ⟨?_, fun it member => (all it member).2⟩
  rw [Grammar.tailBound_eq]
  rw [Nat.mul_succ] at within
  omega

/-- A state with the sorted labels of a bounded state is bounded too. -/
theorem itemsBounded_of_sortedLabels {s t : List Item} {symbols : List Char}
    (plainS : ∀ it ∈ s, it.Plain) (plainT : ∀ it ∈ t, it.Plain)
    (same : sortedLabels s = sortedLabels t) (bounded : g.ItemsBounded z t symbols) :
    g.ItemsBounded z s symbols := by
  refine ⟨bounded.1, fun it member => ?_⟩
  obtain ⟨other, inT, sameHead, sameSeen⟩ := exists_twin_of_sortedLabels plainS plainT same member
  unfold Grammar.ItemBounded
  rw [sameHead, sameSeen]
  exact bounded.2 other inT

variable {chain : List (Char × Nat)}

/-- The bottom state bounds the empty stack. -/
theorem bounded_start (setting : Setting g z ctx states table) :
    ChainAll (g.ItemsBounded z) states [] := by
  obtain ⟨s, atZero, agrees⟩ := setting.start
  refine chainAll_nil ⟨s, atZero, ?_, fun it member => ?_⟩
  · simp [Grammar.vanishingTail]
  · have seenNothing : it.seen = [] := List.suffix_nil.mp (agrees it member).1
    have light := Nat.mul_le_mul_left g.maxBody (Grammar.headWeight_le (g := g) z it.head)
    refine ⟨by simp [seenNothing], ?_⟩
    rw [seenNothing]
    simp only [List.map_nil, List.length_nil, Nat.add_zero, Nat.mul_succ]
    simp only [Grammar.vanishingTail, List.foldl_nil, Nat.zero_add]
    omega

/-- Crossing to the state the table names keeps every state of a chain bounded. -/
theorem bounded_cross (setting : Setting g z ctx states table)
    (noHidden : ∀ A, ¬ g.HiddenLeftRecursive A) (bounded : ChainAll (g.ItemsBounded z) states chain)
    {x : Char} {v : Nat} (crossing : Crossing ctx states chain x v) :
    ChainAll (g.ItemsBounded z) states ((x, v) :: chain) := by
  obtain ⟨s, atTop, ⟨it, member, unfinished, symbol⟩, next, moved, found⟩ := crossing
  obtain ⟨top, atTop', boundedTop⟩ := bounded.top
  rw [atTop, Option.some.injEq] at atTop'
  subst atTop'
  have fitS := setting.fitAll s (List.mem_of_getElem? atTop)
  have nextBounded := setting.itemsBounded_goto noHidden boundedTop fitS member unfinished symbol
    moved
  have labelled := getElem?_of_lastStateWith found
  rw [List.getElem?_map] at labelled
  obtain ⟨target, inStates, sameLabels⟩ := Option.map_eq_some_iff.mp labelled
  have fitTarget := setting.fitAll target (List.mem_of_getElem? inStates)
  have plainNext : ∀ it ∈ next, it.Plain := fun it member =>
    ((ctx.mem_goto setting.sound fitS moved it member).1).plain setting.sound
  exact bounded.cons ⟨target, inStates, itemsBounded_of_sortedLabels
    (fun it member => (fitTarget it member).plain setting.sound) plainNext sameLabels
    nextBounded⟩

end Setting

/-! ## The stack -/

/-- A chain whose states each bound the vanishing tail below them by `c` has at most the
vanishing tail of all its symbols, plus `c + 1` for each symbol that cannot vanish. -/
theorem length_le_of_vanishingTail {c : Nat} {chain : List (Char × Nat)}
    (short : ∀ n ≤ chain.length,
      g.vanishingTail ((chainSymbols (chain.drop n)).map bodySymbol) ≤ c) :
    chain.length ≤ g.vanishingTail ((chainSymbols chain).map bodySymbol) +
      (c + 1) * g.solidCount ((chainSymbols chain).map bodySymbol) := by
  induction chain with
  | nil => simp
  | cons link rest ih =>
      obtain ⟨x, v⟩ := link
      have below := ih fun n within => short (n + 1) (by simpa using within)
      have restShort := short 1 (by simp)
      simp only [List.drop_succ_cons, List.drop_zero] at restShort
      rw [chainSymbols_cons, List.map_append, List.map_singleton, Grammar.vanishingTail_concat,
        Grammar.solidCount_concat, List.length_cons]
      split
      · simp only [Nat.add_zero]
        omega
      · rw [Nat.mul_succ]
        omega

/-! ## Configurations -/

/-- A step with no input left is a fault. -/
theorem shiftReduceStep_nil (productions : List Production) (table : Field) (stack : List Field)
    (steps : List Step) (progress : Progress (List Field)) :
    shiftReduceStep productions table stack [] steps ≠ .ok progress := by
  intro stepped
  unfold shiftReduceStep at stepped
  obtain ⟨state, _, stepped⟩ := bind_eq_ok.mp stepped
  obtain ⟨c, picked, _⟩ := bind_eq_ok.mp stepped
  cases picked

/-- A configuration of a parse of `input` after `n` steps: the chain agrees with the states,
each state bounds the vanishing tail below it, and a forest of `n` nodes over the stack's
symbols yields what has been read, which the input left continues to `input`. -/
structure Grown (g : Grammar) (z : Char) (states : List (List Item)) (input : List Char)
    (chain : List (Char × Nat)) (left : List Char) (n : Nat) : Prop where
  chainOk : ChainOk z states chain
  bounded : ChainAll (g.ItemsBounded z) states chain
  forest : ∃ us, g.Forest ((chainSymbols chain).map bodySymbol) us n ∧ us.flatten ++ left = input

/-- Where a step from a configuration after `n` steps leads: to the end of the parse, or to a
configuration after `n + 1` steps. -/
def Advances (g : Grammar) (z : Char) (states : List (List Item)) (input : List Char)
    (n : Nat) : Progress (List Field) → Prop
  | .finished trace => trace.outcome ≠ .unfinished
  | .next stack left _ => ∃ chain, stack = chainStack chain ∧
      Grown g z states input chain left (n + 1)

namespace Grown

variable {input : List Char} {chain : List (Char × Nat)} {left : List Char} {n : Nat}

/-- A shift adds a leaf for the terminal read. -/
theorem shift (setting : Setting g z ctx states table) (noHidden : ∀ A, ¬ g.HiddenLeftRecursive A)
    {c : Char} {tail : List Char} (grown : Grown g z states input chain (c :: tail) n)
    (terminal : c ∈ g.terminals) {v : Nat} (crossing : Crossing ctx states chain c v) :
    Grown g z states input ((c, v) :: chain) tail (n + 1) where
  chainOk := grown.chainOk.cross setting crossing
  bounded := setting.bounded_cross noHidden grown.bounded crossing
  forest := by
    obtain ⟨us, forest, read⟩ := grown.forest
    have leaf : bodySymbol c = .terminal c :=
      bodySymbol_of_not_upper (Grammar.terminal_not_upper setting.recorded terminal)
    refine ⟨us ++ [[c]], ?_, ?_⟩
    · rw [chainSymbols_cons, List.map_append, List.map_singleton, leaf]
      exact forest.append (.leaf c .nil)
    · rw [List.flatten_append, ← read]
      simp

/-- A reduction adds a node for the production's head over the trees of the symbols that spell
its body. -/
theorem reduce (setting : Setting g z ctx states table)
    (noHidden : ∀ A, ¬ g.HiddenLeftRecursive A) (grown : Grown g z states input chain left n)
    {p : Production} (member : p ∈ g.productions) {H : Char} (upper : Text.isUppercase H = true)
    (named : p.head = H.toString)
    (spelled : chainSymbols chain = chainSymbols (chain.drop p.body.length) ++ p.body) {v : Nat}
    (crossing : Crossing ctx states (chain.drop p.body.length) H v) :
    Grown g z states input ((H, v) :: chain.drop p.body.length) left (n + 1) := by
  have within := length_le_of_chainSymbols_eq spelled
  refine ⟨(grown.chainOk.drop within).cross setting crossing,
    setting.bounded_cross noHidden (grown.bounded.drop within) crossing, ?_⟩
  obtain ⟨us, forest, read⟩ := grown.forest
  rw [spelled, List.map_append] at forest
  obtain ⟨below, ws, n₁, m, rfl, rfl, front, children⟩ := forest.of_append
  have head : bodySymbol H = .nonterminal p.head := by
    rw [bodySymbol_of_upper upper, named]
  have joined := front.append (.node member children .nil)
  have count : n₁ + (m + 0 + 1) = n₁ + m + 1 := by
    omega
  rw [count] at joined
  refine ⟨below ++ [ws.flatten], ?_, ?_⟩
  · rw [chainSymbols_cons, List.map_append, List.map_singleton, head]
    exact joined
  · simpa using read

/-- One step from a configuration ends the parse or adds one node. -/
theorem step (setting : Setting g z ctx states table) (noHidden : ∀ A, ¬ g.HiddenLeftRecursive A)
    {c : Char} {tail : List Char} (grown : Grown g z states input chain (c :: tail) n)
    {steps : List Step} {progress : Progress (List Field)}
    (stepped : shiftReduceStep ctx.productions table.toRows (chainStack chain) (c :: tail)
      steps = .ok progress) :
    Advances g z states input n progress := by
  cases setting.step_cases grown.chainOk stepped with
  | accept => simp [Advances]
  | reject => simp [Advances]
  | shift terminal crossing => exact ⟨_, rfl, grown.shift setting noHidden terminal crossing⟩
  | reduce member upper named spelled crossing =>
      exact ⟨_, rfl, grown.reduce setting noHidden member upper named spelled crossing⟩

/-- A parse of `input` has taken at most `parseBound` steps: its forest has no more nodes than
that, when no nonterminal derives itself alone. -/
theorem steps_le (noCycle : ∀ A, ¬ g.Cyclic A) (grown : Grown g z states input chain left n) :
    n ≤ g.parseBound input.length := by
  obtain ⟨us, forest, read⟩ := grown.forest
  have letters : us.flatten.length ≤ input.length := by
    rw [← read, List.length_append]
    omega
  have nodes := (forest.nodes_le noCycle).trans (forest.forestBound_le letters)
  rw [List.length_map, length_chainSymbols] at nodes
  have short : ∀ k ≤ chain.length,
      g.vanishingTail ((chainSymbols (chain.drop k)).map bodySymbol) ≤ g.tailBound :=
    fun k within => by
      obtain ⟨s, _, bounded⟩ := grown.bounded k within
      exact bounded.1
  have stack := length_le_of_vanishingTail short
  have top := short 0 (Nat.zero_le _)
  rw [List.drop_zero] at top
  have solid := Nat.mul_le_mul_left (g.tailBound + 1) (forest.solidCount_le.trans letters)
  have count : chain.length ≤ g.tailBound + (g.tailBound + 1) * input.length := by
    omega
  exact nodes.trans (Nat.mul_le_mul_right _ count)

/-- A parse from a configuration ends within as many steps as are left of `parseBound`. -/
theorem run (setting : Setting g z ctx states table) (noCycle : ∀ A, ¬ g.Cyclic A)
    (noHidden : ∀ A, ¬ g.HiddenLeftRecursive A) (grown : Grown g z states input chain left n)
    {fuel : Nat} (enough : g.parseBound input.length < n + fuel) {steps : List Step}
    {trace : Trace}
    (ran : shiftReduceFrom ctx.productions table.toRows fuel (chainStack chain) left steps =
      .ok trace) :
    trace.outcome ≠ .unfinished := by
  induction fuel generalizing chain left n steps with
  | zero =>
      have := grown.steps_le noCycle
      omega
  | succ fuel ih =>
      simp only [shiftReduceFrom] at ran
      obtain ⟨progress, stepped, ran⟩ := bind_eq_ok.mp ran
      cases left with
      | nil => exact absurd stepped (shiftReduceStep_nil _ _ _ _ _)
      | cons c tail =>
          have advances := grown.step setting noHidden stepped
          cases progress with
          | finished done =>
              simp only [pure, Except.pure, Except.ok.injEq] at ran
              subst ran
              exact advances
          | next stack later laterSteps =>
              obtain ⟨chain', rfl, grown'⟩ := advances
              exact ih grown' (by omega) ran

end Grown

/-- The shift-reduce parse with the table that the LR analysis builds for a well-formed grammar
read from a text ends on every input, when no nonterminal derives itself alone and none is
hidden left recursive: some number of steps is enough for it to accept or stop, whatever
conflicts the table builder overwrote and whatever duplicate states the automaton holds. -/
theorem shiftReduce_terminates {text : String} {g : Grammar} (read : Grammar.ofText text = .ok g)
    (wellFormed : g.WellFormed) (noCycle : ∀ A, ¬ g.Cyclic A)
    (noHidden : ∀ A, ¬ g.HiddenLeftRecursive A) {a : LrAnalysis}
    (analyzed : LrAnalysis.ofGrammar g = .ok a) (input : List Char) (steps : List Step) :
    ∃ fuel, ∀ trace, shiftReduceFrom a.productions a.table.toRows fuel [.text "0"] input
      steps = .ok trace → trace.outcome ≠ .unfinished := by
  obtain ⟨z, _, setting⟩ :=
    setting_of_ofGrammar (Grammar.readShape_ofText read) wellFormed analyzed
  have initial : Grown g z a.states input [] input 0 :=
    ⟨chainOk_nil setting.start, setting.bounded_start, [], .nil, rfl⟩
  exact ⟨g.parseBound input.length + 1, fun trace ran =>
    initial.run setting noCycle noHidden (by omega) ran⟩

/-- The left-recursive expression grammar `E->E+T`, `E->T`, `T->i` is well formed; no body is
empty, so nothing vanishes and nothing is hidden left recursive; and its one unit production
`E->T` ranks `T` below `E`, so it has no cycle. The parse of `i+i` with its LR table ends. -/
theorem shiftReduce_terminates_leftRecursive :
    ∃ g a, Grammar.ofText "E->E+T\nE->T\nT->i" = .ok g ∧ g.WellFormed ∧
      (∀ A, ¬ g.Cyclic A) ∧ (∀ A, ¬ g.HiddenLeftRecursive A) ∧
      LrAnalysis.ofGrammar g = .ok a ∧
      ∃ fuel, ∀ trace, shiftReduceFrom a.productions a.table.toRows fuel [.text "0"]
        "i+i$".toList [] = .ok trace → trace.outcome ≠ .unfinished := by
  have computed : ((Grammar.ofText "E->E+T\nE->T\nT->i").toOption.bind fun g =>
      (LrAnalysis.ofGrammar g).toOption.map fun _ => g.productions) =
      some [⟨"E", ['E', '+', 'T']⟩, ⟨"E", ['T']⟩, ⟨"T", ['i']⟩] := by
    decide +kernel
  obtain ⟨g, read, computed⟩ := Option.bind_eq_some_iff.mp computed
  obtain ⟨a, analyzed, productions⟩ := Option.map_eq_some_iff.mp computed
  have read := toOption_eq_some.mp read
  have wellFormed := Grammar.wellFormed_of_plain 'A' (by decide) (by rw [productions]; decide)
  have ranks : g.RanksUnits (fun A => if A = "E" then 1 else 0) := by
    constructor <;>
    · intro p member
      rw [productions] at member
      rcases List.mem_cons.mp member with rfl | member
      · decide
      rcases List.mem_cons.mp member with rfl | member
      · decide
      rw [List.mem_singleton.mp member]
      decide
  have solid := Grammar.not_nullable_of_nonempty ranks.nonempty
  exact ⟨g, a, read, wellFormed, ranks.not_cyclic,
    Grammar.not_hiddenLeftRecursive_of_not_nullable solid, toOption_eq_some.mp analyzed,
    shiftReduce_terminates read wellFormed ranks.not_cyclic
      (Grammar.not_hiddenLeftRecursive_of_not_nullable solid) (toOption_eq_some.mp analyzed)
      "i+i$".toList []⟩

end GrammarBench
