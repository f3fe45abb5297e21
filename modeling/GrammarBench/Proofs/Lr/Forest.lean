import Mathlib
import GrammarBench.Proofs.Ll.Termination

/-!
# Parse forests and their size

A shift-reduce parse builds a forest of parse trees over the symbols of its stack: a shift adds
a leaf, and a reduction joins the trees of a body's symbols under a node for its head. So the
number of steps a parse has taken is the number of nodes of its forest (`Grammar.Forest`). This
module bounds that number by the length of the text the trees yield, for a grammar in which no
nonterminal derives itself alone (`Grammar.Cyclic`).

Going down a tree, the yield never grows. Where a child yields as much as its parent, the other
children yield nothing, so the parent reaches the child's symbol with only vanishing symbols
around it (`Grammar.UnitReach`). Without cycles that relation has no loop, and the number of
heads a nonterminal reaches by it (`Grammar.reachRank`) drops along it. A tree with `k` letters
whose root has weight `ρ` then has at most `(L + 1) ^ (k (H + 2) + ρ)` nodes, where `L` is the
longest body and `H` the number of heads (`Grammar.Forest.nodes_le`).

The same ranks over a second relation, reaching a nonterminal behind a nonempty run of
vanishing symbols (`Grammar.HiddenReach`), bound the stack in the termination proof.

Both conditions can be checked on a given grammar: with no empty body nothing vanishes, so
nothing is hidden left recursive, and a ranking of the nonterminals under which every body of
one nonterminal ranks below its head rules out cycles (`Grammar.RanksUnits.not_cyclic`).
-/

namespace GrammarBench

namespace Grammar

variable {g : Grammar}

/-! ## Reaching a nonterminal within a derivation -/

/-- `g.Reaches A B front back`: in one step or more, `A` derives `front`, then `B`, then
`back`. -/
def Reaches (g : Grammar) (A B : String) (front back : Sentential) : Prop :=
  Relation.TransGen g.cfg.Produces [.nonterminal A] (front ++ .nonterminal B :: back)

/-- `g.Cyclic A`: in one step or more, `A` derives itself alone. -/
def Cyclic (g : Grammar) (A : String) : Prop :=
  Relation.TransGen g.cfg.Produces [.nonterminal A] [.nonterminal A]

/-- `g.HiddenLeftRecursive A`: in one step or more, `A` derives a form in which `A` follows a
nonempty run of symbols that derives the empty text. -/
def HiddenLeftRecursive (g : Grammar) (A : String) : Prop :=
  ∃ α β : Sentential, α ≠ [] ∧ g.cfg.Derives α [] ∧
    Relation.TransGen g.cfg.Produces [.nonterminal A] (α ++ .nonterminal A :: β)

/-- `g.UnitReach A B`: `A` reaches `B` with only symbols that can vanish around it. -/
def UnitReach (g : Grammar) (A B : String) : Prop :=
  ∃ front back, (∀ x ∈ front ++ back, g.Nullable x) ∧ g.Reaches A B front back

/-- `g.HiddenReach A B`: `A` reaches `B` behind a nonempty run of symbols that can vanish. -/
def HiddenReach (g : Grammar) (A B : String) : Prop :=
  ∃ front back, front ≠ [] ∧ (∀ x ∈ front, g.Nullable x) ∧ g.Reaches A B front back

/-- A head reaches each nonterminal of its body. -/
theorem reaches_of_form {p : Production} (member : p ∈ g.productions) {B : String}
    {front back : Sentential} (split : p.form = front ++ .nonterminal B :: back) :
    g.Reaches p.head B front back := by
  have step : g.cfg.Produces [.nonterminal p.head] p.form :=
    ⟨p.rule, rule_mem_cfg member, ContextFreeRule.Rewrites.input_output⟩
  exact .single (split ▸ step)

theorem Reaches.trans {A B C : String} {front back front' back' : Sentential}
    (first : g.Reaches A B front back) (second : g.Reaches B C front' back') :
    g.Reaches A C (front ++ front') (back' ++ back) := by
  have lifted : Relation.TransGen g.cfg.Produces (front ++ [.nonterminal B] ++ back : Sentential)
      (front ++ (front' ++ .nonterminal C :: back') ++ back : Sentential) :=
    Relation.TransGen.lift (fun u : Sentential => front ++ u ++ back)
      (fun _ _ (produced : g.cfg.Produces _ _) => (produced.append_left front).append_right back)
      _ _ second
  have framed : (front ++ [.nonterminal B] ++ back : Sentential) =
      front ++ .nonterminal B :: back := by
    simp
  have joined : (front ++ (front' ++ .nonterminal C :: back') ++ back : Sentential) =
      front ++ front' ++ .nonterminal C :: (back' ++ back) := by
    simp
  rw [framed, joined] at lifted
  exact Relation.TransGen.trans first lifted

theorem unitReach_of_form {p : Production} (member : p ∈ g.productions) {B : String}
    {front back : Sentential} (split : p.form = front ++ .nonterminal B :: back)
    (vanish : ∀ x ∈ front ++ back, g.Nullable x) : g.UnitReach p.head B :=
  ⟨front, back, vanish, reaches_of_form member split⟩

theorem UnitReach.trans {A B C : String} (first : g.UnitReach A B) (second : g.UnitReach B C) :
    g.UnitReach A C := by
  obtain ⟨front, back, vanish, reaches⟩ := first
  obtain ⟨front', back', vanish', reaches'⟩ := second
  refine ⟨front ++ front', back' ++ back, fun x member => ?_, reaches.trans reaches'⟩
  simp only [List.mem_append] at member
  rcases member with (inFront | inFront') | (inBack' | inBack)
  · exact vanish x (List.mem_append_left _ inFront)
  · exact vanish' x (List.mem_append_left _ inFront')
  · exact vanish' x (List.mem_append_right _ inBack')
  · exact vanish x (List.mem_append_right _ inBack)

/-- A nonterminal that reaches itself with only vanishing symbols around derives itself
alone. -/
theorem UnitReach.cyclic {A : String} (loop : g.UnitReach A A) : g.Cyclic A := by
  obtain ⟨front, back, vanish, reaches⟩ := loop
  have dropFront : g.cfg.Derives (front ++ .nonterminal A :: back) (.nonterminal A :: back) :=
    derives_drop_nullable fun x member => vanish x (List.mem_append_left _ member)
  have dropBack : g.cfg.Derives (.nonterminal A :: back) [.nonterminal A] :=
    (derives_nil_of_nullable fun x member => vanish x (List.mem_append_right _ member)).append_left
      [.nonterminal A]
  exact reaches.trans_left (dropFront.trans dropBack)

theorem hiddenReach_of_form {p : Production} (member : p ∈ g.productions) {B : String}
    {front back : Sentential} (split : p.form = front ++ .nonterminal B :: back)
    (nonempty : front ≠ []) (vanish : ∀ x ∈ front, g.Nullable x) : g.HiddenReach p.head B :=
  ⟨front, back, nonempty, vanish, reaches_of_form member split⟩

/-- What a body symbol after vanishing symbols reaches behind vanishing symbols, the head
reaches too. -/
theorem HiddenReach.of_form {p : Production} (member : p ∈ g.productions) {B C : String}
    {front back : Sentential} (split : p.form = front ++ .nonterminal B :: back)
    (vanish : ∀ x ∈ front, g.Nullable x) (further : g.HiddenReach B C) :
    g.HiddenReach p.head C := by
  obtain ⟨front', back', nonempty, vanish', reaches⟩ := further
  refine ⟨front ++ front', back' ++ back, by simp [nonempty], fun x inFront => ?_,
    (reaches_of_form member split).trans reaches⟩
  rcases List.mem_append.mp inFront with early | late
  · exact vanish x early
  · exact vanish' x late

/-- A nonterminal that reaches itself behind vanishing symbols is hidden left recursive. -/
theorem HiddenReach.hiddenLeftRecursive {A : String} (loop : g.HiddenReach A A) :
    g.HiddenLeftRecursive A := by
  obtain ⟨front, back, nonempty, vanish, reaches⟩ := loop
  exact ⟨front, back, nonempty, derives_nil_of_nullable vanish, reaches⟩

/-! ## Grammars without cycles or hidden left recursion -/

/-- Nothing vanishes in a grammar whose bodies are all nonempty. -/
theorem not_nullable_of_nonempty (nonempty : ∀ p ∈ g.productions, p.body ≠ [])
    (x : Symbol Char String) : ¬ g.Nullable x := by
  intro nullable
  induction nullable with
  | @rule p member _ ih =>
      obtain ⟨y, rest, spelled⟩ := List.exists_cons_of_ne_nil (nonempty p member)
      have inForm : bodySymbol y ∈ p.form := by
        simp [Production.form, spelled]
      exact ih _ inForm

/-- Where nothing vanishes, nothing is hidden left recursive. -/
theorem not_hiddenLeftRecursive_of_not_nullable (solid : ∀ x, ¬ g.Nullable x) (A : String) :
    ¬ g.HiddenLeftRecursive A := by
  rintro ⟨α, β, nonempty, vanishes, _⟩
  obtain ⟨x, rest, rfl⟩ := List.exists_cons_of_ne_nil nonempty
  exact solid x (nullable_of_derives vanishes x List.mem_cons_self)

/-- Whether a production whose body is one nonterminal ranks that nonterminal below its
head. -/
def unitRanked (rank : String → Nat) (p : Production) : Bool :=
  match p.form with
  | [.nonterminal B] => decide (rank B < rank p.head)
  | _ => true

/-- Ranks rule out cycles when every body is nonempty and every body of one nonterminal ranks
it below the head. -/
structure RanksUnits (g : Grammar) (rank : String → Nat) : Prop where
  nonempty : ∀ p ∈ g.productions, p.body ≠ []
  ranked : ∀ p ∈ g.productions, unitRanked rank p = true

/-- The forms derived from a body of `A` in a grammar with ranked units: long, one terminal, or
one nonterminal ranked below `A`. -/
def UnitShaped (rank : String → Nat) (A : String) (u : Sentential) : Prop :=
  2 ≤ u.length ∨ (∃ c, u = [.terminal c]) ∨ ∃ B, u = [.nonterminal B] ∧ rank B < rank A

section RankedUnits

variable {rank : String → Nat}

theorem RanksUnits.unitShaped_form (ranks : g.RanksUnits rank) {p : Production}
    (member : p ∈ g.productions) {A : String} (below : rank p.head ≤ rank A) :
    UnitShaped rank A p.form := by
  have unit := ranks.ranked p member
  rcases shape : p.form with _ | ⟨x, _ | ⟨y, rest⟩⟩
  · exact absurd (List.map_eq_nil_iff.mp shape) (ranks.nonempty p member)
  · cases x with
    | terminal c => exact .inr (.inl ⟨c, rfl⟩)
    | nonterminal B =>
        simp only [unitRanked, shape, decide_eq_true_eq] at unit
        exact .inr (.inr ⟨B, rfl, by omega⟩)
  · exact .inl (by simp)

/-- A derivation step keeps the shape: a long form only grows, since no body is empty, and a
lone nonterminal is rewritten to a body of lower rank. -/
theorem RanksUnits.unitShaped_step (ranks : g.RanksUnits rank) {A : String} {q : Production}
    (member : q ∈ g.productions) {before after : Sentential}
    (shaped : UnitShaped rank A (before ++ .nonterminal q.head :: after)) :
    UnitShaped rank A (before ++ q.form ++ after) := by
  have grows : 0 < q.form.length := by
    simpa [Production.form, List.length_pos_iff] using ranks.nonempty q member
  rcases shaped with long | ⟨c, single⟩ | ⟨B, single, below⟩
  · left
    simp only [List.length_append, List.length_cons] at long ⊢
    omega
  · rcases before with _ | ⟨b, before⟩ <;> simp at single
  · rcases before with _ | ⟨b, before⟩
    · simp only [List.nil_append, List.cons.injEq, Symbol.nonterminal.injEq] at single
      obtain ⟨rfl, rfl⟩ := single
      simpa using ranks.unitShaped_form member below.le
    · simp at single

/-- Ranked units rule out cycles: whatever `A` derives in one step or more keeps the shape, and
`A` alone does not have it. -/
theorem RanksUnits.not_cyclic (ranks : g.RanksUnits rank) (A : String) : ¬ g.Cyclic A := by
  intro cyclic
  have loop : Relation.TransGen g.cfg.Produces ([.nonterminal A] : Sentential)
      [.nonterminal A] := cyclic
  obtain ⟨w, first, rest⟩ := Relation.TransGen.head'_iff.mp loop
  obtain ⟨p, member, before, after, split, rfl⟩ := produces_iff.mp first
  obtain ⟨rfl, named, rfl⟩ : before = [] ∧ A = p.head ∧ after = [] := by
    rcases before with _ | ⟨b, before⟩
    · simp only [List.nil_append, List.cons.injEq, Symbol.nonterminal.injEq] at split
      exact ⟨rfl, split.1, split.2.symm⟩
    · simp at split
  have start : UnitShaped rank A ([] ++ p.form ++ []) := by
    simpa using ranks.unitShaped_form member (congrArg rank named).ge
  have reached : UnitShaped rank A [.nonterminal A] := invariant_of_derives (UnitShaped rank A)
    (fun _ member _ _ => ranks.unitShaped_step member) rest start
  rcases reached with long | ⟨c, single⟩ | ⟨B, single, below⟩
  · simp at long
  · simp at single
  · simp only [List.cons.injEq, Symbol.nonterminal.injEq, and_true] at single
    subst single
    exact Nat.lt_irrefl _ below

end RankedUnits

/-! ## Ranks along a relation -/

open Classical in
/-- The number of heads that `A` reaches by `R`. -/
noncomputable def reachRank (g : Grammar) (R : String → String → Prop) (A : String) : Nat :=
  (g.heads.filter (R A)).card

theorem reachRank_le (R : String → String → Prop) (A : String) :
    g.reachRank R A ≤ g.heads.card := by
  classical
  unfold reachRank
  exact Finset.card_filter_le _ _

/-- A nonterminal reaches at least the heads that a nonterminal it passes on to reaches. -/
theorem reachRank_mono {R : String → String → Prop} {A B : String}
    (further : ∀ C, R B C → R A C) : g.reachRank R B ≤ g.reachRank R A := by
  classical
  unfold reachRank
  refine Finset.card_le_card fun C member => ?_
  obtain ⟨inHeads, reached⟩ := Finset.mem_filter.mp member
  exact Finset.mem_filter.mpr ⟨inHeads, further C reached⟩

/-- Along a step of `R` to a head that does not reach itself, the rank drops. -/
theorem reachRank_lt {R : String → String → Prop} {A B : String} (step : R A B)
    (further : ∀ C, R B C → R A C) (irrefl : ¬ R B B) (head : B ∈ g.heads) :
    g.reachRank R B < g.reachRank R A := by
  classical
  unfold reachRank
  apply Finset.card_lt_card
  refine (Finset.ssubset_iff_of_subset fun C member => ?_).mpr ⟨B, ?_, ?_⟩
  · obtain ⟨inHeads, reached⟩ := Finset.mem_filter.mp member
    exact Finset.mem_filter.mpr ⟨inHeads, further C reached⟩
  · exact Finset.mem_filter.mpr ⟨head, step⟩
  · exact fun member => irrefl (Finset.mem_filter.mp member).2

/-- The weight of a symbol in a tree: zero for a terminal, and for a nonterminal one more than
the number of heads it reaches with vanishing symbols around. -/
noncomputable def unitWeight (g : Grammar) : Symbol Char String → Nat
  | .terminal _ => 0
  | .nonterminal A => g.reachRank g.UnitReach A + 1

theorem unitWeight_le (x : Symbol Char String) : g.unitWeight x ≤ g.heads.card + 1 := by
  cases x with
  | terminal c => simp [unitWeight]
  | nonterminal A => simpa [unitWeight] using reachRank_le g.UnitReach A

/-- Without cycles, a body symbol that only vanishing symbols surround weighs less than the
head. -/
theorem unitWeight_lt (noCycle : ∀ A, ¬ g.Cyclic A) {p : Production}
    (member : p ∈ g.productions) {front back : Sentential} {y : Symbol Char String}
    (split : p.form = front ++ y :: back) (vanish : ∀ x ∈ front ++ back, g.Nullable x)
    (rooted : ∀ B, y = .nonterminal B → B ∈ g.heads) :
    g.unitWeight y < g.unitWeight (.nonterminal p.head) := by
  cases y with
  | terminal c => simp [unitWeight]
  | nonterminal B =>
      have reached := unitReach_of_form member split vanish
      have lower := reachRank_lt reached (fun C further => reached.trans further)
        (fun loop => noCycle B loop.cyclic) (rooted B rfl)
      simpa [unitWeight] using lower

/-! ## Forests -/

/-- The length of the longest body. -/
def maxBody (g : Grammar) : Nat :=
  (g.productions.map fun p => p.body.length).foldr max 0

theorem length_le_maxBody {p : Production} (member : p ∈ g.productions) :
    p.body.length ≤ g.maxBody := by
  have within : ∀ ps : List Production, p ∈ ps →
      p.body.length ≤ (ps.map fun p => p.body.length).foldr max 0 := by
    intro ps
    induction ps with
    | nil => simp
    | cons q rest ih =>
        intro listed
        rw [List.map_cons, List.foldr_cons]
        rcases List.mem_cons.mp listed with rfl | later
        · exact le_max_left _ _
        · exact le_max_of_le_right (ih later)
  exact within g.productions member

/-- `g.Forest xs us n`: parse trees side by side, one for each symbol of `xs`, the tree of each
symbol yielding the text at the same place in `us`, with `n` nodes in all. -/
inductive Forest (g : Grammar) : Sentential → List (List Char) → Nat → Prop where
  | nil : g.Forest [] [] 0
  | leaf {xs : Sentential} {us : List (List Char)} {n : Nat} (c : Char) :
      g.Forest xs us n → g.Forest (.terminal c :: xs) ([c] :: us) (n + 1)
  | node {xs : Sentential} {us : List (List Char)} {n : Nat} {p : Production}
      {ws : List (List Char)} {m : Nat} :
      p ∈ g.productions → g.Forest p.form ws m → g.Forest xs us n →
        g.Forest (.nonterminal p.head :: xs) (ws.flatten :: us) (m + n + 1)

namespace Forest

variable {xs ys : Sentential} {us vs : List (List Char)} {n k : Nat}

theorem append (first : g.Forest xs us n) (second : g.Forest ys vs k) :
    g.Forest (xs ++ ys) (us ++ vs) (n + k) := by
  induction first with
  | nil => simpa using second
  | leaf c _ ih =>
      rw [Nat.add_right_comm]
      exact .leaf c ih
  | @node xs us n p ws m member children _ _ ih =>
      have count : m + n + 1 + k = m + (n + k) + 1 := by omega
      rw [count]
      exact .node member children ih

/-- A forest over two runs of symbols is a forest over each. -/
theorem of_append {ws : List (List Char)} (forest : g.Forest (xs ++ ys) ws n) :
    ∃ us vs n₁ n₂, ws = us ++ vs ∧ n = n₁ + n₂ ∧ g.Forest xs us n₁ ∧ g.Forest ys vs n₂ := by
  induction xs generalizing ws n with
  | nil => exact ⟨[], ws, 0, n, rfl, by omega, .nil, forest⟩
  | cons x rest ih =>
      rw [List.cons_append] at forest
      cases forest with
      | leaf c more =>
          obtain ⟨us, vs, n₁, n₂, rfl, rfl, front, back⟩ := ih more
          exact ⟨[c] :: us, vs, n₁ + 1, n₂, rfl, by omega, .leaf c front, back⟩
      | node member children more =>
          obtain ⟨us, vs, n₁, n₂, rfl, rfl, front, back⟩ := ih more
          exact ⟨_ :: us, vs, _, n₂, rfl, by omega, .node member children front, back⟩

/-- The trees derive what they yield. -/
theorem derives (forest : g.Forest xs us n) : g.cfg.Derives xs (terminalForm us.flatten) := by
  induction forest with
  | nil => exact .refl _
  | leaf c _ ih => exact ih.append_left [.terminal c]
  | @node xs us n p ws m member _ _ ihChildren ihRest =>
      have body : g.cfg.Derives [.nonterminal p.head] (terminalForm ws.flatten) :=
        (derives_form member).trans ihChildren
      have front : g.cfg.Derives (.nonterminal p.head :: xs) (terminalForm ws.flatten ++ xs) :=
        body.append_right xs
      have back : g.cfg.Derives (terminalForm ws.flatten ++ xs)
          (terminalForm ws.flatten ++ terminalForm us.flatten) :=
        ihRest.append_left _
      rw [List.flatten_cons, terminalForm_append]
      exact front.trans back

/-- The symbols of trees that yield nothing can vanish. -/
theorem nullable_of_flatten_eq_nil (forest : g.Forest xs us n) (empty : us.flatten = []) :
    ∀ x ∈ xs, g.Nullable x := by
  have derived := forest.derives
  rw [empty, terminalForm_nil] at derived
  exact nullable_of_derives derived

end Forest


/-! ## The size of a forest -/

/-- A bound on the nodes of a tree with `k` letters whose root weighs `ρ`. -/
def treeBound (g : Grammar) (k ρ : Nat) : Nat :=
  (g.maxBody + 1) ^ (k * (g.heads.card + 2) + ρ)

/-- The bounds of a forest's trees, each by its yield and the weight of its symbol. -/
noncomputable def forestBound (g : Grammar) (xs : Sentential) (us : List (List Char)) : Nat :=
  (List.zipWith (fun x u => g.treeBound u.length (g.unitWeight x)) xs us).sum

@[simp] theorem forestBound_cons (x : Symbol Char String) (xs : Sentential) (u : List Char)
    (us : List (List Char)) :
    g.forestBound (x :: xs) (u :: us) = g.treeBound u.length (g.unitWeight x) + g.forestBound xs us := by
  simp [forestBound]

/-- Trees that each stay within one bound add up to at most their number times it. -/
theorem forestBound_cons_le {x : Symbol Char String} {xs : Sentential} {u : List Char}
    {us : List (List Char)} {bound : Nat} (first : g.treeBound u.length (g.unitWeight x) ≤ bound)
    (others : g.forestBound xs us ≤ xs.length * bound) :
    g.forestBound (x :: xs) (u :: us) ≤ (x :: xs).length * bound := by
  rw [forestBound_cons, List.length_cons, Nat.succ_mul]
  omega

theorem treeBound_le_pow {k ρ e : Nat} (within : k * (g.heads.card + 2) + ρ ≤ e) :
    g.treeBound k ρ ≤ (g.maxBody + 1) ^ e :=
  Nat.pow_le_pow_right (Nat.succ_pos _) within

open Classical in
/-- The number of symbols of a form that cannot vanish. -/
noncomputable def solidCount (g : Grammar) (xs : Sentential) : Nat :=
  xs.countP fun x => ¬ g.Nullable x

namespace Forest

variable {xs : Sentential} {us : List (List Char)} {n : Nat}

/-- Each tree under a node is smaller than the node's, or it yields all the node's letters and
then its root is reached from the node with only vanishing symbols around, so it weighs less.
Either way its bound is at most `(L + 1) ^ (k (H + 2) + ρ - 1)`, where `k` counts the node's
letters and `ρ` is its weight. The trees are taken from the left, `front` holding those taken
already. -/
theorem children_le (noCycle : ∀ A, ¬ g.Cyclic A) {p : Production} (member : p ∈ g.productions)
    {ys : Sentential} {ws : List (List Char)} {m : Nat} (forest : g.Forest ys ws m)
    {front : Sentential} {before : List (List Char)} {mf : Nat}
    (earlier : g.Forest front before mf) (split : p.form = front ++ ys) :
    g.forestBound ys ws ≤ ys.length * (g.maxBody + 1) ^
      ((before ++ ws).flatten.length * (g.heads.card + 2) +
        g.unitWeight (.nonterminal p.head) - 1) := by
  have heavy : 1 ≤ g.unitWeight (.nonterminal p.head) := by
    simp [unitWeight]
  induction forest generalizing front before mf with
  | nil => simp [forestBound]
  | @leaf xs us n c rest ih =>
      have more := ih (earlier.append (.leaf c .nil)) (by rw [split, List.append_assoc]; rfl)
      rw [List.append_assoc, List.singleton_append] at more
      have letter : 1 ≤ (before ++ [c] :: us).flatten.length := by
        simp only [List.flatten_append, List.flatten_cons, List.length_append,
          List.length_singleton]
        omega
      have small : g.treeBound [c].length (g.unitWeight (.terminal c)) ≤ (g.maxBody + 1) ^
          ((before ++ [c] :: us).flatten.length * (g.heads.card + 2) +
            g.unitWeight (.nonterminal p.head) - 1) := by
        apply treeBound_le_pow
        have scaled := Nat.mul_le_mul_right (g.heads.card + 2) letter
        simp only [List.length_singleton, unitWeight] at scaled ⊢
        omega
      exact forestBound_cons_le small more
  | @node xs us n q ws₀ m₀ qMember children rest _ ih =>
      have more := ih (earlier.append (.node qMember children .nil))
        (by rw [split, List.append_assoc]; rfl)
      rw [List.append_assoc, List.singleton_append] at more
      have small : g.treeBound ws₀.flatten.length (g.unitWeight (.nonterminal q.head)) ≤
          (g.maxBody + 1) ^ ((before ++ ws₀.flatten :: us).flatten.length *
            (g.heads.card + 2) + g.unitWeight (.nonterminal p.head) - 1) := by
        apply treeBound_le_pow
        have light := unitWeight_le (g := g) (.nonterminal q.head)
        have total : (before ++ ws₀.flatten :: us).flatten.length =
            before.flatten.length + ws₀.flatten.length + us.flatten.length := by
          simp [Nat.add_assoc]
        rcases Nat.lt_or_ge ws₀.flatten.length (before ++ ws₀.flatten :: us).flatten.length
          with fewer | all
        · have scaled := Nat.mul_le_mul_right (g.heads.card + 2) fewer
          rw [Nat.succ_mul] at scaled
          omega
        · have noneBefore : before.flatten = [] := List.eq_nil_of_length_eq_zero (by omega)
          have noneAfter : us.flatten = [] := List.eq_nil_of_length_eq_zero (by omega)
          have lighter := unitWeight_lt noCycle member split
            (fun x around => (List.mem_append.mp around).elim
              (earlier.nullable_of_flatten_eq_nil noneBefore x)
              (rest.nullable_of_flatten_eq_nil noneAfter x))
            (fun B named => by
              injection named with same
              exact same ▸ mem_heads qMember)
          have sameLength : ws₀.flatten.length = (before ++ ws₀.flatten :: us).flatten.length := by
            omega
          rw [← sameLength]
          omega
      exact forestBound_cons_le small more

/-- A forest has at most as many nodes as the bounds of its trees add up to, when no
nonterminal derives itself alone. -/
theorem nodes_le (noCycle : ∀ A, ¬ g.Cyclic A) (forest : g.Forest xs us n) :
    n ≤ g.forestBound xs us := by
  induction forest with
  | nil => simp [forestBound]
  | leaf c _ ih =>
      have one : 1 ≤ g.treeBound [c].length (g.unitWeight (.terminal c)) :=
        Nat.one_le_pow _ _ (Nat.succ_pos _)
      rw [forestBound_cons]
      omega
  | @node xs us n p ws m member children _ ihChildren ihRest =>
      have heavy : 1 ≤ g.unitWeight (.nonterminal p.head) := by
        simp [unitWeight]
      have below := children_le noCycle member children .nil (List.nil_append _).symm
      rw [List.nil_append] at below
      have wide : p.form.length ≤ g.maxBody := by
        simpa [Production.form] using length_le_maxBody member
      have spread := Nat.mul_le_mul_right ((g.maxBody + 1) ^ (ws.flatten.length *
        (g.heads.card + 2) + g.unitWeight (.nonterminal p.head) - 1)) wide
      have exponent : ws.flatten.length * (g.heads.card + 2) + g.unitWeight (.nonterminal p.head) =
          ws.flatten.length * (g.heads.card + 2) + g.unitWeight (.nonterminal p.head) - 1 + 1 := by
        omega
      have node : g.treeBound ws.flatten.length (g.unitWeight (.nonterminal p.head)) =
          g.maxBody * (g.maxBody + 1) ^ (ws.flatten.length * (g.heads.card + 2) +
            g.unitWeight (.nonterminal p.head) - 1) + (g.maxBody + 1) ^ (ws.flatten.length *
              (g.heads.card + 2) + g.unitWeight (.nonterminal p.head) - 1) := by
        rw [treeBound]
        nth_rewrite 1 [exponent]
        rw [Nat.pow_succ', Nat.add_one_mul]
      have one : 1 ≤ (g.maxBody + 1) ^ (ws.flatten.length * (g.heads.card + 2) +
          g.unitWeight (.nonterminal p.head) - 1) :=
        Nat.one_le_pow _ _ (Nat.succ_pos _)
      rw [forestBound_cons, node]
      omega

/-- Trees that yield at most `k` letters in all have at most `(L + 1) ^ (k (H + 2) + H + 1)`
nodes each. -/
theorem forestBound_le (forest : g.Forest xs us n) {k : Nat} (within : us.flatten.length ≤ k) :
    g.forestBound xs us ≤ xs.length * g.treeBound k (g.heads.card + 1) := by
  induction forest with
  | nil => simp [forestBound]
  | @leaf xs us n c _ ih =>
      simp only [List.flatten_cons, List.length_append, List.length_singleton] at within
      have tree : g.treeBound [c].length (g.unitWeight (.terminal c)) ≤
          g.treeBound k (g.heads.card + 1) := by
        apply treeBound_le_pow
        have scaled := Nat.mul_le_mul_right (g.heads.card + 2) (show 1 ≤ k by omega)
        simp only [List.length_singleton, unitWeight] at scaled ⊢
        omega
      have rest := ih (by omega)
      rw [forestBound_cons, show (Symbol.terminal c :: xs).length = xs.length + 1 from rfl,
        Nat.add_one_mul]
      omega
  | @node xs us n p ws m _ _ _ _ ihRest =>
      simp only [List.flatten_cons, List.length_append] at within
      have tree : g.treeBound ws.flatten.length (g.unitWeight (.nonterminal p.head)) ≤
          g.treeBound k (g.heads.card + 1) := by
        apply treeBound_le_pow
        have scaled := Nat.mul_le_mul_right (g.heads.card + 2)
          (show ws.flatten.length ≤ k by omega)
        have light := unitWeight_le (g := g) (.nonterminal p.head)
        omega
      have rest := ihRest (by omega)
      rw [forestBound_cons, show (Symbol.nonterminal p.head :: xs).length = xs.length + 1 from rfl,
        Nat.add_one_mul]
      omega

/-- Every symbol that cannot vanish yields a letter. -/
theorem solidCount_le (forest : g.Forest xs us n) : g.solidCount xs ≤ us.flatten.length := by
  classical
  induction forest with
  | nil => simp [solidCount]
  | leaf c _ ih =>
      have solid : ¬ g.Nullable (.terminal c) := fun nullable => by cases nullable
      simp only [solidCount, List.countP_cons, solid, not_false_eq_true, decide_true,
        if_true, List.flatten_cons, List.length_append, List.length_singleton] at ih ⊢
      omega
  | @node xs us n p ws m member children _ _ ih =>
      simp only [solidCount, List.countP_cons, List.flatten_cons, List.length_append] at ih ⊢
      by_cases empty : ws.flatten = []
      · have vanish : g.Nullable (.nonterminal p.head) :=
          .rule member (children.nullable_of_flatten_eq_nil empty)
        simp only [vanish, not_true_eq_false, decide_false, Bool.false_eq_true, if_false]
        omega
      · have letter : 1 ≤ ws.flatten.length := by
          cases hws : ws.flatten with
          | nil => exact absurd hws empty
          | cons d more => simp
        split <;> omega

end Forest

end Grammar

end GrammarBench
