import GrammarBench.Grammar.Follow
import GrammarBench.Grammar.Reading
import GrammarBench.Proofs.Derivation
import GrammarBench.Proofs.Symbols

/-!
# FIRST and FOLLOW sets by derivation

The sets that the FIRST and FOLLOW computations aim at, defined from the grammar's
derivations alone. A symbol is *nullable* when it derives the empty text, and it *leads with*
a terminal `a` when it derives a form that starts with `a`. Both are given as the least sets
closed under the productions (`Grammar.Nullable`, `Grammar.Leads`), in the way a fixpoint
computation builds them, and both are shown to be exactly their readings through derivations
(`nullable_iff_derives`, `leads_iff_derives`). The FIRST set of a symbol (`Grammar.FirstRef`)
is the set of terminals it leads with, plus the empty mark when it is nullable.

A nonterminal is *left recursive* when it derives, in one step or more, a form that starts
with itself, also through symbols that vanish (`Grammar.LeftRecursive`). The FOLLOW sets
(`Grammar.Follows`) are the least sets that hold the end marker after the start symbol, the
terminals that lead what follows a nonterminal in a body, and the FOLLOW set of the head
after a nonterminal that only vanishing symbols follow.
-/

namespace GrammarBench

namespace Grammar

/-- `g.Nullable X`: the symbol `X` derives the empty text; the least set of symbols that holds
the head of every production whose body symbols are all in it. -/
inductive Nullable (g : Grammar) : Symbol Char String → Prop where
  | rule {p : Production} : p ∈ g.productions → (∀ y ∈ p.form, g.Nullable y) →
      g.Nullable (.nonterminal p.head)

/-- `g.Leads X a`: the symbol `X` derives a form that starts with the terminal `a`. A terminal
leads with itself, and the head of a production leads with what a body symbol leads with when
all symbols before it are nullable. -/
inductive Leads (g : Grammar) : Symbol Char String → Char → Prop where
  | terminal (a : Char) : g.Leads (.terminal a) a
  | rule {p : Production} {before after : Sentential} {y : Symbol Char String} {a : Char} :
      p ∈ g.productions → p.form = before ++ y :: after → (∀ x ∈ before, g.Nullable x) →
      g.Leads y a → g.Leads (.nonterminal p.head) a

/-- A form leads with `a` when one of its symbols does and all symbols before it are
nullable. -/
def LeadsForm (g : Grammar) : Sentential → Char → Prop
  | [], _ => False
  | x :: rest, a => g.Leads x a ∨ (g.Nullable x ∧ g.LeadsForm rest a)

variable {g : Grammar}

@[simp] theorem leadsForm_nil (a : Char) : ¬ g.LeadsForm [] a := fun holds => holds

@[simp] theorem leadsForm_cons (x : Symbol Char String) (rest : Sentential) (a : Char) :
    g.LeadsForm (x :: rest) a ↔ g.Leads x a ∨ (g.Nullable x ∧ g.LeadsForm rest a) := Iff.rfl

theorem leadsForm_append {u v : Sentential} {a : Char} :
    g.LeadsForm (u ++ v) a ↔ g.LeadsForm u a ∨ ((∀ x ∈ u, g.Nullable x) ∧ g.LeadsForm v a) := by
  induction u with
  | nil => simp
  | cons x rest ih =>
      simp only [List.cons_append, leadsForm_cons, ih, List.mem_cons, forall_eq_or_imp]
      tauto

/-- A form leads with `a` exactly when it splits around a symbol that leads with `a`, with only
nullable symbols before it. -/
theorem leadsForm_iff_split {u : Sentential} {a : Char} :
    g.LeadsForm u a ↔ ∃ before y after, u = before ++ y :: after ∧
      (∀ x ∈ before, g.Nullable x) ∧ g.Leads y a := by
  induction u with
  | nil => simp
  | cons x rest ih =>
      rw [leadsForm_cons, ih]
      constructor
      · rintro (leads | ⟨nullable, before, y, after, rfl, vanish, leads⟩)
        · exact ⟨[], x, rest, rfl, by simp, leads⟩
        · refine ⟨x :: before, y, after, rfl, ?_, leads⟩
          simpa [nullable] using vanish
      · rintro ⟨before, y, after, split, vanish, leads⟩
        cases before with
        | nil =>
            simp only [List.nil_append, List.cons.injEq] at split
            obtain ⟨rfl, rfl⟩ := split
            exact Or.inl leads
        | cons z before =>
            simp only [List.cons_append, List.cons.injEq] at split
            obtain ⟨rfl, rfl⟩ := split
            exact Or.inr ⟨vanish x List.mem_cons_self, before, y, after, rfl,
              fun w member => vanish w (List.mem_cons_of_mem x member), leads⟩

/-! ## From the least sets to derivations -/

/-- A production's body is derived from its head in one step. -/
theorem derives_form {p : Production} (member : p ∈ g.productions) :
    g.cfg.Derives [.nonterminal p.head] p.form := by
  have step : g.cfg.Produces [.nonterminal p.head] p.form :=
    ⟨p.rule, rule_mem_cfg member, ContextFreeRule.Rewrites.input_output⟩
  exact step.single

/-- A form whose symbols each derive the empty text derives it. -/
theorem derives_nil_of_forall {u : Sentential} (each : ∀ x ∈ u, g.cfg.Derives [x] []) :
    g.cfg.Derives u [] := by
  induction u with
  | nil => exact .refl _
  | cons x rest ih =>
      have first : g.cfg.Derives ([x] ++ rest) ([] ++ rest) :=
        (each x List.mem_cons_self).append_right rest
      exact first.trans (ih fun y member => each y (List.mem_cons_of_mem x member))

theorem Nullable.derives_nil {x : Symbol Char String} (nullable : g.Nullable x) :
    g.cfg.Derives [x] [] := by
  induction nullable with
  | rule member _ ih => exact (derives_form member).trans (derives_nil_of_forall ih)

theorem derives_nil_of_nullable {u : Sentential} (vanish : ∀ x ∈ u, g.Nullable x) :
    g.cfg.Derives u [] :=
  derives_nil_of_forall fun x member => (vanish x member).derives_nil

/-- Nullable symbols in front of a form vanish. -/
theorem derives_drop_nullable {before rest : Sentential} (vanish : ∀ x ∈ before, g.Nullable x) :
    g.cfg.Derives (before ++ rest) rest := by
  exact (derives_nil_of_nullable vanish).append_right rest

theorem Leads.derives {x : Symbol Char String} {a : Char} (leads : g.Leads x a) :
    ∃ γ : Sentential, g.cfg.Derives [x] (.terminal a :: γ) := by
  induction leads with
  | terminal a => exact ⟨[], .refl _⟩
  | @rule p before after y a member split vanish _ ih =>
      obtain ⟨γ, derivation⟩ := ih
      refine ⟨γ ++ after, ?_⟩
      have body : g.cfg.Derives [.nonterminal p.head] (before ++ y :: after : Sentential) :=
        split ▸ derives_form member
      have front : g.cfg.Derives (before ++ y :: after : Sentential) ([y] ++ after : Sentential) :=
        derives_drop_nullable vanish
      have led := derivation.append_right after
      exact body.trans (front.trans led)

/-! ## From derivations to the least sets -/

/-- Every symbol of a form that derives the empty text is nullable. -/
theorem nullable_of_derives {u : Sentential} (derivation : g.cfg.Derives u []) :
    ∀ x ∈ u, g.Nullable x := by
  induction derivation using Relation.ReflTransGen.head_induction_on with
  | refl =>
      intro x member
      cases member
  | head produced _ ih =>
      obtain ⟨p, member, before, after, rfl, rfl⟩ := produces_iff.mp produced
      simp only [List.mem_append, List.mem_cons] at ih ⊢
      have head : g.Nullable (.nonterminal p.head) :=
        .rule member fun y inBody => ih y (Or.inl (Or.inr inBody))
      rintro x (inBefore | rfl | inAfter)
      · exact ih x (Or.inl (Or.inl inBefore))
      · exact head
      · exact ih x (Or.inr inAfter)

/-- A form that derives a form starting with `a` leads with `a`. -/
theorem leadsForm_of_derives {u γ : Sentential} {a : Char}
    (derivation : g.cfg.Derives u (.terminal a :: γ)) : g.LeadsForm u a := by
  induction derivation using Relation.ReflTransGen.head_induction_on with
  | refl => exact Or.inl (.terminal a)
  | head produced _ ih =>
      obtain ⟨p, member, before, after, rfl, rfl⟩ := produces_iff.mp produced
      rw [leadsForm_append, leadsForm_append] at ih
      rw [leadsForm_append, leadsForm_cons]
      rcases ih with (inBefore | ⟨vanishBefore, inBody⟩) | ⟨vanishFront, inAfter⟩
      · exact Or.inl inBefore
      · obtain ⟨front, y, back, split, vanish, leads⟩ := leadsForm_iff_split.mp inBody
        exact Or.inr ⟨vanishBefore, Or.inl (.rule member split vanish leads)⟩
      · have vanishBefore : ∀ x ∈ before, g.Nullable x := fun x member =>
          vanishFront x (List.mem_append_left _ member)
        have vanishBody : ∀ x ∈ p.form, g.Nullable x := fun x member =>
          vanishFront x (List.mem_append_right _ member)
        exact Or.inr ⟨vanishBefore, Or.inr ⟨.rule member vanishBody, inAfter⟩⟩

theorem nullable_iff_derives {x : Symbol Char String} :
    g.Nullable x ↔ g.cfg.Derives [x] [] :=
  ⟨Nullable.derives_nil, fun derivation => nullable_of_derives derivation x List.mem_cons_self⟩

theorem leads_iff_derives {x : Symbol Char String} {a : Char} :
    g.Leads x a ↔ ∃ γ : Sentential, g.cfg.Derives [x] (.terminal a :: γ) := by
  refine ⟨Leads.derives, ?_⟩
  rintro ⟨γ, derivation⟩
  rcases leadsForm_of_derives derivation with leads | ⟨_, nothing⟩
  · exact leads
  · exact absurd nothing (leadsForm_nil a)

/-- A form leads with `a` exactly when it derives a form that starts with `a`. -/
theorem leadsForm_iff_derives {u : Sentential} {a : Char} :
    g.LeadsForm u a ↔ ∃ γ : Sentential, g.cfg.Derives u (.terminal a :: γ) := by
  refine ⟨fun leads => ?_, fun ⟨γ, derivation⟩ => leadsForm_of_derives derivation⟩
  obtain ⟨before, y, after, rfl, vanish, first⟩ := leadsForm_iff_split.mp leads
  obtain ⟨γ, derivation⟩ := first.derives
  exact ⟨γ ++ after, (derives_drop_nullable vanish).trans (derivation.append_right after)⟩

/-! ## FIRST sets -/

/-- The FIRST set of a symbol: the terminals that start a form it derives, and the empty mark
when it derives the empty text. -/
def FirstRef (g : Grammar) (x : Symbol Char String) (c : Char) : Prop :=
  (∃ γ : Sentential, g.cfg.Derives [x] (.terminal c :: γ)) ∨
    (c = emptyMark ∧ g.cfg.Derives [x] [])

theorem firstRef_iff {x : Symbol Char String} {c : Char} :
    g.FirstRef x c ↔ g.Leads x c ∨ (c = emptyMark ∧ g.Nullable x) := by
  rw [FirstRef, leads_iff_derives, nullable_iff_derives]

/-! ## Left recursion -/

/-- `g.LeftRecursive A`: the nonterminal `A` derives, in one step or more, a form that starts
with `A`. -/
def LeftRecursive (g : Grammar) (A : String) : Prop :=
  ∃ α : Sentential, Relation.TransGen g.cfg.Produces [.nonterminal A] (.nonterminal A :: α)

/-- `g.LeftCorner A y`: in one step or more, `A` derives a form that starts with `y`. -/
def LeftCorner (g : Grammar) (A : String) (y : Symbol Char String) : Prop :=
  ∃ α : Sentential, Relation.TransGen g.cfg.Produces [.nonterminal A] (y :: α)

/-- A body symbol that only nullable symbols precede is a left corner of the head. -/
theorem leftCorner_of_split {p : Production} (member : p ∈ g.productions)
    {before after : Sentential} {y : Symbol Char String}
    (split : p.form = before ++ y :: after) (vanish : ∀ x ∈ before, g.Nullable x) :
    g.LeftCorner p.head y := by
  have step : g.cfg.Produces [.nonterminal p.head] p.form :=
    ⟨p.rule, rule_mem_cfg member, ContextFreeRule.Rewrites.input_output⟩
  refine ⟨after, Relation.TransGen.head' step ?_⟩
  rw [split]
  exact derives_drop_nullable vanish

/-- A left corner of a left corner of `A` is a left corner of `A`. -/
theorem LeftCorner.trans {A B : String} {y : Symbol Char String}
    (first : g.LeftCorner A (.nonterminal B)) (second : g.LeftCorner B y) :
    g.LeftCorner A y := by
  obtain ⟨α, toB⟩ := first
  obtain ⟨β, toY⟩ := second
  have extended := Relation.TransGen.lift (fun u : Sentential => u ++ α)
    (fun _ _ (produced : g.cfg.Produces _ _) => produced.append_right α) _ _ toY
  exact ⟨β ++ α, toB.trans extended⟩

/-! ## Ranks that rule out left recursion -/

/-- Whether a symbol is a terminal or a nonterminal of rank below `n`. -/
def rankedBelow (rank : String → Nat) (n : Nat) : Symbol Char String → Bool
  | .terminal _ => true
  | .nonterminal B => decide (rank B < n)

/-- Whether a symbol is a nonterminal: the mark that passes over every nonterminal. -/
def isNonterminalSymbol : Symbol Char String → Bool
  | .terminal _ => false
  | .nonterminal _ => true

/-- Whether every symbol that a form can start with, once the symbols that `vanish` marks are
passed over, is ranked below `n`. -/
def leadingBelow (vanish : Symbol Char String → Bool) (rank : String → Nat) (n : Nat) :
    Sentential → Bool
  | [] => true
  | x :: rest => rankedBelow rank n x && (!vanish x || leadingBelow vanish rank n rest)

section Ranks

variable {vanish : Symbol Char String → Bool} {rank : String → Nat}

theorem leadingBelow_append {n : Nat} {u v : Sentential} :
    leadingBelow vanish rank n (u ++ v) = true ↔
      leadingBelow vanish rank n u = true ∧
        (u.all vanish = true → leadingBelow vanish rank n v = true) := by
  induction u with
  | nil => simp [leadingBelow]
  | cons x rest ih =>
      simp only [List.cons_append, leadingBelow, Bool.and_eq_true, Bool.or_eq_true,
        Bool.not_eq_true', ih, List.all_cons]
      cases vanish x <;> simp [and_assoc]

theorem leadingBelow_mono {n m : Nat} (le : n ≤ m) {u : Sentential}
    (below : leadingBelow vanish rank n u = true) : leadingBelow vanish rank m u = true := by
  induction u with
  | nil => rfl
  | cons x rest ih =>
      simp only [leadingBelow, Bool.and_eq_true, Bool.or_eq_true, Bool.not_eq_true'] at below ⊢
      refine ⟨?_, below.2.imp id ih⟩
      cases x with
      | terminal _ => rfl
      | nonterminal B =>
          simp only [rankedBelow, decide_eq_true_eq] at below ⊢
          omega

/-- Ranks rule out left recursion when every body's leading symbols rank below its head, and
the symbols that `vanish` marks include every head whose body they all mark. -/
structure RanksLeftCorners (g : Grammar) (vanish : Symbol Char String → Bool)
    (rank : String → Nat) : Prop where
  closed : ∀ p ∈ g.productions, p.form.all vanish = true → vanish (.nonterminal p.head) = true
  ranked : ∀ p ∈ g.productions, leadingBelow vanish rank (rank p.head) p.form = true

/-- A step by a production keeps the leading symbols of a form below a bound. -/
theorem RanksLeftCorners.step (ranks : g.RanksLeftCorners vanish rank) {p : Production}
    (member : p ∈ g.productions) {n : Nat} {before after : Sentential}
    (holds : leadingBelow vanish rank n (before ++ .nonterminal p.head :: after) = true) :
    leadingBelow vanish rank n (before ++ p.form ++ after) = true := by
  rw [leadingBelow_append] at holds
  rw [List.append_assoc, leadingBelow_append, leadingBelow_append]
  refine ⟨holds.1, fun vanishBefore => ?_⟩
  have atHead := holds.2 vanishBefore
  simp only [leadingBelow, rankedBelow, Bool.and_eq_true, decide_eq_true_eq, Bool.or_eq_true,
    Bool.not_eq_true'] at atHead
  refine ⟨leadingBelow_mono atHead.1.le (ranks.ranked p member), fun vanishBody => ?_⟩
  rcases atHead.2 with stuck | rest
  · rw [ranks.closed p member vanishBody] at stuck
    exact absurd stuck (by decide)
  · exact rest

/-- Along a left corner the rank drops. -/
theorem RanksLeftCorners.rank_lt (ranks : g.RanksLeftCorners vanish rank) {A B : String}
    (corner : g.LeftCorner A (.nonterminal B)) : rank B < rank A := by
  obtain ⟨α, chain⟩ := corner
  obtain ⟨w, first, rest⟩ := Relation.TransGen.head'_iff.mp chain
  obtain ⟨p, member, before, after, split, rfl⟩ := produces_iff.mp first
  have split : ([.nonterminal A] : Sentential) = before ++ .nonterminal p.head :: after := split
  have shape : before = [] ∧ after = [] ∧ p.head = A := by
    cases before with
    | nil =>
        simp only [List.nil_append, List.cons.injEq, Symbol.nonterminal.injEq] at split
        exact ⟨rfl, split.2.symm, split.1.symm⟩
    | cons x others => simp at split
  obtain ⟨rfl, rfl, rfl⟩ := shape
  have reached := invariant_of_derives (fun u => leadingBelow vanish rank (rank p.head) u = true)
    (fun _ inProductions _ _ holds => ranks.step inProductions holds) rest
    (by simpa using ranks.ranked p member)
  simp only [leadingBelow, rankedBelow, Bool.and_eq_true, decide_eq_true_eq] at reached
  exact reached.1

/-- A grammar whose left corners have ranks has no left-recursive nonterminal. -/
theorem RanksLeftCorners.not_leftRecursive (ranks : g.RanksLeftCorners vanish rank) (A : String) :
    ¬ g.LeftRecursive A :=
  fun recursive => lt_irrefl (rank A) (ranks.rank_lt recursive)

end Ranks

/-! ## FOLLOW sets -/

/-- The FOLLOW sets: the least sets that hold the end marker after the start symbol; for every
production `A->αBβ`, the terminals that start a form `β` derives; and, when `β` derives the
empty text, the FOLLOW set of `A`. -/
inductive Follows (g : Grammar) : String → Char → Prop where
  | start : g.Follows g.startName endMarker
  | first {p : Production} {before after : Sentential} {B : String} {a : Char} {γ : Sentential} :
      p ∈ g.productions → p.form = before ++ .nonterminal B :: after →
      g.cfg.Derives after (.terminal a :: γ) → g.Follows B a
  | inherit {p : Production} {before after : Sentential} {B : String} {a : Char} :
      p ∈ g.productions → p.form = before ++ .nonterminal B :: after →
      g.cfg.Derives after [] → g.Follows p.head a → g.Follows B a

end Grammar

/-- One pass over the nonterminals with one symbol of lookahead misses a member of a FOLLOW
set. In `S->BCd`, `B->b`, `C->c`, `C->` the symbol `C` after `B` can vanish, so `d` follows
`B`; the pass reads only the `C` right after `B`, and in place of `d` it adds the FOLLOW set
of `S`. The grammar is well formed and has no left recursion. -/
theorem followSets_misses_vanishing_follower :
    ∃ g sets, Grammar.ofText "S->BCd\nB->b\nC->c\nC->" = .ok g ∧ g.WellFormed ∧
      (∀ A, ¬ g.LeftRecursive A) ∧ g.followSets = .ok sets ∧
      g.Follows "B" 'd' ∧ 'd' ∉ sets.get "B" := by
  have computed : (Grammar.ofText "S->BCd\nB->b\nC->c\nC->").toOption.bind (fun g =>
      g.followSets.toOption.map fun sets => (g.productions, (sets.get "B").toList)) =
      some ([⟨"S", ['B', 'C', 'd']⟩, ⟨"B", ['b']⟩, ⟨"C", ['c']⟩, ⟨"C", []⟩], ['$', 'c']) := by
    decide +kernel
  obtain ⟨g, read, found⟩ := Option.bind_eq_some_iff.mp computed
  obtain ⟨sets, followed, listed⟩ := Option.map_eq_some_iff.mp found
  obtain ⟨productions, followB⟩ : _ ∧ _ := by
    simpa only [Prod.mk.injEq] using listed
  have ranks : g.RanksLeftCorners Grammar.isNonterminalSymbol
      (fun A => if A = "S" then 1 else 0) := by
    refine ⟨fun _ _ _ => rfl, fun p member => ?_⟩
    have checked : g.productions.all (fun p => Grammar.leadingBelow
        Grammar.isNonterminalSymbol (fun A => if A = "S" then 1 else 0)
        (if p.head = "S" then 1 else 0) p.form) = true := by
      rw [productions]
      decide
    exact List.all_eq_true.mp checked p member
  have follows : g.Follows "B" 'd' := by
    have vanishC : g.cfg.Derives [.nonterminal "C", .terminal 'd'] [.terminal 'd'] :=
      Relation.ReflTransGen.single (Grammar.produces_iff.mpr
        ⟨⟨"C", []⟩, by simp [productions], [], [.terminal 'd'], rfl, rfl⟩)
    exact @Grammar.Follows.first g ⟨"S", ['B', 'C', 'd']⟩ [] [.nonterminal "C", .terminal 'd']
      "B" 'd' [] (by simp [productions]) (by decide) vanishC
  refine ⟨g, sets, toOption_eq_some.mp read,
    Grammar.wellFormed_of_plain 'A' (by decide) (by rw [productions]; decide),
    ranks.not_leftRecursive, toOption_eq_some.mp followed, follows, ?_⟩
  show 'd' ∉ (sets.get "B").toList
  rw [followB]
  decide

end GrammarBench
