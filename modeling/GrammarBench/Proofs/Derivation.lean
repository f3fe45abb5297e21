import Mathlib.Computability.ContextFreeGrammar
import GrammarBench.Grammar.Basic

/-!
# Derivations

A grammar is read as a context-free grammar over characters: a body character with the
Unicode property Uppercase stands for the nonterminal of that name, any other character for
itself, and a head names a nonterminal. The start symbol is the head of the first production,
and the language is that of Mathlib's `ContextFreeGrammar`.

Parsers report the productions they use, so derivations here are recorded together with the
list of productions they apply. A rightmost step rewrites a nonterminal that only terminals
follow, a leftmost step one that only terminals precede. Both kinds are derivations of the
context-free grammar, so a text with either kind of derivation from the start symbol is in
the grammar's language.
-/

namespace GrammarBench

/-- A sentential form: grammar symbols over terminal characters and nonterminal names. -/
abbrev Sentential := List (Symbol Char String)

/-- The grammar symbol that a body character stands for. -/
def bodySymbol (c : Char) : Symbol Char String :=
  if Text.isUppercase c then .nonterminal c.toString else .terminal c

/-- An uppercase character differs from every character that is not uppercase. -/
theorem ne_of_upper {c d : Char} (upper : Text.isUppercase c = true)
    (lower : Text.isUppercase d = false) : c ≠ d := by
  intro same
  rw [same, lower] at upper
  exact Bool.noConfusion upper

theorem bodySymbol_of_upper {c : Char} (upper : Text.isUppercase c = true) :
    bodySymbol c = .nonterminal c.toString := by
  simp [bodySymbol, upper]

theorem bodySymbol_of_not_upper {c : Char} (lower : Text.isUppercase c = false) :
    bodySymbol c = .terminal c := by
  simp [bodySymbol, lower]

/-- A text read as a sentential form of terminals. -/
def terminalForm (cs : List Char) : Sentential :=
  cs.map .terminal

@[simp] theorem terminalForm_nil : terminalForm [] = [] := rfl

@[simp] theorem terminalForm_cons (c : Char) (cs : List Char) :
    terminalForm (c :: cs) = .terminal c :: terminalForm cs := rfl

@[simp] theorem terminalForm_append (cs ds : List Char) :
    terminalForm (cs ++ ds) = terminalForm cs ++ terminalForm ds := List.map_append

namespace Production

/-- The production as a context-free rule. -/
def rule (p : Production) : ContextFreeRule Char String :=
  ⟨p.head, p.body.map bodySymbol⟩

/-- The body as a sentential form. -/
def form (p : Production) : Sentential :=
  p.body.map bodySymbol

@[simp] theorem rule_input (p : Production) : p.rule.input = p.head := rfl

@[simp] theorem rule_output (p : Production) : p.rule.output = p.form := rfl

/-- One rightmost step by `p`: an occurrence of its head that only terminals follow is
replaced by its body. -/
def RightmostStep (p : Production) (u v : Sentential) : Prop :=
  ∃ (before : Sentential) (after : List Char),
    u = before ++ .nonterminal p.head :: terminalForm after ∧
      v = before ++ p.form ++ terminalForm after

/-- One leftmost step by `p`: an occurrence of its head that only terminals precede is
replaced by its body. -/
def LeftmostStep (p : Production) (u v : Sentential) : Prop :=
  ∃ (before : List Char) (after : Sentential),
    u = terminalForm before ++ .nonterminal p.head :: after ∧
      v = terminalForm before ++ p.form ++ after

theorem rightmostStep_rewrites {p : Production} {u v : Sentential}
    (step : RightmostStep p u v) : p.rule.Rewrites u v := by
  obtain ⟨before, after, rfl, rfl⟩ := step
  have rewrite := ContextFreeRule.rewrites_of_exists_parts p.rule before (terminalForm after)
  simpa only [rule_input, rule_output, List.append_assoc, List.singleton_append] using rewrite

theorem leftmostStep_rewrites {p : Production} {u v : Sentential}
    (step : LeftmostStep p u v) : p.rule.Rewrites u v := by
  obtain ⟨before, after, rfl, rfl⟩ := step
  have rewrite := ContextFreeRule.rewrites_of_exists_parts p.rule (terminalForm before) after
  simpa only [rule_input, rule_output, List.append_assoc, List.singleton_append] using rewrite

end Production

namespace Grammar

/-- The start symbol: the head of the first production, or the empty name when there is
none. -/
def startName (g : Grammar) : String :=
  (g.productions.head?.map (·.head)).getD ""

/-- The grammar as a context-free grammar over characters with nonterminal names. -/
def cfg (g : Grammar) : ContextFreeGrammar Char where
  NT := String
  initial := g.startName
  rules := (g.productions.map Production.rule).toFinset

theorem rule_mem_cfg {g : Grammar} {p : Production} (member : p ∈ g.productions) :
    p.rule ∈ g.cfg.rules := by
  show p.rule ∈ (g.productions.map Production.rule).toFinset
  exact List.mem_toFinset.mpr (List.mem_map_of_mem member)

theorem production_of_mem_cfg {g : Grammar} {r : ContextFreeRule Char String}
    (member : r ∈ g.cfg.rules) : ∃ p ∈ g.productions, p.rule = r := by
  have listed : r ∈ (g.productions.map Production.rule).toFinset := member
  simpa using List.mem_toFinset.mp listed

/-- One step of the grammar replaces an occurrence of a production's head by its body. -/
theorem produces_iff {g : Grammar} {u v : Sentential} :
    g.cfg.Produces u v ↔ ∃ p ∈ g.productions, ∃ before after : Sentential,
      u = before ++ .nonterminal p.head :: after ∧ v = before ++ p.form ++ after := by
  constructor
  · rintro ⟨r, inRules, rewrites⟩
    obtain ⟨p, member, rfl⟩ := production_of_mem_cfg inRules
    obtain ⟨before, after, rfl, rfl⟩ := rewrites.exists_parts
    refine ⟨p, member, before, after, ?_, rfl⟩
    simp only [Production.rule_input, List.append_assoc, List.singleton_append]
    rfl
  · rintro ⟨p, member, before, after, rfl, rfl⟩
    refine ⟨p.rule, rule_mem_cfg member, ?_⟩
    have rewrite := ContextFreeRule.rewrites_of_exists_parts p.rule before after
    simp only [Production.rule_input, Production.rule_output, List.append_assoc,
      List.singleton_append] at rewrite ⊢
    exact rewrite

/-- A property of forms that every step by a production keeps holds of every form derived
from one that has it. -/
theorem invariant_of_derives {g : Grammar} (P : Sentential → Prop)
    (keeps : ∀ p ∈ g.productions, ∀ before after : Sentential,
      P (before ++ .nonterminal p.head :: after) → P (before ++ p.form ++ after))
    {u v : Sentential} (derivation : g.cfg.Derives u v) (holds : P u) : P v := by
  induction derivation with
  | refl => exact holds
  | tail _ produced ih =>
      obtain ⟨p, inProductions, before, after, rfl, rfl⟩ := produces_iff.mp produced
      exact keeps p inProductions before after ih

/-- The language holds no text whose form lacks a property that the start symbol has and that
every step by a production keeps. -/
theorem not_mem_language_of_invariant {g : Grammar} (P : Sentential → Prop)
    (start : P [.nonterminal g.startName])
    (keeps : ∀ p ∈ g.productions, ∀ before after : Sentential,
      P (before ++ .nonterminal p.head :: after) → P (before ++ p.form ++ after))
    {w : List Char} (lacks : ¬ P (terminalForm w)) : w ∉ g.cfg.language :=
  fun member => lacks (invariant_of_derives P keeps member start)

/-- `g.DerivesBy step ps u v`: applying the productions `ps` of `g` in order, each by
`step`, rewrites `u` into `v`. -/
inductive DerivesBy (g : Grammar) (step : Production → Sentential → Sentential → Prop) :
    List Production → Sentential → Sentential → Prop where
  | refl (u : Sentential) : DerivesBy g step [] u u
  | head {p : Production} {ps : List Production} {u v w : Sentential} :
      p ∈ g.productions → step p u v → DerivesBy g step ps v w → DerivesBy g step (p :: ps) u w

namespace DerivesBy

variable {g : Grammar} {step : Production → Sentential → Sentential → Prop}

/-- A derivation followed by one more step. -/
theorem snoc {ps : List Production} {p : Production} {u v w : Sentential}
    (derivation : DerivesBy g step ps u v) (member : p ∈ g.productions)
    (last : step p v w) : DerivesBy g step (ps ++ [p]) u w := by
  induction derivation with
  | refl u => exact .head member last (.refl w)
  | head first rewrite _ ih => exact .head first rewrite (ih last)

/-- A derivation whose steps are rewrites of the context-free grammar is one of its
derivations. -/
theorem derives (rewrites : ∀ p u v, step p u v → p.rule.Rewrites u v)
    {ps : List Production} {u v : Sentential} (derivation : DerivesBy g step ps u v) :
    g.cfg.Derives u v := by
  induction derivation with
  | refl u => exact Relation.ReflTransGen.refl
  | @head p _ u v _ member rewrite _ ih =>
      have produces : g.cfg.Produces u v := ⟨p.rule, rule_mem_cfg member, rewrites p u v rewrite⟩
      exact Relation.ReflTransGen.head produces ih

end DerivesBy

/-- `g.RightmostDerivation ps u v`: the productions `ps`, applied in order each to the last
nonterminal, rewrite `u` into `v`. -/
def RightmostDerivation (g : Grammar) : List Production → Sentential → Sentential → Prop :=
  g.DerivesBy Production.RightmostStep

/-- `g.LeftmostDerivation ps u v`: the productions `ps`, applied in order each to the first
nonterminal, rewrite `u` into `v`. -/
def LeftmostDerivation (g : Grammar) : List Production → Sentential → Sentential → Prop :=
  g.DerivesBy Production.LeftmostStep

/-- A text that the start symbol derives by a rightmost derivation is in the language. -/
theorem mem_language_of_rightmost {g : Grammar} {ps : List Production} {w : List Char}
    (derivation : g.RightmostDerivation ps [.nonterminal g.startName] (terminalForm w)) :
    w ∈ g.cfg.language :=
  derivation.derives fun _ _ _ step => Production.rightmostStep_rewrites step

/-- A text that the start symbol derives by a leftmost derivation is in the language. -/
theorem mem_language_of_leftmost {g : Grammar} {ps : List Production} {w : List Char}
    (derivation : g.LeftmostDerivation ps [.nonterminal g.startName] (terminalForm w)) :
    w ∈ g.cfg.language :=
  derivation.derives fun _ _ _ step => Production.leftmostStep_rewrites step

end Grammar

end GrammarBench
