import Mathlib
import GrammarBench.Console.Workbench
import GrammarBench.Proofs.Symbols
import GrammarBench.Proofs.Derivation

/-!
# Acceptance at the console

The console workbench augments every grammar with the start production `Z->S`, whatever
letters the grammar uses, and its table accepts at any finished item whose production has the
text of the start production. When the grammar has a production `Z->S` of its own, an item of
that production accepts as well, in the middle of the input; together with the way goto sets
are matched to states, by sorted items and lookahead sets position by position, this makes the
console accept texts outside the grammar's language.

Main statement: `workbench_accepts_outside_language`.
-/

namespace GrammarBench

namespace Workbench

/-- The fewest characters that a symbol of the grammar `S->eS`, `S->eXc`, `S->dZc`, `S->dX`,
`S->a`, `Z->S`, `X->ab` derives: two for `X`, one for any other symbol. -/
def clashYield : Symbol Char String → Nat
  | .nonterminal "X" => 2
  | _ => 1

/-- The fewest characters that a sentential form of that grammar derives. -/
def clashWeight (u : Sentential) : Nat :=
  (u.map clashYield).sum

/-- What every form of that grammar satisfies: one that starts with `d` derives at least three
characters. -/
def ClashForm (u : Sentential) : Prop :=
  ∀ rest, u = .terminal 'd' :: rest → 3 ≤ clashWeight u

/-- A production keeps `ClashForm` when its body weighs at least as much as its head and a
body that starts with `d` weighs at least three. -/
theorem clashForm_keeps {p : Production}
    (grows : clashYield (.nonterminal p.head) ≤ clashWeight p.form)
    (leading : ∀ rest, p.form = .terminal 'd' :: rest → 3 ≤ clashWeight p.form)
    (nonempty : p.form ≠ []) (before after : Sentential)
    (holds : ClashForm (before ++ .nonterminal p.head :: after)) :
    ClashForm (before ++ p.form ++ after) := by
  intro rest starts
  have heavier : clashWeight (before ++ .nonterminal p.head :: after) ≤
      clashWeight (before ++ p.form ++ after) := by
    simp only [clashWeight, List.map_append, List.map_cons, List.sum_append, List.sum_cons]
      at grows ⊢
    omega
  cases before with
  | nil =>
      obtain ⟨first, others, body⟩ := List.exists_cons_of_ne_nil nonempty
      rw [List.nil_append, body, List.cons_append, List.cons.injEq] at starts
      have light := leading others (by rw [body, starts.1])
      simp only [clashWeight, List.nil_append, List.map_append, List.sum_append] at light ⊢
      omega
  | cons first others =>
      rw [List.cons_append, List.cons_append, List.cons.injEq] at starts
      have heavy := holds (others ++ .nonterminal p.head :: after) (by rw [starts.1]; rfl)
      exact heavy.trans heavier

end Workbench

/-- The console accepts a text outside the grammar's language. The grammar `S->eS`, `S->eXc`,
`S->dZc`, `S->dX`, `S->a`, `Z->S`, `X->ab` is well formed (the letter `A` is free), but it uses
`Z`, so the start production `Z->S` has the text of its own last-but-one production. After `d`
the goto set on `a` is matched to the state of `S->a.` and `X->a.b` reached after `e`, where
`S` reduces at the end of the input; the goto on `S` then reaches the item `Z->S.` of the
grammar's own production, which accepts. No derivation of the grammar yields `da`. -/
theorem workbench_accepts_outside_language :
    ∃ g, Grammar.ofText "S->eS\nS->eXc\nS->dZc\nS->dX\nS->a\nZ->S\nX->ab" = .ok g ∧
      g.WellFormed ∧ endMarker ∉ "da".toList ∧
      "\tString Accepted" ∈
        (Workbench.run.run "S->eS\nS->eXc\nS->dZc\nS->dX\nS->a\nZ->S\nX->ab\n\nda\n").printed ∧
      "da".toList ∉ g.cfg.language := by
  have listed : (Grammar.ofText "S->eS\nS->eXc\nS->dZc\nS->dX\nS->a\nZ->S\nX->ab").toOption.map
      Grammar.productions = some [⟨"S", ['e', 'S']⟩, ⟨"S", ['e', 'X', 'c']⟩,
        ⟨"S", ['d', 'Z', 'c']⟩, ⟨"S", ['d', 'X']⟩, ⟨"S", ['a']⟩, ⟨"Z", ['S']⟩,
        ⟨"X", ['a', 'b']⟩] := by
    decide +kernel
  obtain ⟨g, read, productions⟩ := Option.map_eq_some_iff.mp listed
  have accepted : "\tString Accepted" ∈
      (Workbench.run.run "S->eS\nS->eXc\nS->dZc\nS->dX\nS->a\nZ->S\nX->ab\n\nda\n").printed := by
    decide +kernel
  have start : g.startName = "S" := by
    simp [Grammar.startName, productions]
  have checked : g.productions.all (fun p =>
      decide (Workbench.clashYield (.nonterminal p.head) ≤ Workbench.clashWeight p.form) &&
      (p.form.head? != some (.terminal 'd') || decide (3 ≤ Workbench.clashWeight p.form)) &&
      !p.form.isEmpty) = true := by
    rw [productions]
    decide
  have outside : "da".toList ∉ g.cfg.language := by
    apply Grammar.not_mem_language_of_invariant Workbench.ClashForm
    · rw [start]
      intro rest same
      simp at same
    · intro p member before after holds
      have facts := List.all_eq_true.mp checked p member
      simp only [Bool.and_eq_true, decide_eq_true_eq, Bool.not_eq_true',
        List.isEmpty_eq_false_iff] at facts
      obtain ⟨⟨grows, leading⟩, nonempty⟩ := facts
      refine Workbench.clashForm_keeps grows ?_ nonempty before after holds
      intro rest starts
      rw [starts] at leading
      simpa [starts] using leading
    · intro holds
      have light := holds [.terminal 'a'] rfl
      simp [Workbench.clashWeight, Workbench.clashYield] at light
  exact ⟨g, toOption_eq_some.mp read,
    Grammar.wellFormed_of_plain 'A' (by decide) (by rw [productions]; decide),
    by decide, accepted, outside⟩

end GrammarBench
