import Mathlib.Data.Multiset.DershowitzManna
import GrammarBench.Proofs.Ll.Soundness
import GrammarBench.Proofs.Sets.Reference

/-!
# Termination of the predictive parse

A predictive parse with the table built for a well-formed grammar ends, for every input, when
no nonterminal of the grammar is left recursive. Matching a terminal consumes input, applying
a production consumes none, and the stack may grow, so the measure of a configuration is the
input left and then the symbols of the stack that the parse can still expand before it has to
match one: those up to the first symbol that cannot vanish (`Grammar.liveFront`). Each of them
is weighed by its rank among left corners (`Grammar.cornerRank`): the number of heads that a
nonterminal is, or reaches at the left end of what it derives. Applying a production of the
nonterminal on top puts left corners of it in its place, all of lower rank, so the ranks fall
in the Dershowitz–Manna order on multisets (`Grammar.frontRanks_expand`).

The parse needs nothing else of its table than that every cell of a nonterminal's row holds a
production of that nonterminal, which holds whatever FIRST and FOLLOW sets the table was
built from.

Main statement: `predictive_terminates`.
-/

namespace GrammarBench

namespace Grammar

variable {g : Grammar}

/-! ## Ranks among left corners -/

/-- The heads of the productions. -/
def heads (g : Grammar) : Finset String :=
  (g.productions.map Production.head).toFinset

open Classical in
/-- The rank of a symbol among left corners: for a nonterminal, the number of heads that it is
or that are left corners of it; for a terminal, zero. -/
noncomputable def cornerRank (g : Grammar) : Symbol Char String → Nat
  | .terminal _ => 0
  | .nonterminal A => (g.heads.filter fun B => A = B ∨ g.LeftCorner A (.nonterminal B)).card

theorem mem_heads {p : Production} (member : p ∈ g.productions) : p.head ∈ g.heads := by
  simp only [heads, List.mem_toFinset, List.mem_map]
  exact ⟨p, member, rfl⟩

/-- A nonterminal with a left corner is the head of a production. -/
theorem mem_heads_of_leftCorner {A : String} {y : Symbol Char String}
    (corner : g.LeftCorner A y) : A ∈ g.heads := by
  obtain ⟨α, chain⟩ := corner
  obtain ⟨w, first, _⟩ := Relation.TransGen.head'_iff.mp chain
  obtain ⟨p, member, before, after, split, _⟩ := produces_iff.mp first
  have split : ([.nonterminal A] : Sentential) = before ++ .nonterminal p.head :: after := split
  cases before with
  | nil =>
      simp only [List.nil_append, List.cons.injEq, Symbol.nonterminal.injEq] at split
      exact split.1 ▸ mem_heads member
  | cons x others => simp at split

/-- Along a left corner the rank drops, when no nonterminal is left recursive: the heads that
the corner reaches, the head of the corner is not among them. -/
theorem cornerRank_lt (noLeft : ∀ B, ¬ g.LeftRecursive B) {A : String} {y : Symbol Char String}
    (corner : g.LeftCorner A y) : g.cornerRank y < g.cornerRank (.nonterminal A) := by
  classical
  have headA := mem_heads_of_leftCorner corner
  cases y with
  | terminal c =>
      simp only [cornerRank]
      exact Finset.card_pos.mpr ⟨A, Finset.mem_filter.mpr ⟨headA, Or.inl rfl⟩⟩
  | nonterminal B =>
      simp only [cornerRank]
      apply Finset.card_lt_card
      refine (Finset.ssubset_iff_of_subset ?_).mpr ⟨A, ?_, ?_⟩
      · intro C member
        obtain ⟨inHeads, same | further⟩ := Finset.mem_filter.mp member
        · subst same
          exact Finset.mem_filter.mpr ⟨inHeads, Or.inr corner⟩
        · exact Finset.mem_filter.mpr ⟨inHeads, Or.inr (corner.trans further)⟩
      · exact Finset.mem_filter.mpr ⟨headA, Or.inl rfl⟩
      · intro member
        obtain ⟨_, same | further⟩ := Finset.mem_filter.mp member
        · subst same
          exact noLeft B corner
        · exact noLeft A (corner.trans further)

/-- A symbol of a body that only nullable symbols precede, or the first symbol after them, is a
left corner of the head. -/
theorem leftCorner_of_mem_front {p : Production} (member : p ∈ g.productions)
    {before back : Sentential} (split : p.form = before ++ back)
    (vanish : ∀ x ∈ before, g.Nullable x) {z : Symbol Char String}
    (inFront : z ∈ before ++ back.take 1) : g.LeftCorner p.head z := by
  rcases List.mem_append.mp inFront with inBefore | inBack
  · obtain ⟨front, rest, rfl⟩ := List.append_of_mem inBefore
    have split : p.form = front ++ z :: (rest ++ back) := by
      rw [split, List.append_assoc, List.cons_append]
    exact leftCorner_of_split member split
      fun x inFront => vanish x (List.mem_append_left _ inFront)
  · cases back with
    | nil => simp at inBack
    | cons y after =>
        simp only [List.take_succ_cons, List.take_zero, List.mem_singleton] at inBack
        subst inBack
        exact leftCorner_of_split member split vanish

/-! ## The live front of a form -/

open Classical in
/-- The front of a form that a run of expansions can reach: its symbols up to and including the
first one that is not nullable. -/
noncomputable def liveFront (g : Grammar) : Sentential → Sentential
  | [] => []
  | x :: rest => if g.Nullable x then x :: g.liveFront rest else [x]

theorem liveFront_cons_of_nullable {x : Symbol Char String} (nullable : g.Nullable x)
    (rest : Sentential) : g.liveFront (x :: rest) = x :: g.liveFront rest := by
  simp [liveFront, nullable]

theorem liveFront_cons_of_not_nullable {x : Symbol Char String} (stuck : ¬ g.Nullable x)
    (rest : Sentential) : g.liveFront (x :: rest) = [x] := by
  simp [liveFront, stuck]

/-- Nullable symbols in front are all live. -/
theorem liveFront_append_of_nullable {u : Sentential} (vanish : ∀ x ∈ u, g.Nullable x)
    (v : Sentential) : g.liveFront (u ++ v) = u ++ g.liveFront v := by
  induction u with
  | nil => rfl
  | cons x rest ih =>
      rw [List.cons_append, liveFront_cons_of_nullable (vanish x List.mem_cons_self),
        ih (fun y member => vanish y (List.mem_cons_of_mem x member)), List.cons_append]

/-- In front of a part that cannot vanish, the live front ends inside that part, at its first
symbol that is not nullable. -/
theorem liveFront_append_of_stuck {u : Sentential} (stuck : ¬ ∀ x ∈ u, g.Nullable x)
    (v : Sentential) :
    ∃ before y after, u = before ++ y :: after ∧ (∀ x ∈ before, g.Nullable x) ∧
      g.liveFront (u ++ v) = before ++ [y] := by
  induction u with
  | nil => simp at stuck
  | cons x rest ih =>
      by_cases nullable : g.Nullable x
      · have restStuck : ¬ ∀ y ∈ rest, g.Nullable y := fun vanish =>
          stuck fun y member => (List.mem_cons.mp member).elim (· ▸ nullable) (vanish y)
        obtain ⟨before, y, after, rfl, vanish, front⟩ := ih restStuck
        refine ⟨x :: before, y, after, rfl, ?_, ?_⟩
        · intro z member
          exact (List.mem_cons.mp member).elim (· ▸ nullable) (vanish z)
        · rw [List.cons_append, liveFront_cons_of_nullable nullable, front, List.cons_append]
      · exact ⟨[], x, rest, rfl, by simp, by
          rw [List.cons_append, liveFront_cons_of_not_nullable nullable, List.nil_append]⟩

/-- The ranks of the live front of a form. -/
noncomputable def frontRanks (g : Grammar) (u : Sentential) : Multiset Nat :=
  ((g.liveFront u).map g.cornerRank : List Nat)

/-- Replacing the nonterminal in front of a form by the body of one of its productions lowers
the ranks of the live front: the head leaves it, and what comes in is left corners of it. -/
theorem frontRanks_expand (noLeft : ∀ B, ¬ g.LeftRecursive B) {p : Production}
    (member : p ∈ g.productions) (rest : Sentential) :
    Multiset.IsDershowitzMannaLT (g.frontRanks (p.form ++ rest))
      (g.frontRanks (.nonterminal p.head :: rest)) := by
  have lower : ∀ {before back : Sentential}, p.form = before ++ back →
      (∀ x ∈ before, g.Nullable x) → ∀ z ∈ before ++ back.take 1,
        g.cornerRank z < g.cornerRank (.nonterminal p.head) :=
    fun split vanish z inFront =>
      cornerRank_lt noLeft (leftCorner_of_mem_front member split vanish inFront)
  by_cases vanish : ∀ x ∈ p.form, g.Nullable x
  · have headNullable : g.Nullable (.nonterminal p.head) := .rule member vanish
    refine ⟨g.frontRanks rest, (p.form.map g.cornerRank : List Nat),
      {g.cornerRank (.nonterminal p.head)}, by simp, ?_, ?_, ?_⟩
    · simp only [frontRanks, liveFront_append_of_nullable vanish, List.map_append,
        ← Multiset.coe_add]
      exact add_comm _ _
    · simp only [frontRanks, liveFront_cons_of_nullable headNullable, List.map_cons,
        ← Multiset.cons_coe]
      rw [add_comm, Multiset.singleton_add]
    · intro r inBody
      obtain ⟨z, inForm, rfl⟩ := List.mem_map.mp (Multiset.mem_coe.mp inBody)
      exact ⟨_, Multiset.mem_singleton_self _,
        lower (List.append_nil p.form).symm vanish z (by simpa using inForm)⟩
  · obtain ⟨before, y, after, split, vanishBefore, front⟩ := liveFront_append_of_stuck vanish rest
    have headFirst : ∃ tail, g.liveFront (.nonterminal p.head :: rest) =
        .nonterminal p.head :: tail := by
      by_cases nullable : g.Nullable (.nonterminal p.head)
      · exact ⟨_, liveFront_cons_of_nullable nullable rest⟩
      · exact ⟨[], liveFront_cons_of_not_nullable nullable rest⟩
    obtain ⟨tail, headFront⟩ := headFirst
    refine ⟨0, ((before ++ [y]).map g.cornerRank : List Nat),
      g.frontRanks (.nonterminal p.head :: rest), ?_, ?_, by simp, ?_⟩
    · simp [frontRanks, headFront]
    · simp [frontRanks, front]
    · intro r inFront
      obtain ⟨z, inLive, rfl⟩ := List.mem_map.mp (Multiset.mem_coe.mp inFront)
      refine ⟨g.cornerRank (.nonterminal p.head), by simp [frontRanks, headFront], ?_⟩
      exact lower split vanishBefore z (by simpa using inLive)

end Grammar

namespace Predictive

variable {g : Grammar} {t : LlTable}

/-- What one step of the parse does, with the table of a well-formed grammar, from a stack of
characters over the end marker: it ends the parse, accepting or rejecting; or it matches the
terminal on top with the next character; or it replaces the nonterminal on top by the body of
one of its productions. -/
theorem step_cases (setting : Setting g t) {above input : List Char} {steps : List Step}
    {progress : Progress (List String)}
    (stepped : predictiveStep g t.toPredict (above.map Char.toString ++ [endMarker.toString])
      input steps = .ok progress) :
    (∃ trace, progress = .finished trace ∧ trace.outcome ≠ .unfinished) ∨
    (∃ a rest more later, above = a :: rest ∧ input = a :: more ∧
      progress = .next (rest.map Char.toString ++ [endMarker.toString]) more later) ∨
    (∃ a rest q later, above = a :: rest ∧ q ∈ g.productions ∧ q.head = a.toString ∧
      Text.isUppercase a = true ∧
      progress = .next ((q.body ++ rest).map Char.toString ++ [endMarker.toString]) input
        later) := by
  have ended : ∀ {trace : Trace}, (.ok (.finished trace) : Except Fault _) = .ok progress →
      trace.outcome ≠ .unfinished →
      ∃ trace, progress = .finished trace ∧ trace.outcome ≠ .unfinished := by
    intro trace done outcome
    simp only [Except.ok.injEq] at done
    exact ⟨trace, done.symm, outcome⟩
  cases input with
  | nil => cases above <;> simp [predictiveStep] at stepped
  | cons c more =>
  cases above with
  | nil =>
      simp only [List.map_nil, List.nil_append, predictiveStep] at stepped
      split at stepped
      · exact .inl (ended stepped (by simp))
      rename_i notAccepting
      split at stepped
      · split at stepped
        · rename_i matching
          have atMarker : c = endMarker :=
            (String.singleton_inj.mp (beq_iff_eq.mp matching)).symm
          simp [atMarker] at notAccepting
        · exact .inl (ended stepped (by simp))
      · rename_i notMarker
        simp at notMarker
  | cons a rest =>
      simp only [List.map_cons, List.cons_append, predictiveStep] at stepped
      split at stepped
      · exact .inl (ended stepped (by simp))
      split at stepped
      · split at stepped
        · rename_i matching
          have same : a = c := String.singleton_inj.mp (beq_iff_eq.mp matching)
          subst same
          simp only [Except.ok.injEq] at stepped
          exact .inr (.inl ⟨a, rest, more, _, rfl, rfl, stepped.symm⟩)
        · exact .inl (ended stepped (by simp))
      split at stepped
      · rename_i nonterminal
        obtain ⟨X, upper, named⟩ := Grammar.nonterminal_upper setting.shape.recorded
          setting.wellFormed (Grammar.isNonterminal_iff.mp nonterminal)
        have same : a = X := String.singleton_inj.mp named
        subst same
        obtain ⟨entry, read, stepped⟩ := bind_eq_ok.mp stepped
        split at stepped
        · exact .inl (ended stepped (by simp))
        rename_i filled
        obtain ⟨text, asText, stepped⟩ := bind_eq_ok.mp stepped
        obtain ⟨q, line, stepped⟩ := bind_eq_ok.mp stepped
        obtain ⟨member, head, rfl⟩ := setting.predicted read (by simpa using filled) asText line
        have notEmpty : (q.body == [emptyMark]) = false := by
          apply beq_eq_false_iff_ne.mpr
          intro same
          exact (setting.wellFormed.body_plain q member).2.2 (same ▸ List.mem_singleton_self _)
        simp only [notEmpty, Bool.false_eq_true, if_false, Except.ok.injEq] at stepped
        rw [← List.append_assoc, ← List.map_append] at stepped
        exact .inr (.inr ⟨a, rest, q, _, rfl, member, head, upper, stepped.symm⟩)
      · exact .inl (ended stepped (by simp))

/-- The measure of a configuration: the input left, then the ranks of the live front of the
stack above the end marker. -/
noncomputable def measure (g : Grammar) (above input : List Char) : Nat × Multiset Nat :=
  (input.length, g.frontRanks (above.map bodySymbol))

/-- The order on measures: the input left first, then the ranks in the Dershowitz–Manna
order. -/
def Smaller : Nat × Multiset Nat → Nat × Multiset Nat → Prop :=
  Prod.Lex (· < ·) Multiset.IsDershowitzMannaLT

theorem smaller_wf : WellFounded Smaller :=
  WellFounded.prod_lex wellFounded_lt Multiset.wellFounded_isDershowitzMannaLT

/-- Applying a production of the nonterminal on top makes the measure smaller. -/
theorem measure_expand (noLeft : ∀ B, ¬ g.LeftRecursive B) {q : Production}
    (member : q ∈ g.productions) {a : Char} (head : q.head = a.toString)
    (upper : Text.isUppercase a = true) (rest input : List Char) :
    Smaller (measure g (q.body ++ rest) input) (measure g (a :: rest) input) := by
  apply Prod.Lex.right
  have expanded := Grammar.frontRanks_expand noLeft member (rest.map bodySymbol)
  rw [head, ← bodySymbol_of_upper upper] at expanded
  simpa [measure, Production.form] using expanded

/-- From every stack of characters over the end marker and every input, the parse with the
table of a well-formed grammar ends within some number of steps, when no nonterminal is left
recursive. The proof is by well-founded induction on the measure of the configuration. -/
theorem terminates (setting : Setting g t) (noLeft : ∀ A, ¬ g.LeftRecursive A)
    (above input : List Char) (steps : List Step) :
    ∃ fuel, ∀ trace, predictiveFrom g t.toPredict fuel
      (above.map Char.toString ++ [endMarker.toString]) input steps = .ok trace →
        trace.outcome ≠ .unfinished := by
  have wf := InvImage.wf (fun config : List Char × List Char => measure g config.1 config.2)
    smaller_wf
  refine wf.induction (C := fun config => ∀ steps, ∃ fuel, ∀ trace, predictiveFrom g
    t.toPredict fuel (config.1.map Char.toString ++ [endMarker.toString]) config.2 steps =
      .ok trace → trace.outcome ≠ .unfinished) (above, input) ?_ steps
  rintro ⟨above, input⟩ ih steps
  cases stepped : predictiveStep g t.toPredict (above.map Char.toString ++ [endMarker.toString])
    input steps with
  | error fault =>
      exact ⟨1, fun trace ran => by
        simp only [predictiveFrom, stepped, bind, Except.bind, reduceCtorEq] at ran⟩
  | ok progress =>
      rcases step_cases setting stepped with ⟨done, rfl, outcome⟩ |
        ⟨a, rest, more, later, rfl, rfl, rfl⟩ | ⟨a, rest, q, later, rfl, member, head, upper, rfl⟩
      · refine ⟨1, fun trace ran => ?_⟩
        simp only [predictiveFrom, stepped, bind, Except.bind, pure, Except.pure,
          Except.ok.injEq] at ran
        exact ran ▸ outcome
      · obtain ⟨fuel, ends⟩ := ih (rest, more) (Prod.Lex.left _ _ (by simp)) later
        refine ⟨fuel + 1, fun trace ran => ends trace ?_⟩
        simpa only [predictiveFrom, stepped, bind, Except.bind] using ran
      · obtain ⟨fuel, ends⟩ := ih (q.body ++ rest, input)
          (measure_expand noLeft member head upper rest input) later
        refine ⟨fuel + 1, fun trace ran => ends trace ?_⟩
        simpa only [predictiveFrom, stepped, bind, Except.bind] using ran

end Predictive

/-- The predictive parse with an LL(1) table built for a well-formed grammar read from a text
ends for every input, started from the head of the first production, when no nonterminal is
left recursive: within some number of steps it accepts, rejects or stops on a fault. This
holds whatever FIRST and FOLLOW sets the table was built from. Without productions the start
symbol is the empty name, which no step can expand. -/
theorem predictive_terminates {text : String} {g : Grammar} (read : Grammar.ofText text = .ok g)
    (wellFormed : g.WellFormed) (noLeft : ∀ A, ¬ g.LeftRecursive A)
    {firsts : List (String × CharSet)} {follows : FollowSets} {t : LlTable}
    (built : LlTable.build g firsts follows = .ok t) (input : List Char) (steps : List Step) :
    ∃ fuel, ∀ trace, predictiveFrom g t.toPredict fuel [g.startName, endMarker.toString] input
      steps = .ok trace → trace.outcome ≠ .unfinished := by
  have setting : Predictive.Setting g t :=
    ⟨Grammar.readShape_ofText read, wellFormed, LlTable.entered_build built⟩
  cases listed : g.productions with
  | cons first rest =>
      obtain ⟨X, _, named⟩ := wellFormed.head_upper first (listed ▸ List.mem_cons_self)
      have starting : g.startName = X.toString := by
        simp [Grammar.startName, listed, named]
      rw [starting]
      exact Predictive.terminates setting noLeft [X] input steps
  | nil =>
      have starting : g.startName = "" := by
        simp [Grammar.startName, listed]
      have noNonterminals : g.nonterminals = [] := by
        apply List.eq_nil_iff_forall_not_mem.mpr
        intro name member
        obtain ⟨p, used, _⟩ := setting.shape.recorded.nonterminal_used name member
        simp [listed] at used
      have notTerminal : g.isTerminalName "" = false := by
        rw [Bool.eq_false_iff, ne_eq, Grammar.isTerminalName_iff]
        rintro ⟨c, _, named⟩
        have lengths := congrArg String.length named
        simp at lengths
      refine ⟨1, fun trace ran => ?_⟩
      rw [starting] at ran
      cases input with
      | nil => simp [predictiveFrom, predictiveStep, bind, Except.bind] at ran
      | cons c more =>
          simp [predictiveFrom, predictiveStep, notTerminal, Grammar.isNonterminal,
            noNonterminals, bind, Except.bind, pure, Except.pure] at ran
          rw [← ran]
          simp

/-- The expression grammar `E->TR`, `R->+TR`, `R->`, `T->(E)`, `T->i` is well formed and has no
left recursion (`E` ranks above `T`, and `T` above `R`), and its analysis builds an LL(1)
table. The parse of `i+i` with that table ends. -/
theorem predictive_terminates_expressions :
    ∃ g firsts follows t, Grammar.ofText "E->TR\nR->+TR\nR->\nT->(E)\nT->i" = .ok g ∧
      g.WellFormed ∧ (∀ A, ¬ g.LeftRecursive A) ∧ g.firstSets = .ok firsts ∧
      g.followSets = .ok follows ∧ LlTable.build g firsts follows = .ok t ∧
      ∃ fuel, ∀ trace, predictiveFrom g t.toPredict fuel [g.startName, endMarker.toString]
        "i+i$".toList [] = .ok trace → trace.outcome ≠ .unfinished := by
  have computed : ((Grammar.ofText "E->TR\nR->+TR\nR->\nT->(E)\nT->i").toOption.bind fun g =>
      g.firstSets.toOption.bind fun firsts => g.followSets.toOption.bind fun follows =>
        (LlTable.build g firsts follows).toOption.map fun _ => g.productions) =
      some [⟨"E", ['T', 'R']⟩, ⟨"R", ['+', 'T', 'R']⟩, ⟨"R", []⟩, ⟨"T", ['(', 'E', ')']⟩,
        ⟨"T", ['i']⟩] := by
    decide +kernel
  obtain ⟨g, read, computed⟩ := Option.bind_eq_some_iff.mp computed
  obtain ⟨firsts, firsted, computed⟩ := Option.bind_eq_some_iff.mp computed
  obtain ⟨follows, followed, computed⟩ := Option.bind_eq_some_iff.mp computed
  obtain ⟨t, built, productions⟩ := Option.map_eq_some_iff.mp computed
  have read := toOption_eq_some.mp read
  have built := toOption_eq_some.mp built
  have wellFormed := Grammar.wellFormed_of_plain 'A' (by decide) (by rw [productions]; decide)
  have ranks : g.RanksLeftCorners Grammar.isNonterminalSymbol
      (fun A => if A = "E" then 2 else if A = "T" then 1 else 0) := by
    refine ⟨fun _ _ _ => rfl, fun p member => ?_⟩
    have checked : g.productions.all (fun p => Grammar.leadingBelow
        Grammar.isNonterminalSymbol
        (fun A => if A = "E" then 2 else if A = "T" then 1 else 0)
        (if p.head = "E" then 2 else if p.head = "T" then 1 else 0) p.form) = true := by
      rw [productions]
      decide
    exact List.all_eq_true.mp checked p member
  exact ⟨g, firsts, follows, t, read, wellFormed, ranks.not_leftRecursive,
    toOption_eq_some.mp firsted, toOption_eq_some.mp followed, built,
    predictive_terminates read wellFormed ranks.not_leftRecursive built "i+i$".toList []⟩

end GrammarBench
