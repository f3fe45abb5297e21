import GrammarBench.Proofs.Lr.StateBudget
import GrammarBench.Proofs.Sets.First
import GrammarBench.Proofs.Console.Soundness

/-!
# The item sets of a grammar end

The closure asks for the FIRST set of body characters, computed over the augmented
productions. When the start production `z->S` uses a letter `z` that no production of the
grammar mentions, that computation reads only the grammar's own productions for every other
character (`Grammar.firstWithin_cons_start`): the start production is skipped, and `z` is no
body character. So when the grammar's FIRST sets are computed, every FIRST set the closure asks
for is too, and the item sets of the augmented grammar end (`itemSetsEnd_of_augment`).

The analysis always augments with a letter that the grammar leaves free. The console always
uses `Z`: for a grammar that leaves `Z` free it builds the same item sets as the analysis,
over its own list of symbols, and they end as well (`itemSets_end`). For a grammar that uses
`Z`, the start production `Z->S` can make `Z` its own left corner, and the FIRST set of `Z`
then recurses without end (`workbench_closure_recurses_on_used_start_letter`).
-/

namespace GrammarBench

section Runs

variable {ε α β : Type}

theorem foldlM_congr_of_mem {f f' : α → β → Except ε α} {xs : List β}
    (agree : ∀ a, ∀ x ∈ xs, f a x = f' a x) (init : α) :
    xs.foldlM f init = xs.foldlM f' init := by
  induction xs generalizing init with
  | nil => rfl
  | cons x rest ih =>
      rw [List.foldlM_cons, List.foldlM_cons, agree init x List.mem_cons_self]
      exact bind_congr_of_ok fun a _ =>
        ih (fun b y member => agree b y (List.mem_cons_of_mem x member)) a

end Runs

namespace Grammar

variable {g g' : Grammar} {name : String}

/-! ## FIRST sets over the augmented productions -/

/-- The contributions of a body read the same in a grammar with the same nonterminals, with
FIRST sets of the body's characters that agree. -/
theorem bodyFirst_congr (sameNames : g'.nonterminals = g.nonterminals)
    {child child' : Char → Except Fault CharSet} {body : List Char}
    (agree : ∀ y ∈ body, child' y = child y) (acc : CharSet) :
    g'.bodyFirst name child' body acc = g.bodyFirst name child body acc := by
  induction body generalizing acc with
  | nil => rfl
  | cons y rest ih =>
      have restAgree : ∀ z ∈ rest, child' z = child z := fun z member =>
        agree z (List.mem_cons_of_mem y member)
      simp only [bodyFirst, own, isNonterminal, sameNames, agree y List.mem_cons_self,
        ih restAgree]
      rfl

/-- The FIRST set of a name reads the same after a production of another head is put in
front, with FIRST sets of the characters of its bodies that agree. -/
theorem firstFrame_cons_other {q : Production} (listed : g'.productions = q :: g.productions)
    (sameNames : g'.nonterminals = g.nonterminals) (other : q.head ≠ name)
    {child child' : Char → Except Fault CharSet}
    (agree : ∀ p ∈ g.productions, p.head = name → ∀ y ∈ p.body, child' y = child y) :
    g'.firstFrame name child' = g.firstFrame name child := by
  have skipped : q.head != name := bne_iff_ne.mpr other
  simp only [firstFrame, listed, List.foldlM_cons, skipped, if_true, isNonterminal, sameNames]
  refine congrArg (· >>= _) (foldlM_congr_of_mem (fun acc p member => ?_) CharSet.empty)
  by_cases named : p.head = name
  · simp only [named, bne_self_eq_false, Bool.false_eq_true, if_false, own, isNonterminal,
      sameNames, bodyFirst_congr sameNames (agree p member named)]
    rfl
  · simp only [bne_iff_ne.mpr named, if_true]

/-- Over the productions with a start production `z->S` in front, where `z` is no body
character, the FIRST set of every name other than `z` is the grammar's own. -/
theorem firstWithin_cons_start {z : Char} {S : List Char}
    (unused : ∀ p ∈ g.productions, z ∉ p.body) (fuel : Nat) :
    ∀ {path : List String} {name : String}, name ≠ z.toString →
      ({ g with productions := ⟨z.toString, S⟩ :: g.productions }).firstWithin fuel path name =
        g.firstWithin fuel path name := by
  induction fuel with
  | zero => exact fun _ => rfl
  | succ fuel ih =>
      intro path name other
      unfold firstWithin
      congr 2
      refine firstFrame_cons_other (q := ⟨z.toString, S⟩) (by rfl) (by rfl) (Ne.symm other)
        fun p member _ y inBody => ?_
      refine ih fun same => unused p member ?_
      rw [show y = z from by simpa using congrArg String.toList same] at inBody
      exact inBody

/-- The FIRST sets the item context of such productions gives for characters other than `z`
are the grammar's own. -/
theorem firstOf_itemContext_cons {z : Char} {S : List Char}
    (unused : ∀ p ∈ g.productions, z ∉ p.body) {c : Char} (other : c ≠ z) :
    (g.itemContext (⟨z.toString, S⟩ :: g.productions)).firstOf c = g.firstOfChar c := by
  change ({ g with productions := _ }).firstLookup c = _
  rw [firstLookup_eq]
  exact firstWithin_cons_start unused firstDepthLimit fun same =>
    other (by simpa using congrArg String.toList same)

variable {firsts : List (String × CharSet)}

/-- When the FIRST sets of the nonterminals are computed, the FIRST set of each is. -/
theorem exists_first_of_firstSets (computed : g.firstSets = .ok firsts) {A : String}
    (named : A ∈ g.nonterminals) : ∃ t, g.first A = .ok t := by
  obtain ⟨listed, kept⟩ := firstSets_eq_ok computed
  rw [← listed] at named
  obtain ⟨⟨B, s⟩, member, rfl⟩ := List.mem_map.mp named
  obtain ⟨t, found, _⟩ := bind_eq_ok.mp (kept B s member)
  exact ⟨t, found⟩

/-- When the FIRST sets of the nonterminals are computed, the FIRST set of every body
character is. -/
theorem exists_firstOfChar_eq_ok (recorded : g.Recorded) (computed : g.firstSets = .ok firsts)
    {p : Production} (member : p ∈ g.productions) {c : Char} (inBody : c ∈ p.body) :
    ∃ t, g.firstOfChar c = .ok t := by
  cases upper : Text.isUppercase c with
  | true => exact exists_first_of_firstSets computed (recorded.upper_mem p member c inBody upper)
  | false => exact ⟨_, firstWithin_terminal (recorded.lower_mem p member c inBody upper) 959 []⟩

/-- A letter that no production mentions is no nonterminal of a recorded grammar. -/
theorem not_mem_nonterminals_of_unused (recorded : g.Recorded) {z : Char}
    (unused : ∀ p ∈ g.productions, p.head ≠ z.toString ∧ z ∉ p.body) :
    z.toString ∉ g.nonterminals := by
  intro named
  obtain ⟨p, member, source⟩ := recorded.nonterminal_used _ named
  rcases source with isHead | ⟨c, inBody, _, same⟩
  · exact (unused p member).1 isHead.symm
  · rw [show c = z from by simpa using congrArg String.toList same.symm] at inBody
    exact (unused p member).2 inBody

/-- Over the augmented productions of a grammar whose FIRST sets are computed, the FIRST set
of every body character is computed. -/
theorem firstOf_answers (shape : g.ReadShape) (wellFormed : g.WellFormed)
    (computed : g.firstSets = .ok firsts) {z : Char} {first : Production}
    (listed : first ∈ g.productions)
    (unused : ∀ p ∈ g.productions, p.head ≠ z.toString ∧ z ∉ p.body) :
    ∀ p ∈ (⟨z.toString, first.head.toList⟩ :: g.productions : List Production), ∀ c ∈ p.body,
      ∃ s, (g.itemContext (⟨z.toString, first.head.toList⟩ :: g.productions)).firstOf c =
        .ok s := by
  have noBody : ∀ p ∈ g.productions, z ∉ p.body := fun p member => (unused p member).2
  intro p member c inBody
  rcases List.mem_cons.mp member with rfl | own
  · obtain ⟨X, _, named⟩ := wellFormed.head_upper first listed
    have isX : c = X := by simpa [named] using inBody
    subst isX
    have known : c.toString ∈ g.nonterminals := named ▸ shape.recorded.head_mem first listed
    have other : c ≠ z := fun same =>
      not_mem_nonterminals_of_unused shape.recorded unused (same ▸ known)
    rw [firstOf_itemContext_cons noBody other]
    exact exists_first_of_firstSets computed known
  · have other : c ≠ z := fun same => noBody p own (same ▸ inBody)
    rw [firstOf_itemContext_cons noBody other]
    exact exists_firstOfChar_eq_ok shape.recorded computed own inBody

/-- A grammar that leaves `Z` free is augmented with `Z`. -/
theorem augment_of_unused_Z {first : Production} {rest : List Production}
    (listed : g.productions = first :: rest) (unusedZ : "Z" ∉ g.nonterminals) :
    g.augment = .ok (⟨"Z", first.head.toList⟩ :: g.productions) := by
  have free : (!g.isNonterminal "Z") = true := by
    simpa [isNonterminal] using unusedZ
  have chosen : g.freshStart? = some 'Z' := by
    rw [freshStart?, show startLetters = 'Z' :: startLetters.tail from rfl]
    exact List.find?_cons_of_pos (p := fun (c : Char) => !g.isNonterminal c.toString) free
  rw [augment, chosen, listed]
  rfl

end Grammar

open ItemContext

variable {g : Grammar} {firsts : List (String × CharSet)}

/-- The item sets over the augmented productions of a well-formed grammar whose FIRST sets
are computed end, from the start item of the start production, over any symbols. -/
theorem itemSetsEnd_of_augment (shape : g.ReadShape) (wellFormed : g.WellFormed)
    (computed : g.firstSets = .ok firsts) {productions : List Production} {start : Production}
    (augmented : g.augment = .ok productions) (head : productions.head? = some start)
    (symbols : List String) :
    (g.itemContext productions).ItemSetsEnd g.terminals symbols
      (Item.start start (.single endMarker)) := by
  obtain ⟨z, first, rest, listed, rfl, _, unused⟩ :=
    Grammar.augment_eq_ok shape.recorded wellFormed augmented
  obtain rfl : ⟨z.toString, first.head.toList⟩ = start := Option.some.inj head
  have startFit : (g.itemContext (⟨z.toString, first.head.toList⟩ :: g.productions)).Fit
      g.terminals (Item.start ⟨z.toString, first.head.toList⟩ (.single endMarker)) :=
    ⟨⟨by simp [Grammar.itemContext], Nat.zero_le _⟩,
      fun d member => .inr (CharSet.mem_single.mp member)⟩
  exact itemSetsEnd_of_sound (Grammar.sound_itemContext shape wellFormed augmented)
    (Grammar.firstOf_answers shape wellFormed computed (listed ▸ List.mem_cons_self) unused)
    startFit

/-- The item sets of both the analysis and the console end on a well-formed grammar whose
FIRST sets are computed: every closure is computed within its budget, and the walk over the
states ends at one list of states for every budget past a bound. The analysis augments with a
letter the grammar leaves free and walks over the nonterminals and terminals; the console
augments with `Z`, which the grammar must leave free, and walks over the end marker too. -/
theorem itemSets_end {text : String} (read : Grammar.ofText text = .ok g)
    (wellFormed : g.WellFormed) (computed : g.firstSets = .ok firsts) :
    (∀ productions start, g.augment = .ok productions → productions.head? = some start →
      (g.itemContext productions).ItemSetsEnd g.terminals
        (g.nonterminals ++ g.terminals.map Char.toString)
        (Item.start start (.single endMarker))) ∧
    (∀ first rest, g.productions = first :: rest → "Z" ∉ g.nonterminals →
      (g.itemContext (⟨"Z", first.head.toList⟩ :: g.productions)).ItemSetsEnd g.terminals
        (g.nonterminals ++ (g.terminals.map Char.toString ++ [endMarker.toString]))
        (Item.start ⟨"Z", first.head.toList⟩ (.single endMarker))) := by
  have shape := Grammar.readShape_ofText read
  refine ⟨fun productions start augmented head =>
    itemSetsEnd_of_augment shape wellFormed computed augmented head _, ?_⟩
  intro first rest listed unusedZ
  exact itemSetsEnd_of_augment shape wellFormed computed
    (Grammar.augment_of_unused_Z listed unusedZ) rfl _

/-- The item sets of `S->aS`, `S->b` end, for the analysis and for the console alike. -/
theorem itemSets_end_right_recursion :
    ∃ g firsts, Grammar.ofText "S->aS\nS->b" = .ok g ∧ g.WellFormed ∧
      g.firstSets = .ok firsts ∧
      (g.itemContext (⟨"Z", ['S']⟩ :: g.productions)).ItemSetsEnd g.terminals
        (g.nonterminals ++ g.terminals.map Char.toString)
        (Item.start ⟨"Z", ['S']⟩ (.single endMarker)) ∧
      (g.itemContext (⟨"Z", ['S']⟩ :: g.productions)).ItemSetsEnd g.terminals
        (g.nonterminals ++ (g.terminals.map Char.toString ++ [endMarker.toString]))
        (Item.start ⟨"Z", ['S']⟩ (.single endMarker)) := by
  have listed : (Grammar.ofText "S->aS\nS->b").toOption.map
      (fun g => (g.productions, g.nonterminals, g.terminals)) =
      some ([⟨"S", ['a', 'S']⟩, ⟨"S", ['b']⟩], ["S"], ['a', 'b']) := by
    decide +kernel
  obtain ⟨g, read, fields⟩ := Option.map_eq_some_iff.mp listed
  simp only [Prod.mk.injEq] at fields
  obtain ⟨productions, nonterminals, terminals⟩ := fields
  have wellFormed : g.WellFormed :=
    Grammar.wellFormed_of_plain 'A' (by decide) (by rw [productions]; decide)
  obtain ⟨firsts, computed⟩ : ∃ firsts, g.firstSets = .ok firsts := by
    obtain ⟨ps, ns, ts⟩ := g
    simp only at productions nonterminals terminals
    subst productions nonterminals terminals
    exact ⟨_, rfl⟩
  have unusedZ : "Z" ∉ g.nonterminals := by
    rw [nonterminals]
    decide
  have ends := itemSets_end (toOption_eq_some.mp read) wellFormed computed
  exact ⟨g, firsts, toOption_eq_some.mp read, wellFormed, computed,
    ends.1 _ _ (Grammar.augment_of_unused_Z productions unusedZ) rfl,
    ends.2 _ _ productions unusedZ⟩

/-- The console's start production breaks the closure of a grammar that uses `Z`. The grammar
`S->Zc`, `S->aZ`, `Z->b` is well formed (the letter `A` is free) and its FIRST sets are
computed, but the console puts `Z->S` in front of its productions all the same. Over those
productions `Z` derives `S`, which starts with `Z`, so the FIRST set of `Z`, asked for when the
closure of the start item reaches `S->.aZ`, recurses without end: the closure and the whole
console session end with the recursion fault. -/
theorem workbench_closure_recurses_on_used_start_letter :
    ∃ g firsts, Grammar.ofText "S->Zc\nS->aZ\nZ->b" = .ok g ∧ g.WellFormed ∧
      g.firstSets = .ok firsts ∧
      (g.itemContext (⟨"Z", ['S']⟩ :: g.productions)).closure
        [Item.start ⟨"Z", ['S']⟩ (.single endMarker)] = .error .recursionTooDeep ∧
      (Workbench.run.run "S->Zc\nS->aZ\nZ->b\n\nab\n").result = .error .recursionTooDeep := by
  have listed : (Grammar.ofText "S->Zc\nS->aZ\nZ->b").toOption.map
      (fun g => (g.productions, g.nonterminals, g.terminals)) =
      some ([⟨"S", ['Z', 'c']⟩, ⟨"S", ['a', 'Z']⟩, ⟨"Z", ['b']⟩], ["S", "Z"], ['c', 'a', 'b']) := by
    decide +kernel
  obtain ⟨⟨ps, ns, ts⟩, read, fields⟩ := Option.map_eq_some_iff.mp listed
  simp only [Prod.mk.injEq] at fields
  obtain ⟨rfl, rfl, rfl⟩ := fields
  exact ⟨_, _, toOption_eq_some.mp read, Grammar.wellFormed_of_plain 'A' (by decide) (by decide),
    rfl, by decide +kernel, by decide +kernel⟩

end GrammarBench
