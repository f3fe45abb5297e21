import GrammarBench.Lr.Automaton
import GrammarBench.Service
import GrammarBench.Proofs.Symbols
import GrammarBench.Proofs.Sets.Reference
import GrammarBench.Proofs.Lr.Closure

/-!
# The automaton of a well-formed grammar

A well-formed grammar leaves a capital letter free, so augmenting it puts the start
production `Z->S` in front of its productions, with a letter `Z` that no other production
mentions. The context its automaton is built in is sound (`Grammar.sound_itemContext`):
the productions are plain and FIRST sets hold terminals and the empty mark.

The walk over the states only appends goto sets, so the first state stays the closure of the
start item, and any property of item lists that goto keeps holds of every state
(`ItemContext.states_forall`). In particular every item of every state is fit.

The walk lists every goto set of every state up to `sameState` (`ItemContext.states_closed`),
and it never lists a state equal by `sameState` to an earlier one
(`ItemContext.states_pairwise`). Equality by `sameState` compares lookahead sets position by
position, so it can take a goto set for a state that holds the same items with their
lookaheads spread otherwise: as sets of LR(1) items the states then miss that goto set
(`states_miss_goto_item`).
-/

namespace GrammarBench

namespace Grammar

variable {g : Grammar}

theorem startLetters_upper : ∀ c ∈ startLetters, Text.isUppercase c = true :=
  List.all_eq_true.mp (by decide)

theorem mem_startLetters {z : Char} (low : 'A' ≤ z) (high : z ≤ 'Z') : z ∈ startLetters := by
  have lowNat : 65 ≤ z.toNat := Char.le_def.mp low
  have highNat : z.toNat ≤ 90 := Char.le_def.mp high
  simp only [startLetters, List.mem_map, List.mem_range]
  refine ⟨90 - z.toNat, by omega, ?_⟩
  have sameCode : 'Z'.toNat - (90 - z.toNat) = z.toNat := by
    change 90 - (90 - z.toNat) = z.toNat
    omega
  rw [sameCode, Char.ofNat_toNat]

theorem not_dot_of_upper {c : Char} (upper : Text.isUppercase c = true) : c ≠ '.' :=
  ne_of_upper upper (by decide)

theorem not_space_of_upper {c : Char} (upper : Text.isUppercase c = true) : c ≠ ' ' :=
  ne_of_upper upper (by decide)

/-- A well-formed grammar gets a start letter that is neither a head nor used in a body. -/
theorem freshStart?_eq_some (recorded : g.Recorded) (wellFormed : g.WellFormed) :
    ∃ z, g.freshStart? = some z ∧ Text.isUppercase z = true ∧
      ∀ p ∈ g.productions, p.head ≠ z.toString ∧ z ∉ p.body := by
  obtain ⟨free, low, high, unused⟩ := wellFormed.letter_free
  have freeIsLetter := mem_startLetters low high
  have freeUnknown : (!g.isNonterminal free.toString) = true := by
    simp only [Bool.not_eq_true', Bool.eq_false_iff, ne_eq, isNonterminal_iff]
    intro known
    obtain ⟨p, used, source⟩ := recorded.nonterminal_used _ known
    rcases source with isHead | ⟨c, inBody, _, named⟩
    · exact (unused p used).1 isHead.symm
    · have same : c = free := by
        have chars := congrArg String.toList named
        simpa [Char.toString_eq_singleton] using chars.symm
      exact (unused p used).2 (same ▸ inBody)
  cases found : g.freshStart? with
  | none =>
      have none := List.find?_eq_none.mp found free freeIsLetter
      exact absurd freeUnknown none
  | some z =>
      have zIsLetter := List.mem_of_find?_eq_some found
      have zUnknown : z.toString ∉ g.nonterminals := by
        have chosen := List.find?_some found
        simpa [isNonterminal] using chosen
      have upper := startLetters_upper z zIsLetter
      refine ⟨z, rfl, upper, fun p used => ⟨?_, ?_⟩⟩
      · intro named
        exact zUnknown (named ▸ recorded.head_mem p used)
      · intro inBody
        exact zUnknown (recorded.upper_mem p used z inBody upper)

/-- The augmented productions of a well-formed grammar: the start production with a fresh
letter, then the grammar's own. -/
theorem augment_eq_ok (recorded : g.Recorded) (wellFormed : g.WellFormed)
    {productions : List Production} (augmented : g.augment = .ok productions) :
    ∃ z first rest, g.productions = first :: rest ∧
      productions = ⟨z.toString, first.head.toList⟩ :: g.productions ∧
      Text.isUppercase z = true ∧ ∀ p ∈ g.productions, p.head ≠ z.toString ∧ z ∉ p.body := by
  obtain ⟨z, chosen, upper, unused⟩ := freshStart?_eq_some recorded wellFormed
  unfold augment at augmented
  rw [chosen] at augmented
  cases listed : g.productions with
  | nil =>
      rw [listed] at augmented
      simp at augmented
  | cons first rest =>
      rw [listed] at augmented
      simp only [List.head?_cons, Except.ok.injEq] at augmented
      exact ⟨z, first, rest, rfl, augmented.symm, upper, listed ▸ unused⟩

theorem lookup_map_getD {f : Char → Except Fault CharSet} (chars : List Char) (c : Char) :
    ((chars.map fun d => (d, f d)).lookup c).getD (f c) = f c := by
  induction chars with
  | nil => rfl
  | cons d rest ih =>
      simp only [List.map_cons, List.lookup_cons]
      split
      · rename_i same
        rw [beq_iff_eq.mp same]
        rfl
      · exact ih

/-- The table of FIRST sets answers every character as computing it afresh would. -/
theorem firstLookup_eq (c : Char) : g.firstLookup c = g.firstOfChar c := by
  simp only [firstLookup]
  exact lookup_map_getD _ c

/-- The item context of a well-formed grammar read from a text, with a start production
`z->S` in front for a capital letter `z`, is sound, whether or not the grammar uses `z`. -/
theorem sound_startContext (shape : g.ReadShape) (wellFormed : g.WellFormed) {z : Char}
    (upper : Text.isUppercase z = true) {first : Production} (listed : first ∈ g.productions) :
    (g.itemContext (⟨z.toString, first.head.toList⟩ :: g.productions)).Sound g.terminals where
  plain := by
    intro p member
    change p ∈ _ :: g.productions at member
    rw [List.mem_cons] at member
    rcases member with rfl | own
    · obtain ⟨X, upperX, named⟩ := wellFormed.head_upper first listed
      refine ⟨⟨z, not_dot_of_upper upper, not_space_of_upper upper, rfl⟩, ?_, ?_⟩
      · simp [named, Char.toString_eq_singleton, Ne.symm (not_dot_of_upper upperX)]
      · simp [named, Char.toString_eq_singleton, Ne.symm (not_space_of_upper upperX)]
    · obtain ⟨X, upperX, named⟩ := wellFormed.head_upper p own
      exact ⟨⟨X, not_dot_of_upper upperX, not_space_of_upper upperX, named⟩,
        (wellFormed.body_plain p own).1, shape.space_free p own⟩
  firstOf := by
    intro c s found d member
    change ({ g with productions := _ }).firstLookup c = .ok s at found
    rw [firstLookup_eq] at found
    exact firstLike_firstOfChar found d member

/-- The item context of a well-formed grammar read from a text is sound. -/
theorem sound_itemContext (shape : g.ReadShape) (wellFormed : g.WellFormed)
    {productions : List Production} (augmented : g.augment = .ok productions) :
    (g.itemContext productions).Sound g.terminals := by
  obtain ⟨z, first, rest, listed, rfl, upper, _⟩ :=
    augment_eq_ok shape.recorded wellFormed augmented
  exact sound_startContext shape wellFormed upper (listed ▸ List.mem_cons_self)

end Grammar

namespace ItemContext

variable {ctx : ItemContext} {symbols : List String}

/-- The pass of the walk over the symbols at a state `s` keeps the states it has in front and
adds only goto sets of `s`. -/
theorem symbolPass_extends {s : List Item} {states grown : Array (List Item)}
    (walked : symbols.foldlM (fun (states : Array (List Item)) x => do
      let t ← ctx.goto s x
      pure (if t.isEmpty || states.any (sameState · t) then states else states.push t))
      states = .ok grown) :
    states.toList <+: grown.toList ∧ ∀ t ∈ grown, t ∈ states ∨ ∃ x, ctx.goto s x = .ok t := by
  refine foldlM_invariant
    (fun acc => states.toList <+: acc.toList ∧ ∀ t ∈ acc, t ∈ states ∨ ∃ x, ctx.goto s x = .ok t)
    ⟨List.prefix_refl _, fun t member => .inl member⟩ ?_ walked
  intro acc x acc' held _ added
  obtain ⟨t, moved, kept⟩ := bind_eq_ok.mp added
  simp only [pure, Except.pure, Except.ok.injEq] at kept
  subst kept
  split
  · exact held
  · refine ⟨?_, ?_⟩
    · rw [Array.toList_push]
      exact held.1.trans (List.prefix_append _ _)
    · intro u member
      rcases Array.mem_push.mp member with old | rfl
      · exact held.2 u old
      · exact .inr ⟨x, moved⟩

/-- The walk over the states keeps the states it has and any property of item lists that
goto keeps. -/
theorem statesFrom_forall (P : List Item → Prop)
    (step : ∀ s x t, P s → ctx.goto s x = .ok t → P t) {fuel : Nat}
    {states found : Array (List Item)} {k : Nat} (start : ∀ s ∈ states, P s)
    (run : ctx.statesFrom symbols fuel states k = .ok found) :
    (∀ s ∈ found, P s) ∧ states.toList <+: found.toList := by
  induction fuel generalizing states k with
  | zero =>
      unfold statesFrom at run
      split at run
      · simp only [Except.ok.injEq] at run
        exact run ▸ ⟨start, List.prefix_refl _⟩
      · simp at run
  | succ fuel ih =>
      unfold statesFrom at run
      split at run
      · simp only [Except.ok.injEq] at run
        exact run ▸ ⟨start, List.prefix_refl _⟩
      · rename_i s found
        have holds : P s := start s (Array.mem_of_getElem? found)
        obtain ⟨grown, walked, run⟩ := bind_eq_ok.mp run
        obtain ⟨extended, added⟩ := symbolPass_extends walked
        have grownHolds : ∀ t ∈ grown, P t := fun t member =>
          (added t member).elim (start t) fun ⟨x, moved⟩ => step s x t holds moved
        obtain ⟨all, longer⟩ := ih grownHolds run
        exact ⟨all, extended.trans longer⟩

/-- The states of the automaton: the first is the closure of the start item, and a property
of the first state that goto keeps holds of them all. -/
theorem states_forall (P : List Item → Prop) (step : ∀ s x t, P s → ctx.goto s x = .ok t → P t)
    {start : Item} {found : List (List Item)} (built : ctx.states symbols start = .ok found) :
    ∃ first, ctx.closure [start] = .ok first ∧ found[0]? = some first ∧
      (P first → ∀ s ∈ found, P s) := by
  unfold states at built
  obtain ⟨first, closed, built⟩ := bind_eq_ok.mp built
  obtain ⟨walked, run, listed⟩ := bind_eq_ok.mp built
  simp only [pure, Except.pure, Except.ok.injEq] at listed
  subst listed
  refine ⟨first, closed, ?_, ?_⟩
  · have longer := (statesFrom_forall (fun _ => True) (fun _ _ _ _ _ => trivial)
      (fun _ _ => trivial) run).2
    obtain ⟨rest, extended⟩ := longer
    rw [← extended]
    rfl
  · intro holds
    have all := (statesFrom_forall P step (show ∀ s ∈ #[first], P s by simpa using holds) run).1
    intro s member
    exact all s (by simpa using member)

/-- Over a sound context, every item of every state is fit when the start item is. -/
theorem states_fit {terminals : List Char} (sound : ctx.Sound terminals) {start : Item}
    (startFit : ctx.Fit terminals start) {found : List (List Item)}
    (built : ctx.states symbols start = .ok found) :
    ∀ s ∈ found, ∀ it ∈ s, ctx.Fit terminals it := by
  obtain ⟨first, closed, _, spread⟩ :=
    ctx.states_forall (fun s => ∀ it ∈ s, ctx.Fit terminals it)
      (fun _ _ _ fit moved it member => (ctx.mem_goto sound fit moved it member).1) built
  have kernelFit : ∀ it ∈ [start], ctx.Fit terminals it := by
    intro it member
    rw [List.mem_singleton.mp member]
    exact startFit
  exact spread fun it member => (ctx.mem_closure sound kernelFit closed it member).1

/-! ## Every goto set is listed -/

@[simp] theorem sameState_self (s : List Item) : sameState s s = true := by
  unfold sameState
  simp only [beq_self_eq_true, Bool.true_and]
  induction s with
  | nil => rfl
  | cons a rest ih => simp [ih]

/-- Every goto set of `s` over the symbols is empty or equal to one of `states`. -/
def GotosListed (ctx : ItemContext) (symbols : List String) (states : List (List Item))
    (s : List Item) : Prop :=
  ∀ x ∈ symbols, ∃ t, ctx.goto s x = .ok t ∧ (t = [] ∨ ∃ u ∈ states, sameState u t = true)

theorem GotosListed.mono {states more : List (List Item)} {s : List Item}
    (listed : ctx.GotosListed symbols states s) (grown : states <+: more) :
    ctx.GotosListed symbols more s := by
  intro x member
  obtain ⟨t, moved, found⟩ := listed x member
  exact ⟨t, moved, found.imp id fun ⟨u, inStates, same⟩ => ⟨u, grown.subset inStates, same⟩⟩

theorem getElem?_of_grown {α : Type} {l more : List α} (grown : l <+: more) {i : Nat}
    (within : i < l.length) : more[i]? = l[i]? := by
  obtain ⟨rest, rfl⟩ := grown
  exact List.getElem?_append_left within

/-- Once the walk has passed the last state, every state has its goto sets listed. -/
theorem gotosListed_of_visited {states : Array (List Item)} {k : Nat} (past : states[k]? = none)
    (visited : ∀ i s, i < k → states.toList[i]? = some s →
      ctx.GotosListed symbols states.toList s) :
    ∀ s ∈ states.toList, ctx.GotosListed symbols states.toList s := by
  intro s member
  obtain ⟨i, atI⟩ := List.mem_iff_getElem?.mp member
  have within : i < states.size := by
    simpa using (List.getElem?_eq_some_iff.mp atI).1
  have sized : states.size ≤ k := Array.none_eq_getElem?_iff.mp past.symm
  exact visited i s (by omega) atI

/-- The pass of the walk over the symbols at a state `s` ends with every goto set of `s` empty
or equal to one of its states. -/
theorem symbolPass_listed {s : List Item} {states grown : Array (List Item)}
    (walked : symbols.foldlM (fun (states : Array (List Item)) x => do
      let t ← ctx.goto s x
      pure (if t.isEmpty || states.any (sameState · t) then states else states.push t))
      states = .ok grown) :
    ctx.GotosListed symbols grown.toList s := by
  intro x member
  refine foldlM_of_mem (fun acc : Array (List Item) => ∃ t, ctx.goto s x = .ok t ∧
    (t = [] ∨ ∃ u ∈ acc.toList, sameState u t = true)) member ?_ ?_ walked
  · intro acc acc' added
    obtain ⟨t, moved, kept⟩ := bind_eq_ok.mp added
    simp only [pure, Except.pure, Except.ok.injEq] at kept
    refine ⟨t, moved, ?_⟩
    subst kept
    split
    · rename_i known
      rcases Bool.or_eq_true_iff.mp known with empty | same
      · exact .inl (List.isEmpty_iff.mp empty)
      · obtain ⟨u, inAcc, same⟩ := Array.any_eq_true'.mp same
        exact .inr ⟨u, Array.mem_toList_iff.mpr inAcc, same⟩
    · exact .inr ⟨t, by simp, sameState_self t⟩
  · intro acc y acc' ⟨t, moved, found⟩ added
    obtain ⟨t', _, kept⟩ := bind_eq_ok.mp added
    simp only [pure, Except.pure, Except.ok.injEq] at kept
    refine ⟨t, moved, found.imp id fun ⟨u, inAcc, same⟩ => ⟨u, ?_, same⟩⟩
    subst kept
    split
    · exact inAcc
    · simp [inAcc]

/-- The walk over the states lists every goto set of every state it visits. -/
theorem statesFrom_closed {fuel : Nat} {states found : Array (List Item)} {k : Nat}
    (visited : ∀ i s, i < k → states.toList[i]? = some s →
      ctx.GotosListed symbols states.toList s)
    (run : ctx.statesFrom symbols fuel states k = .ok found) :
    ∀ s ∈ found.toList, ctx.GotosListed symbols found.toList s := by
  induction fuel generalizing states k with
  | zero =>
      unfold statesFrom at run
      split at run
      · rename_i past
        simp only [Except.ok.injEq] at run
        exact run ▸ gotosListed_of_visited past visited
      · simp at run
  | succ fuel ih =>
      unfold statesFrom at run
      split at run
      · rename_i past
        simp only [Except.ok.injEq] at run
        exact run ▸ gotosListed_of_visited past visited
      · rename_i s atK
        obtain ⟨grown, walked, run⟩ := bind_eq_ok.mp run
        have extended := (symbolPass_extends walked).1
        have listsS := symbolPass_listed walked
        have within : k < states.toList.length := by
          simpa using (Array.getElem?_eq_some_iff.mp atK).1
        apply ih _ run
        intro i u below atI
        rcases Nat.lt_succ_iff_lt_or_eq.mp below with earlier | rfl
        · have atStates : states.toList[i]? = some u := by
            rw [← getElem?_of_grown extended (by omega)]
            exact atI
          exact (visited i u earlier atStates).mono extended
        · have same : u = s := by
            rw [getElem?_of_grown extended within, Array.getElem?_toList, atK] at atI
            exact (Option.some.inj atI).symm
          exact same ▸ listsS

/-- Every goto set of a state of the automaton, over the walk's symbols, is empty or equal to
one of its states. -/
theorem states_closed {start : Item} {found : List (List Item)}
    (built : ctx.states symbols start = .ok found) :
    ∀ s ∈ found, ctx.GotosListed symbols found s := by
  unfold states at built
  obtain ⟨first, _, built⟩ := bind_eq_ok.mp built
  obtain ⟨walked, run, listed⟩ := bind_eq_ok.mp built
  simp only [pure, Except.pure, Except.ok.injEq] at listed
  subst listed
  exact statesFrom_closed (fun i _ below _ => absurd below (Nat.not_lt_zero i)) run

/-! ## No state is listed twice -/

/-- The pass of the walk over the symbols at a state keeps a property of the list of states
that every push of a goto set keeps, when no state already listed equals it by `sameState`. -/
theorem symbolPass_invariant (P : Array (List Item) → Prop)
    (push : ∀ states t, P states → (∀ u ∈ states, sameState u t = false) → P (states.push t))
    {s : List Item} {states grown : Array (List Item)} (holds : P states)
    (walked : symbols.foldlM (fun (states : Array (List Item)) x => do
      let t ← ctx.goto s x
      pure (if t.isEmpty || states.any (sameState · t) then states else states.push t))
      states = .ok grown) :
    P grown := by
  refine foldlM_invariant P holds ?_ walked
  intro acc x acc' held _ added
  obtain ⟨t, _, kept⟩ := bind_eq_ok.mp added
  simp only [pure, Except.pure, Except.ok.injEq] at kept
  subst kept
  split
  · exact held
  · rename_i fresh
    simp only [Bool.or_eq_true, not_or, Bool.not_eq_true, Array.any_eq_false'] at fresh
    exact push acc t held fun u member => by simpa using fresh.2 u member

/-- The walk over the states keeps a property of the list of states that every push of a goto
set equal by `sameState` to no listed state keeps. -/
theorem statesFrom_invariant (P : Array (List Item) → Prop)
    (push : ∀ states t, P states → (∀ u ∈ states, sameState u t = false) → P (states.push t))
    {fuel : Nat} {states found : Array (List Item)} {k : Nat} (holds : P states)
    (run : ctx.statesFrom symbols fuel states k = .ok found) : P found := by
  induction fuel generalizing states k with
  | zero =>
      unfold statesFrom at run
      split at run
      · simp only [Except.ok.injEq] at run
        exact run ▸ holds
      · simp at run
  | succ fuel ih =>
      unfold statesFrom at run
      split at run
      · simp only [Except.ok.injEq] at run
        exact run ▸ holds
      · obtain ⟨grown, walked, run⟩ := bind_eq_ok.mp run
        exact ih (symbolPass_invariant P push holds walked) run

/-- Pushing a state equal by `sameState` to no listed state keeps the list of states free of
such pairs. -/
theorem pairwise_push_of_fresh {states : Array (List Item)} {t : List Item}
    (apart : states.toList.Pairwise fun u t => sameState u t = false)
    (fresh : ∀ u ∈ states, sameState u t = false) :
    (states.push t).toList.Pairwise fun u t => sameState u t = false := by
  rw [Array.toList_push, List.pairwise_append]
  refine ⟨apart, List.pairwise_singleton _ t, fun u member t' isT => ?_⟩
  rw [List.mem_singleton.mp isT]
  exact fresh u (Array.mem_toList_iff.mp member)

/-- No state of the automaton equals, by `sameState`, a state listed after it. -/
theorem states_pairwise {start : Item} {found : List (List Item)}
    (built : ctx.states symbols start = .ok found) :
    found.Pairwise fun u t => sameState u t = false := by
  unfold states at built
  obtain ⟨first, _, built⟩ := bind_eq_ok.mp built
  obtain ⟨walked, run, listed⟩ := bind_eq_ok.mp built
  simp only [pure, Except.pure, Except.ok.injEq] at listed
  subst listed
  exact statesFrom_invariant (fun states => states.toList.Pairwise fun u t => sameState u t = false)
    (fun _ _ apart fresh => pairwise_push_of_fresh apart fresh) (by simp) run

end ItemContext

/-- As sets of LR(1) items, the states are not closed under goto. In the grammar `S->xAc`,
`S->xBd`, `S->yBc`, `S->yAd`, `A->N`, `B->N`, `N->a` the state reached over `y` holds `B->.N`
with the lookahead `c`, so its goto set over `N` holds `B->N.` with `c`; yet no state holds
that item. The walk took that goto set, `B->N.` with `c` and `A->N.` with `d`, for the state
reached over `x` and `N`, which holds `A->N.` with `c` and `B->N.` with `d`: the same written
forms once sorted, and the same lookahead sets position by position. -/
theorem states_miss_goto_item :
    ∃ g a, Grammar.ofText "S->xAc\nS->xBd\nS->yBc\nS->yAd\nA->N\nB->N\nN->a" = .ok g ∧
      g.WellFormed ∧ (∀ A, ¬ g.LeftRecursive A) ∧ LrAnalysis.ofGrammar g = .ok a ∧
      (∃ s ∈ a.states, ∃ it ∈ s, it.head = "B" ∧ it.body = ['N'] ∧ it.dot = 0 ∧
        'c' ∈ it.lookahead) ∧
      ∀ s ∈ a.states, ∀ it ∈ s, it.head = "B" → it.body = ['N'] → it.dot = 1 →
        'c' ∉ it.lookahead := by
  have listed : (Grammar.ofText "S->xAc\nS->xBd\nS->yBc\nS->yAd\nA->N\nB->N\nN->a").toOption.map
      Grammar.productions = some [⟨"S", ['x', 'A', 'c']⟩, ⟨"S", ['x', 'B', 'd']⟩,
        ⟨"S", ['y', 'B', 'c']⟩, ⟨"S", ['y', 'A', 'd']⟩, ⟨"A", ['N']⟩, ⟨"B", ['N']⟩,
        ⟨"N", ['a']⟩] := by
    decide +kernel
  have analyzed : ((Grammar.ofText "S->xAc\nS->xBd\nS->yBc\nS->yAd\nA->N\nB->N\nN->a").toOption.bind
      fun g => (LrAnalysis.ofGrammar g).toOption.map fun a =>
        (a.states.any fun s => s.any fun it =>
          it.head == "B" && it.body == ['N'] && it.dot == 0 && it.lookahead.contains 'c') &&
        (a.states.all fun s => s.all fun it =>
          !(it.head == "B" && it.body == ['N'] && it.dot == 1 && it.lookahead.contains 'c'))) =
      some true := by
    decide +kernel
  obtain ⟨g, read, productions⟩ := Option.map_eq_some_iff.mp listed
  obtain ⟨g', read', found⟩ := Option.bind_eq_some_iff.mp analyzed
  rw [read, Option.some.injEq] at read'
  subst read'
  obtain ⟨a, built, checked⟩ := Option.map_eq_some_iff.mp found
  obtain ⟨held, missed⟩ := Bool.and_eq_true_iff.mp checked
  have wellFormed := Grammar.wellFormed_of_plain 'Z' (by decide) (by rw [productions]; decide)
  have ranks : g.RanksLeftCorners (fun _ => false)
      (fun A => if A = "A" ∨ A = "B" then 2 else if A = "N" then 1 else 0) := by
    refine ⟨fun p member vanish => ?_, fun p member => ?_⟩
    · have nonEmpty : g.productions.all (fun p => !p.form.isEmpty) = true := by
        rw [productions]
        decide
      have bodyNonEmpty := List.all_eq_true.mp nonEmpty p member
      cases form : p.form with
      | nil => simp [form] at bodyNonEmpty
      | cons x rest => simp [form] at vanish
    · have checked : g.productions.all (fun p => Grammar.leadingBelow (fun _ => false)
          (fun A => if A = "A" ∨ A = "B" then 2 else if A = "N" then 1 else 0)
          (if p.head = "A" ∨ p.head = "B" then 2 else if p.head = "N" then 1 else 0)
          p.form) = true := by
        rw [productions]
        decide
      exact List.all_eq_true.mp checked p member
  refine ⟨g, a, toOption_eq_some.mp read, wellFormed, ranks.not_leftRecursive,
    toOption_eq_some.mp built, ?_, ?_⟩
  · obtain ⟨s, member, holding⟩ := List.any_eq_true.mp held
    obtain ⟨it, inState, named⟩ := List.any_eq_true.mp holding
    simp only [Bool.and_eq_true, beq_iff_eq, CharSet.contains_iff] at named
    exact ⟨s, member, it, inState, named.1.1.1, named.1.1.2, named.1.2, named.2⟩
  · intro s member it inState head body dot inLookahead
    have none := List.all_eq_true.mp (List.all_eq_true.mp missed s member) it inState
    simp [head, body, dot, CharSet.contains_iff.mpr inLookahead] at none

end GrammarBench
