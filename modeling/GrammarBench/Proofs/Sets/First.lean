import GrammarBench.Proofs.Sets.BodyFirst

/-!
# FIRST sets

The FIRST set of a nonterminal is computed afresh each time it is asked for
(`Grammar.firstWithin`), each FIRST set asked for inside it one level deeper, with the names
being computed kept on a path. Over a well-formed grammar without left recursion the computed
sets, with any room for nesting, are the reference FIRST sets of `Grammar.FirstRef`
(`firstWithin_eq_reference`):

* every member of a computed set is a terminal that the nonterminal leads with, or the empty
  mark of a nullable nonterminal (`firstWithin_sound`, by induction on the room left);
* every terminal that a nonterminal leads with, and the empty mark of a nullable one, is in its
  computed set (`mem_firstWithin_of_leads`, `emptyMark_mem_firstWithin`, by induction on the
  reference relations, for every room and path);
* the computation succeeds when the grammar has fewer nonterminals than the nesting room
  (`exists_firstWithin_eq_ok`): each name on the path has the next one as a left corner, so
  without left recursion no name comes twice and the path never outgrows the nonterminals.

Main statement: `firstSets_eq_reference`. With left recursion the pass-over of the head in its
own bodies lets in what follows it (`firstSets_overshoots_left_recursion`).
-/

namespace GrammarBench

namespace Grammar

variable {g : Grammar}

/-! ## One level of the computation -/

@[simp] theorem firstWithin_zero (path : List String) (name : String) :
    g.firstWithin 0 path name = .error .recursionTooDeep := rfl

theorem firstWithin_succ_of_nonterminal {fuel : Nat} {path : List String} {name : String}
    (notTerminal : g.isTerminalName name = false) (fresh : name ∉ path) :
    g.firstWithin (fuel + 1) path name =
      g.firstFrame name fun y => g.firstWithin fuel (name :: path) y.toString := by
  simp [firstWithin, notTerminal, fresh]

theorem firstWithin_succ_eq_ok {fuel : Nat} {path : List String} {name : String}
    {result : CharSet} (notTerminal : g.isTerminalName name = false)
    (read : g.firstWithin (fuel + 1) path name = .ok result) :
    name ∉ path ∧
      g.firstFrame name (fun y => g.firstWithin fuel (name :: path) y.toString) = .ok result := by
  unfold firstWithin at read
  rw [if_neg (by simp [notTerminal])] at read
  split at read
  · simp at read
  · rename_i fresh
    exact ⟨by simpa using fresh, read⟩

/-- A terminal's FIRST set is the terminal itself. -/
theorem firstWithin_terminal {c : Char} (terminal : c ∈ g.terminals) (fuel : Nat)
    (path : List String) : g.firstWithin (fuel + 1) path c.toString = .ok (CharSet.ofList [c]) := by
  unfold firstWithin
  rw [if_pos (isTerminalName_of_mem terminal)]
  simp

theorem firstWithin_terminal_eq_ok {c : Char} (terminal : c ∈ g.terminals) {fuel : Nat}
    {path : List String} {t : CharSet} (read : g.firstWithin fuel path c.toString = .ok t) :
    t = CharSet.ofList [c] := by
  cases fuel with
  | zero => simp at read
  | succ fuel =>
      rw [firstWithin_terminal terminal] at read
      exact (Except.ok.inj read).symm

/-- A path of distinct nonterminals is shorter than the list of all of them. -/
theorem length_lt_of_path {A : String} {path : List String} (distinct : (A :: path).Nodup)
    (listed : ∀ B ∈ A :: path, B ∈ g.nonterminals) : path.length < g.nonterminals.length := by
  have fits := List.Nodup.length_le_of_subset distinct listed
  simp only [List.length_cons] at fits
  omega

section Reference

variable (recorded : g.Recorded) (wellFormed : g.WellFormed) (noLeft : ∀ A, ¬ g.LeftRecursive A)

/-! ## Soundness -/

include recorded wellFormed in
/-- The FIRST set of a body character is sound when those of the nonterminals are. -/
theorem FirstSound.of_body {p : Production} (member : p ∈ g.productions) {y : Char}
    (inBody : y ∈ p.body) {fuel : Nat} {path : List String} {t : CharSet}
    (nonterminals : ∀ A ∈ g.nonterminals, ∀ t, g.firstWithin fuel path A = .ok t →
      g.FirstSound (.nonterminal A) t)
    (read : g.firstWithin fuel path y.toString = .ok t) : g.FirstSound (bodySymbol y) t := by
  cases upper : Text.isUppercase y with
  | true =>
      rw [bodySymbol_of_upper upper]
      exact nonterminals _ (recorded.upper_mem p member y inBody upper) t read
  | false =>
      have terminal := recorded.lower_mem p member y inBody upper
      rw [bodySymbol_of_not_upper upper, firstWithin_terminal_eq_ok terminal read]
      intro c inSet
      rw [CharSet.mem_ofList, List.mem_singleton] at inSet
      subst inSet
      exact .inl ⟨fun same => emptyMark_not_mem_terminals recorded wellFormed (same ▸ terminal),
        .terminal c⟩

include recorded wellFormed noLeft

/-- Every member of a computed FIRST set is a terminal that the nonterminal leads with, or the
empty mark of a nullable nonterminal. -/
theorem firstWithin_sound {fuel : Nat} :
    ∀ {path : List String} {A : String} {result : CharSet}, A ∈ g.nonterminals →
      g.firstWithin fuel path A = .ok result → g.FirstSound (.nonterminal A) result := by
  induction fuel with
  | zero => intro _ _ _ _ read; simp at read
  | succ fuel ih =>
      intro path A result named read
      obtain ⟨_, frame⟩ :=
        firstWithin_succ_eq_ok (isTerminalName_nonterminal recorded wellFormed named) read
      refine firstFrame_sound wellFormed noLeft ?_ frame
      intro p member _ y inBody t found
      exact FirstSound.of_body recorded wellFormed member inBody (fun _ named' _ => ih named')
        found

/-! ## Completeness -/

/-- The FIRST set of a nullable symbol holds the empty mark, whenever it is computed. -/
theorem emptyMark_mem_firstWithin {x : Symbol Char String} (nullable : g.Nullable x) :
    ∀ {fuel : Nat} {path : List String} {t : CharSet},
      g.firstWithin fuel path (symbolName x) = .ok t → emptyMark ∈ t := by
  induction nullable with
  | @rule p member vanish ih =>
      intro fuel path t read
      cases fuel with
      | zero => simp at read
      | succ fuel =>
          obtain ⟨_, frame⟩ := firstWithin_succ_eq_ok
            (isTerminalName_nonterminal recorded wellFormed (recorded.head_mem p member)) read
          refine mem_firstFrame member rfl ?_ frame
          intro acc r step
          split at step
          · obtain ⟨_, rfl⟩ := own_eq_ok step
            exact CharSet.mem_union.mpr (.inr (CharSet.mem_single.mpr rfl))
          · rename_i nonempty
            have vanishBody : ∀ z ∈ p.body, g.Nullable (bodySymbol z) :=
              fun z inBody => vanish _ (List.mem_map_of_mem inBody)
            refine emptyMark_mem_bodyFirst wellFormed noLeft member vanishBody ?_ [] rfl
              (by simpa using nonempty) step
            intro z inBody t' found
            exact ih _ (List.mem_map_of_mem inBody) (by rwa [symbolName_bodySymbol])

/-- A terminal that a symbol of the grammar leads with is in its FIRST set, whenever it is
computed. -/
theorem mem_firstWithin_of_leads {x : Symbol Char String} {a : Char} (leads : g.Leads x a)
    (known : ∀ c, x = .terminal c → c ∈ g.terminals) :
    ∀ {fuel : Nat} {path : List String} {t : CharSet},
      g.firstWithin fuel path (symbolName x) = .ok t → a ∈ t := by
  induction leads with
  | terminal a =>
      intro fuel path t read
      rw [firstWithin_terminal_eq_ok (known a rfl) read]
      exact CharSet.mem_ofList.mpr List.mem_cons_self
  | @rule p before after y a member split vanish leadsY ih =>
      intro fuel path t read
      obtain ⟨leading, rest, body, mapped, restMapped⟩ :=
        List.map_eq_append_iff.mp (split : p.body.map bodySymbol = before ++ y :: after)
      obtain ⟨yc, others, rfl, rfl, _⟩ := List.map_eq_cons_iff.mp restMapped
      have vanishLeading : ∀ z ∈ leading, g.Nullable (bodySymbol z) :=
        fun z inLeading => vanish _ (mapped ▸ List.mem_map_of_mem inLeading)
      have known : ∀ c, bodySymbol yc = .terminal c → c ∈ g.terminals := by
        intro c isTerminal
        obtain ⟨rfl, lower⟩ := eq_of_bodySymbol_eq_terminal isTerminal
        exact recorded.lower_mem p member _ (by simp [body]) lower
      have notEmpty : a ≠ emptyMark := fun same =>
        emptyMark_not_mem_terminals recorded wellFormed (same ▸ leadsY.mem_terminals recorded known)
      cases fuel with
      | zero => simp at read
      | succ fuel =>
          obtain ⟨_, frame⟩ := firstWithin_succ_eq_ok
            (isTerminalName_nonterminal recorded wellFormed (recorded.head_mem p member)) read
          refine mem_firstFrame member rfl ?_ frame
          intro acc r step
          rw [if_neg (by simp [body]), body] at step
          refine mem_bodyFirst wellFormed noLeft member notEmpty ?_ [] (by simp [body])
            (by simpa using vanishLeading) ?_ step
          · intro t' found
            exact ih known (by rwa [symbolName_bodySymbol])
          · intro z inLeading t' found
            exact emptyMark_mem_firstWithin recorded wellFormed noLeft (vanishLeading z inLeading)
              (by rwa [symbolName_bodySymbol])

/-- A FIRST set computed with any room left and any names on the path is the reference FIRST
set. -/
theorem firstWithin_eq_reference {fuel : Nat} {path : List String} {A : String} {s : CharSet}
    (named : A ∈ g.nonterminals) (found : g.firstWithin fuel path A = .ok s) (c : Char) :
    c ∈ s ↔ g.FirstRef (.nonterminal A) c := by
  rw [firstRef_iff]
  constructor
  · intro member
    rcases firstWithin_sound recorded wellFormed noLeft named found c member with
      ⟨_, leads⟩ | ⟨same, nullable⟩
    · exact .inl leads
    · exact .inr ⟨same, nullable⟩
  · rintro (leads | ⟨rfl, nullable⟩)
    · exact mem_firstWithin_of_leads recorded wellFormed noLeft leads
        (fun _ isTerminal => nomatch isTerminal) found
    · exact emptyMark_mem_firstWithin recorded wellFormed noLeft nullable found

/-! ## Termination -/

/-- The FIRST set of a nonterminal is computed when the path below it is a chain of distinct
nonterminals, each with it as a left corner, and the room left covers the nonterminals not
yet on the path. -/
theorem exists_firstWithin_eq_ok {fuel : Nat} :
    ∀ {path : List String} {A : String}, (A :: path).Nodup →
      (∀ B ∈ A :: path, B ∈ g.nonterminals) → (∀ B ∈ path, g.LeftCorner B (.nonterminal A)) →
      g.nonterminals.length < fuel + path.length → ∃ t, g.firstWithin fuel path A = .ok t := by
  induction fuel with
  | zero =>
      intro path A distinct listed _ room
      have fits := length_lt_of_path distinct listed
      omega
  | succ fuel ih =>
      intro path A distinct listed corners room
      have fits := length_lt_of_path distinct listed
      have named := isNonterminal_iff.mpr (listed A List.mem_cons_self)
      rw [firstWithin_succ_of_nonterminal
        (isTerminalName_nonterminal recorded wellFormed (listed A List.mem_cons_self))
        (List.nodup_cons.mp distinct).1]
      refine exists_firstFrame_eq_ok named ?_
      rintro p member rfl _ acc
      refine exists_bodyFirst_eq_ok wellFormed noLeft member named ?_ ?_ [] acc rfl (by simp)
      · intro y inBody t found
        exact FirstSound.of_body recorded wellFormed member inBody
          (fun _ named' _ => firstWithin_sound recorded wellFormed noLeft named') found
      · intro seen y rest split vanish
        have inBody : y ∈ p.body := by simp [split]
        have corner :=
          leftCorner_of_split member (form_of_body split) (List.forall_mem_map.mpr vanish)
        cases upper : Text.isUppercase y with
        | false =>
            obtain ⟨left, rfl⟩ : ∃ left, fuel = left + 1 := ⟨fuel - 1, by omega⟩
            exact ⟨_, firstWithin_terminal (recorded.lower_mem p member y inBody upper) left _⟩
        | true =>
            rw [bodySymbol_of_upper upper] at corner
            have fresh : y.toString ∉ p.head :: path := by
              intro onPath
              rcases List.mem_cons.mp onPath with same | earlier
              · exact noLeft p.head (same ▸ corner)
              · exact noLeft _ ((corners _ earlier).trans corner)
            refine ih (List.nodup_cons.mpr ⟨fresh, distinct⟩) ?_ ?_ (by simp; omega)
            · intro B onPath
              rcases List.mem_cons.mp onPath with rfl | below
              · exact recorded.upper_mem p member y inBody upper
              · exact listed B below
            · intro B onPath
              rcases List.mem_cons.mp onPath with rfl | earlier
              · exact corner
              · exact (corners B earlier).trans corner

theorem exists_first_eq_ok {A : String} (named : A ∈ g.nonterminals)
    (fits : g.nonterminals.length < firstDepthLimit) : ∃ t, g.first A = .ok t :=
  exists_firstWithin_eq_ok recorded wellFormed noLeft (List.nodup_singleton A)
    (by simpa using named) (by simp) (by simpa using fits)

end Reference

/-! ## The FIRST sets of all nonterminals -/

theorem keptFirst_of_nonterminal {A : String} (notTerminal : g.isTerminalName A = false) :
    g.keptFirst A = g.first A := by
  simp [keptFirst, notTerminal]

/-- The FIRST sets list every nonterminal once, in order, each with its kept FIRST set. -/
theorem firstSets_eq_ok {sets : List (String × CharSet)} (computed : g.firstSets = .ok sets) :
    sets.map Prod.fst = g.nonterminals ∧ ∀ A s, (A, s) ∈ sets → g.keptFirst A = .ok s := by
  have paired := mapM_forall₂ computed
  clear computed
  generalize g.nonterminals = names at paired ⊢
  induction paired with
  | nil => simp
  | @cons A entry names rest found _ ih =>
      obtain ⟨s, kept, listed⟩ := bind_eq_ok.mp found
      obtain rfl : (A, s) = entry := Except.ok.inj listed
      obtain ⟨namesListed, entries⟩ := ih
      refine ⟨by simp [namesListed], ?_⟩
      intro B s' member
      rcases List.mem_cons.mp member with same | later
      · obtain ⟨rfl, rfl⟩ := Prod.mk.inj same
        exact kept
      · exact entries B s' later

/-- Each entry of the FIRST sets of a recorded well-formed grammar is the FIRST set of a
nonterminal. -/
theorem first_of_mem_firstSets (recorded : g.Recorded) (wellFormed : g.WellFormed)
    {sets : List (String × CharSet)} (computed : g.firstSets = .ok sets) {A : String}
    {s : CharSet} (entry : (A, s) ∈ sets) : A ∈ g.nonterminals ∧ g.first A = .ok s := by
  obtain ⟨names, entries⟩ := firstSets_eq_ok computed
  have named : A ∈ g.nonterminals := names ▸ List.mem_map.mpr ⟨(A, s), entry, rfl⟩
  refine ⟨named, ?_⟩
  rw [← keptFirst_of_nonterminal (isTerminalName_nonterminal recorded wellFormed named)]
  exact entries A s entry

/-- Every kept FIRST set has a property that the computation of FIRST sets keeps. -/
theorem firstSets_invariant {P : CharSet → Prop} (inv : g.FirstInvariant P)
    {sets : List (String × CharSet)} (computed : g.firstSets = .ok sets) :
    ∀ entry ∈ sets, P entry.2 := by
  rintro ⟨A, s⟩ member
  have kept := (firstSets_eq_ok computed).2 A s member
  unfold keptFirst at kept
  obtain ⟨t, found, stored⟩ := bind_eq_ok.mp kept
  simp only [pure, Except.pure, Except.ok.injEq] at stored
  subst stored
  split
  · exact inv.empty
  · exact inv.firstWithin found

/-- Over a well-formed grammar without left recursion, the FIRST sets of all nonterminals are
computed when there are fewer nonterminals than the nesting room, and every computed set is
the reference FIRST set: the terminals that start a form the nonterminal derives, and the
empty mark when it derives the empty text. The second half holds for every room, not only for
`firstDepthLimit`: a FIRST set computed with any room is the reference set. -/
theorem firstSets_eq_reference {text : String} {g : Grammar} (read : Grammar.ofText text = .ok g)
    (wellFormed : g.WellFormed) (noLeft : ∀ A, ¬ g.LeftRecursive A) :
    (g.nonterminals.length < firstDepthLimit → ∃ sets, g.firstSets = .ok sets) ∧
    (∀ sets, g.firstSets = .ok sets → sets.map Prod.fst = g.nonterminals ∧
      ∀ A s, (A, s) ∈ sets → ∀ c, c ∈ s ↔ g.FirstRef (.nonterminal A) c) ∧
    ∀ fuel path A s, A ∈ g.nonterminals → g.firstWithin fuel path A = .ok s →
      ∀ c, c ∈ s ↔ g.FirstRef (.nonterminal A) c := by
  have recorded := (readShape_ofText read).recorded
  refine ⟨fun fits => exists_mapM_eq_ok fun A named => ?_, fun sets computed => ?_,
    fun _ _ _ _ named found => firstWithin_eq_reference recorded wellFormed noLeft named found⟩
  · obtain ⟨t, found⟩ := exists_first_eq_ok recorded wellFormed noLeft named fits
    refine ⟨(A, t), ?_⟩
    rw [keptFirst_of_nonterminal (isTerminalName_nonterminal recorded wellFormed named), found]
    rfl
  · refine ⟨(firstSets_eq_ok computed).1, fun A s entry => ?_⟩
    obtain ⟨named, found⟩ := first_of_mem_firstSets recorded wellFormed computed entry
    exact firstWithin_eq_reference recorded wellFormed noLeft named found

/-- The expression grammar `E->TR`, `R->+TR`, `R->`, `T->(E)`, `T->i` is well formed and has no
left recursion: `E` ranks above `T`, and `T` above `R`. -/
theorem firstSets_eq_reference_expressions :
    ∃ g, Grammar.ofText "E->TR\nR->+TR\nR->\nT->(E)\nT->i" = .ok g ∧ g.WellFormed ∧
      (∀ A, ¬ g.LeftRecursive A) ∧
      (g.nonterminals.length < firstDepthLimit → ∃ sets, g.firstSets = .ok sets) ∧
      (∀ sets, g.firstSets = .ok sets → sets.map Prod.fst = g.nonterminals ∧
        ∀ A s, (A, s) ∈ sets → ∀ c, c ∈ s ↔ g.FirstRef (.nonterminal A) c) ∧
      ∀ fuel path A s, A ∈ g.nonterminals → g.firstWithin fuel path A = .ok s →
        ∀ c, c ∈ s ↔ g.FirstRef (.nonterminal A) c := by
  have listed : (Grammar.ofText "E->TR\nR->+TR\nR->\nT->(E)\nT->i").toOption.map
      Grammar.productions = some [⟨"E", ['T', 'R']⟩, ⟨"R", ['+', 'T', 'R']⟩, ⟨"R", []⟩,
        ⟨"T", ['(', 'E', ')']⟩, ⟨"T", ['i']⟩] := by
    decide +kernel
  obtain ⟨g, read, productions⟩ := Option.map_eq_some_iff.mp listed
  have read := toOption_eq_some.mp read
  have wellFormed := wellFormed_of_plain 'A' (by decide) (by rw [productions]; decide)
  have ranks : g.RanksLeftCorners isNonterminalSymbol
      (fun A => if A = "E" then 2 else if A = "T" then 1 else 0) := by
    refine ⟨fun _ _ _ => rfl, fun p member => ?_⟩
    have checked : g.productions.all (fun p => leadingBelow isNonterminalSymbol
        (fun A => if A = "E" then 2 else if A = "T" then 1 else 0)
        (if p.head = "E" then 2 else if p.head = "T" then 1 else 0) p.form) = true := by
      rw [productions]
      decide
    exact List.all_eq_true.mp checked p member
  exact ⟨g, read, wellFormed, ranks.not_leftRecursive,
    firstSets_eq_reference read wellFormed ranks.not_leftRecursive⟩

/-- With left recursion the FIRST set overshoots. In `S->Sb`, `S->c` the `S` that starts
`S->Sb` is passed over, so `b` is read as a first symbol, while every form that `S` derives
starts with `S` or `c`. -/
theorem firstSets_overshoots_left_recursion :
    ∃ g, Grammar.ofText "S->Sb\nS->c" = .ok g ∧ g.WellFormed ∧
      g.firstSets = .ok [("S", CharSet.ofList ['b', 'c'])] ∧
      ¬ g.FirstRef (.nonterminal "S") 'b' := by
  have computed : (Grammar.ofText "S->Sb\nS->c").toOption.bind (fun g =>
      g.firstSets.toOption.map fun sets => (g.productions, sets)) =
      some ([⟨"S", ['S', 'b']⟩, ⟨"S", ['c']⟩], [("S", CharSet.ofList ['b', 'c'])]) := by
    decide +kernel
  obtain ⟨g, read, found⟩ := Option.bind_eq_some_iff.mp computed
  obtain ⟨sets, computedSets, listed⟩ := Option.map_eq_some_iff.mp found
  obtain ⟨productions, rfl⟩ : _ ∧ _ := by
    simpa only [Prod.mk.injEq] using listed
  have forms : g.productions.map Production.form =
      [[.nonterminal "S", .terminal 'b'], [.terminal 'c']] := by
    rw [productions]
    decide
  have leading : ∀ v, g.cfg.Derives [.nonterminal "S"] v → v.head? ≠ some (.terminal 'b') := by
    intro v derivation
    refine invariant_of_derives (fun u => u.head? ≠ some (.terminal 'b')) ?_ derivation
      (fun starts => by cases starts)
    intro p member before after holds
    cases before with
    | cons x others => simpa using holds
    | nil =>
        have form : p.form ∈ g.productions.map Production.form := List.mem_map_of_mem member
        rw [forms] at form
        simp only [List.mem_cons, List.not_mem_nil, or_false] at form
        rcases form with form | form <;> simp [form]
  refine ⟨g, toOption_eq_some.mp read,
    wellFormed_of_plain 'A' (by decide) (by rw [productions]; decide),
    toOption_eq_some.mp computedSets, ?_⟩
  rintro (⟨γ, derivation⟩ | ⟨isEmpty, _⟩)
  · exact leading _ derivation rfl
  · exact absurd isEmpty (by decide)

end Grammar

end GrammarBench
