import Mathlib.Data.List.Sort
import GrammarBench.Grammar.FirstStore
import GrammarBench.Proofs.Lr.ItemSetsEnd

/-!
# Kept FIRST sets do not depend on earlier computations

A FIRST computation over the kept sets (`Grammar.firstInto`) adds to the set each nonterminal
keeps and answers with that set as it stands, so its answer could depend on what earlier
computations left there. It does not: on every kept sets that FIRST computations can lead to,
in any number and order and also over the augmented productions (`Grammar.Reached`), it fails
with the same fault as the computation afresh (`Grammar.first`) or answers with the same set,
leaves that set kept by the nonterminal, and no later computation changes it
(`firstInto_ignores_earlier_calls`).

The argument is an induction on the nesting room, over kept sets that hold members of their
nonterminal's FIRST set only (`Grammar.KeepsSound`). A computation leaves every kept set as it
was or sets it to the FIRST set of its nonterminal (`Grammar.Settles`). The names being
computed, on the path, are never set, since asking again for one of them fails; so within the
computation of the FIRST set of `A`, what `A` keeps grows by exactly what the computation afresh
collects (`Grammar.Tracks`), the whole FIRST set of `A`, and what `A` kept before is part of
it. A FIRST set computed afresh is the same with more room and fewer names on the path
(`firstWithin_of_le`), so every nested answer is the FIRST set of its name.

Computing the FIRST sets of all nonterminals in order over the kept sets, from nothing kept,
therefore leaves each of them keeping its entry of `Grammar.firstSets`
(`firstIntoEach_keeps_firstSets`).
-/

namespace GrammarBench

/-! ## Runs that agree -/

section Runs

variable {ε α β γ δ : Type}

/-- Two runs agree when they fail with the same fault or both succeed with related values. -/
inductive Agree (R : α → β → Prop) : Except ε α → Except ε β → Prop
  | error (fault : ε) : Agree R (.error fault) (.error fault)
  | ok {a : α} {b : β} : R a b → Agree R (.ok a) (.ok b)

theorem Agree.mono {R S : α → β → Prop} {x : Except ε α} {y : Except ε β} (agree : Agree R x y)
    (weaker : ∀ a b, R a b → S a b) : Agree S x y := by
  cases agree with
  | error fault => exact .error fault
  | ok related => exact .ok (weaker _ _ related)

/-- Runs that agree, each continued by runs that agree from related values, agree. The
continuation may use the value the first run succeeded with. -/
theorem Agree.bind {R : α → β → Prop} {S : γ → δ → Prop} {x : Except ε α} {y : Except ε β}
    {f : α → Except ε γ} {k : β → Except ε δ} (first : Agree R x y)
    (rest : ∀ a b, x = .ok a → R a b → Agree S (f a) (k b)) : Agree S (x >>= f) (y >>= k) := by
  cases first with
  | error fault => exact .error fault
  | ok related => exact rest _ _ rfl related

theorem Agree.exists_of_left {R : α → β → Prop} {x : Except ε α} {y : Except ε β}
    (agree : Agree R x y) {a : α} (ran : x = .ok a) : ∃ b, y = .ok b ∧ R a b := by
  cases agree with
  | error fault => cases ran
  | ok related =>
      cases ran
      exact ⟨_, rfl, related⟩

theorem Agree.exists_of_right {R : α → β → Prop} {x : Except ε α} {y : Except ε β}
    (agree : Agree R x y) {b : β} (ran : y = .ok b) : ∃ a, x = .ok a ∧ R a b := by
  cases agree with
  | error fault => cases ran
  | ok related =>
      cases ran
      exact ⟨_, rfl, related⟩

/-- Two folds over the same entries agree when every pair of steps from related values does. -/
theorem Agree.foldlM {R : α → β → Prop} {xs : List γ} {f : α → γ → Except ε α}
    {k : β → γ → Except ε β} (step : ∀ a b, R a b → ∀ x ∈ xs, Agree R (f a x) (k b x)) :
    ∀ {a b}, R a b → Agree R (xs.foldlM f a) (xs.foldlM k b) := by
  induction xs with
  | nil => exact fun related => .ok related
  | cons x rest ih =>
      intro a b related
      simp only [List.foldlM_cons]
      refine (step a b related x List.mem_cons_self).bind fun _ _ _ next => ?_
      exact ih (fun a b holds y member => step a b holds y (List.mem_cons_of_mem x member)) next

/-- A fold that succeeds succeeds alike with steps that succeed alike wherever its own do. -/
theorem foldlM_of_steps {f f' : α → β → Except ε α} {xs : List β}
    (steps : ∀ a x a', x ∈ xs → f a x = .ok a' → f' a x = .ok a') {init result : α}
    (run : xs.foldlM f init = .ok result) : xs.foldlM f' init = .ok result := by
  induction xs generalizing init with
  | nil => exact run
  | cons x rest ih =>
      simp only [List.foldlM_cons] at run ⊢
      obtain ⟨next, first, remaining⟩ := bind_eq_ok.mp run
      rw [steps init x next List.mem_cons_self first]
      exact ih (fun a y a' member => steps a y a' (List.mem_cons_of_mem x member)) remaining

end Runs

namespace CharSet

/-- Two ascending sets with the same members are the same set. -/
theorem Ascending.eq_of_mem_iff {s t : CharSet} (left : s.Ascending) (right : t.Ascending)
    (same : ∀ c, c ∈ s ↔ c ∈ t) : s = t := by
  cases s
  cases t
  congr
  exact List.Pairwise.eq_of_mem_iff left right same

end CharSet

namespace Grammar

variable {g : Grammar}

/-! ## FIRST sets afresh, with more room -/

/-- Reading a body succeeds alike with FIRST sets of its symbols that succeed alike. -/
theorem bodyFirst_of_children {name : String} {child child' : Char → Except Fault CharSet}
    (children : ∀ y t, child y = .ok t → child' y = .ok t) {body : List Char} :
    ∀ {acc result : CharSet}, g.bodyFirst name child body acc = .ok result →
      g.bodyFirst name child' body acc = .ok result := by
  induction body with
  | nil => exact id
  | cons y rest ih =>
      intro acc result read
      rcases bodyFirst_cons_eq_ok read with ⟨self, next⟩ | ⟨other, named, t, found, outcome⟩
      · rw [bodyFirst, if_pos self]
        exact ih next
      · rw [bodyFirst_cons_of_ne other named (children y t found)]
        rcases outcome with ⟨lacks, rfl⟩ | ⟨has, rfl, rfl⟩ | ⟨has, more, next⟩
        · simp [lacks]
        · simp [has]
        · simp [has, more, ih next]

/-- Reading all bodies of a name succeeds alike with FIRST sets of the body symbols that
succeed alike. -/
theorem firstFrame_of_children {name : String} {child child' : Char → Except Fault CharSet}
    (children : ∀ y t, child y = .ok t → child' y = .ok t) {result : CharSet}
    (read : g.firstFrame name child = .ok result) : g.firstFrame name child' = .ok result := by
  simp only [firstFrame] at read ⊢
  obtain ⟨acc, folded, checked⟩ := bind_eq_ok.mp read
  rw [foldlM_of_steps (fun acc p acc' _ step => ?_) folded]
  · exact checked
  · by_cases skipped : (p.head != name) = true
    · simpa [skipped] using step
    · by_cases empty : p.body.isEmpty = true
      · simpa [skipped, empty] using step
      · simp only [skipped, empty, Bool.false_eq_true, if_false] at step ⊢
        exact bodyFirst_of_children children step

/-- A FIRST set computed afresh is computed alike with more room and with fewer names on the
path: neither can turn a fault into an answer or change an answer. -/
theorem firstWithin_of_le {fuel : Nat} :
    ∀ {fuel' : Nat} {path path' : List String} {name : String} {s : CharSet},
      fuel ≤ fuel' → path' ⊆ path → g.firstWithin fuel path name = .ok s →
        g.firstWithin fuel' path' name = .ok s := by
  induction fuel with
  | zero => intro _ _ _ _ _ _ _ read; simp at read
  | succ fuel ih =>
      intro fuel' path path' name s more fewer read
      obtain ⟨fuel', rfl⟩ : ∃ f, fuel' = f + 1 := ⟨fuel' - 1, by omega⟩
      cases terminal : g.isTerminalName name with
      | true =>
          unfold firstWithin at read ⊢
          simpa [terminal] using read
      | false =>
          obtain ⟨fresh, frame⟩ := firstWithin_succ_eq_ok terminal read
          rw [firstWithin_succ_of_nonterminal terminal fun member => fresh (fewer member)]
          exact firstFrame_of_children
            (fun y t found => ih (by omega) (List.cons_subset_cons name fewer) found) frame

/-- A FIRST set computed afresh within the nesting room is the FIRST set of the name. -/
theorem firstWithin_eq_first {fuel : Nat} (room : fuel ≤ firstDepthLimit) {path : List String}
    {name : String} {s : CharSet} (read : g.firstWithin fuel path name = .ok s) :
    g.first name = .ok s :=
  firstWithin_of_le room (List.nil_subset path) read

/-- Only terminals and recorded nonterminals have FIRST sets. -/
theorem named_of_first_eq_ok {name : String} {s : CharSet} (found : g.first name = .ok s) :
    g.isTerminalName name = true ∨ g.isNonterminal name = true := by
  cases terminal : g.isTerminalName name with
  | true => exact .inl rfl
  | false =>
      have read : g.firstWithin (959 + 1) [] name = .ok s := found
      obtain ⟨_, frame⟩ := firstWithin_succ_eq_ok terminal read
      simp only [firstFrame] at frame
      obtain ⟨_, _, checked⟩ := bind_eq_ok.mp frame
      split at checked
      · rename_i named
        exact .inr named
      · cases checked

/-! ## Kept sets -/

/-- What `name` keeps is sound: an ascending set of members of its FIRST set, and so nothing
when its FIRST set is not computed. -/
def KeepsSound (g : Grammar) (store : FirstStore) (name : String) : Prop :=
  (store name).Ascending ∧ ∀ c ∈ store name, ∃ s, g.first name = .ok s ∧ c ∈ s

theorem keepsSound_empty (name : String) : g.KeepsSound FirstStore.empty name :=
  ⟨CharSet.ascending_empty, fun c member => absurd member (CharSet.not_mem_empty c)⟩

/-- A FIRST set is sound to keep. -/
theorem keepsSound_of_first {store : FirstStore} {name : String}
    (found : g.first name = .ok (store name)) : g.KeepsSound store name :=
  ⟨firstInvariant_ascending.firstWithin found, fun _ member => ⟨_, found, member⟩⟩

theorem KeepsSound.of_eq {before after : FirstStore} {name : String}
    (same : after name = before name) (sound : g.KeepsSound before name) :
    g.KeepsSound after name := by
  unfold KeepsSound
  rw [same]
  exact sound

/-- What is kept by a name whose FIRST set is `s` is part of `s`. -/
theorem KeepsSound.subset {store : FirstStore} {name : String} (sound : g.KeepsSound store name)
    {s : CharSet} (found : g.first name = .ok s) : ∀ c ∈ store name, c ∈ s := by
  intro c member
  obtain ⟨s', found', inS'⟩ := sound.2 c member
  rw [found, Except.ok.injEq] at found'
  exact found' ▸ inS'

/-- What a computation does to the kept sets: each is left as it was or, for a nonterminal off
`path`, set to its FIRST set. -/
def Settles (g : Grammar) (path : List String) (before after : FirstStore) : Prop :=
  ∀ B, after B = before B ∨ (B ∉ path ∧ g.isNonterminal B = true ∧ g.first B = .ok (after B))

theorem settles_refl (path : List String) (store : FirstStore) : g.Settles path store store :=
  fun _ => .inl rfl

theorem Settles.trans {path : List String} {first second third : FirstStore}
    (early : g.Settles path first second) (late : g.Settles path second third) :
    g.Settles path first third := by
  intro B
  rcases late B with same | set
  · rw [same]
    exact early B
  · exact .inr set

theorem Settles.keepsSound {path : List String} {before after : FirstStore}
    (settled : g.Settles path before after) {B : String} (sound : g.KeepsSound before B) :
    g.KeepsSound after B := by
  rcases settled B with same | ⟨_, _, found⟩
  · exact sound.of_eq same
  · exact keepsSound_of_first found

/-- A computation over the kept sets answers like the computation afresh, which gave `s`: with
`s` itself, with the kept sets settled, and with `s` kept by `name` when it is no terminal. -/
def Answers (g : Grammar) (path : List String) (name : String) (before : FirstStore)
    (s : CharSet) (answer : CharSet × FirstStore) : Prop :=
  answer.1 = s ∧ g.Settles path before answer.2 ∧
    (g.isTerminalName name = false → answer.2 name = s)

/-! ## The computation for one nonterminal -/

section Frame

variable {A : String} {path : List String} {base : FirstStore}

/-- Within the computation of the FIRST set of `A` from the kept sets `base`, the kept sets
`store` follow the set `acc` collected afresh so far: `A` keeps what it kept and `acc`, and
every other kept set is as it was or, for a nonterminal off the path, its FIRST set. -/
def Tracks (g : Grammar) (A : String) (path : List String) (base : FirstStore) (acc : CharSet)
    (store : FirstStore) : Prop :=
  (∀ c, c ∈ store A ↔ c ∈ base A ∨ c ∈ acc) ∧ (store A).Ascending ∧
    ∀ B, B ≠ A → store B = base B ∨
      (B ∉ A :: path ∧ g.isNonterminal B = true ∧ g.first B = .ok (store B))

theorem tracks_start (ascending : (base A).Ascending) :
    g.Tracks A path base CharSet.empty base :=
  ⟨fun c => by simp, ascending, fun _ _ => .inl rfl⟩

theorem Tracks.add {acc : CharSet} {store : FirstStore} (tracks : g.Tracks A path base acc store)
    (more : CharSet) : g.Tracks A path base (acc.union more) (store.add A more) := by
  obtain ⟨members, ascending, others⟩ := tracks
  refine ⟨fun c => ?_, ?_, fun B other => ?_⟩
  · simp only [FirstStore.add_self, CharSet.mem_union, members, or_assoc]
  · rw [FirstStore.add_self]
    exact ascending.union more
  · rw [FirstStore.add_of_ne more other]
    exact others B other

/-- The computations nested in the one of `A` have `A` on their path, so they leave what `A`
keeps as it is. -/
theorem Tracks.settle {acc : CharSet} {store store' : FirstStore}
    (tracks : g.Tracks A path base acc store) (settled : g.Settles (A :: path) store store') :
    g.Tracks A path base acc store' := by
  obtain ⟨members, ascending, others⟩ := tracks
  have same : store' A = store A := by
    rcases settled A with same | ⟨off, _⟩
    · exact same
    · exact absurd List.mem_cons_self off
  refine ⟨same ▸ members, same ▸ ascending, fun B other => ?_⟩
  rcases settled B with kept | set
  · rw [kept]
    exact others B other
  · exact .inr set

/-- Off the path of the nested computations, the kept sets stay sound. -/
theorem Tracks.keepsSound {acc : CharSet} {store : FirstStore}
    (sound : ∀ B ∉ path, g.KeepsSound base B) (tracks : g.Tracks A path base acc store) :
    ∀ B ∉ A :: path, g.KeepsSound store B := by
  intro B off
  have other : B ≠ A := fun same => off (same ▸ List.mem_cons_self)
  rcases tracks.2.2 B other with kept | ⟨_, _, found⟩
  · exact (sound B fun member => off (List.mem_cons_of_mem A member)).of_eq kept
  · exact keepsSound_of_first found

/-- Adding to the FIRST set of `A` afresh and adding to what `A` keeps agree. -/
theorem own_agree {acc : CharSet} {store : FirstStore} (tracks : g.Tracks A path base acc store)
    (more : CharSet) :
    Agree (g.Tracks A path base) (g.own A acc more) (g.keep A more store) := by
  unfold own keep
  split
  · exact .ok (tracks.add more)
  · exact .error _

variable {child : Char → Except Fault CharSet}
  {child' : Char → FirstStore → Except Fault (CharSet × FirstStore)}

/-- Reading a body afresh and over the kept sets agree, when the nested computations do. -/
theorem bodyFirstInto_agree (sound : ∀ B ∉ path, g.KeepsSound base B)
    (children : ∀ y store, (∀ B ∉ A :: path, g.KeepsSound store B) →
      Agree (fun t answer => answer.1 = t ∧ g.Settles (A :: path) store answer.2)
        (child y) (child' y store))
    {body : List Char} : ∀ {acc : CharSet} {store : FirstStore}, g.Tracks A path base acc store →
      Agree (g.Tracks A path base) (g.bodyFirst A child body acc)
        (g.bodyFirstInto A child' body store) := by
  induction body with
  | nil => exact fun tracks => .ok tracks
  | cons y rest ih =>
      intro acc store tracks
      rw [bodyFirst, bodyFirstInto]
      split
      · exact ih tracks
      · refine (children y store (tracks.keepsSound sound)).bind fun t answer _ related => ?_
        obtain ⟨same, settled⟩ := related
        obtain ⟨t', store'⟩ := answer
        dsimp only at same settled ⊢
        subst same
        refine (own_agree (tracks.settle settled) _).bind fun acc' store'' _ tracks' => ?_
        cases has : t'.contains emptyMark with
        | false => exact .ok tracks'
        | true =>
            cases ends : rest.isEmpty with
            | true => exact own_agree tracks' _
            | false => exact ih tracks'

/-- Reading all bodies of `A` afresh and over the kept sets agree, when the nested
computations do: the answer over the kept sets is the FIRST set of `A`, which `A` then keeps. -/
theorem firstFrameInto_agree (sound : ∀ B ∉ path, g.KeepsSound base B) (fresh : A ∉ path)
    (children : ∀ y store, (∀ B ∉ A :: path, g.KeepsSound store B) →
      Agree (fun t answer => answer.1 = t ∧ g.Settles (A :: path) store answer.2)
        (child y) (child' y store))
    (afresh : ∀ s, g.firstFrame A child = .ok s → g.first A = .ok s) :
    Agree (fun s answer => answer.1 = s ∧ g.Settles path base answer.2 ∧ answer.2 A = s)
      (g.firstFrame A child) (g.firstFrameInto A child' base) := by
  have start : g.Tracks A path base CharSet.empty base := tracks_start (sound A fresh).1
  unfold firstFrame firstFrameInto
  refine (Agree.foldlM (fun acc store tracks p _ => ?_) start).bind
    fun acc store folded tracks => ?_
  · by_cases skipped : (p.head != A) = true
    · simp only [skipped, if_true]
      exact .ok tracks
    · by_cases empty : p.body.isEmpty = true
      · simp only [skipped, empty, Bool.false_eq_true, if_true, if_false]
        exact own_agree tracks _
      · simp only [skipped, empty, Bool.false_eq_true, if_false]
        exact bodyFirstInto_agree sound children tracks
  · by_cases named : g.isNonterminal A = true
    · simp only [named, if_true]
      have found : g.first A = .ok acc := by
        refine afresh acc ?_
        unfold firstFrame
        exact bind_eq_ok.mpr ⟨acc, folded, by simp [named]⟩
      have same : store A = acc :=
        tracks.2.1.eq_of_mem_iff (firstInvariant_ascending.firstWithin found) fun c => by
          rw [tracks.1 c]
          exact ⟨fun kept => kept.elim ((sound A fresh).subset found c) id, .inr⟩
      refine .ok ⟨same, fun B => ?_, same⟩
      by_cases isA : B = A
      · subst isA
        exact .inr ⟨fresh, named, by simpa [same] using found⟩
      · rcases tracks.2.2 B isA with kept | ⟨off, set⟩
        · exact .inl kept
        · exact .inr ⟨fun member => off (List.mem_cons_of_mem A member), set⟩
    · simp only [named, Bool.false_eq_true, if_false]
      exact .error _

end Frame

/-! ## Whole computations -/

theorem firstIntoWithin_succ_of_nonterminal {fuel : Nat} {path : List String} {name : String}
    (notTerminal : g.isTerminalName name = false) (fresh : name ∉ path) (store : FirstStore) :
    g.firstIntoWithin (fuel + 1) path name store =
      g.firstFrameInto name (fun y => g.firstIntoWithin fuel (name :: path) y.toString) store := by
  simp [firstIntoWithin, notTerminal, fresh]

/-- A FIRST computation over kept sets that are sound off its path agrees with the computation
afresh. By induction on the room: the nested computations agree by the induction hypothesis,
and the computation for one nonterminal agrees when they do. -/
theorem firstIntoWithin_agree {fuel : Nat} (room : fuel ≤ firstDepthLimit) :
    ∀ {path : List String} {name : String} {store : FirstStore},
      (∀ B ∉ path, g.KeepsSound store B) →
        Agree (g.Answers path name store) (g.firstWithin fuel path name)
          (g.firstIntoWithin fuel path name store) := by
  induction fuel with
  | zero => exact fun _ => .error _
  | succ fuel ih =>
      intro path name store sound
      cases terminal : g.isTerminalName name with
      | true =>
          simp only [firstWithin, firstIntoWithin, terminal, if_true]
          exact .ok ⟨rfl, settles_refl path store, by simp [terminal]⟩
      | false =>
          by_cases onPath : name ∈ path
          · simp only [firstWithin, firstIntoWithin, terminal, onPath, Bool.false_eq_true,
              if_false, List.contains_iff_mem, if_true]
            exact .error _
          rw [firstWithin_succ_of_nonterminal terminal onPath,
            firstIntoWithin_succ_of_nonterminal terminal onPath]
          have children : ∀ (y : Char) (store' : FirstStore),
              (∀ B ∉ name :: path, g.KeepsSound store' B) →
                Agree (fun t answer => answer.1 = t ∧ g.Settles (name :: path) store' answer.2)
                  (g.firstWithin fuel (name :: path) y.toString)
                  (g.firstIntoWithin fuel (name :: path) y.toString store') :=
            fun y store' sound' => (ih (by omega) sound').mono fun _ _ answers =>
              ⟨answers.1, answers.2.1⟩
          have afresh : ∀ s, g.firstFrame name
              (fun y => g.firstWithin fuel (name :: path) y.toString) = .ok s →
                g.first name = .ok s := by
            intro s frame
            have read : g.firstWithin (fuel + 1) path name = .ok s := by
              rw [firstWithin_succ_of_nonterminal terminal onPath]
              exact frame
            exact firstWithin_eq_first room read
          exact (firstFrameInto_agree sound onPath children afresh).mono fun _ _ answers =>
            ⟨answers.1, answers.2.1, fun _ => answers.2.2⟩

/-- A FIRST computation over sound kept sets agrees with the computation afresh. -/
theorem firstInto_agree {store : FirstStore} (sound : ∀ B, g.KeepsSound store B)
    (name : String) :
    Agree (g.Answers [] name store) (g.first name) (g.firstInto name store) :=
  firstIntoWithin_agree (Nat.le_refl _) fun B _ => sound B

/-! ## Over the augmented productions -/

section Augmented

variable {g' : Grammar} {z : String}

/-- Kept sets sound for one grammar are sound for another with the same FIRST sets, except at
a name that is neither a terminal nor a nonterminal of the first. -/
theorem KeepsSound.of_agree (sameFirst : ∀ B, B ≠ z → g'.first B = g.first B)
    (notTerminal : g.isTerminalName z = false) (notNamed : g.isNonterminal z = false)
    {store : FirstStore} {B : String} (sound : g.KeepsSound store B) : g'.KeepsSound store B := by
  by_cases isZ : B = z
  · subst isZ
    refine ⟨sound.1, fun c member => ?_⟩
    obtain ⟨s, found, _⟩ := sound.2 c member
    rcases named_of_first_eq_ok found with terminal | named
    · simp [notTerminal] at terminal
    · simp [notNamed] at named
  · unfold KeepsSound
    rw [sameFirst B isZ]
    exact sound

/-- What a computation for the other grammar settles it settles for the first, when both have
the same nonterminals. -/
theorem Settles.of_agree (sameFirst : ∀ B, B ≠ z → g'.first B = g.first B)
    (sameNames : g'.nonterminals = g.nonterminals) (notNamed : g.isNonterminal z = false)
    {path : List String} {before after : FirstStore} (settled : g'.Settles path before after) :
    g.Settles path before after := by
  intro B
  rcases settled B with same | ⟨off, named, found⟩
  · exact .inl same
  · have named : g.isNonterminal B = true := by simpa [isNonterminal, sameNames] using named
    have isZ : B ≠ z := fun same => by simp [same, notNamed] at named
    exact .inr ⟨off, named, sameFirst B isZ ▸ found⟩

/-- Over the augmented productions of a recorded well-formed grammar, the FIRST set of every
name other than the new start letter is the grammar's own, and that letter is neither a
terminal nor a nonterminal. -/
theorem first_augmented (shape : g.ReadShape) (wellFormed : g.WellFormed)
    {productions : List Production} (augmented : g.augment = .ok productions) :
    ∃ z : Char, g.isTerminalName z.toString = false ∧ g.isNonterminal z.toString = false ∧
      ∀ B, B ≠ z.toString → ({ g with productions }).first B = g.first B := by
  obtain ⟨z, first, rest, _, rfl, upper, unused⟩ :=
    augment_eq_ok shape.recorded wellFormed augmented
  have notNamed : g.isNonterminal z.toString = false := by
    simpa [isNonterminal] using not_mem_nonterminals_of_unused shape.recorded unused
  exact ⟨z, isTerminalName_upper shape.recorded upper, notNamed,
    fun B other => firstWithin_cons_start (fun p member => (unused p member).2) _ other⟩

end Augmented

/-! ## Sequences of computations -/

/-- One FIRST computation over the kept sets, as the workbench makes them: over the grammar's
productions, or, once the start production is put in front, over the augmented ones. -/
inductive FirstCall (g : Grammar) (store : FirstStore) (name : String) :
    CharSet × FirstStore → Prop
  | plain {answer : CharSet × FirstStore} :
      g.firstInto name store = .ok answer → g.FirstCall store name answer
  | augmented {productions : List Production} {answer : CharSet × FirstStore} :
      g.augment = .ok productions → ({ g with productions }).firstInto name store = .ok answer →
        g.FirstCall store name answer

/-- The kept sets that FIRST computations lead to from `start`, in any number and order. -/
inductive Reached (g : Grammar) (start : FirstStore) : FirstStore → Prop
  | refl : g.Reached start start
  | call {store : FirstStore} {name : String} {answer : CharSet × FirstStore} :
      g.Reached start store → g.FirstCall store name answer → g.Reached start answer.2

theorem firstIntoEach_cons (name : String) (names : List String) (store : FirstStore) :
    g.firstIntoEach (name :: names) store =
      g.firstInto name store >>= fun answer => g.firstIntoEach names answer.2 := by
  simp only [firstIntoEach, List.foldlM_cons, bind_map_left]

/-- The computations of a sequence reach the kept sets it leaves. -/
theorem Reached.firstIntoEach {start store : FirstStore} (reached : g.Reached start store)
    {names : List String} {after : FirstStore} (ran : g.firstIntoEach names store = .ok after) :
    g.Reached start after := by
  refine foldlM_invariant (g.Reached start) reached (fun store' name after' before _ call => ?_) ran
  obtain ⟨answer, ran', rfl⟩ := fmap_eq_ok.mp call
  exact before.call (.plain ran')

section Calls

variable (shape : g.ReadShape) (wellFormed : g.WellFormed)
include shape wellFormed

/-- A FIRST computation of the workbench over sound kept sets answers like the computation
afresh over the grammar. -/
theorem FirstCall.answers {store : FirstStore} (sound : ∀ B, g.KeepsSound store B)
    {name : String} {answer : CharSet × FirstStore} (call : g.FirstCall store name answer) :
    ∃ s, g.first name = .ok s ∧ g.Answers [] name store s answer := by
  cases call with
  | plain ran => exact (firstInto_agree sound name).exists_of_right ran
  | augmented augmented ran =>
      obtain ⟨z, notTerminal, notNamed, sameFirst⟩ := first_augmented shape wellFormed augmented
      have sound' : ∀ B, ({ g with productions := _ } : Grammar).KeepsSound store B :=
        fun B => (sound B).of_agree sameFirst notTerminal notNamed
      obtain ⟨s, found, same, settled, kept⟩ := (firstInto_agree sound' name).exists_of_right ran
      have other : name ≠ z.toString := by
        rintro rfl
        rcases named_of_first_eq_ok found with terminal | named
        · have terminal : g.isTerminalName z.toString = true := terminal
          rw [notTerminal] at terminal
          cases terminal
        · have named : g.isNonterminal z.toString = true := named
          rw [notNamed] at named
          cases named
      exact ⟨s, sameFirst name other ▸ found, same, settled.of_agree sameFirst rfl notNamed, kept⟩

/-- Along FIRST computations from sound kept sets, every kept set is left as it was or set to
the FIRST set of its nonterminal, and so stays sound. -/
theorem Reached.settles {start store : FirstStore} (startSound : ∀ B, g.KeepsSound start B)
    (reached : g.Reached start store) : g.Settles [] start store ∧ ∀ B, g.KeepsSound store B := by
  induction reached with
  | refl => exact ⟨settles_refl [] start, startSound⟩
  | call _ call ih =>
      obtain ⟨settled, sound⟩ := ih
      obtain ⟨_, _, _, settled', _⟩ := call.answers shape wellFormed sound
      exact ⟨settled.trans settled', fun B => settled'.keepsSound (sound B)⟩

/-- What a nonterminal keeps once it keeps its FIRST set stays kept along FIRST computations. -/
theorem Reached.keeps_first {start later : FirstStore} (startSound : ∀ B, g.KeepsSound start B)
    {A : String} {s : CharSet} (found : g.first A = .ok s) (kept : start A = s)
    (reached : g.Reached start later) : later A = s := by
  rcases (reached.settles shape wellFormed startSound).1 A with same | ⟨_, _, found'⟩
  · rw [same, kept]
  · rw [found, Except.ok.injEq] at found'
    exact found'.symm

/-- FIRST computations for nonterminals with a FIRST set, in order, over kept sets that
computations reached from nothing kept, succeed and leave each of them keeping its FIRST set.
The induction is on the names, over the kept sets each computation leaves. -/
theorem firstIntoEach_keeps_first {names : List String} :
    ∀ {store : FirstStore}, g.Reached FirstStore.empty store →
      (∀ A ∈ names, g.isTerminalName A = false ∧ ∃ s, g.first A = .ok s) →
      ∃ after, g.firstIntoEach names store = .ok after ∧ ∀ A ∈ names, g.first A = .ok (after A) := by
  induction names with
  | nil =>
      intro store _ _
      exact ⟨store, rfl, by simp⟩
  | cons A names ih =>
      intro store reached found
      obtain ⟨notTerminal, s, foundA⟩ := found A List.mem_cons_self
      have sound := (reached.settles shape wellFormed keepsSound_empty).2
      obtain ⟨answer, ran, _, settled, kept⟩ := (firstInto_agree sound A).exists_of_left foundA
      obtain ⟨after, rest, keeps⟩ :=
        ih (reached.call (.plain ran)) fun B member => found B (List.mem_cons_of_mem A member)
      refine ⟨after, by rw [firstIntoEach_cons, ran]; exact rest, fun B member => ?_⟩
      rcases List.mem_cons.mp member with rfl | later
      · have stays := Reached.keeps_first shape wellFormed (fun C => settled.keepsSound (sound C))
          foundA (kept notTerminal) (Reached.refl.firstIntoEach rest)
        rw [stays]
        exact foundA
      · exact keeps B later

end Calls

end Grammar

open Grammar

/-- A FIRST computation over the kept sets does not depend on the computations before it. Take
a nonterminal `A` of a well-formed grammar whose FIRST set afresh is `s`, and any kept sets that
FIRST computations leave, in any number and order, over the grammar or its augmented
productions. The computation for `A` then answers. Every computation for `A`, over either, answers
with `s` and leaves `s` kept by `A`, and no later computation changes what `A` keeps. -/
theorem firstInto_ignores_earlier_calls {text : String} {g : Grammar}
    (read : Grammar.ofText text = .ok g) (wellFormed : g.WellFormed) {A : String}
    (named : A ∈ g.nonterminals) {s : CharSet} (found : g.first A = .ok s) {store : FirstStore}
    (reached : g.Reached FirstStore.empty store) :
    (∃ after, g.firstInto A store = .ok (s, after)) ∧
      ∀ answer, g.FirstCall store A answer → answer.1 = s ∧ answer.2 A = s ∧
        ∀ later, g.Reached answer.2 later → later A = s := by
  have shape := readShape_ofText read
  have sound := (reached.settles shape wellFormed keepsSound_empty).2
  have notTerminal := isTerminalName_nonterminal shape.recorded wellFormed named
  refine ⟨?_, fun answer call => ?_⟩
  · obtain ⟨answer, ran, same, _⟩ := (firstInto_agree sound A).exists_of_left found
    exact ⟨answer.2, by rw [ran, ← same]⟩
  · obtain ⟨s', found', same, settled, kept⟩ := call.answers shape wellFormed sound
    rw [found, Except.ok.injEq] at found'
    subst found'
    exact ⟨same, kept notTerminal, fun later after => Reached.keeps_first shape wellFormed
      (fun B => settled.keepsSound (sound B)) found (kept notTerminal) after⟩

/-- In `S->AB`, `A->aA`, `A->`, `B->b`, `B->`, computing the FIRST sets of `B` and then `A`
leaves `A` keeping `{a, ϵ}` and `S` keeping nothing; the computation for `S` that follows answers
with its FIRST set `{a, b, ϵ}` and leaves it kept. -/
theorem firstInto_ignores_earlier_calls_nullable :
    ∃ g store, Grammar.ofText "S->AB\nA->aA\nA->\nB->b\nB->" = .ok g ∧ g.WellFormed ∧
      "S" ∈ g.nonterminals ∧ g.first "S" = .ok (CharSet.ofList ['a', 'b', 'ϵ']) ∧
      g.Reached FirstStore.empty store ∧ store "A" = CharSet.ofList ['a', 'ϵ'] ∧
      store "S" = CharSet.empty ∧
      (∃ after, g.firstInto "S" store = .ok (CharSet.ofList ['a', 'b', 'ϵ'], after)) ∧
      ∀ answer, g.FirstCall store "S" answer → answer.1 = CharSet.ofList ['a', 'b', 'ϵ'] ∧
        answer.2 "S" = CharSet.ofList ['a', 'b', 'ϵ'] ∧
        ∀ later, g.Reached answer.2 later → later "S" = CharSet.ofList ['a', 'b', 'ϵ'] := by
  have computed : ((Grammar.ofText "S->AB\nA->aA\nA->\nB->b\nB->").toOption.bind fun g =>
      (g.firstIntoEach ["B", "A"] FirstStore.empty).toOption.map fun store =>
        (g.productions.all (Grammar.plainProduction 'Z'), g.nonterminals.contains "S",
          (g.first "S").toOption, store "A", store "S")) =
      some (true, true, some (CharSet.ofList ['a', 'b', 'ϵ']), CharSet.ofList ['a', 'ϵ'],
        CharSet.empty) := by
    decide +kernel
  obtain ⟨g, read, computed⟩ := Option.bind_eq_some_iff.mp computed
  obtain ⟨store, ran, computed⟩ := Option.map_eq_some_iff.mp computed
  simp only [Prod.mk.injEq] at computed
  obtain ⟨plain, named, found, keptA, keptS⟩ := computed
  have read := toOption_eq_some.mp read
  have wellFormed := Grammar.wellFormed_of_plain 'Z' (by decide) plain
  have named : "S" ∈ g.nonterminals := List.contains_iff_mem.mp named
  have found := toOption_eq_some.mp found
  have reached : g.Reached FirstStore.empty store := Reached.refl.firstIntoEach (toOption_eq_some.mp ran)
  exact ⟨g, store, read, wellFormed, named, found, reached, keptA, keptS,
    firstInto_ignores_earlier_calls read wellFormed named found reached⟩

/-- Computing the FIRST sets of all nonterminals in order over the kept sets, from nothing
kept, succeeds whenever the FIRST sets of all nonterminals are computed, and leaves every
nonterminal keeping its entry of `Grammar.firstSets`. -/
theorem firstIntoEach_keeps_firstSets {text : String} {g : Grammar}
    (read : Grammar.ofText text = .ok g) (wellFormed : g.WellFormed)
    {sets : List (String × CharSet)} (computed : g.firstSets = .ok sets) :
    ∃ store, g.firstIntoEach g.nonterminals FirstStore.empty = .ok store ∧
      ∀ A s, (A, s) ∈ sets → store A = s := by
  have shape := readShape_ofText read
  have each : ∀ A ∈ g.nonterminals, g.isTerminalName A = false ∧ ∃ s, g.first A = .ok s :=
    fun A named => ⟨isTerminalName_nonterminal shape.recorded wellFormed named,
      exists_first_of_firstSets computed named⟩
  obtain ⟨store, ran, keeps⟩ := firstIntoEach_keeps_first shape wellFormed Reached.refl each
  refine ⟨store, ran, fun A s entry => ?_⟩
  obtain ⟨named, found⟩ := first_of_mem_firstSets shape.recorded wellFormed computed entry
  exact Except.ok.inj ((keeps A named).symm.trans found)

end GrammarBench
