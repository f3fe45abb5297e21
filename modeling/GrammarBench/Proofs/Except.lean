import Mathlib.Data.List.Forall2

/-!
# Computations that can fail

The workbench's functions run in `Except Fault`: a fault ends the computation at once. The
lemmas here take a successful run apart into the successful runs of its parts, so that what
a later step needs can be read off each part, and they carry a property through the loops
the workbench writes with `foldlM`, `mapM` and `filterMapM`.
-/

namespace GrammarBench

variable {ε α β : Type}

/-- A sequence of two computations succeeds exactly when both parts do. -/
theorem bind_eq_ok {x : Except ε α} {f : α → Except ε β} {b : β} :
    x >>= f = .ok b ↔ ∃ a, x = .ok a ∧ f a = .ok b := by
  cases x with
  | error fault => simp [bind, Except.bind]
  | ok a => simp [bind, Except.bind]

theorem map_eq_ok {x : Except ε α} {f : α → β} {b : β} :
    x.map f = .ok b ↔ ∃ a, x = .ok a ∧ f a = b := by
  cases x with
  | error fault => simp [Except.map]
  | ok a => simp [Except.map]

theorem fmap_eq_ok {x : Except ε α} {f : α → β} {b : β} :
    f <$> x = .ok b ↔ ∃ a, x = .ok a ∧ f a = b :=
  map_eq_ok

theorem toOption_eq_some {x : Except ε α} {a : α} : x.toOption = some a ↔ x = .ok a := by
  cases x with
  | error fault => simp [Except.toOption]
  | ok b => simp [Except.toOption]

/-- A property that holds of the start and that every successful step keeps holds of the
result of a successful fold. -/
theorem foldlM_invariant {f : α → β → Except ε α} (P : α → Prop) {init result : α}
    {xs : List β} (start : P init) (step : ∀ a x a', P a → x ∈ xs → f a x = .ok a' → P a')
    (run : xs.foldlM f init = .ok result) : P result := by
  induction xs generalizing init with
  | nil =>
      simp only [List.foldlM_nil, pure, Except.pure, Except.ok.injEq] at run
      exact run ▸ start
  | cons x rest ih =>
      simp only [List.foldlM_cons] at run
      obtain ⟨next, first, remaining⟩ := bind_eq_ok.mp run
      exact ih (step init x next start List.mem_cons_self first)
        (fun a y a' holds member => step a y a' holds (List.mem_cons_of_mem x member)) remaining

/-- Two folds over the same entries keep a relation between their values when every pair of
successful steps at one entry keeps it. -/
theorem foldlM_relate {γ : Type} {f : α → β → Except ε α} {h : γ → β → Except ε γ}
    (R : α → γ → Prop) {xs : List β}
    (step : ∀ a c x a' c', R a c → x ∈ xs → f a x = .ok a' → h c x = .ok c' → R a' c')
    {init result : α} {init' result' : γ} (start : R init init')
    (run : xs.foldlM f init = .ok result) (run' : xs.foldlM h init' = .ok result') :
    R result result' := by
  induction xs generalizing init init' with
  | nil =>
      simp only [List.foldlM_nil, pure, Except.pure, Except.ok.injEq] at run run'
      exact run ▸ run' ▸ start
  | cons x rest ih =>
      simp only [List.foldlM_cons] at run run'
      obtain ⟨next, first, remaining⟩ := bind_eq_ok.mp run
      obtain ⟨next', first', remaining'⟩ := bind_eq_ok.mp run'
      exact ih (fun a c y a' c' holds member => step a c y a' c' holds (List.mem_cons_of_mem x member))
        (step init init' x next next' start List.mem_cons_self first first') remaining remaining'

/-- A property that the step at one entry establishes, from whatever it is given, and that
every later step keeps, holds of the result of a successful fold. -/
theorem foldlM_of_mem {f : α → β → Except ε α} (P : α → Prop) {init result : α} {xs : List β}
    {x : β} (member : x ∈ xs) (establish : ∀ a a', f a x = .ok a' → P a')
    (keep : ∀ a y a', P a → f a y = .ok a' → P a') (run : xs.foldlM f init = .ok result) :
    P result := by
  induction xs generalizing init with
  | nil => simp at member
  | cons y rest ih =>
      simp only [List.foldlM_cons] at run
      obtain ⟨next, first, remaining⟩ := bind_eq_ok.mp run
      rcases List.mem_cons.mp member with rfl | later
      · exact foldlM_invariant P (establish init next first)
          (fun a z a' holds _ step => keep a z a' holds step) remaining
      · exact ih later remaining

/-- A fold whose every step succeeds, from any value, succeeds. -/
theorem exists_foldlM_eq_ok {f : α → β → Except ε α} {xs : List β}
    (steps : ∀ a, ∀ x ∈ xs, ∃ a', f a x = .ok a') (init : α) :
    ∃ result, xs.foldlM f init = .ok result := by
  induction xs generalizing init with
  | nil => exact ⟨init, rfl⟩
  | cons x rest ih =>
      obtain ⟨next, first⟩ := steps init x List.mem_cons_self
      obtain ⟨result, remaining⟩ :=
        ih (fun a y member => steps a y (List.mem_cons_of_mem x member)) next
      refine ⟨result, ?_⟩
      simp only [List.foldlM_cons, first]
      exact remaining

/-- A `mapM` whose every call succeeds succeeds. -/
theorem exists_mapM_eq_ok {f : α → Except ε β} {xs : List α}
    (calls : ∀ x ∈ xs, ∃ y, f x = .ok y) : ∃ ys, xs.mapM f = .ok ys := by
  induction xs with
  | nil => exact ⟨[], rfl⟩
  | cons x rest ih =>
      obtain ⟨y, first⟩ := calls x List.mem_cons_self
      obtain ⟨ys, others⟩ := ih fun z member => calls z (List.mem_cons_of_mem x member)
      refine ⟨y :: ys, ?_⟩
      simp only [List.mapM_cons, first, others]
      rfl

/-- A successful `mapM` pairs every entry with its successful result. -/
theorem mapM_forall₂ {f : α → Except ε β} {xs : List α} {ys : List β}
    (run : xs.mapM f = .ok ys) : List.Forall₂ (fun x y => f x = .ok y) xs ys := by
  induction xs generalizing ys with
  | nil =>
      simp only [List.mapM_nil, pure, Except.pure, Except.ok.injEq] at run
      exact run ▸ List.Forall₂.nil
  | cons x rest ih =>
      simp only [List.mapM_cons] at run
      obtain ⟨y, first, remaining⟩ := bind_eq_ok.mp run
      obtain ⟨ys', others, collected⟩ := bind_eq_ok.mp remaining
      simp only [pure, Except.pure, Except.ok.injEq] at collected
      exact collected ▸ List.Forall₂.cons first (ih others)

theorem Forall₂.of_getElem? {R : α → β → Prop} {xs : List α} {ys : List β}
    (all : List.Forall₂ R xs ys) {i : Nat} {x : α} {y : β} (atX : xs[i]? = some x)
    (atY : ys[i]? = some y) : R x y := by
  induction all generalizing i with
  | nil => simp at atX
  | cons first _ ih =>
      cases i with
      | zero =>
          simp only [List.getElem?_cons_zero, Option.some.injEq] at atX atY
          exact atX ▸ atY ▸ first
      | succ i => exact ih atX atY

/-- Every result of a successful `filterMapM` comes from an entry. -/
theorem mem_filterMapM {f : α → Except ε (Option β)} {xs : List α} {ys : List β} {y : β}
    (run : xs.filterMapM f = .ok ys) (member : y ∈ ys) : ∃ x ∈ xs, f x = .ok (some y) := by
  induction xs generalizing ys with
  | nil =>
      simp only [List.filterMapM_nil, pure, Except.pure, Except.ok.injEq] at run
      simp [← run] at member
  | cons x rest ih =>
      simp only [List.filterMapM_cons] at run
      obtain ⟨kept, first, remaining⟩ := bind_eq_ok.mp run
      cases kept with
      | none =>
          obtain ⟨x', mem', found⟩ := ih remaining member
          exact ⟨x', List.mem_cons_of_mem x mem', found⟩
      | some z =>
          obtain ⟨zs, others, collected⟩ := bind_eq_ok.mp remaining
          simp only [pure, Except.pure, Except.ok.injEq] at collected
          rw [← collected, List.mem_cons] at member
          rcases member with same | later
          · exact ⟨x, List.mem_cons_self, same ▸ first⟩
          · obtain ⟨x', mem', found⟩ := ih others later
            exact ⟨x', List.mem_cons_of_mem x mem', found⟩

/-- An entry whose call keeps a result puts that result among the results of a successful
`filterMapM`. -/
theorem mem_filterMapM_of {f : α → Except ε (Option β)} {xs : List α} {ys : List β} {x : α}
    {y : β} (run : xs.filterMapM f = .ok ys) (member : x ∈ xs) (kept : f x = .ok (some y)) :
    y ∈ ys := by
  induction xs generalizing ys with
  | nil => simp at member
  | cons z rest ih =>
      simp only [List.filterMapM_cons] at run
      obtain ⟨k, first, remaining⟩ := bind_eq_ok.mp run
      rcases List.mem_cons.mp member with rfl | later
      · rw [kept, Except.ok.injEq] at first
        subst first
        obtain ⟨zs, _, collected⟩ := bind_eq_ok.mp remaining
        simp only [pure, Except.pure, Except.ok.injEq] at collected
        exact collected ▸ List.mem_cons_self
      · cases k with
        | none => exact ih remaining later
        | some w =>
            obtain ⟨zs, others, collected⟩ := bind_eq_ok.mp remaining
            simp only [pure, Except.pure, Except.ok.injEq] at collected
            exact collected ▸ List.mem_cons_of_mem w (ih others later)

/-- An entry that a lookup finds is in the list. -/
theorem mem_of_lookup_eq_some [BEq α] [LawfulBEq α] {l : List (α × β)} {a : α} {b : β}
    (found : l.lookup a = some b) : (a, b) ∈ l := by
  induction l with
  | nil => simp at found
  | cons entry rest ih =>
      obtain ⟨k, v⟩ := entry
      rw [List.lookup_cons] at found
      cases same : a == k with
      | true =>
          simp only [same, Option.some.injEq] at found
          rw [beq_iff_eq.mp same, found]
          exact List.mem_cons_self
      | false =>
          simp only [same] at found
          exact List.mem_cons_of_mem _ (ih found)

end GrammarBench
