import GrammarBench.Proofs.Sets.First

/-!
# What the FOLLOW sets hold

The FOLLOW sets are built from the end marker, the FIRST sets of body symbols without the
empty mark, and other FOLLOW sets. So every FOLLOW set that the one pass computes holds only
terminals and the end marker, listed in ascending order (`Grammar.followSets_shaped`), as
every FIRST set holds only terminals and the empty mark.
-/

namespace GrammarBench

namespace Grammar

variable {g : Grammar}

/-- A set of terminals and possibly the end marker, listed in ascending order, as FOLLOW sets
are. -/
def FollowShaped (g : Grammar) (s : CharSet) : Prop :=
  s.Ascending ∧ ∀ d ∈ s, d ∈ g.terminals ∨ d = endMarker

theorem followShaped_empty : g.FollowShaped CharSet.empty :=
  ⟨CharSet.ascending_empty, fun d member => absurd member (CharSet.not_mem_empty d)⟩

theorem FollowShaped.union {s t : CharSet} (left : g.FollowShaped s) (right : g.FollowShaped t) :
    g.FollowShaped (s.union t) := by
  refine ⟨left.1.union t, fun d member => ?_⟩
  rcases CharSet.mem_union.mp member with inLeft | inRight
  · exact left.2 d inLeft
  · exact right.2 d inRight

theorem FollowShaped.insertMarker {s : CharSet} (shaped : g.FollowShaped s) :
    g.FollowShaped (s.insert endMarker) := by
  refine ⟨shaped.1.insert endMarker, fun d member => ?_⟩
  rcases CharSet.mem_insert.mp member with marker | old
  · exact Or.inr marker
  · exact shaped.2 d old

/-- The FIRST set of a character, without the empty mark, is shaped as a FOLLOW set. -/
theorem followShaped_firstOfChar {c : Char} {f : CharSet} (read : g.firstOfChar c = .ok f) :
    g.FollowShaped (f.erase emptyMark) := by
  refine ⟨(firstInvariant_ascending.firstWithin read).erase emptyMark, fun d member => ?_⟩
  obtain ⟨notMark, inFirst⟩ := CharSet.mem_erase.mp member
  rcases firstLike_firstOfChar read d inFirst with terminal | mark
  · exact Or.inl terminal
  · exact absurd mark notMark

/-- Every FOLLOW set stored is shaped as one. -/
def FollowsShaped (g : Grammar) (fs : FollowSets) : Prop :=
  ∀ entry ∈ fs, g.FollowShaped entry.2

theorem FollowsShaped.get {fs : FollowSets} (shaped : g.FollowsShaped fs) (name : String) :
    g.FollowShaped (fs.get name) := by
  unfold FollowSets.get
  cases found : fs.lookup name with
  | none => exact followShaped_empty
  | some s => exact shaped (name, s) (mem_of_lookup_eq_some found)

theorem FollowsShaped.put {fs : FollowSets} (shaped : g.FollowsShaped fs) (name : String)
    {s : CharSet} (new : g.FollowShaped s) : g.FollowsShaped (fs.put name s) := by
  intro entry member
  obtain ⟨old, inOld, rfl⟩ := List.mem_map.mp member
  split
  · exact new
  · exact shaped old inOld

theorem headFollow_shaped {fs : FollowSets} (shaped : g.FollowsShaped fs) {name : String}
    {p : Production} {acc result : CharSet} (accShaped : g.FollowShaped acc)
    (read : g.headFollow fs name p acc = .ok result) : g.FollowShaped result := by
  unfold headFollow at read
  split at read
  · simp at read
  split at read
  · simp only [Except.ok.injEq] at read
    exact read ▸ accShaped
  split at read
  · rename_i s found
    simp only [Except.ok.injEq] at read
    exact read ▸ accShaped.union (shaped (p.head, s) (mem_of_lookup_eq_some found))
  · simp at read

theorem followInBody_shaped {fs : FollowSets} (shaped : g.FollowsShaped fs) {name : String}
    {p : Production} {body : List Char} {acc result : CharSet} (accShaped : g.FollowShaped acc)
    (read : g.followInBody fs name p body acc = .ok result) : g.FollowShaped result := by
  induction body generalizing acc with
  | nil =>
      simp only [followInBody, Except.ok.injEq] at read
      exact read ▸ accShaped
  | cons b rest ih =>
      unfold followInBody at read
      split at read
      · exact ih accShaped read
      split at read
      · exact headFollow_shaped shaped accShaped read
      · obtain ⟨f, first, read⟩ := bind_eq_ok.mp read
        have unionShaped := accShaped.union (followShaped_firstOfChar first)
        dsimp only at read
        split at read
        · obtain ⟨acc', added, read⟩ := bind_eq_ok.mp read
          exact ih (headFollow_shaped shaped unionShaped added) read
        · obtain ⟨acc', kept, read⟩ := bind_eq_ok.mp read
          exact ih ((Except.ok.inj kept) ▸ unionShaped) read

theorem followStep_shaped {fs fs' : FollowSets} (shaped : g.FollowsShaped fs) {name : String}
    (stepped : g.followStep fs name = .ok fs') : g.FollowsShaped fs' := by
  unfold followStep at stepped
  obtain ⟨s, folded, stored⟩ := bind_eq_ok.mp stepped
  simp only [pure, Except.pure, Except.ok.injEq] at stored
  subst stored
  refine shaped.put name (foldlM_invariant g.FollowShaped ?_
    (fun _ p _ accShaped _ read => followInBody_shaped shaped accShaped read) folded)
  split
  · exact (shaped.get name).insertMarker
  · exact shaped.get name

/-- The FOLLOW sets that the one pass computes hold terminals and the end marker only, listed
in ascending order. -/
theorem followSets_shaped {fs : FollowSets} (computed : g.followSets = .ok fs) :
    g.FollowsShaped fs := by
  refine foldlM_invariant g.FollowsShaped ?_
    (fun _ _ _ shaped _ stepped => followStep_shaped shaped stepped) computed
  intro entry member
  obtain ⟨name, _, rfl⟩ := List.mem_map.mp member
  exact followShaped_empty

end Grammar

end GrammarBench
