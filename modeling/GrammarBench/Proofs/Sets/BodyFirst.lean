import GrammarBench.Proofs.Sets.Reference

/-!
# Reading a body for a FIRST set

The FIRST set of a nonterminal is gathered from its bodies (`Grammar.firstFrame`), each read
from the left (`Grammar.bodyFirst`): a symbol's own FIRST set, less the empty mark, is added,
the reading goes on only past a symbol whose set holds the empty mark, and the empty mark is
added after the last symbol. An occurrence of the nonterminal itself is passed over.

Over a well-formed grammar without left recursion the reading never meets the nonterminal
itself where it reads, since only nullable symbols come before those places
(`head_ne_of_nullable_before`). The lemmas here say what reading one body, and then all bodies,
does to a FIRST set, given what the FIRST sets of the body symbols are:

* `bodyFirst_sound`, `firstFrame_sound`: it adds only what the reference allows
  (`Grammar.FirstSound`);
* `mem_bodyFirst`, `emptyMark_mem_bodyFirst`, `mem_firstFrame`: it adds what a symbol after a
  nullable prefix leads with, and the empty mark of a body that vanishes;
* `exists_bodyFirst_eq_ok`, `exists_firstFrame_eq_ok`: it succeeds when the FIRST sets it asks
  for exist.
-/

namespace GrammarBench

namespace Grammar

variable {g : Grammar}

/-! ## Names of symbols -/

/-- The name under which the FIRST set of a symbol is asked for. -/
def symbolName : Symbol Char String → String
  | .terminal c => c.toString
  | .nonterminal A => A

@[simp] theorem symbolName_bodySymbol (c : Char) : symbolName (bodySymbol c) = c.toString := by
  unfold bodySymbol
  split <;> rfl

theorem isTerminalName_of_mem {c : Char} (terminal : c ∈ g.terminals) :
    g.isTerminalName c.toString = true :=
  isTerminalName_iff.mpr ⟨c, terminal, rfl⟩

/-- An uppercase character is no terminal name of a recorded grammar. -/
theorem isTerminalName_upper (recorded : g.Recorded) {X : Char}
    (upper : Text.isUppercase X = true) : g.isTerminalName X.toString = false := by
  rw [Bool.eq_false_iff]
  intro named
  obtain ⟨c, terminal, same⟩ := isTerminalName_iff.mp named
  rw [String.singleton_inj.mp same, terminal_not_upper recorded terminal] at upper
  exact Bool.false_ne_true upper

/-- A nonterminal of a recorded well-formed grammar is no terminal name. -/
theorem isTerminalName_nonterminal (recorded : g.Recorded) (wellFormed : g.WellFormed)
    {A : String} (named : A ∈ g.nonterminals) : g.isTerminalName A = false := by
  obtain ⟨X, upper, rfl⟩ := nonterminal_upper recorded wellFormed named
  exact isTerminalName_upper recorded upper

theorem emptyMark_not_mem_terminals (recorded : g.Recorded) (wellFormed : g.WellFormed) :
    emptyMark ∉ g.terminals := by
  intro member
  obtain ⟨_, p, used, inBody⟩ := recorded.terminal_lower emptyMark member
  exact (wellFormed.body_plain p used).2.2 inBody

/-- A body character that stands for a terminal is that terminal, and it is not uppercase. -/
theorem eq_of_bodySymbol_eq_terminal {d c : Char} (same : bodySymbol d = .terminal c) :
    d = c ∧ Text.isUppercase d = false := by
  unfold bodySymbol at same
  split at same
  · cases same
  · rename_i lower
    exact ⟨Symbol.terminal.inj same, by simpa using lower⟩

/-- A terminal that a symbol of the grammar leads with is a terminal of the grammar. -/
theorem Leads.mem_terminals (recorded : g.Recorded) {x : Symbol Char String} {a : Char}
    (leads : g.Leads x a) (known : ∀ c, x = .terminal c → c ∈ g.terminals) :
    a ∈ g.terminals := by
  induction leads with
  | terminal a => exact known a rfl
  | @rule p before after y a member split _ _ ih =>
      apply ih
      intro c isTerminal
      have inForm : y ∈ p.form := by
        rw [split]
        exact List.mem_append_right before List.mem_cons_self
      obtain ⟨d, inBody, rfl⟩ := List.mem_map.mp inForm
      obtain ⟨rfl, lower⟩ := eq_of_bodySymbol_eq_terminal isTerminal
      exact recorded.lower_mem p member d inBody lower

/-- A body split at a character is the form split at its symbol. -/
theorem form_of_body {p : Production} {seen rest : List Char} {y : Char}
    (split : p.body = seen ++ y :: rest) :
    p.form = seen.map bodySymbol ++ bodySymbol y :: rest.map bodySymbol := by
  simp [Production.form, split]

/-- Over a well-formed grammar without left recursion, no body symbol that only nullable
symbols precede is the head itself. -/
theorem head_ne_of_nullable_before (wellFormed : g.WellFormed)
    (noLeft : ∀ A, ¬ g.LeftRecursive A) {p : Production} (member : p ∈ g.productions)
    {seen rest : List Char} {y : Char} (split : p.body = seen ++ y :: rest)
    (vanish : ∀ z ∈ seen, g.Nullable (bodySymbol z)) : (y.toString == p.head) = false := by
  rw [Bool.eq_false_iff]
  intro self
  obtain ⟨X, upper, named⟩ := wellFormed.head_upper p member
  have same : y = X := String.singleton_inj.mp (by simpa [named] using self)
  have corner := leftCorner_of_split member (form_of_body split) (List.forall_mem_map.mpr vanish)
  rw [same, bodySymbol_of_upper upper, ← named] at corner
  exact noLeft p.head corner

/-! ## Sound sets -/

/-- A computed set is sound for the symbol `x` when every member other than the empty mark is
a terminal that `x` leads with, and the empty mark is a member only when `x` is nullable. -/
def FirstSound (g : Grammar) (x : Symbol Char String) (s : CharSet) : Prop :=
  ∀ c ∈ s, (c ≠ emptyMark ∧ g.Leads x c) ∨ (c = emptyMark ∧ g.Nullable x)

theorem firstSound_empty (x : Symbol Char String) : g.FirstSound x CharSet.empty :=
  fun c member => absurd member (CharSet.not_mem_empty c)

theorem FirstSound.union {x : Symbol Char String} {s t : CharSet} (left : g.FirstSound x s)
    (right : g.FirstSound x t) : g.FirstSound x (s.union t) := by
  intro c member
  rcases CharSet.mem_union.mp member with inLeft | inRight
  · exact left c inLeft
  · exact right c inRight

theorem firstSound_emptyMark {x : Symbol Char String} (nullable : g.Nullable x) :
    g.FirstSound x (.single emptyMark) :=
  fun _ member => .inr ⟨CharSet.mem_single.mp member, nullable⟩

theorem FirstSound.nullable {x : Symbol Char String} {t : CharSet} (sound : g.FirstSound x t)
    (empty : emptyMark ∈ t) : g.Nullable x := by
  rcases sound emptyMark empty with ⟨notEmpty, _⟩ | ⟨_, nullable⟩
  · exact absurd rfl notEmpty
  · exact nullable

/-- What a body symbol leads with, the head leads with, when only nullable symbols come
before the symbol. -/
theorem FirstSound.lift {p : Production} (member : p ∈ g.productions)
    {before after : Sentential} {y : Symbol Char String} (split : p.form = before ++ y :: after)
    (vanish : ∀ x ∈ before, g.Nullable x) {t : CharSet} (sound : g.FirstSound y t) :
    g.FirstSound (.nonterminal p.head) (t.erase emptyMark) := by
  intro c member'
  obtain ⟨notEmpty, inT⟩ := CharSet.mem_erase.mp member'
  rcases sound c inT with ⟨_, leads⟩ | ⟨isEmpty, _⟩
  · exact .inl ⟨notEmpty, .rule member split vanish leads⟩
  · exact absurd isEmpty notEmpty

/-! ## One body -/

theorem own_eq_ok {name : String} {acc more result : CharSet}
    (owned : g.own name acc more = .ok result) :
    g.isNonterminal name = true ∧ result = acc.union more := by
  unfold own at owned
  split at owned
  · rename_i named
    exact ⟨named, (Except.ok.inj owned).symm⟩
  · simp at owned

theorem own_of_isNonterminal {name : String} (named : g.isNonterminal name = true)
    (acc more : CharSet) : g.own name acc more = .ok (acc.union more) := by
  simp [own, named]

/-- One step of reading a body: the head itself is passed over; any other symbol has its FIRST
set, less the empty mark, added, and the reading stops unless the empty mark is in that set;
after the last symbol the empty mark is added. -/
theorem bodyFirst_cons_eq_ok {name : String} {child : Char → Except Fault CharSet} {y : Char}
    {rest : List Char} {acc result : CharSet}
    (read : g.bodyFirst name child (y :: rest) acc = .ok result) :
    ((y.toString == name) = true ∧ g.bodyFirst name child rest acc = .ok result) ∨
    ((y.toString == name) = false ∧ g.isNonterminal name = true ∧ ∃ t, child y = .ok t ∧
      ((emptyMark ∉ t ∧ result = acc.union (t.erase emptyMark)) ∨
       (emptyMark ∈ t ∧ rest = [] ∧
          result = (acc.union (t.erase emptyMark)).union (.single emptyMark)) ∨
       (emptyMark ∈ t ∧ rest ≠ [] ∧
          g.bodyFirst name child rest (acc.union (t.erase emptyMark)) = .ok result))) := by
  unfold bodyFirst at read
  split at read
  · rename_i self
    exact .inl ⟨self, read⟩
  · rename_i other
    obtain ⟨t, found, next⟩ := bind_eq_ok.mp read
    obtain ⟨acc', owned, next⟩ := bind_eq_ok.mp next
    obtain ⟨named, rfl⟩ := own_eq_ok owned
    refine .inr ⟨by simpa using other, named, t, found, ?_⟩
    split at next
    · rename_i lacks
      have lacks : emptyMark ∉ t := fun has => by simp [CharSet.contains_iff.mpr has] at lacks
      exact .inl ⟨lacks, (Except.ok.inj next).symm⟩
    · rename_i has
      have has : emptyMark ∈ t := by simpa using has
      split at next
      · rename_i ends
        obtain ⟨_, rfl⟩ := own_eq_ok next
        exact .inr (.inl ⟨has, List.isEmpty_iff.mp ends, rfl⟩)
      · rename_i goesOn
        exact .inr (.inr ⟨has, by simpa using goesOn, next⟩)

/-- Reading a symbol other than the head, whose FIRST set is `t`. -/
theorem bodyFirst_cons_of_ne {name : String} {child : Char → Except Fault CharSet} {y : Char}
    (other : (y.toString == name) = false) (named : g.isNonterminal name = true) {t : CharSet}
    (found : child y = .ok t) (rest : List Char) (acc : CharSet) :
    g.bodyFirst name child (y :: rest) acc =
      if !t.contains emptyMark then .ok (acc.union (t.erase emptyMark))
      else if rest.isEmpty then .ok ((acc.union (t.erase emptyMark)).union (.single emptyMark))
      else g.bodyFirst name child rest (acc.union (t.erase emptyMark)) := by
  simp only [bodyFirst, other, Bool.false_eq_true, ↓reduceIte, found, own_of_isNonterminal named]
  rfl

/-- Reading a body only adds to what it is given. -/
theorem bodyFirst_mono {name : String} {child : Char → Except Fault CharSet} {rest : List Char} :
    ∀ {acc result : CharSet}, g.bodyFirst name child rest acc = .ok result →
      ∀ c ∈ acc, c ∈ result := by
  induction rest with
  | nil =>
      intro acc result read c member
      simp only [bodyFirst, Except.ok.injEq] at read
      exact read ▸ member
  | cons y rest ih =>
      intro acc result read c member
      rcases bodyFirst_cons_eq_ok read with ⟨_, next⟩ | ⟨_, _, t, _, outcome⟩
      · exact ih next c member
      · have kept : c ∈ acc.union (t.erase emptyMark) := CharSet.mem_union.mpr (.inl member)
        rcases outcome with ⟨_, rfl⟩ | ⟨_, _, rfl⟩ | ⟨_, _, next⟩
        · exact kept
        · exact CharSet.mem_union.mpr (.inl kept)
        · exact ih next c kept

section Body

variable (wellFormed : g.WellFormed) (noLeft : ∀ A, ¬ g.LeftRecursive A) {p : Production}
  (member : p ∈ g.productions) {child : Char → Except Fault CharSet}

include wellFormed noLeft member

/-- Reading the rest of a body after a nullable part adds only what the reference allows,
given that the FIRST sets of the body symbols do. -/
theorem bodyFirst_sound
    (children : ∀ y ∈ p.body, ∀ t, child y = .ok t → g.FirstSound (bodySymbol y) t)
    {rest : List Char} :
    ∀ (seen : List Char) {acc result : CharSet}, p.body = seen ++ rest →
      (∀ z ∈ seen, g.Nullable (bodySymbol z)) → g.FirstSound (.nonterminal p.head) acc →
      g.bodyFirst p.head child rest acc = .ok result →
      g.FirstSound (.nonterminal p.head) result := by
  induction rest with
  | nil =>
      intro seen acc result _ _ accSound read
      simp only [bodyFirst, Except.ok.injEq] at read
      exact read ▸ accSound
  | cons y rest ih =>
      intro seen acc result split vanish accSound read
      rcases bodyFirst_cons_eq_ok read with ⟨self, _⟩ | ⟨_, _, t, found, outcome⟩
      · rw [head_ne_of_nullable_before wellFormed noLeft member split vanish] at self
        exact absurd self Bool.false_ne_true
      have inBody : y ∈ p.body := by simp [split]
      have tSound := children y inBody t found
      have accSound' := accSound.union
        (tSound.lift member (form_of_body split) (List.forall_mem_map.mpr vanish))
      rcases outcome with ⟨_, rfl⟩ | ⟨has, rfl, rfl⟩ | ⟨has, _, next⟩
      · exact accSound'
      · have everything : ∀ x ∈ p.form, g.Nullable x := by
          rw [form_of_body split]
          intro x inForm
          simp only [List.map_nil, List.mem_append, List.mem_map, List.mem_singleton] at inForm
          rcases inForm with ⟨z, inSeen, rfl⟩ | rfl
          · exact vanish z inSeen
          · exact tSound.nullable has
        exact accSound'.union (firstSound_emptyMark (.rule member everything))
      · refine ih (seen ++ [y]) (by simp [split]) ?_ accSound' next
        intro z inSeen
        rcases List.mem_append.mp inSeen with earlier | last
        · exact vanish z earlier
        · rw [List.mem_singleton.mp last]
          exact tSound.nullable has

/-- Reading a body adds what a symbol leads with when only nullable symbols, whose FIRST sets
hold the empty mark, come before it. -/
theorem mem_bodyFirst {a : Char} (notEmpty : a ≠ emptyMark) {y : Char} {after : List Char}
    (yields : ∀ t, child y = .ok t → a ∈ t) {between : List Char} :
    ∀ (seen : List Char) {acc result : CharSet}, p.body = seen ++ between ++ y :: after →
      (∀ z ∈ seen ++ between, g.Nullable (bodySymbol z)) →
      (∀ z ∈ between, ∀ t, child z = .ok t → emptyMark ∈ t) →
      g.bodyFirst p.head child (between ++ y :: after) acc = .ok result → a ∈ result := by
  induction between with
  | nil =>
      intro seen acc result split vanish _ read
      rw [List.append_nil] at split vanish
      rcases bodyFirst_cons_eq_ok read with ⟨self, _⟩ | ⟨_, _, t, found, outcome⟩
      · rw [head_ne_of_nullable_before wellFormed noLeft member split vanish] at self
        exact absurd self Bool.false_ne_true
      have added : a ∈ acc.union (t.erase emptyMark) :=
        CharSet.mem_union.mpr (.inr (CharSet.mem_erase.mpr ⟨notEmpty, yields t found⟩))
      rcases outcome with ⟨_, rfl⟩ | ⟨_, _, rfl⟩ | ⟨_, _, next⟩
      · exact added
      · exact CharSet.mem_union.mpr (.inl added)
      · exact bodyFirst_mono next a added
  | cons z between ih =>
      intro seen acc result split vanish yieldsEmpty read
      have splitAtZ : p.body = seen ++ z :: (between ++ y :: after) := by simp [split]
      have vanishSeen : ∀ w ∈ seen, g.Nullable (bodySymbol w) :=
        fun w inSeen => vanish w (List.mem_append_left _ inSeen)
      rcases bodyFirst_cons_eq_ok read with ⟨self, _⟩ | ⟨_, _, t, found, outcome⟩
      · rw [head_ne_of_nullable_before wellFormed noLeft member splitAtZ vanishSeen] at self
        exact absurd self Bool.false_ne_true
      have has := yieldsEmpty z List.mem_cons_self t found
      rcases outcome with ⟨lacks, _⟩ | ⟨_, ends, _⟩ | ⟨_, _, next⟩
      · exact absurd has lacks
      · simp at ends
      · refine ih (seen ++ [z]) (by simp [split]) ?_
          (fun w inBetween => yieldsEmpty w (List.mem_cons_of_mem z inBetween)) next
        intro w inPrefix
        exact vanish w (by simpa using inPrefix)

/-- Reading a body whose symbols are all nullable, and whose FIRST sets hold the empty mark,
adds the empty mark. -/
theorem emptyMark_mem_bodyFirst (vanish : ∀ z ∈ p.body, g.Nullable (bodySymbol z))
    (yields : ∀ z ∈ p.body, ∀ t, child z = .ok t → emptyMark ∈ t) {rest : List Char} :
    ∀ (seen : List Char) {acc result : CharSet}, p.body = seen ++ rest → rest ≠ [] →
      g.bodyFirst p.head child rest acc = .ok result → emptyMark ∈ result := by
  induction rest with
  | nil => intro _ _ _ _ nonempty; exact absurd rfl nonempty
  | cons z rest ih =>
      intro seen acc result split _ read
      have inBody : z ∈ p.body := by simp [split]
      have vanishSeen : ∀ w ∈ seen, g.Nullable (bodySymbol w) :=
        fun w inSeen => vanish w (by simp [split, inSeen])
      rcases bodyFirst_cons_eq_ok read with ⟨self, _⟩ | ⟨_, _, t, found, outcome⟩
      · rw [head_ne_of_nullable_before wellFormed noLeft member split vanishSeen] at self
        exact absurd self Bool.false_ne_true
      have has := yields z inBody t found
      rcases outcome with ⟨lacks, _⟩ | ⟨_, _, rfl⟩ | ⟨_, goesOn, next⟩
      · exact absurd has lacks
      · exact CharSet.mem_union.mpr (.inr (CharSet.mem_single.mpr rfl))
      · exact ih (seen ++ [z]) (by simp [split]) goesOn next

/-- Reading a body succeeds when the FIRST set of every symbol after a nullable part exists. -/
theorem exists_bodyFirst_eq_ok (named : g.isNonterminal p.head = true)
    (children : ∀ y ∈ p.body, ∀ t, child y = .ok t → g.FirstSound (bodySymbol y) t)
    (calls : ∀ seen y rest, p.body = seen ++ y :: rest →
      (∀ z ∈ seen, g.Nullable (bodySymbol z)) → ∃ t, child y = .ok t) {rest : List Char} :
    ∀ (seen : List Char) (acc : CharSet), p.body = seen ++ rest →
      (∀ z ∈ seen, g.Nullable (bodySymbol z)) →
      ∃ result, g.bodyFirst p.head child rest acc = .ok result := by
  induction rest with
  | nil => intro _ acc _ _; exact ⟨acc, rfl⟩
  | cons y rest ih =>
      intro seen acc split vanish
      obtain ⟨t, found⟩ := calls seen y rest split vanish
      rw [bodyFirst_cons_of_ne (head_ne_of_nullable_before wellFormed noLeft member split vanish)
        named found]
      split
      · exact ⟨_, rfl⟩
      · rename_i has
        have has : emptyMark ∈ t := by simpa using has
        split
        · exact ⟨_, rfl⟩
        · refine ih (seen ++ [y]) _ (by simp [split]) ?_
          intro z inSeen
          rcases List.mem_append.mp inSeen with earlier | last
          · exact vanish z earlier
          · rw [List.mem_singleton.mp last]
            exact (children y (by simp [split]) t found).nullable has

end Body

/-! ## All bodies -/

/-- Reading all bodies of `name` adds only what the reference allows, given that the FIRST
sets of their symbols do. -/
theorem firstFrame_sound (wellFormed : g.WellFormed) (noLeft : ∀ A, ¬ g.LeftRecursive A)
    {name : String} {child : Char → Except Fault CharSet}
    (children : ∀ p ∈ g.productions, p.head = name →
      ∀ y ∈ p.body, ∀ t, child y = .ok t → g.FirstSound (bodySymbol y) t)
    {result : CharSet} (read : g.firstFrame name child = .ok result) :
    g.FirstSound (.nonterminal name) result := by
  unfold firstFrame at read
  obtain ⟨acc, folded, checked⟩ := bind_eq_ok.mp read
  have accSound : g.FirstSound (.nonterminal name) acc := by
    refine foldlM_invariant (g.FirstSound (.nonterminal name)) (firstSound_empty _) ?_ folded
    intro acc p acc' sound member step
    split at step
    · exact (Except.ok.inj step) ▸ sound
    · rename_i sameHead
      have head : p.head = name := by simpa using sameHead
      subst head
      split at step
      · rename_i empty
        obtain ⟨_, rfl⟩ := own_eq_ok step
        have everything : ∀ x ∈ p.form, g.Nullable x := by
          simp [Production.form, List.isEmpty_iff.mp empty]
        exact sound.union (firstSound_emptyMark (.rule member everything))
      · exact bodyFirst_sound wellFormed noLeft member (children p member rfl) [] rfl
          (by simp) sound step
  split at checked
  · exact (Except.ok.inj checked) ▸ accSound
  · simp at checked

/-- A member that reading one body of `name` adds, whatever it is given, is in the FIRST set
of `name`. -/
theorem mem_firstFrame {name : String} {child : Char → Except Fault CharSet} {p : Production}
    (member : p ∈ g.productions) (head : p.head = name) {c : Char}
    (adds : ∀ acc r, (if p.body.isEmpty then g.own name acc (.single emptyMark)
      else g.bodyFirst name child p.body acc) = .ok r → c ∈ r)
    {result : CharSet} (read : g.firstFrame name child = .ok result) : c ∈ result := by
  unfold firstFrame at read
  obtain ⟨acc, folded, checked⟩ := bind_eq_ok.mp read
  have inAcc : c ∈ acc := by
    refine foldlM_of_mem (c ∈ ·) member ?_ ?_ folded
    · intro a a' step
      simp only [head, bne_self_eq_false, Bool.false_eq_true, ↓reduceIte] at step
      exact adds a a' step
    · intro a q a' inA step
      split at step
      · exact (Except.ok.inj step) ▸ inA
      · split at step
        · obtain ⟨_, rfl⟩ := own_eq_ok step
          exact CharSet.mem_union.mpr (.inl inA)
        · exact bodyFirst_mono step c inA
  split at checked
  · exact (Except.ok.inj checked) ▸ inAcc
  · simp at checked

/-- Reading all bodies of a nonterminal succeeds when reading each of its nonempty bodies
does. -/
theorem exists_firstFrame_eq_ok {name : String} {child : Char → Except Fault CharSet}
    (named : g.isNonterminal name = true)
    (bodies : ∀ p ∈ g.productions, p.head = name → p.body ≠ [] →
      ∀ acc, ∃ r, g.bodyFirst name child p.body acc = .ok r) :
    ∃ result, g.firstFrame name child = .ok result := by
  have steps : ∀ acc, ∀ p ∈ g.productions, ∃ acc',
      (if p.head != name then .ok acc
        else if p.body.isEmpty then g.own name acc (.single emptyMark)
        else g.bodyFirst name child p.body acc) = .ok acc' := by
    intro acc p member
    split
    · exact ⟨acc, rfl⟩
    · rename_i sameHead
      split
      · exact ⟨_, own_of_isNonterminal named acc _⟩
      · rename_i nonempty
        exact bodies p member (by simpa using sameHead) (by simpa using nonempty) acc
  obtain ⟨acc, folded⟩ := exists_foldlM_eq_ok steps CharSet.empty
  refine ⟨acc, ?_⟩
  simp only [firstFrame, folded, named]
  rfl

end Grammar

end GrammarBench
