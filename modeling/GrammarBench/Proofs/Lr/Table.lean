import GrammarBench.Lr.Table
import GrammarBench.Proofs.Except
import GrammarBench.Proofs.Lr.Item

/-!
# What the cells of the ACTION/GOTO table hold

Every cell of a built table is empty or holds what one item of its state wrote there
(`ActionTable.CellWrite`): `Accept` under the end marker, `rN` under a lookahead of a
finished item, and `sN` under a terminal or `N` under a nonterminal after the dot of an
unfinished item, `N` being a state whose sorted labels are those of the goto set. Later
items overwrite earlier ones, so which of several writes a cell keeps is not known, but it
is always one of them (`ActionTable.lookup_build`).
-/

namespace GrammarBench

theorem lookup_cons_eq_some {key k t v : String} {rest : List (String × String)}
    (found : ((k, v) :: rest).lookup key = some t) :
    (key = k ∧ t = v) ∨ rest.lookup key = some t := by
  rw [List.lookup_cons] at found
  cases same : key == k with
  | true =>
      simp only [same, Option.some.injEq] at found
      exact Or.inl ⟨beq_iff_eq.mp same, found.symm⟩
  | false =>
      simp only [same] at found
      exact Or.inr found

theorem lookup_overwrite (row : List (String × String)) (key value other : String) :
    (row.map fun (k, v) => if k == key then (k, value) else (k, v)).lookup other =
      (row.lookup other).map fun v => if other = key then value else v := by
  induction row with
  | nil => rfl
  | cons entry rest ih =>
      obtain ⟨k, v⟩ := entry
      have written : (if k == key then (k, value) else (k, v)) =
          (k, if k == key then value else v) := by
        split <;> rfl
      simp only [List.map_cons, written, List.lookup_cons]
      cases same : other == k with
      | true => simp [beq_iff_eq.mp same]
      | false => exact ih

/-- A cell of a row after a write holds the text written, under the key written, or what it
held before. -/
theorem lookup_writeCell_eq_some {row : List (String × String)} {key value other t : String}
    (found : (writeCell row key value).lookup other = some t) :
    (other = key ∧ t = value) ∨ row.lookup other = some t := by
  unfold writeCell at found
  split at found
  · rw [lookup_overwrite] at found
    obtain ⟨v, held, written⟩ := Option.map_eq_some_iff.mp found
    by_cases same : other = key
    · simp only [same, if_true] at written
      exact Or.inl ⟨same, written.symm⟩
    · simp only [same, if_false] at written
      exact Or.inr (written ▸ held)
  · rw [List.lookup_append] at found
    cases held : row.lookup other with
    | some v =>
        rw [held, Option.some_or] at found
        exact Or.inr found
    | none =>
        rw [held, Option.none_or] at found
        rcases lookup_cons_eq_some found with written | past
        · exact Or.inl written
        · simp at past

theorem lookup_foldl_writeCell_eq_some {cs : List Char} {row : List (String × String)}
    {value other t : String}
    (found : (cs.foldl (fun row c => writeCell row c.toString value) row).lookup other = some t) :
    (∃ c ∈ cs, other = c.toString ∧ t = value) ∨ row.lookup other = some t := by
  induction cs generalizing row with
  | nil => exact Or.inr found
  | cons c rest ih =>
      rcases ih found with ⟨d, member, written⟩ | earlier
      · exact Or.inl ⟨d, List.mem_cons_of_mem c member, written⟩
      · rcases lookup_writeCell_eq_some earlier with written | kept
        · exact Or.inl ⟨c, List.mem_cons_self, written⟩
        · exact Or.inr kept

/-- A production found by its text has that text. -/
theorem text_of_productionIndex {productions : List Production} {text : String} {n : Nat}
    (found : productionIndex productions text = .ok n) :
    ∃ p, productions[n]? = some p ∧ p.text = text := by
  unfold productionIndex at found
  split at found
  · rename_i m located
    simp only [Except.ok.injEq] at found
    subst found
    obtain ⟨within, named, _⟩ := List.findIdx?_eq_some_iff_getElem.mp located
    exact ⟨productions[m], List.getElem?_eq_getElem within, beq_iff_eq.mp named⟩
  · simp at found

/-- The last state with the given labels is a state with these labels. -/
theorem getElem?_of_lastStateWith {labels : List (List String)} {key : List String} {v : Nat}
    (found : lastStateWith labels key = some v) : labels[v]? = some key := by
  obtain ⟨⟨labelled, i⟩, last, rfl⟩ := Option.map_eq_some_iff.mp found
  have member := List.mem_filter.mp (List.mem_of_getLast? last)
  rw [List.mem_zipIdx_iff_getElem?] at member
  rw [member.1, beq_iff_eq.mp member.2]

namespace ActionTable

/-- What an item of `state` writes into the cell of a symbol, with the facts that made it
write there: the symbol first, then the text. -/
inductive CellWrite (g : Grammar) (ctx : ItemContext) (labels : List (List String))
    (state : List Item) : String → String → Prop
  | accept (it : Item) (member : it ∈ state) (finished : it.isComplete = true)
      (accepting : accepts ctx.productions it.head
        (String.ofList (it.dottedBody.filter (· != '.'))) = .ok true) :
      CellWrite g ctx labels state endMarker.toString "Accept"
  | reduce (it : Item) (member : it ∈ state) (finished : it.isComplete = true)
      (notAccepting : accepts ctx.productions it.head
        (String.ofList (it.dottedBody.filter (· != '.'))) = .ok false)
      (n : Nat) (index : productionIndex ctx.productions
        (it.head ++ "->" ++ String.ofList (it.dottedBody.filter (· != '.'))) = .ok n)
      (c : Char) (lookahead : c ∈ it.lookahead) :
      CellWrite g ctx labels state c.toString s!"r{n}"
  | shift (it : Item) (member : it ∈ state) (unfinished : it.isComplete = false)
      (x : Char) (symbol : it.nextSymbol = .ok x) (next : List Item)
      (moved : ctx.goto state x.toString = .ok next) (v : Nat)
      (found : lastStateWith labels (sortedLabels next) = some v)
      (terminal : g.terminals.contains x = true) :
      CellWrite g ctx labels state x.toString s!"s{v}"
  | goto (it : Item) (member : it ∈ state) (unfinished : it.isComplete = false)
      (x : Char) (symbol : it.nextSymbol = .ok x) (next : List Item)
      (moved : ctx.goto state x.toString = .ok next) (v : Nat)
      (found : lastStateWith labels (sortedLabels next) = some v)
      (notTerminal : g.terminals.contains x = false)
      (nonterminal : g.isNonterminal x.toString = true) :
      CellWrite g ctx labels state x.toString s!"{v}"

variable {g : Grammar} {ctx : ItemContext} {labels : List (List String)} {state : List Item}

/-- A cell after one item has written its cells holds what that item wrote or what it held
before. -/
theorem lookup_itemCells {row row' : List (String × String)} {it : Item} (member : it ∈ state)
    (written : itemCells g ctx labels state row it = .ok row') {key t : String}
    (found : row'.lookup key = some t) :
    CellWrite g ctx labels state key t ∨ row.lookup key = some t := by
  unfold itemCells at written
  split at written
  · rename_i finished
    obtain ⟨accepting, checked, written⟩ := bind_eq_ok.mp written
    cases accepting with
    | true =>
        simp only [if_true, pure, Except.pure, Except.ok.injEq] at written
        subst written
        rcases lookup_writeCell_eq_some found with ⟨rfl, rfl⟩ | kept
        · exact Or.inl (.accept it member finished checked)
        · exact Or.inr kept
    | false =>
        obtain ⟨n, index, written⟩ := bind_eq_ok.mp written
        simp only [pure, Except.pure, Except.ok.injEq] at written
        subst written
        rcases lookup_foldl_writeCell_eq_some found with ⟨c, lookahead, rfl, rfl⟩ | kept
        · exact Or.inl (.reduce it member finished checked n index c lookahead)
        · exact Or.inr kept
  · rename_i unfinished
    obtain ⟨x, symbol, written⟩ := bind_eq_ok.mp written
    obtain ⟨next, moved, written⟩ := bind_eq_ok.mp written
    split at written
    · simp only [pure, Except.pure, Except.ok.injEq] at written
      exact Or.inr (written ▸ found)
    · rename_i v target
      split at written
      · rename_i terminal
        simp only [pure, Except.pure, Except.ok.injEq] at written
        subst written
        rcases lookup_writeCell_eq_some found with ⟨rfl, rfl⟩ | kept
        · exact Or.inl (.shift it member (by simpa using unfinished) x symbol next moved v target
            terminal)
        · exact Or.inr kept
      · rename_i notTerminal
        split at written
        · rename_i nonterminal
          simp only [pure, Except.pure, Except.ok.injEq] at written
          subst written
          rcases lookup_writeCell_eq_some found with ⟨rfl, rfl⟩ | kept
          · exact Or.inl (.goto it member (by simpa using unfinished) x symbol next moved v target
              (by simpa using notTerminal) nonterminal)
          · exact Or.inr kept
        · simp only [pure, Except.pure, Except.ok.injEq] at written
          exact Or.inr (written ▸ found)

theorem lookup_blank {keys : List String} {key t : String}
    (found : (keys.map fun s => (s, "")).lookup key = some t) : t = "" := by
  induction keys with
  | nil => simp at found
  | cons k rest ih =>
      rcases lookup_cons_eq_some found with ⟨_, rfl⟩ | later
      · rfl
      · exact ih later

/-- Every cell of a built table is empty or holds what an item of its state wrote there. -/
theorem lookup_build {table : ActionTable} {states : List (List Item)}
    (built : build g ctx states = .ok table) {i : Nat} {row : List (String × String)}
    (inStates : states[i]? = some state) (inRows : table.rows[i]? = some row) {key t : String}
    (found : row.lookup key = some t) :
    t = "" ∨ CellWrite g ctx (states.map sortedLabels) state key t := by
  unfold build at built
  obtain ⟨rows, run, listed⟩ := bind_eq_ok.mp built
  simp only [pure, Except.pure, Except.ok.injEq] at listed
  subst listed
  have filled := Forall₂.of_getElem? (mapM_forall₂ run) inStates inRows
  refine foldlM_invariant
    (fun row => ∀ key t, row.lookup key = some t → t = "" ∨
      CellWrite g ctx (states.map sortedLabels) state key t)
    (fun key t blank => Or.inl (lookup_blank blank)) ?_ filled key t found
  intro before it after held member written key t found
  rcases lookup_itemCells member written found with write | kept
  · exact Or.inr write
  · exact held key t kept

end ActionTable

end GrammarBench
