import Reformat.Proofs.Moves

/-! What the check of a table is worth: all references in its rows lead to terminals, reductions and
states that the table has. -/

namespace Reformat

/-- All references of a row lie within an extent. -/
structure Row.Within (e : Extent) (row : Row) : Prop where
  terminal : ∀ id action, (id, action) ∈ row.actions → id < e.terminals
  shift : ∀ id next, (id, .shift next) ∈ row.actions → next < e.states
  reduce : ∀ id reduction, (id, .reduce reduction) ∈ row.actions → reduction < e.reductions
  goto : ∀ name next, (name, next) ∈ row.gotos → next < e.states
  otherwise : ∀ reduction ∈ row.otherwise, reduction < e.reductions

namespace Extent

variable {e : Extent} {source target : StateId}

theorem stateErrors_eq_nil : e.stateErrors source target = [] ↔ target < e.states := by
  simp [stateErrors]

theorem reductionErrors_eq_nil {id : ReductionId} :
    e.reductionErrors source id = [] ↔ id < e.reductions := by
  simp [reductionErrors]

theorem terminalErrors_eq_nil {id : TerminalId} :
    e.terminalErrors source id = [] ↔ id < e.terminals := by
  simp [terminalErrors]

/-- A row has no errors if and only if its references lie within the extent. -/
theorem rowErrors_eq_nil {row : Row} : e.rowErrors source row = [] ↔ row.Within e := by
  simp only [rowErrors, List.append_eq_nil_iff, List.flatMap_eq_nil_iff, terminalErrors_eq_nil,
    stateErrors_eq_nil, reductionErrors_eq_nil, Option.mem_toList, Prod.forall]
  constructor
  · rintro ⟨⟨hactions, hgotos⟩, hotherwise⟩
    refine ⟨fun id action h => (hactions id action h).1, ?_, ?_, hgotos, hotherwise⟩
    · exact fun id next h => stateErrors_eq_nil.mp (hactions id _ h).2
    · exact fun id reduction h => reductionErrors_eq_nil.mp (hactions id _ h).2
  · intro h
    refine ⟨⟨fun id action haction => ⟨h.terminal id action haction, ?_⟩, h.goto⟩, h.otherwise⟩
    cases action with
    | shift next => exact stateErrors_eq_nil.mpr (h.shift id next haction)
    | reduce reduction => exact reductionErrors_eq_nil.mpr (h.reduce id reduction haction)

end Extent

namespace ParseTable

variable {t : ParseTable} {q next : StateId}

/-- What a table has to refer to. -/
def extent (t : ParseTable) : Extent := ⟨t.terminals.size, t.reductions.size, t.numStates⟩

theorem within_row (t : ParseTable) (q : StateId) : (t.row q).Within t.extent := by
  rw [row]
  cases hrow : t.rows[q]? with
  | none => exact ⟨by simp, by simp, by simp, by simp, by simp⟩
  | some row =>
    have hvalid := t.valid
    simp only [definitionErrors, List.append_eq_nil_iff, List.flatMap_eq_nil_iff] at hvalid
    have hmem : (row, q) ∈ t.rows.toList.zipIdx := by
      rw [List.mk_mem_zipIdx_iff_getElem?, Array.getElem?_toList]
      exact hrow
    exact Extent.rowErrors_eq_nil.mp (hvalid.2 (row, q) hmem)

theorem numStates_pos (t : ParseTable) : 0 < t.numStates := by
  have hvalid := t.valid
  simp only [definitionErrors, List.append_eq_nil_iff] at hvalid
  have hne : ¬ t.rows.isEmpty = true := by
    intro hempty
    simp [hempty] at hvalid
  rw [Array.isEmpty_iff_size_eq_zero] at hne
  exact Nat.pos_of_ne_zero hne

theorem lt_of_goto? {name : String} (h : (t.row q).goto? name = some next) : next < t.numStates :=
  (t.within_row q).goto name next (Association.mem_of_get? h)

theorem lt_of_action? {terminal : TerminalId} {action : Action}
    (h : (t.row q).action? terminal = some action) : terminal < t.terminals.size :=
  (t.within_row q).terminal terminal action (Association.mem_of_get? h)

theorem lt_of_shift {terminal : TerminalId}
    (h : (t.row q).action? terminal = some (.shift next)) : next < t.numStates :=
  (t.within_row q).shift terminal next (Association.mem_of_get? h)

/-- A shift that a table calls for is an action of the row, on a terminal that matches. -/
theorem action?_of_move? {text : List Char} {terminal : TerminalId} {n : Nat}
    (h : t.move? q text = some (.shift terminal next n)) : ∃ u, (u, terminal) ∈ t.numbered ∧
      (t.row q).action? terminal = some (.shift next) ∧ u.matchLength? text = some n := by
  unfold move? at h
  split at h
  · next hnext =>
    simp only [Option.some.injEq, Move.shift.injEq] at h
    obtain ⟨rfl, rfl, rfl⟩ := h
    exact exists_of_nextAction? hnext
  · simp at h
  · simp at h

/-- A reduction that a table calls for is one of its reductions. -/
theorem lt_of_reduce {text : List Char} {id : ReductionId}
    (h : t.move? q text = some (.reduce id)) : id < t.reductions.size := by
  unfold move? at h
  split at h
  · simp at h
  · next hnext =>
    simp only [Option.some.injEq, Move.reduce.injEq] at h
    subst h
    obtain ⟨u, -, haction, -⟩ := exists_of_nextAction? hnext
    exact (t.within_row q).reduce _ _ (Association.mem_of_get? haction)
  · obtain ⟨reduction, hotherwise, hid⟩ := Option.map_eq_some_iff.mp h
    obtain rfl : reduction = id := Move.reduce.inj hid
    exact (t.within_row q).otherwise reduction hotherwise

end ParseTable

end Reformat
