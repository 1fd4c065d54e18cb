import Reformat.Proofs.Tables

/-! Which move a table makes where the text or the state leaves only one. -/

namespace Reformat

/-- No state of the automaton has to choose between a reduction and anything else. -/
def Automaton.ConflictFree (a : Automaton) : Prop :=
  ∀ s ∈ a.states, s.reduces = [] ∨ s.reduces.length = 1 ∧ s.shifts = []

/-- A word is what a pattern of the grammar matches at the start of a text, and no pattern that is
tried before it matches anything there. -/
def Grammar.Prefers (engine : Engine) (g : Grammar) (pattern : String) (word text : List Char) :
    Prop :=
  word ≠ [] ∧ word <+: text ∧ ∃ (earlier : List Terminal) (u : Terminal) (later : List Terminal),
    g.terminals engine = earlier ++ u :: later ∧ u.pattern = pattern ∧
      u.matchBytes? text = some (Text.byteLength word) ∧ ∀ v ∈ earlier, v.matchLength? text = none

theorem Grammar.prefers_of_find? {engine : Engine} {g : Grammar} {pattern : String}
    {word text : List Char} (hne : word ≠ []) (hword : word <+: text)
    (h : ((g.terminals engine).find? fun u => (u.matchLength? text).isSome).any (fun u =>
      u.pattern = pattern ∧ u.matchBytes? text = some (Text.byteLength word)) = true) :
    g.Prefers engine pattern word text := by
  obtain ⟨u, hu, hmatch⟩ := (Option.any_eq_true _ _).mp h
  obtain ⟨-, earlier, later, hterminals, hnone⟩ := List.find?_eq_some_iff_append.mp hu
  obtain ⟨hpattern, hbytes⟩ := of_decide_eq_true hmatch
  refine ⟨hne, hword, earlier, u, later, hterminals, hpattern, hbytes, ?_⟩
  intro v hv
  simpa using hnone v hv

theorem Association.mem_of_get? {κ ν : Type} [DecidableEq κ] {key : κ} {value : ν}
    {pairs : List (κ × ν)} (h : get? key pairs = some value) : (key, value) ∈ pairs := by
  induction pairs with
  | nil => simp [get?] at h
  | cons pair pairs ih =>
    obtain ⟨k, v⟩ := pair
    rw [get?] at h
    split at h
    · next hk =>
      rw [hk, Option.some.inj h]
      exact List.mem_cons_self
    · exact List.mem_cons_of_mem _ (ih h)

/-- Beginnings of a text are equal if they are equally long in bytes. -/
theorem Text.eq_of_byteLength_eq {u v text : List Char} (hu : u <+: text) (hv : v <+: text)
    (h : byteLength u = byteLength v) : u = v := by
  have hextend : ∀ {u v : List Char}, u <+: v → byteLength u = byteLength v → u = v := by
    rintro u v ⟨w, rfl⟩ h
    rw [byteLength_append] at h
    have hw : w = [] := byteLength_eq_zero.mp (by omega)
    rw [hw, List.append_nil]
  -- one of the two begins with the other
  rcases List.prefix_or_prefix_of_prefix hu hv with huv | hvu
  · exact hextend huv h
  · exact (hextend hvu h.symm).symm

theorem Terminal.matchLength?_of_matchBytes? {u : Terminal} {word text : List Char}
    (hword : word <+: text) (h : u.matchBytes? text = some (Text.byteLength word)) :
    u.matchLength? text = some word.length := by
  obtain ⟨found, rest, htext, -, hbytes, hlength⟩ := Terminal.exists_prefix_of_matchBytes? h
  rw [hlength, Text.eq_of_byteLength_eq ⟨rest, htext.symm⟩ hword hbytes]

theorem Automaton.shifts_of_next? {a : Automaton} {q next : StateId} {pattern : String}
    (h : a.next? q (.terminal pattern) = some next) : a.shifts pattern = true := by
  obtain ⟨s, hs, hget⟩ := Option.bind_eq_some_iff.mp h
  rw [← AutomatonState.get?_shifts] at hget
  have hmem := Association.mem_of_get? hget
  rw [Automaton.shifts, Array.any_eq_true']
  refine ⟨s, Array.mem_of_getElem? hs, ?_⟩
  rw [List.any_eq_true]
  exact ⟨_, hmem, decide_eq_true rfl⟩

namespace TableOf

variable {engine : Engine} {g : Augmented} {t : ParseTable} {q next : StateId} {pattern : String}
  {word text : List Char} {id : ReductionId} {rule : Rule}

/-- Of the terminals of a table the preferred one comes before all others that match. -/
theorem firstMatch?_eq (h : TableOf engine g t)
    (hnext : g.automaton.next? q (.terminal pattern) = some next)
    (hprefers : g.grammar.Prefers engine pattern word text) : ∃ terminal u,
      t.terminals[terminal]? = some u ∧ u.pattern = pattern ∧
      ∀ wanted : Action → Bool, wanted (.shift next) = true →
        t.firstMatch? (t.row q) text wanted = some (terminal, .shift next, word.length) := by
  obtain ⟨-, hword, earlier, u, later, hterminals, rfl, hbytes, hnone⟩ := hprefers
  have hlength := Terminal.matchLength?_of_matchBytes? hword hbytes
  have hlist := h.terminals
  rw [hterminals, List.filter_append,
    List.filter_cons_of_pos (p := fun v : Terminal => g.automaton.shifts v.pattern)
      (Automaton.shifts_of_next? hnext)] at hlist
  generalize hearlier : earlier.filter (g.automaton.shifts ·.pattern) = before at hlist
  have hu : t.terminals[before.length]? = some u := by
    rw [← Array.getElem?_toList, hlist, List.getElem?_append_right (Nat.le_refl _), Nat.sub_self]
    rfl
  have haction : (t.row q).action? before.length = some (.shift next) := by
    obtain ⟨s, hs, hget⟩ := Option.bind_eq_some_iff.mp hnext
    rw [h.action?_eq, hs, Option.bind_some, hu, Option.bind_some]
    exact AutomatonState.action?_eq_shift.mpr hget
  refine ⟨before.length, u, hu, rfl, fun wanted hwanted => ?_⟩
  rw [ParseTable.firstMatch?, h.numbered_eq, hlist, List.zipIdx_append, List.findSome?_append,
    List.findSome?_eq_none_iff.mpr]
  · rw [Option.none_or, List.zipIdx_cons, List.findSome?_cons]
    simp [haction, hwanted, hlength]
  · -- what comes before it in the table comes before it in the grammar
    rintro ⟨v, id⟩ hv
    have hmem : v ∈ earlier := by
      have hvbefore := List.fst_mem_of_mem_zipIdx hv
      rw [← hearlier] at hvbefore
      exact (List.mem_filter.mp hvbefore).1
    dsimp only
    rw [hnone v hmem]
    split
    · rfl
    · split <;> rfl

/-- A terminal that can be shifted is shifted if it is preferred. -/
theorem exists_shift (h : TableOf engine g t)
    (hnext : g.automaton.next? q (.terminal pattern) = some next)
    (hprefers : g.grammar.Prefers engine pattern word text) : ∃ terminal,
      t.move? q text = some (.shift terminal next word.length) ∧ t.pattern terminal = pattern := by
  obtain ⟨terminal, u, hu, hpattern, hfirst⟩ := h.firstMatch?_eq hnext hprefers
  refine ⟨terminal, ?_, (ParseTable.pattern_eq hu).trans hpattern⟩
  have haction : t.nextAction? q text = some (terminal, .shift next, word.length) := by
    rw [ParseTable.nextAction?, hfirst, Option.some_or]
    rfl
  rw [ParseTable.move?, haction]

/-- A complete item is reduced, whatever the text is, if there is nothing to choose. -/
theorem move?_of_complete (h : TableOf engine g t) (hfree : g.automaton.ConflictFree)
    (hrule : g.rule? id = some rule) (hholds : g.Holds q ⟨id, rule.arity⟩) (text : List Char) :
    t.move? q text = some (.reduce id) := by
  obtain ⟨s, hs⟩ : ∃ s, g.automaton.states[q]? = some s := ⟨_, hholds.choose_spec.1⟩
  have hmem := (Augmented.mem_reduces_iff hs).mpr ⟨rule, hrule, hholds⟩
  obtain ⟨hwinner, hshifts⟩ : s.winner? = some id ∧ s.shifts = [] := by
    rcases hfree s (Array.mem_of_getElem? hs) with hnone | ⟨hone, hshifts⟩
    · simp [hnone] at hmem
    · obtain ⟨other, hother⟩ := List.length_eq_one_iff.mp hone
      rw [hother, List.mem_singleton] at hmem
      exact ⟨by rw [AutomatonState.winner?, hother, hmem]; rfl, hshifts⟩
  -- with a terminal or without one, the only thing to do is to reduce
  rw [ParseTable.move?]
  cases hnext : t.nextAction? q text with
  | none =>
    dsimp only
    rw [h.otherwise_eq, hs, Option.bind_some, hwinner, Option.map_some]
  | some found =>
    obtain ⟨terminal, action, n⟩ := found
    obtain ⟨u, hu, haction, -⟩ := h.action?_of_nextAction? hnext
    rw [h.action?_eq, hs, Option.bind_some, hu, Option.bind_some, AutomatonState.action?, hshifts,
      Association.get?, hwinner] at haction
    obtain rfl := Option.some.inj haction
    rfl

end TableOf

end Reformat
