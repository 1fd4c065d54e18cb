import Reformat.Proofs.ItemSets
import Reformat.Proofs.Moves

/-! What a set of items calls for before a text, without a table: to read the first pattern after a
dot that matches, or else to reduce the first complete rule. A table makes the same choice. -/

namespace Reformat

section

variable {α β γ : Type}

theorem findSome?_filterMap (f : α → Option β) (k : β → Option γ) (as : List α) :
    (as.filterMap f).findSome? k = as.findSome? fun a => (f a).bind k := by
  rw [← List.head?_filterMap, ← List.head?_filterMap, List.filterMap_filterMap]

/-- What yields nothing may be left out. -/
theorem findSome?_filter {p : α → Bool} {f : α → Option β} {as : List α}
    (h : ∀ a ∈ as, p a = false → f a = none) : (as.filter p).findSome? f = as.findSome? f := by
  rw [← List.head?_filterMap, ← List.head?_filterMap, List.filterMap_filter]
  congr 1
  apply List.filterMap_congr
  intro a ha
  cases hp : p a with
  | true => rfl
  | false => exact (h a ha hp).symm

/-- Of values that yield the same, the first one is enough. -/
theorem findSome?_eraseDupsBy {r : α → α → Bool} {f : α → Option β}
    (h : ∀ a b, r a b = true → f a = f b) (as : List α) :
    (as.eraseDupsBy r).findSome? f = as.findSome? f := by
  match as with
  | [] => rfl
  | a :: as =>
    rw [List.eraseDupsBy_cons, List.findSome?_cons, List.findSome?_cons]
    cases ha : f a with
    | some b => rfl
    | none =>
      dsimp only
      rw [findSome?_eraseDupsBy h, findSome?_filter]
      intro b _ hb
      rw [decide_eq_false_iff_not, Bool.not_eq_false] at hb
      rw [h b a hb, ha]
termination_by as.length
decreasing_by exact Nat.lt_succ_of_le (List.length_filter_le _ _)

end

/-- The terminals of a grammar come in the order in which its elements first mention them. -/
theorem Grammar.findSome?_terminals {β : Type} (engine : Engine) (g : Grammar)
    (f : Terminal → Option β) : (g.terminals engine).findSome? f = g.elements.findSome? fun e =>
      match e.symbol with
      | .nonterminal _ => none
      | .terminal pattern => (Terminal.ofPattern? engine pattern).bind f := by
  rw [terminals, findSome?_filterMap, patterns, findSome?_eraseDupsBy, findSome?_filterMap]
  · congr 1
    ext1 e
    cases e.symbol <;> rfl
  · intro a b hab
    rw [eq_of_beq hab]

namespace Augmented

open Classical in
/-- The pattern to read: the first in the grammar that stands after a dot of the closed set and
matches some of the text, with the number of characters that it matches. -/
noncomputable def shift? (engine : Engine) (g : Augmented) (K : Set Item) (text : List Char) :
    Option (String × Nat) :=
  g.grammar.elements.findSome? fun e =>
    match e.symbol with
    | .nonterminal _ => none
    | .terminal pattern =>
      if ∃ i ∈ g.close K, g.next? i = some (.terminal pattern) then
        (Terminal.ofPattern? engine pattern).bind fun u =>
          (u.matchLength? text).map (pattern, ·)
      else none

open Classical in
/-- The complete rule to reduce, with its number: the first that the closed set holds, where the
accepting rule comes before the rules of the grammar. -/
noncomputable def complete? (g : Augmented) (K : Set Item) : Option (Rule × RuleId) :=
  (g.acceptRule :: g.grammar.rules.toList).zipIdx.find? fun (rule, id) =>
    decide (⟨id, rule.arity⟩ ∈ g.close K)

variable {g : Augmented} {K : Set Item} {q : StateId} {s : AutomatonState} {rule : Rule}
  {id : RuleId}

theorem mem_zipIdx_rules :
    (rule, id) ∈ (g.acceptRule :: g.grammar.rules.toList).zipIdx ↔ g.rule? id = some rule := by
  rw [List.mk_mem_zipIdx_iff_getElem?]
  cases id with
  | zero => rfl
  | succ n => simp [rule?, Grammar.rule?]

theorem complete?_eq_none : g.complete? K = none ↔
    ∀ id rule, g.rule? id = some rule → ⟨id, rule.arity⟩ ∉ g.close K := by
  rw [complete?, List.find?_eq_none]
  constructor
  · intro h id rule hrule
    simpa using h (rule, id) (mem_zipIdx_rules.mpr hrule)
  · rintro h ⟨rule, id⟩ hmem
    simpa using h id rule (mem_zipIdx_rules.mp hmem)

theorem of_complete?_eq_some (h : g.complete? K = some (rule, id)) : g.rule? id = some rule ∧
    ⟨id, rule.arity⟩ ∈ g.close K ∧ ∀ other < id, ∀ rule', g.rule? other = some rule' →
      ⟨other, rule'.arity⟩ ∉ g.close K := by
  rw [complete?, List.find?_eq_some_iff_getElem] at h
  obtain ⟨hcomplete, n, hn, hget, hfirst⟩ := h
  have hrule : g.rule? id = some rule := by
    apply mem_zipIdx_rules.mp
    rw [← hget]
    exact List.getElem_mem hn
  have hid : n = id := by
    rw [List.getElem_zipIdx, Prod.mk.injEq, Nat.zero_add] at hget
    exact hget.2
  subst hid
  refine ⟨hrule, by simpa using hcomplete, ?_⟩
  intro other hother rule' hrule'
  have hmem := mem_zipIdx_rules.mpr hrule'
  rw [List.mk_mem_zipIdx_iff_getElem?] at hmem
  obtain ⟨hlt, hget'⟩ := List.getElem?_eq_some_iff.mp hmem
  have hnot := hfirst other hother
  rw [List.getElem_zipIdx, hget'] at hnot
  simpa using hnot

/-- The rule that wins in a state is the first of its complete rules. -/
theorem winner?_eq (hs : g.automaton.states[q]? = some s) :
    s.winner? = (g.complete? (g.kernelSet q)).map (·.2) := by
  have hmem : ∀ id, id ∈ s.reduces ↔ ∃ rule, g.rule? id = some rule ∧
      ⟨id, rule.arity⟩ ∈ g.close (g.kernelSet q) := by
    intro id
    rw [mem_reduces_iff hs]
    exact exists_congr fun rule => and_congr_right' mem_close_kernelSet.symm
  rw [AutomatonState.winner?]
  cases hcomplete : g.complete? (g.kernelSet q) with
  | none =>
    rw [Option.map_none, List.head?_eq_none_iff, List.eq_nil_iff_forall_not_mem]
    intro id hid
    obtain ⟨rule, hrule, hholds⟩ := (hmem id).mp hid
    exact complete?_eq_none.mp hcomplete id rule hrule hholds
  | some found =>
    obtain ⟨rule, id⟩ := found
    obtain ⟨hrule, hholds, hfirst⟩ := of_complete?_eq_some hcomplete
    have hid := (hmem id).mpr ⟨rule, hrule, hholds⟩
    have hsorted := reduces_sorted hs
    -- what comes first in the ascending list is not larger, and no smaller rule is complete
    cases hreduces : s.reduces with
    | nil => simp [hreduces] at hid
    | cons first ids =>
      rw [hreduces] at hid hsorted
      have hfirstmem : first ∈ s.reduces := by
        rw [hreduces]
        exact List.mem_cons_self
      obtain ⟨rule', hrule', hholds'⟩ := (hmem first).mp hfirstmem
      rcases List.mem_cons.mp hid with rfl | hlater
      · rfl
      · have hlt := List.rel_of_pairwise_cons hsorted hlater
        exact absurd hholds' (hfirst first hlt rule' hrule')

end Augmented

@[simp] def Action.isShift : Action → Bool
  | shift _ => true
  | reduce _ => false

@[simp] def Action.isReduce : Action → Bool
  | shift _ => false
  | reduce _ => true

theorem ParseTable.nextAction?_eq (t : ParseTable) (q : StateId) (text : List Char) :
    t.nextAction? q text = (t.firstMatch? (t.row q) text Action.isShift).or
      (t.firstMatch? (t.row q) text Action.isReduce) := by
  rw [nextAction?]
  congr 2
  · ext1 action
    cases action <;> rfl
  · ext1 action
    cases action <;> rfl

namespace TableOf

variable {engine : Engine} {g : Augmented} {t : ParseTable} {q : StateId} {s : AutomatonState}
  {text : List Char} {pattern : String} {n : Nat}

/-- The first terminal of a table that matches and can be shifted is the pattern to read. -/
theorem shift?_eq (h : TableOf engine g t) (q : StateId) (text : List Char) :
    g.shift? engine (g.kernelSet q) text =
      (t.firstMatch? (t.row q) text Action.isShift).map fun (id, _, n) =>
        (t.pattern id, n) := by
  classical
  -- both sides look through terminals for one that leads on and matches
  let reads (u : Terminal) : Option (String × Nat) :=
    if ∃ next, g.automaton.next? q (.terminal u.pattern) = some next then
      (u.matchLength? text).map (u.pattern, ·)
    else none
  calc g.shift? engine (g.kernelSet q) text
      = (g.grammar.terminals engine).findSome? reads := by
        rw [Grammar.findSome?_terminals, Augmented.shift?]
        congr 1
        ext1 e
        cases e.symbol with
        | nonterminal name => rfl
        | terminal pattern =>
          dsimp only
          cases hu : Terminal.ofPattern? engine pattern with
          | none => simp
          | some u =>
            obtain rfl := Terminal.pattern_of_ofPattern? hu
            simp only [Augmented.exists_mem_close_iff, Option.bind_some, reads]
    _ = t.terminals.toList.findSome? reads := by
        rw [h.terminals, findSome?_filter]
        intro u _ hu
        refine if_neg ?_
        rintro ⟨next, hnext⟩
        simp [Automaton.shifts_of_next? hnext] at hu
    _ = (t.terminals.toList.zipIdx.map Prod.fst).findSome? reads := by
        rw [List.zipIdx_map_fst]
    _ = (t.firstMatch? (t.row q) text Action.isShift).map fun (id, _, n) =>
          (t.pattern id, n) := by
        rw [ParseTable.firstMatch?, h.numbered_eq, List.map_findSome?, List.findSome?_map,
          ← List.head?_filterMap, ← List.head?_filterMap]
        congr 1
        apply List.filterMap_congr
        rintro ⟨u, id⟩ hmem
        have hu : t.terminals[id]? = some u := by
          simpa using List.mk_mem_zipIdx_iff_getElem?.mp hmem
        have hpattern := ParseTable.pattern_eq hu
        simp only [Function.comp_apply, h.action?_eq, hu, Option.bind_some, reads]
        cases hs : g.automaton.states[q]? with
        | none => simp [Automaton.next?, hs]
        | some s =>
          simp only [Automaton.next?, hs, Option.bind_some, ← AutomatonState.action?_eq_shift]
          cases haction : s.action? u.pattern with
          | none => simp
          | some action =>
            cases action with
            | shift next =>
              rw [if_pos ⟨next, rfl⟩]
              simp [hpattern, Function.comp_def]
            | reduce id => simp

/-- Where there is a pattern to read, the table shifts it. -/
theorem move?_of_shift? (h : TableOf engine g t)
    (hshift : g.shift? engine (g.kernelSet q) text = some (pattern, n)) : ∃ terminal next,
      t.move? q text = some (.shift terminal next n) ∧ t.pattern terminal = pattern ∧
      g.automaton.next? q (.terminal pattern) = some next := by
  rw [h.shift?_eq, Option.map_eq_some_iff] at hshift
  obtain ⟨⟨terminal, action, n⟩, hfirst, heq⟩ := hshift
  simp only [Prod.mk.injEq] at heq
  obtain ⟨rfl, rfl⟩ := heq
  obtain ⟨u, hu, -, hwanted, -⟩ := Attempt.matchLength?_of_firstMatch? hfirst
  cases action with
  | reduce id => simp at hwanted
  | shift next =>
    have hm : t.move? q text = some (.shift terminal next n) := by
      rw [ParseTable.move?, ParseTable.nextAction?_eq, hfirst, Option.some_or]
    obtain ⟨v, hv, -, hnext⟩ := h.shift_of_move? hm
    refine ⟨terminal, next, hm, rfl, ?_⟩
    rw [ParseTable.pattern_eq hv]
    exact hnext

/-- Where there is none, the table reduces the first complete rule, whatever the text is. -/
theorem move?_of_not_shift? (h : TableOf engine g t) (hs : g.automaton.states[q]? = some s)
    (hshift : g.shift? engine (g.kernelSet q) text = none) :
    t.move? q text = (g.complete? (g.kernelSet q)).map (.reduce ·.2) := by
  have hwinner : (g.complete? (g.kernelSet q)).map (fun found => Move.reduce found.2) =
      s.winner?.map .reduce := by
    rw [Augmented.winner?_eq hs, Option.map_map]
    rfl
  rw [hwinner]
  rw [h.shift?_eq, Option.map_eq_none_iff] at hshift
  rw [ParseTable.move?, ParseTable.nextAction?_eq, hshift, Option.none_or]
  -- a terminal that asks for a reduction asks for the one that is made without it
  cases hfirst : t.firstMatch? (t.row q) text Action.isReduce with
  | none =>
    dsimp only
    rw [h.otherwise_eq, hs, Option.bind_some]
  | some found =>
    obtain ⟨terminal, action, n⟩ := found
    obtain ⟨u, hu, haction, hwanted, -⟩ := Attempt.matchLength?_of_firstMatch? hfirst
    cases action with
    | shift next => simp at hwanted
    | reduce id =>
      rw [h.action?_eq, hs, Option.bind_some, h.mem_numbered hu, Option.bind_some] at haction
      rw [AutomatonState.action?_eq_reduce haction]
      rfl

end TableOf

end Reformat
