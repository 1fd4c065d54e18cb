import Reformat.Proofs.Rendering
import Reformat.Proofs.Runs
import Reformat.Proofs.Tables

/-! The stack of an attempt with the table of a grammar spells a path of the automaton. A complete
item of the state at its end has all its parts on top of the stack, and begins in the state below
them. -/

namespace Reformat

/-- The symbols of a stack, from the bottom up, lead from the initial state to the given one. -/
inductive Follows (g : Augmented) : List Frame → StateId → Prop
  | initial : Follows g [] 0
  | push {stack : List Frame} {frame : Frame} {q : StateId} (hstack : Follows g stack frame.state)
      (hq : g.automaton.next? frame.state frame.symbol = some q) : Follows g (frame :: stack) q

namespace Follows

variable {g : Augmented} {stack : List Frame} {q : StateId} {id : RuleId} {rule : Rule}

theorem eq_nil (h : Follows g stack 0) : stack = [] := by
  cases h with
  | initial => rfl
  | push _ hq => exact absurd rfl (Augmented.next?_ne_zero hq)

/-- What stands before the dot of an item is on top of the stack, and the item without it is in the
state below. -/
theorem exposed {dot : Nat} (hf : Follows g stack q) (hi : g.Holds q ⟨id, dot⟩)
    (hrule : g.rule? id = some rule) :
    ∃ p, (q :: stack.map (·.state))[dot]? = some p ∧ Follows g (stack.drop dot) p ∧
      g.Holds p ⟨id, 0⟩ ∧ (stack.take dot).reverse.map (·.symbol) = rule.symbols.take dot := by
  -- one symbol before the dot is one frame on the stack
  induction dot generalizing stack q with
  | zero => exact ⟨q, rfl, hf, hi, rfl⟩
  | succ dot ih =>
    cases hf with
    | initial => exact absurd hi Augmented.not_holds_zero_succ
    | push hstack hq =>
      obtain ⟨hbefore, hsymbol⟩ := hi.of_succ hq
      obtain ⟨p, hp, hfollows, hholds, hsymbols⟩ := ih hstack hbefore
      refine ⟨p, hp, hfollows, hholds, ?_⟩
      rw [Augmented.next?_eq hrule] at hsymbol
      rw [List.take_succ_cons, List.reverse_cons, List.map_append, hsymbols, List.take_add_one,
        hsymbol]
      rfl

end Follows

/-- In a grammar without errors a template mentions only parts of its rule. -/
theorem Augmented.capture_lt {engine : Engine} {g : Augmented}
    (herrors : (g.grammar.analyze engine).errors = [])
    {id : RuleId} {rule : Rule} (hrule : g.rule? id = some rule) {piece : Piece}
    (hpiece : piece ∈ rule.template) {index : Nat} (hindex : piece.maxCapture? = some index) :
    index < rule.arity := by
  by_cases hid : id = 0
  · -- the template of the accepting rule mentions its only part
    rw [rule?, if_pos hid] at hrule
    obtain rfl := Option.some.inj hrule
    simp only [acceptRule, List.mem_singleton] at hpiece
    subst hpiece
    obtain rfl := Option.some.inj hindex
    exact Nat.one_pos
  · rw [rule?, if_neg hid] at hrule
    have hmem := Array.mem_toList_iff.mpr (Grammar.mem_rules_of_rule? hrule)
    have hcaptures : g.grammar.captureErrors = [] := by
      simp only [Grammar.analyze, List.append_eq_nil_iff] at herrors
      exact herrors.2
    have hnone := List.filterMap_eq_nil_iff.mp (List.flatMap_eq_nil_iff.mp hcaptures rule hmem)
      piece hpiece
    by_contra hge
    simp [hindex, hge] at hnone

namespace TableOf

variable {engine : Engine} {g : Augmented} {t : ParseTable} {a b : Attempt} {id : ReductionId}

/-- A complete item is that of a rule whose symbols are on top of the stack, and whose template has
a text for them. -/
theorem exists_parts (h : TableOf engine g t) (hf : Follows g a.stack a.state)
    (hm : t.move? a.state a.rest = some (.reduce id)) :
    ∃ rule p text, g.rule? id = some rule ∧
      t.reduction id = ⟨rule.name, rule.arity, rule.template⟩ ∧
      a.path[rule.arity]? = some p ∧ Follows g (a.stack.drop rule.arity) p ∧ g.Holds p ⟨id, 0⟩ ∧
      (a.parts rule.arity).map (·.symbol) = rule.symbols ∧
      rule.template.render ((a.parts rule.arity).map (·.text)) = .ok text := by
  obtain ⟨rule, hrule, hholds⟩ := h.holds_of_move? hm
  obtain ⟨p, hp, hfollows, hbegin, hsymbols⟩ := hf.exposed hholds hrule
  have hp : a.path[rule.arity]? = some p := hp
  have hlength : ((a.parts rule.arity).map (·.text)).length = rule.arity := by
    rw [List.length_map, Attempt.parts, List.length_reverse, List.length_take,
      Nat.min_eq_left (Attempt.le_of_path hp)]
  have hall : rule.symbols.length = rule.arity := by simp [Rule.symbols, Rule.arity]
  have hcaptures : ∀ piece ∈ rule.template, ∀ index, piece.maxCapture? = some index →
      index < ((a.parts rule.arity).map (·.text)).length := by
    intro piece hpiece index hindex
    rw [hlength]
    exact Augmented.capture_lt h.errors hrule hpiece hindex
  obtain ⟨text, htext⟩ := Template.exists_render hcaptures
  refine ⟨rule, p, text, hrule, h.reduction_eq hrule, hp, hfollows, hbegin, ?_, htext⟩
  rw [List.take_of_length_le (Nat.le_of_eq hall)] at hsymbols
  exact hsymbols

/-- What a reduction does on a stack that spells a path: the accepting rule finds the start symbol
alone on the stack, and every other rule finds a goto. -/
theorem reduce_cases (h : TableOf engine g t) (hf : Follows g a.stack a.state)
    (hm : t.move? a.state a.rest = some (.reduce id)) :
    (id = 0 ∧ ∃ frame, a.stack = [frame] ∧ frame.symbol = .nonterminal g.start ∧
      a.reduce t id = .done (.ok ⟨frame.text, a.offset, a.rest⟩)) ∨
    (id ≠ 0 ∧ ∃ rule p text next, g.grammar.rule? id = some rule ∧
      a.path[rule.arity]? = some p ∧ Follows g (a.stack.drop rule.arity) p ∧
      (a.parts rule.arity).map (·.symbol) = rule.symbols ∧
      rule.template.render ((a.parts rule.arity).map (·.text)) = .ok text ∧
      g.automaton.next? p (.nonterminal rule.name) = some next ∧
      a.reduce t id = .next { a with
        state := next
        stack := ⟨p, .nonterminal rule.name, text⟩ :: a.stack.drop rule.arity
        idle := a.idle + 1 }) := by
  obtain ⟨rule, p, text, hrule, hreduction, hp, hfollows, hbegin, hsymbols, htext⟩ :=
    h.exists_parts hf hm
  have hpath : a.path[(t.reduction id).arity]? = some p := by rw [hreduction]; exact hp
  have hrender : (t.reduction id).template.render
      ((a.parts (t.reduction id).arity).map (·.text)) = .ok text := by rw [hreduction]; exact htext
  rcases hbegin.cases_zero with ⟨rfl, rfl⟩ | ⟨i, name, hi, hnext, hid⟩
  · -- the accepting rule begins in the initial state, below which there is nothing
    refine Or.inl ⟨rfl, ?_⟩
    obtain rfl : g.acceptRule = rule := Option.some.inj hrule
    have harity : g.acceptRule.arity = 1 := rfl
    rw [harity] at hp hsymbols htext hfollows
    have hdrop := hfollows.eq_nil
    have hle := Attempt.le_of_path hp
    obtain ⟨frame, hframe⟩ : ∃ frame, a.stack = [frame] := by
      apply List.length_eq_one_iff.mp
      have := List.drop_eq_nil_iff.mp hdrop
      omega
    refine ⟨frame, hframe, ?_, ?_⟩
    · rw [Attempt.parts, hframe] at hsymbols
      simpa [Augmented.acceptRule, Rule.symbols] using hsymbols
    · have hparts : (a.parts 1).map (·.text) = [frame.text] := by rw [Attempt.parts, hframe]; rfl
      rw [hparts] at htext
      have hsame := Except.ok.inj (htext.symm.trans (Template.render_capture frame.text))
      have heq := Attempt.reduce_of_accept hpath hrender rfl
      rw [hreduction, harity, hdrop, hsame] at heq
      exact heq
  · -- every other rule begins after a dot, which its name moves on from the state below
    refine Or.inr ?_
    obtain ⟨other, hother, hname, hne⟩ := Augmented.rule?_of_mem_alternatives hid
    obtain rfl := Option.some.inj (hother.symm.trans hrule)
    obtain ⟨next, hgoto⟩ := hi.exists_next? hnext
    rw [← hname] at hgoto
    refine ⟨hne, other, p, text, next, ?_, hp, hfollows, hsymbols, htext, hgoto, ?_⟩
    · rw [Augmented.rule?, if_neg hne] at hother
      exact hother
    · have hnext : (t.row p).goto? (t.reduction id).name = some next := by
        rw [h.goto?_eq, hreduction, hgoto]
      have heq := Attempt.reduce_of_goto hpath hrender hne hnext
      rw [hreduction] at heq
      exact heq

/-- A reduction that ends an attempt accepts it. -/
theorem accept_of_done (h : TableOf engine g t) (hf : Follows g a.stack a.state)
    (hm : t.move? a.state a.rest = some (.reduce id)) {r : Except AttemptError Parse}
    (hdone : a.reduce t id = .done r) : ∃ frame, a.stack = [frame] ∧
      frame.symbol = .nonterminal g.start ∧ r = .ok ⟨frame.text, a.offset, a.rest⟩ := by
  rcases h.reduce_cases hf hm with ⟨-, frame, hstack, hsymbol, hok⟩ |
    ⟨-, rule, p, text, next, -, -, -, -, -, -, hnext⟩
  · exact ⟨frame, hstack, hsymbol, Step.done.inj (hdone.symm.trans hok)⟩
  · rw [hnext] at hdone
    simp at hdone

/-- A reduction that leads on replaces the parts of a rule. -/
theorem rule_of_next (h : TableOf engine g t) (hf : Follows g a.stack a.state)
    (hm : t.move? a.state a.rest = some (.reduce id)) (hnext : a.reduce t id = .next b) :
    ∃ rule p text next, g.grammar.rule? id = some rule ∧
      Follows g (a.stack.drop rule.arity) p ∧
      (a.parts rule.arity).map (·.symbol) = rule.symbols ∧
      rule.template.render ((a.parts rule.arity).map (·.text)) = .ok text ∧
      g.automaton.next? p (.nonterminal rule.name) = some next ∧
      b = { a with
        state := next
        stack := ⟨p, .nonterminal rule.name, text⟩ :: a.stack.drop rule.arity
        idle := a.idle + 1 } := by
  rcases h.reduce_cases hf hm with ⟨-, frame, -, -, hok⟩ |
    ⟨-, rule, p, text, next, hrule, -, hfollows, hsymbols, htext, hgoto, heq⟩
  · rw [hnext] at hok
    simp at hok
  · exact ⟨rule, p, text, next, hrule, hfollows, hsymbols, htext, hgoto,
      Step.next.inj (hnext.symm.trans heq)⟩

/-- Shifts and reductions keep the stack on a path of the automaton. -/
theorem follows_next (h : TableOf engine g t) (hf : Follows g a.stack a.state)
    (hstep : a.freeStep t = .next b) : Follows g b.stack b.state := by
  rcases Attempt.freeStep_cases hstep with ⟨terminal, next, n, hm, rfl⟩ | ⟨id, hm, hreduce⟩
  · obtain ⟨u, hu, -, hnext⟩ := h.shift_of_move? hm
    refine .push hf ?_
    rw [← ParseTable.pattern_eq hu] at hnext
    exact hnext
  · obtain ⟨rule, p, text, next, -, hfollows, -, -, hgoto, rfl⟩ := h.rule_of_next hf hm hreduce
    exact .push hfollows hgoto

theorem follows_of_reaches (h : TableOf engine g t) {rest : List Char} {offset : Nat}
    (hr : Step.Reaches (Attempt.freeStep t) (.initial t rest offset) a) :
    Follows g a.stack a.state :=
  hr.preserves (fun _ _ hf hstep => h.follows_next hf hstep) .initial

end TableOf

end Reformat
