import Reformat.Pattern.Engine
import Reformat.Proofs.Choices
import Reformat.Proofs.Stalls

/-! Attempts that need no table: their stacks hold sets of items, and each set says by itself what
to do next. An attempt with the table of a grammar does the same, step by step. -/

namespace Reformat

/-- An attempt without a table: the texts of the parts on the stack, each with the set of items
after it, the last part first; the text from byte `offset` on; the reductions since the last shift,
and how many of these are allowed. -/
structure SetAttempt where
  stack : List (String × Set Item)
  rest : List Char
  offset : Nat
  idle : Nat
  limit : Nat

namespace SetAttempt

/-- The set after the topmost part; where there are no parts it is the initial set. -/
def top : List (String × Set Item) → Set Item
  | [] => Augmented.initialSet
  | (_, K) :: _ => K

/-- The number of reductions that are allowed on a stack of some depth before the next shift. -/
noncomputable def idleLimit (g : Augmented) (depth : Nat) : Nat := (depth + 1) * (g.setCount + 1)

noncomputable def initial (g : Augmented) (rest : List Char) (offset : Nat) : SetAttempt where
  stack := []
  rest
  offset
  idle := 0
  limit := idleLimit g 0

/-- Reads `length` characters as a pattern. -/
noncomputable def shift (g : Augmented) (a : SetAttempt) (pattern : String) (length : Nat) :
    SetAttempt where
  stack :=
    (String.ofList (a.rest.take length), g.moved (top a.stack) (.terminal pattern)) :: a.stack
  rest := a.rest.drop length
  offset := a.offset + Text.byteLength (a.rest.take length)
  idle := 0
  limit := idleLimit g (a.stack.length + 1)

/-- Replaces the parts of a rule by the nonterminal that they make up, or accepts. -/
def reduce (g : Augmented) (a : SetAttempt) (rule : Rule) (id : RuleId) :
    Step SetAttempt (Except AttemptError Parse) :=
  let parts := (a.stack.take rule.arity).reverse
  let below := a.stack.drop rule.arity
  match rule.template.render (parts.map (·.1)) with
  | .error error => .done (.error (.internal (.template rule.name error)))
  | .ok text =>
    if id = 0 then .done (.ok ⟨text, a.offset, a.rest⟩)
    else .next { a with
      stack := (text, g.moved (top below) (.nonterminal rule.name)) :: below
      idle := a.idle + 1 }

/-- Reads a pattern if there is one to read, or else reduces the first complete rule, unless that is
one reduction too many. -/
noncomputable def step (engine : Engine) (g : Augmented) (a : SetAttempt) :
    Step SetAttempt (Except AttemptError Parse) :=
  match g.shift? engine (top a.stack) a.rest with
  | some (pattern, n) => .next (a.shift g pattern n)
  | none =>
    match g.complete? (top a.stack) with
    | none => .done (.error (.syntaxError a.offset))
    | some (rule, id) =>
      if a.limit ≤ a.idle then .done (.error (.stalled a.offset)) else a.reduce g rule id

/-- A pattern that is read consumes at least one character of the text. -/
theorem length_of_shift? {engine : Engine} {g : Augmented} {K : Set Item} {text : List Char}
    {pattern : String} {n : Nat} (h : g.shift? engine K text = some (pattern, n)) :
    0 < n ∧ n ≤ text.length := by
  obtain ⟨e, -, he⟩ := List.exists_of_findSome?_eq_some h
  split at he
  · simp at he
  · split at he
    · obtain ⟨u, -, hu⟩ := Option.bind_eq_some_iff.mp he
      obtain ⟨m, hm, heq⟩ := Option.map_eq_some_iff.mp hu
      obtain rfl := (Prod.mk.inj heq).2
      exact ⟨Terminal.matchLength?_pos hm, Terminal.matchLength?_le hm⟩
    · simp at he

theorem next_of_reduce {g : Augmented} {a b : SetAttempt} {rule : Rule} {id : RuleId}
    (h : a.reduce g rule id = .next b) : b.rest = a.rest ∧ b.limit = a.limit ∧
      b.idle = a.idle + 1 ∧ b.stack.length ≤ a.stack.length + 1 := by
  unfold reduce at h
  simp only at h
  split at h
  · simp at h
  · split at h
    · simp at h
    · obtain rfl := Step.next.inj h
      exact ⟨rfl, rfl, rfl, by simp only [List.length_cons, List.length_drop]; omega⟩

/-- The machine of attempts without a table. -/
noncomputable def machine (engine : Engine) (g : Augmented) :
    Machine SetAttempt (Except AttemptError Parse) where
  step := step engine g
  weight a := Attempt.stepBound g.setCount a.rest.length a.stack.length (a.limit - a.idle)
  lighter := by
    intro a b h
    unfold step at h
    split at h
    · next pattern n hshift =>
      obtain rfl := Step.next.inj h
      have hn := length_of_shift? hshift
      refine Attempt.stepBound_shift g.setCount ?_
      simp only [shift, List.length_drop]
      omega
    · split at h
      · simp at h
      · split at h
        · simp at h
        · next hlt =>
          obtain ⟨hrest, hlimit, hidle, hdepth⟩ := next_of_reduce h
          rw [hrest, hlimit, hidle, show a.limit - a.idle = a.limit - (a.idle + 1) + 1 by omega]
          exact Attempt.stepBound_reduce g.setCount hdepth

end SetAttempt

/-- Parses a prefix of the input from byte `start` on without a table. -/
noncomputable def Augmented.parseAt (engine : Engine) (g : Augmented) (input : String)
    (start : Nat) : Except AttemptError Match :=
  match Text.dropBytes? start input.toList with
  | none => .error (.syntaxError start)
  | some rest => ((SetAttempt.machine engine g).run (.initial g rest start)).map fun parse =>
      ⟨start, parse.stop, parse.output⟩

/-- The parts of a stack with the sets of the states after them. -/
def Augmented.setStack (g : Augmented) : StateId → List Frame → List (String × Set Item)
  | _, [] => []
  | q, frame :: stack => (frame.text, g.kernelSet q) :: g.setStack frame.state stack

/-- An attempt seen without the table. -/
def Attempt.sets (g : Augmented) (a : Attempt) : SetAttempt where
  stack := g.setStack a.state a.stack
  rest := a.rest
  offset := a.offset
  idle := a.idle
  limit := a.limit

namespace Augmented

variable {g : Augmented} {q : StateId} {stack : List Frame}

theorem texts_setStack : (g.setStack q stack).map (·.1) = stack.map (·.text) := by
  induction stack generalizing q with
  | nil => rfl
  | cons frame stack ih => rw [setStack, List.map_cons, List.map_cons, ih]

theorem top_setStack (hf : Follows g stack q) :
    SetAttempt.top (g.setStack q stack) = g.kernelSet q := by
  cases hf with
  | initial => exact kernelSet_zero.symm
  | push _ _ => rfl

theorem length_setStack : (g.setStack q stack).length = stack.length := by
  rw [← List.length_map (·.1), texts_setStack, List.length_map]

/-- Below some frames there are the sets that were there when the lowest of them was pushed. -/
theorem drop_setStack {n : Nat} {p : StateId} (hp : (q :: stack.map (·.state))[n]? = some p) :
    (g.setStack q stack).drop n = g.setStack p (stack.drop n) := by
  induction n generalizing q stack with
  | zero =>
    obtain rfl : q = p := Option.some.inj hp
    rfl
  | succ n ih =>
    cases stack with
    | nil => simp at hp
    | cons frame stack =>
      rw [List.getElem?_cons_succ, List.map_cons] at hp
      rw [setStack, List.drop_succ_cons, List.drop_succ_cons]
      exact ih hp

end Augmented

namespace TableOf

variable {engine : Engine} {g : Augmented} {t : ParseTable} {a : Attempt} {pattern : String}
  {n : Nat}

theorem idleLimit_eq (h : TableOf engine g t) (depth : Nat) :
    Attempt.idleLimit t depth = SetAttempt.idleLimit g depth := by
  rw [Attempt.idleLimit, SetAttempt.idleLimit, h.numStates_eq, g.setCount_eq]

/-- A terminal is shifted where its pattern is to be read. -/
theorem step_of_shift? (h : TableOf engine g t)
    (hshift : g.shift? engine (g.kernelSet a.state) a.rest = some (pattern, n)) :
    ∃ b, a.step t = .next b ∧
      b.sets g = { a.sets g with
        stack :=
          (String.ofList (a.rest.take n), g.moved (g.kernelSet a.state) (.terminal pattern)) ::
            g.setStack a.state a.stack
        rest := a.rest.drop n
        offset := a.offset + Text.byteLength (a.rest.take n)
        idle := 0
        limit := SetAttempt.idleLimit g (a.stack.length + 1) } := by
  obtain ⟨terminal, next, hm, -, hnext⟩ := h.move?_of_shift? hshift
  refine ⟨a.shift t terminal next n, ?_, ?_⟩
  · rw [Attempt.step_eq_freeStep (by simp [hm]), Attempt.freeStep, hm]
  · rw [Augmented.moved_kernelSet hnext, ← h.idleLimit_eq]
    rfl

/-- A rule is reduced as it would be without the table. -/
theorem reduce_sets (h : TableOf engine g t) (hf : Follows g a.stack a.state) {rule : Rule}
    {id : RuleId} (hrule : g.rule? id = some rule)
    (hm : t.move? a.state a.rest = some (.reduce id)) :
    (∃ b, a.reduce t id = .next b ∧ (a.sets g).reduce g rule id = .next (b.sets g)) ∨
      ∃ r, a.reduce t id = .done r ∧ (a.sets g).reduce g rule id = .done r := by
  have htexts : ∀ n, ((g.setStack a.state a.stack).take n).reverse.map (·.1) =
      (a.parts n).map (·.text) := by
    intro n
    rw [Attempt.parts, List.map_reverse, List.map_reverse, List.map_take, List.map_take,
      Augmented.texts_setStack]
  rcases h.reduce_cases hf hm with ⟨rfl, frame, hstack, -, hdone⟩ |
    ⟨hid, rule', p, text, next, hrule', hp, hfollows, -, htext, hgoto, hnext⟩
  · -- the accepting rule passes on the text of the start symbol
    refine Or.inr ⟨_, hdone, ?_⟩
    obtain rfl : g.acceptRule = rule := Option.some.inj hrule
    have hrender : g.acceptRule.template.render
        ((((g.setStack a.state a.stack).take 1).reverse).map (·.1)) = .ok frame.text := by
      rw [htexts, Attempt.parts, hstack]
      exact Template.render_capture frame.text
    simp only [SetAttempt.reduce, Attempt.sets]
    rw [show g.acceptRule.arity = 1 from rfl, hrender]
    rfl
  · -- below the parts there is the set that the nonterminal leads on from
    refine Or.inl ⟨_, hnext, ?_⟩
    obtain rfl : rule' = rule := by
      rw [Augmented.rule?, if_neg hid, hrule'] at hrule
      exact Option.some.inj hrule
    have hbelow := Augmented.drop_setStack (g := g) hp
    simp only [SetAttempt.reduce, Attempt.sets]
    rw [htexts, htext, hbelow, Augmented.top_setStack hfollows, Augmented.moved_kernelSet hgoto]
    dsimp only
    rw [if_neg hid]
    rfl

/-- A step with the table is a step without it. -/
theorem step_sets (h : TableOf engine g t) (hf : Follows g a.stack a.state) :
    (∃ b, a.step t = .next b ∧ (a.sets g).step engine g = .next (b.sets g)) ∨
      ∃ r, a.step t = .done r ∧ (a.sets g).step engine g = .done r := by
  have htop : SetAttempt.top (a.sets g).stack = g.kernelSet a.state := Augmented.top_setStack hf
  rw [SetAttempt.step, htop]
  cases hshift : g.shift? engine (g.kernelSet a.state) (a.sets g).rest with
  | some found =>
    obtain ⟨pattern, n⟩ := found
    obtain ⟨b, hstep, hb⟩ := h.step_of_shift? hshift
    refine Or.inl ⟨b, hstep, ?_⟩
    dsimp only
    rw [hb, SetAttempt.shift, htop, Attempt.sets, Augmented.length_setStack]
  | none =>
    obtain ⟨s, hs⟩ : ∃ s, g.automaton.states[a.state]? = some s :=
      ⟨_, Array.getElem?_eq_getElem hf.lt_size⟩
    have hm : t.move? a.state a.rest =
        (g.complete? (g.kernelSet a.state)).map (.reduce ·.2) := h.move?_of_not_shift? hs hshift
    dsimp only
    cases hcomplete : g.complete? (g.kernelSet a.state) with
    | none =>
      rw [hcomplete, Option.map_none] at hm
      refine Or.inr ⟨.error (.syntaxError a.offset), ?_, rfl⟩
      rw [Attempt.step_eq_freeStep (by simp [hm]), Attempt.freeStep, hm]
    | some found =>
      obtain ⟨rule, id⟩ := found
      rw [hcomplete, Option.map_some] at hm
      rw [Attempt.step_of_reduce hm]
      -- both attempts have the same limit and count the same reductions
      by_cases hlimit : a.limit ≤ a.idle
      · exact Or.inr ⟨.error (.stalled a.offset), if_pos hlimit, if_pos hlimit⟩
      · dsimp only
        rw [if_neg hlimit, if_neg (show ¬ (a.sets g).limit ≤ (a.sets g).idle from hlimit)]
        exact h.reduce_sets hf (Augmented.of_complete?_eq_some hcomplete).1 hm

theorem attempt_eq_run (h : TableOf engine g t) (rest : List Char) (offset : Nat) :
    t.attempt rest offset = (SetAttempt.machine engine g).run (.initial g rest offset) := by
  refine Machine.run_eq_of_corresponds (m := Attempt.machine t) (n := SetAttempt.machine engine g)
    (fun a b => Follows g a.stack a.state ∧ b = a.sets g) ?_ ⟨.initial, ?_⟩
  · rintro a b ⟨hf, rfl⟩
    rcases h.step_sets hf with ⟨b, hstep, hsets⟩ | hdone
    · exact Or.inl ⟨b, b.sets g, hstep, hsets,
        h.follows_next hf (Attempt.freeStep_of_step hstep), rfl⟩
    · exact Or.inr hdone
  · rw [SetAttempt.initial, ← h.idleLimit_eq]
    rfl

end TableOf

/-- Parsing with the table of a grammar is parsing with sets of items: the first pattern after a dot
that matches is read, or else the first complete rule is reduced. -/
theorem parse_eq_set_parse {engine : Engine} {g : Grammar} {start : String} {t : ParseTable}
    (hgenerate : g.generate (g.analyze engine) start = .ok t) (input : String) (k : Nat) :
    t.parseAt input k = Augmented.parseAt engine ⟨g, start⟩ input k := by
  rw [ParseTable.parseAt, Augmented.parseAt]
  cases Text.dropBytes? k input.toList with
  | none => rfl
  | some rest =>
    dsimp only
    rw [(tableOf_of_generate hgenerate).attempt_eq_run]

theorem brackets_parse_eq_set_parse : ∃ t,
    Grammar.brackets.generate (Grammar.brackets.analyze Pattern.engine) "S" = .ok t ∧
    t.parseAt "é(x)!" 2 = .ok ⟨2, 5, "[x]"⟩ ∧
    t.parseAt "é(x)!" 2 = Augmented.parseAt Pattern.engine ⟨.brackets, "S"⟩ "é(x)!" 2 := by
  obtain ⟨t, ht, hcheck⟩ := Except.exists_ok
    (x := Grammar.brackets.generate (Grammar.brackets.analyze Pattern.engine) "S")
    (p := fun t => t.parseAt "é(x)!" 2 = .ok ⟨2, 5, "[x]"⟩) (by decide +kernel)
  exact ⟨t, ht, of_decide_eq_true hcheck, parse_eq_set_parse ht "é(x)!" 2⟩

end Reformat
