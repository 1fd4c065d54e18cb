import Reformat.Pattern.Engine
import Reformat.Proofs.Tree
import Reformat.Proofs.ViablePrefix

/-! What a parse accepts has a parse tree. Along a run the frames of the stack stand for trees,
which are built from the bottom up. -/

namespace Reformat

/-- A frame stands for a tree: they have the same symbol and the same text. -/
structure Frame.StandsFor (g : Grammar) (frame : Frame) (c : Tree) : Prop where
  isOf : c.IsOf g
  symbol : c.symbol = frame.symbol
  text : c.evaluate = .ok frame.text

/-- The frames of an attempt stand for trees, given with the topmost first, whose leaves read all of
the text from byte `start` up to where the attempt is. -/
structure Attempt.Builds (engine : Engine) (g : Grammar) (whole : List Char) (start : Nat)
    (a : Attempt) (trees : List Tree) : Prop where
  frames : List.Forall₂ (Frame.StandsFor g) a.stack trees
  text : whole = Tree.yieldOf trees.reverse ++ a.rest
  offset : a.offset = start + Text.byteLength (Tree.yieldOf trees.reverse)
  reads : ReadsAll (IsMatch engine) (Tree.leavesOf trees.reverse) whole

/-- The token that is shifted next: a pattern with the text that it reads. -/
def Attempt.token? (t : ParseTable) (a : Attempt) : Option (String × List Char) :=
  match t.move? a.state a.rest with
  | some (.shift terminal _ n) => some (t.pattern terminal, a.rest.take n)
  | _ => none

namespace Frame.StandsFor

variable {g : Grammar} {stack : List Frame} {trees : List Tree}

theorem symbols_eq (h : List.Forall₂ (Frame.StandsFor g) stack trees) :
    trees.map Tree.symbol = stack.map (·.symbol) := by
  induction h with
  | nil => rfl
  | cons hframe _ ih => rw [List.map_cons, List.map_cons, hframe.symbol, ih]

theorem evaluateAll_eq (h : List.Forall₂ (Frame.StandsFor g) stack trees) :
    Tree.evaluateAll trees = .ok (stack.map (·.text)) := by
  apply Tree.evaluateAll_eq_ok.mpr
  apply List.forall₂_map_right_iff.mpr
  exact h.flip.imp fun _ _ hframe => hframe.text

theorem isOf_of_mem (h : List.Forall₂ (Frame.StandsFor g) stack trees) {c : Tree}
    (hc : c ∈ trees) : c.IsOf g := by
  induction h with
  | nil => simp at hc
  | cons hframe _ ih =>
    rcases List.mem_cons.mp hc with rfl | hc
    · exact hframe.isOf
    · exact ih hc

/-- The parts of a rule stand for the children of a tree. -/
theorem node {a : Attempt} {rule : Rule} {p : StateId} {text : String}
    (h : List.Forall₂ (Frame.StandsFor g) a.stack trees) (hrule : rule ∈ g.rules)
    (hsymbols : (a.parts rule.arity).map (·.symbol) = rule.symbols)
    (htext : rule.template.render ((a.parts rule.arity).map (·.text)) = .ok text) :
    Frame.StandsFor g ⟨p, .nonterminal rule.name, text⟩
      (.node rule (trees.take rule.arity).reverse) := by
  have hparts : List.Forall₂ (Frame.StandsFor g) (a.parts rule.arity)
      (trees.take rule.arity).reverse :=
    List.forall₂_reverse_iff.mpr (List.forall₂_take _ h)
  refine ⟨.node hrule ?_ fun c hc => isOf_of_mem hparts hc, rfl, ?_⟩
  · rw [symbols_eq hparts, hsymbols]
  · rw [Tree.evaluate, evaluateAll_eq hparts]
    exact htext

end Frame.StandsFor

namespace Attempt.Builds

variable {engine : Engine} {g : Augmented} {t : ParseTable} {whole : List Char} {start : Nat}
  {a b : Attempt} {trees : List Tree}

theorem initial (engine : Engine) (g : Grammar) (t : ParseTable) (whole : List Char)
    (start : Nat) : (Attempt.initial t whole start).Builds engine g whole start [] :=
  ⟨.nil, rfl, rfl, trivial⟩

/-- A terminal that is shifted becomes a leaf. -/
theorem shift (h : a.Builds engine g.grammar whole start trees) {u : Terminal}
    {terminal : TerminalId} {next : StateId} {n : Nat} (hu : t.terminals[terminal]? = some u)
    (hpattern : Terminal.ofPattern? engine u.pattern = some u)
    (hn : u.matchLength? a.rest = some n) :
    (a.shift t terminal next n).Builds engine g.grammar whole start
      (.leaf u.pattern (a.rest.take n) :: trees) := by
  -- the new tree comes last in the text
  have hyield : Tree.yieldOf (Tree.leaf u.pattern (a.rest.take n) :: trees).reverse =
      Tree.yieldOf trees.reverse ++ a.rest.take n := by
    rw [Tree.yieldOf, Tree.leavesOf_reverse_cons, List.flatMap_append, ← Tree.yieldOf, Tree.leaves,
      List.flatMap_singleton]
  refine ⟨.cons ⟨.leaf _ _, ?_, rfl⟩ h.frames, ?_, ?_, ?_⟩
  · rw [ParseTable.pattern_eq hu]
    rfl
  · rw [hyield, List.append_assoc]
    change whole = _ ++ (a.rest.take n ++ a.rest.drop n)
    rw [List.take_append_drop]
    exact h.text
  · rw [hyield, Text.byteLength_append, ← Nat.add_assoc, ← h.offset]
    rfl
  · rw [Tree.leavesOf_reverse_cons, readsAll_append]
    refine ⟨h.reads, ?_⟩
    -- the new leaf reads what the trees so far have left
    have hrest : whole.drop (Tree.yieldOf trees.reverse).length = a.rest := by
      rw [h.text, List.drop_left]
    rw [← Tree.yieldOf, hrest, Tree.leaves]
    exact ⟨isMatch_take hpattern hn, trivial⟩

/-- The parts of a rule that is reduced become the children of a node. -/
theorem reduce (h : a.Builds engine g.grammar whole start trees) {rule : Rule}
    {p next : StateId} {text : String} (hrule : rule ∈ g.grammar.rules)
    (hsymbols : (a.parts rule.arity).map (·.symbol) = rule.symbols)
    (htext : rule.template.render ((a.parts rule.arity).map (·.text)) = .ok text) :
    Builds engine g.grammar whole start { a with
      state := next
      stack := ⟨p, .nonterminal rule.name, text⟩ :: a.stack.drop rule.arity
      idle := a.idle + 1 } (.node rule (trees.take rule.arity).reverse ::
        trees.drop rule.arity) := by
  have hleaves := Tree.leavesOf_reverse_node rule rule.arity trees
  have hyield : Tree.yieldOf (Tree.node rule (trees.take rule.arity).reverse ::
      trees.drop rule.arity).reverse = Tree.yieldOf trees.reverse := by
    rw [Tree.yieldOf, hleaves, ← Tree.yieldOf]
  refine ⟨.cons (.node h.frames hrule hsymbols htext) (List.forall₂_drop _ h.frames), ?_, ?_, ?_⟩
  · rw [hyield]
    exact h.text
  · rw [hyield]
    exact h.offset
  · rw [hleaves]
    exact h.reads

/-- A step keeps the trees, or makes one more of them. The leaves stay the same unless a terminal is
shifted, which comes last. -/
theorem next (h : a.Builds engine g.grammar whole start trees) (ht : TableOf engine g t)
    (hf : Follows g a.stack a.state) (hstep : a.freeStep t = .next b) :
    ∃ others, b.Builds engine g.grammar whole start others ∧
      Tree.leavesOf others.reverse = Tree.leavesOf trees.reverse ++ (a.token? t).toList := by
  rcases Attempt.freeStep_cases hstep with ⟨terminal, next, n, hm, rfl⟩ | ⟨id, hm, hreduce⟩
  · obtain ⟨u, hu, hn, -⟩ := ht.shift_of_move? hm
    refine ⟨_, h.shift hu (ht.ofPattern?_eq hu) hn, ?_⟩
    rw [Tree.leavesOf_reverse_cons, Attempt.token?, hm, ← ParseTable.pattern_eq hu]
    rfl
  · obtain ⟨rule, p, text, next, hrule, -, hsymbols, htext, -, rfl⟩ := ht.rule_of_next hf hm hreduce
    refine ⟨_, h.reduce (Grammar.mem_rules_of_rule? hrule) hsymbols htext, ?_⟩
    rw [Tree.leavesOf_reverse_node, Attempt.token?, hm]
    exact (List.append_nil _).symm

end Attempt.Builds

namespace TableOf

variable {engine : Engine} {g : Augmented} {t : ParseTable} {rest : List Char} {offset : Nat}

theorem exists_builds (h : TableOf engine g t) {a : Attempt}
    (hr : Step.Reaches (Attempt.freeStep t) (.initial t rest offset) a) :
    ∃ trees, a.Builds engine g.grammar rest offset trees := by
  induction hr with
  | refl => exact ⟨[], .initial engine g.grammar t rest offset⟩
  | tail hreaches hstep ih =>
    obtain ⟨trees, hbuilds⟩ := ih
    obtain ⟨others, hnext, -⟩ := hbuilds.next h (h.follows_of_reaches hreaches) hstep
    exact ⟨others, hnext⟩

/-- What is accepted is the text of a single tree, whose symbol is the start symbol. -/
theorem exists_tree (h : TableOf engine g t) {parse : Parse}
    (hattempt : t.attempt rest offset = .ok parse) : ∃ c : Tree, c.IsOf g.grammar ∧
      c.symbol = .nonterminal g.start ∧ rest = c.yield ++ parse.rest ∧
      parse.stop = offset + Text.byteLength c.yield ∧ ReadsAll (IsMatch engine) c.leaves rest ∧
      c.evaluate = .ok parse.output := by
  obtain ⟨a, hreaches, ⟨-, hstalled⟩ | ⟨-, herror⟩ | ⟨id, hm, hdone⟩⟩ := t.attempt_cases rest offset
  · simp [hattempt] at hstalled
  · simp [hattempt] at herror
  · have hfree := Attempt.Reaches.free hreaches
    obtain ⟨trees, hframes, htext, hoffset, hreads⟩ := h.exists_builds hfree
    rw [hattempt] at hdone
    obtain ⟨frame, hstack, hsymbol, hok⟩ := h.accept_of_done (h.follows_of_reaches hfree) hm hdone
    obtain rfl := Except.ok.inj hok
    -- the accepting rule leaves exactly one tree
    rw [hstack, List.forall₂_cons_left_iff] at hframes
    obtain ⟨c, others, hframe, hothers, rfl⟩ := hframes
    rw [List.forall₂_nil_left_iff] at hothers
    subst hothers
    rw [List.reverse_singleton, Tree.yieldOf_singleton] at htext hoffset
    rw [List.reverse_singleton, Tree.leavesOf_singleton] at hreads
    exact ⟨c, hframe.isOf, hframe.symbol.trans hsymbol, htext, hoffset, hreads, hframe.text⟩

end TableOf

end Reformat
