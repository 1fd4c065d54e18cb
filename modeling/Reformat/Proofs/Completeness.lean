import Reformat.Pattern.Engine
import Reformat.Proofs.Moves
import Reformat.Proofs.Stalls
import Reformat.Proofs.Tree

/-! In a grammar without conflicts an attempt follows every tree whose leaves are preferred in the
text. -/

namespace Reformat

/-- An attempt has read the leaves of some trees, and has frames for them on top of its stack. -/
structure Attempt.Passes (t : ParseTable) (a : Attempt) (trees : List Tree) (frames : List Frame)
    (b : Attempt) : Prop where
  reaches : Step.Reaches (freeStep t) a b
  stack : b.stack = frames ++ a.stack
  rest : b.rest = a.rest.drop (Tree.yieldOf trees).length
  offset : b.offset = a.offset + Text.byteLength (Tree.yieldOf trees)
  texts : Tree.evaluateAll trees = .ok (frames.reverse.map (·.text))

/-- From every state that expects its symbol, an attempt passes a tree. -/
def PassesTree (engine : Engine) (g : Augmented) (t : ParseTable) (c : Tree) : Prop :=
  ∀ (a : Attempt) (i : Item), Follows g a.stack a.state → g.Holds a.state i →
    g.next? i = some c.symbol → ReadsAll (g.grammar.Prefers engine) c.leaves a.rest →
    ∃ text b, a.Passes t [c] [⟨a.state, c.symbol, text⟩] b ∧
      g.automaton.next? a.state c.symbol = some b.state

/-- From every state that expects their symbols in a rule, an attempt passes trees. -/
def PassesTrees (engine : Engine) (g : Augmented) (t : ParseTable) (cs : List Tree) : Prop :=
  ∀ (a : Attempt) (id : RuleId) (dot : Nat) (rule : Rule), Follows g a.stack a.state →
    g.rule? id = some rule → g.Holds a.state ⟨id, dot⟩ →
    rule.symbols.drop dot = cs.map Tree.symbol →
    ReadsAll (g.grammar.Prefers engine) (Tree.leavesOf cs) a.rest →
    ∃ frames b, a.Passes t cs frames b ∧ Follows g b.stack b.state ∧
      g.Holds b.state ⟨id, dot + cs.length⟩ ∧ frames.length = cs.length ∧
      b.path[cs.length]? = some a.state

namespace Attempt.Passes

variable {t : ParseTable} {a b c : Attempt} {trees others : List Tree} {frames tops : List Frame}

theorem nil (t : ParseTable) (a : Attempt) : a.Passes t [] [] a :=
  ⟨.refl, rfl, rfl, rfl, rfl⟩

theorem append (h : a.Passes t trees frames b) (h' : b.Passes t others tops c) :
    a.Passes t (trees ++ others) (tops ++ frames) c := by
  refine ⟨h.reaches.trans h'.reaches, ?_, ?_, ?_, ?_⟩
  · rw [h'.stack, h.stack, List.append_assoc]
  · rw [h'.rest, h.rest, List.drop_drop, Tree.yieldOf_append, List.length_append]
  · calc c.offset = b.offset + Text.byteLength (Tree.yieldOf others) := h'.offset
      _ = a.offset + Text.byteLength (Tree.yieldOf trees) +
          Text.byteLength (Tree.yieldOf others) := by rw [h.offset]
      _ = a.offset + Text.byteLength (Tree.yieldOf (trees ++ others)) := by
        rw [Tree.yieldOf_append, Text.byteLength_append, Nat.add_assoc]
  · apply Tree.evaluateAll_eq_ok.mpr
    rw [List.reverse_append, List.map_append]
    exact List.rel_append (Tree.evaluateAll_eq_ok.mp h.texts) (Tree.evaluateAll_eq_ok.mp h'.texts)

end Attempt.Passes

namespace TableOf

variable {engine : Engine} {g : Augmented} {t : ParseTable}

theorem follows_of_passes (h : TableOf engine g t) {a b : Attempt} {trees : List Tree}
    {frames : List Frame} (hf : Follows g a.stack a.state) (hp : a.Passes t trees frames b) :
    Follows g b.stack b.state :=
  hp.reaches.preserves (fun _ _ hf hstep => h.follows_next hf hstep) hf

theorem passesTree_leaf (h : TableOf engine g t) (pattern : String) (word : List Char) :
    PassesTree engine g t (.leaf pattern word) := by
  intro a i hf hi hsymbol hreads
  obtain ⟨next, hnext⟩ := hi.exists_next? hsymbol
  have hprefers : g.grammar.Prefers engine pattern word a.rest := hreads.1
  obtain ⟨terminal, hm, hpattern⟩ := h.exists_shift hnext hprefers
  have htake : a.rest.take word.length = word := List.prefix_iff_eq_take.mp hprefers.2.1 |>.symm
  have hyield : Tree.yieldOf [Tree.leaf pattern word] = word := by
    rw [Tree.yieldOf_singleton, Tree.yield, Tree.leaves, List.flatMap_singleton]
  have hstep : a.freeStep t = .next (a.shift t terminal next word.length) := by
    rw [Attempt.freeStep, hm]
  refine ⟨String.ofList word, a.shift t terminal next word.length, ⟨.single hstep, ?_, ?_, ?_, rfl⟩,
    hnext⟩
  · rw [Attempt.shift, hpattern, htake]
    rfl
  · rw [hyield]
    rfl
  · rw [hyield, Attempt.shift, htake]

theorem passesTrees (h : TableOf engine g t) {cs : List Tree}
    (hcs : ∀ c ∈ cs, PassesTree engine g t c) : PassesTrees engine g t cs := by
  induction cs with
  | nil =>
    intro a id dot rule hf hrule hi hsymbols hreads
    exact ⟨[], a, .nil t a, hf, hi, rfl, rfl⟩
  | cons c cs ih =>
    intro a id dot rule hf hrule hi hsymbols hreads
    have hnext : g.next? ⟨id, dot⟩ = some c.symbol := by
      rw [Augmented.next?_eq hrule, ← List.head?_drop, hsymbols]
      rfl
    -- the first tree moves the dot by one, and the others go on from there
    have hfirst := hcs c List.mem_cons_self a _ hf hi hnext
    rw [Tree.leavesOf, readsAll_append] at hreads
    obtain ⟨text, b, hpass, hstate⟩ := hfirst hreads.1
    have hfollows := h.follows_of_passes hf hpass
    have hlater : rule.symbols.drop (dot + 1) = cs.map Tree.symbol := by
      rw [← List.drop_drop, hsymbols]
      rfl
    have hrest : ReadsAll (g.grammar.Prefers engine) (Tree.leavesOf cs) b.rest := by
      rw [hpass.rest, Tree.yieldOf_singleton]
      exact hreads.2
    obtain ⟨frames, d, hpasses, hfollows', hholds, hlength, -⟩ :=
      ih (fun c hc => hcs c (List.mem_cons_of_mem _ hc)) b id (dot + 1) rule hfollows hrule
        (hi.advance hnext hstate) hlater hrest
    refine ⟨_, d, hpass.append hpasses, hfollows', ?_, ?_, ?_⟩
    · rw [List.length_cons, Nat.add_comm cs.length, ← Nat.add_assoc]
      exact hholds
    · rw [List.length_append, hlength]
      rfl
    · -- the first of the new frames was pushed in the state where the trees begin
      rw [Attempt.path, List.length_cons, List.getElem?_cons_succ, List.getElem?_map,
        hpasses.stack, hpass.stack, List.getElem?_append_right (Nat.le_of_eq hlength), hlength,
        Nat.sub_self]
      rfl

/-- After the trees of its elements a rule is reduced, and the tree has a frame. -/
theorem passesTree_node (h : TableOf engine g t) (hfree : g.automaton.ConflictFree) {rule : Rule}
    {cs : List Tree} (hrule : rule ∈ g.grammar.rules) (hsymbols : cs.map Tree.symbol = rule.symbols)
    (hcs : ∀ c ∈ cs, PassesTree engine g t c) : PassesTree engine g t (.node rule cs) := by
  intro a i hf hi hsymbol hreads
  obtain ⟨id, hget⟩ := Grammar.exists_rule?_of_mem hrule
  have hid : id ∈ g.grammar.alternatives rule.name :=
    Grammar.mem_alternatives_iff.mpr ⟨rule, hget, rfl⟩
  obtain ⟨other, hother, -, hne⟩ := Augmented.rule?_of_mem_alternatives hid
  have hrule? : g.rule? id = some rule := by rw [Augmented.rule?, if_neg hne, hget]
  obtain ⟨frames, b, hpasses, hfollows, hholds, hlength, hpath⟩ :=
    h.passesTrees hcs a id 0 rule hf hrule? (hi.alternative hsymbol hid) hsymbols.symm hreads
  have harity : cs.length = rule.arity := by
    have hlengths := congrArg List.length hsymbols
    simpa [Rule.symbols, Rule.arity] using hlengths
  rw [Nat.zero_add, harity] at hholds
  rw [harity] at hlength hpath
  -- after its elements nothing but the rule itself can be reduced
  have hm := h.move?_of_complete hfree hrule? hholds b.rest
  rcases h.reduce_cases hfollows hm with ⟨hzero, -⟩ |
    ⟨-, rule', p, text, next, hget', hp, -, -, htext, hgoto, hreduce⟩
  · exact absurd hzero hne
  · obtain rfl := Option.some.inj (hget.symm.trans hget')
    obtain rfl := Option.some.inj (hpath.symm.trans hp)
    have hdrop : b.stack.drop rule.arity = a.stack := by
      rw [hpasses.stack, ← hlength, List.drop_left]
    have hparts : b.parts rule.arity = frames.reverse := by
      rw [Attempt.parts, hpasses.stack, ← hlength, List.take_left]
    have hstep : b.freeStep t = .next { b with
        state := next
        stack := ⟨a.state, .nonterminal rule.name, text⟩ :: b.stack.drop rule.arity
        idle := b.idle + 1 } := by
      rw [Attempt.freeStep, hm]
      exact hreduce
    have hyield : Tree.yieldOf [Tree.node rule cs] = Tree.yieldOf cs := by
      rw [Tree.yieldOf_singleton, Tree.yield, Tree.leaves, ← Tree.yieldOf]
    refine ⟨text, _, ⟨hpasses.reaches.tail hstep, ?_, ?_, ?_, ?_⟩, hgoto⟩
    · dsimp only
      rw [hdrop]
      rfl
    · rw [hyield]
      exact hpasses.rest
    · rw [hyield]
      exact hpasses.offset
    · apply Tree.evaluateAll_eq_ok.mpr
      refine .cons ?_ .nil
      rw [Tree.evaluate, hpasses.texts]
      rw [hparts] at htext
      exact htext

theorem passesTree (h : TableOf engine g t) (hfree : g.automaton.ConflictFree) {c : Tree}
    (hc : c.IsOf g.grammar) : PassesTree engine g t c := by
  induction hc with
  | leaf pattern word => exact h.passesTree_leaf pattern word
  | node hrule hsymbols _ ih => exact h.passesTree_node hfree hrule hsymbols ih

/-- Without a limit on reductions an attempt accepts every tree of the start symbol. -/
theorem exists_accept (h : TableOf engine g t) (hfree : g.automaton.ConflictFree) {c : Tree}
    (hc : c.IsOf g.grammar) (hsymbol : c.symbol = .nonterminal g.start) {rest : List Char}
    (offset : Nat) (hreads : ReadsAll (g.grammar.Prefers engine) c.leaves rest) :
    ∃ parse b, c.evaluate = .ok parse.output ∧ parse.stop = offset + Text.byteLength c.yield ∧
      Step.Reaches (Attempt.freeStep t) (.initial t rest offset) b ∧
      b.freeStep t = .done (.ok parse) := by
  have hnext : g.next? ⟨0, 0⟩ = some c.symbol := by
    rw [hsymbol, Augmented.next?_eq (rfl : g.rule? 0 = some g.acceptRule)]
    rfl
  obtain ⟨text, b, hpasses, hstate⟩ := h.passesTree hfree hc (.initial t rest offset) ⟨0, 0⟩
    .initial g.holds_initial hnext hreads
  have hfollows := h.follows_of_reaches hpasses.reaches
  -- once the tree has been read, the accepting rule is complete
  have hholds : g.Holds b.state ⟨0, g.acceptRule.arity⟩ := g.holds_initial.advance hnext hstate
  have hm := h.move?_of_complete hfree (rfl : g.rule? 0 = some g.acceptRule) hholds b.rest
  rcases h.reduce_cases hfollows hm with ⟨-, frame, hstack, -, hdone⟩ | ⟨hne, -⟩
  · have hframe : frame = ⟨0, c.symbol, text⟩ := by
      have hsame := hstack.symm.trans hpasses.stack
      exact (List.cons.inj hsame).1
    have htexts := Tree.evaluateAll_eq_ok.mp hpasses.texts
    have htext : c.evaluate = .ok frame.text := by
      rw [hframe]
      cases htexts with
      | cons hevaluate _ => exact hevaluate
    refine ⟨⟨frame.text, b.offset, b.rest⟩, b, htext, ?_, hpasses.reaches, ?_⟩
    · rw [← Tree.yieldOf_singleton]
      exact hpasses.offset
    · rw [Attempt.freeStep, hm]
      exact hdone
  · exact absurd rfl hne

/-- In a grammar without empty alternatives an attempt does not stall on its way to an end. -/
theorem attempt_eq (h : TableOf engine g t)
    (hempty : ∀ rule ∈ g.grammar.rules, rule.elements ≠ #[]) {rest : List Char} {offset : Nat}
    {b : Attempt} {r : Except AttemptError Parse}
    (hb : Step.Reaches (Attempt.freeStep t) (.initial t rest offset) b)
    (hdone : b.freeStep t = .done r) : t.attempt rest offset = r := by
  obtain ⟨a, hreaches, ⟨-, hstalled⟩ | ⟨hm, herror⟩ | ⟨id, hm, hreduce⟩⟩ :=
    t.attempt_cases rest offset
  · obtain ⟨c, hc, -, -, -, hforever | hhollow⟩ := h.stalled_cases hstalled
    · rcases hc.total hb with hcb | hbc
      · exact absurd (Attempt.forever_of_reaches hforever hcb) (Attempt.not_forever_of_done hdone)
      · -- there are no steps after the end
        rcases Relation.ReflTransGen.cases_head hbc with heq | ⟨d, hd, -⟩
        · rw [← heq] at hforever
          exact absurd hforever (Attempt.not_forever_of_done hdone)
        · rw [hdone] at hd
          simp at hd
    · -- each reduction takes at least one frame off
      have hf := h.follows_of_reaches hc
      refine absurd hhollow (Attempt.not_reducesHollow ?_)
      intro i d id hd hm hid
      have hfollows := (h.follows_of_trail hf hd).1
      rcases h.reduce_cases hfollows hm with ⟨hzero, -⟩ |
        ⟨-, rule, p, text, next, hrule, -⟩
      · exact absurd hzero hid
      · have hrule? : g.rule? id = some rule := by rw [Augmented.rule?, if_neg hid, hrule]
        rw [h.reduction_eq hrule?]
        exact Array.size_pos_iff.mpr (hempty rule (Grammar.mem_rules_of_rule? hrule))
  · have hend : a.freeStep t = .done (.error (.syntaxError a.offset)) := by
      rw [Attempt.freeStep, hm]
    obtain rfl := (Attempt.Reaches.free hreaches).eq_of_done hb hend hdone
    rw [herror]
    exact Step.done.inj (hend.symm.trans hdone)
  · have hend : a.freeStep t = .done (t.attempt rest offset) := by
      rw [Attempt.freeStep, hm]
      exact hreduce
    obtain rfl := (Attempt.Reaches.free hreaches).eq_of_done hb hend hdone
    exact Step.done.inj (hend.symm.trans hdone)

end TableOf

/-- Without conflicts and empty alternatives, every tree of the start symbol is parsed where its
leaves are what the text prefers. -/
theorem parse_complete {engine : Engine} {g : Grammar} {start : String} {t : ParseTable}
    {input : String} {k : Nat} {rest : List Char} {c : Tree}
    (hgenerate : g.generate (g.analyze engine) start = .ok t)
    (hempty : ∀ rule ∈ g.rules, rule.elements ≠ #[])
    (hfree : (Augmented.automaton ⟨g, start⟩).ConflictFree) (hc : c.IsOf g)
    (hsymbol : c.symbol = .nonterminal start) (hrest : Text.dropBytes? k input.toList = some rest)
    (hreads : ReadsAll (g.Prefers engine) c.leaves rest) :
    ∃ output, c.evaluate = .ok output ∧
      t.parseAt input k = .ok ⟨k, k + Text.byteLength c.yield, output⟩ := by
  have htable := tableOf_of_generate hgenerate
  obtain ⟨parse, b, htext, hstop, hreaches, hdone⟩ := htable.exists_accept hfree hc hsymbol k hreads
  have hattempt := htable.attempt_eq hempty hreaches hdone
  refine ⟨parse.output, htext, ?_⟩
  rw [ParseTable.parseAt, hrest]
  dsimp only
  rw [hattempt, ← hstop]
  rfl

/-- The tree of a letter in brackets. -/
def Tree.bracketed : Tree :=
  .node .bracketed [.leaf "\\(" ['('], .node .letter [.leaf "x" ['x']], .leaf "\\)" [')']]

theorem brackets_parse_complete : ∃ t output,
    Grammar.brackets.generate (Grammar.brackets.analyze Pattern.engine) "S" = .ok t ∧
    (∀ rule ∈ Grammar.brackets.rules, rule.elements ≠ #[]) ∧
    (Augmented.automaton ⟨Grammar.brackets, "S"⟩).ConflictFree ∧
    Tree.bracketed.IsOf Grammar.brackets ∧ Tree.bracketed.symbol = .nonterminal "S" ∧
    Text.dropBytes? 1 " (x)x".toList = some ['(', 'x', ')', 'x'] ∧
    ReadsAll (Grammar.brackets.Prefers Pattern.engine) Tree.bracketed.leaves ['(', 'x', ')', 'x'] ∧
    Tree.bracketed.evaluate = .ok output ∧
    t.parseAt " (x)x" 1 = .ok ⟨1, 1 + Text.byteLength Tree.bracketed.yield, output⟩ := by
  obtain ⟨t, ht, -⟩ := Except.exists_ok
    (x := Grammar.brackets.generate (Grammar.brackets.analyze Pattern.engine) "S")
    (p := fun _ => true) (by decide +kernel)
  have hempty : ∀ rule ∈ Grammar.brackets.rules, rule.elements ≠ #[] := by decide
  have hfree : (Augmented.automaton ⟨Grammar.brackets, "S"⟩).ConflictFree := by
    unfold Automaton.ConflictFree
    decide +kernel
  have hletter : (Tree.node .letter [.leaf "x" ['x']]).IsOf Grammar.brackets := by
    refine .node (by simp [Grammar.brackets]) rfl ?_
    intro c hc
    rw [List.mem_singleton.mp hc]
    exact .leaf _ _
  have htree : Tree.bracketed.IsOf Grammar.brackets := by
    refine .node (by simp [Grammar.brackets]) rfl ?_
    intro c hc
    simp only [List.mem_cons, List.not_mem_nil, or_false] at hc
    rcases hc with rfl | rfl | rfl
    · exact .leaf _ _
    · exact hletter
    · exact .leaf _ _
  have hrest : Text.dropBytes? 1 " (x)x".toList = some ['(', 'x', ')', 'x'] := by decide +kernel
  have hreads : ReadsAll (Grammar.brackets.Prefers Pattern.engine) Tree.bracketed.leaves
      ['(', 'x', ')', 'x'] := by
    refine ⟨?_, ?_, ?_, trivial⟩ <;>
      exact Grammar.prefers_of_find? (by decide) (by decide) (by decide +kernel)
  obtain ⟨output, houtput, hparse⟩ := parse_complete ht hempty hfree htree rfl hrest hreads
  exact ⟨t, output, ht, hempty, hfree, htree, rfl, hrest, hreads, houtput, hparse⟩

end Reformat
