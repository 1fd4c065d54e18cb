import Reformat.Pattern.Engine
import Reformat.Proofs.Soundness
import Reformat.Proofs.SubsetConstruction

/-! What an attempt has read is always the beginning of something that the start symbol derives,
whether the attempt comes to a good end or not. -/

namespace Reformat

/-- A word produces another one if an alternative takes the place of a nonterminal. -/
inductive Grammar.Produces (g : Grammar) : List Symbol → List Symbol → Prop
  | replace (before after : List Symbol) {rule : Rule} (hrule : rule ∈ g.rules) :
      Produces g (before ++ .nonterminal rule.name :: after) (before ++ rule.symbols ++ after)

/-- Any number of alternatives take the places of nonterminals, one after the other. -/
def Grammar.Derives (g : Grammar) : List Symbol → List Symbol → Prop :=
  Relation.ReflTransGen g.Produces

namespace Grammar

variable {g : Grammar} {u v w : List Symbol}

theorem Produces.append_left (h : g.Produces u v) (w : List Symbol) :
    g.Produces (w ++ u) (w ++ v) := by
  cases h with
  | replace before after hrule =>
    have hproduces := replace (w ++ before) after hrule
    rw [List.append_assoc, List.append_assoc w, List.append_assoc w] at hproduces
    exact hproduces

theorem Produces.append_right (h : g.Produces u v) (w : List Symbol) :
    g.Produces (u ++ w) (v ++ w) := by
  cases h with
  | replace before after hrule =>
    have hproduces := replace before (after ++ w) hrule
    rw [← List.cons_append, ← List.append_assoc, ← List.append_assoc] at hproduces
    exact hproduces

theorem Derives.append_left (h : g.Derives u v) (w : List Symbol) :
    g.Derives (w ++ u) (w ++ v) :=
  Relation.ReflTransGen.lift (w ++ ·) (fun _ _ hproduces => hproduces.append_left w) _ _ h

theorem Derives.append_right (h : g.Derives u v) (w : List Symbol) :
    g.Derives (u ++ w) (v ++ w) :=
  Relation.ReflTransGen.lift (· ++ w) (fun _ _ hproduces => hproduces.append_right w) _ _ h

theorem derives_rule {rule : Rule} (hrule : rule ∈ g.rules) :
    g.Derives [.nonterminal rule.name] rule.symbols := by
  have hproduces := Produces.replace [] [] hrule
  rw [List.nil_append, List.append_nil] at hproduces
  exact .single hproduces

end Grammar

/-- The patterns of tokens as symbols. -/
def tokenSymbols (tokens : List (String × List Char)) : List Symbol :=
  tokens.map fun token => .terminal token.1

namespace Tree

variable {g : Grammar} {c : Tree} {cs : List Tree}

theorem derives_leavesOf (h : ∀ c ∈ cs, g.Derives [c.symbol] (tokenSymbols c.leaves)) :
    g.Derives (cs.map symbol) (tokenSymbols (leavesOf cs)) := by
  induction cs with
  | nil => exact .refl
  | cons c cs ih =>
    have hfirst := h c List.mem_cons_self
    have hothers := ih fun d hd => h d (List.mem_cons_of_mem c hd)
    have hleaves : tokenSymbols (leavesOf (c :: cs)) =
        tokenSymbols c.leaves ++ tokenSymbols (leavesOf cs) := by
      rw [leavesOf, tokenSymbols, List.map_append, ← tokenSymbols, ← tokenSymbols]
    rw [hleaves, List.map_cons]
    -- the first tree is derived before the symbols of the others, and these after its leaves
    exact (hfirst.append_right (cs.map symbol)).trans (hothers.append_left _)

/-- The symbol of a tree derives its leaves. -/
theorem IsOf.derives (h : c.IsOf g) : g.Derives [c.symbol] (tokenSymbols c.leaves) := by
  induction h with
  | leaf pattern text => exact .refl
  | node hrule hsymbols _ ih =>
    have hchildren := derives_leavesOf ih
    rw [hsymbols] at hchildren
    exact (Grammar.derives_rule hrule).trans hchildren

end Tree

namespace Augmented

variable {g : Augmented} {i : Item} {word : List Symbol}

/-- The start symbol derives words that begin with a given word and go on with what stands after the
dot of an item. -/
def IsViable (g : Augmented) (word : List Symbol) (i : Item) : Prop :=
  ∃ rule after, g.rule? i.rule = some rule ∧
    g.grammar.Derives [.nonterminal g.start] (word ++ (rule.symbols.drop i.dot ++ after))

theorem drop_of_next? {rule : Rule} {symbol : Symbol} (hrule : g.rule? i.rule = some rule)
    (hnext : g.next? i = some symbol) :
    rule.symbols.drop i.dot = symbol :: rule.symbols.drop (i.dot + 1) := by
  rw [next?_eq hrule] at hnext
  obtain ⟨hlt, hget⟩ := List.getElem?_eq_some_iff.mp hnext
  rw [List.drop_eq_getElem_cons hlt, hget]

/-- Every item that a word reaches goes on with a word that can be derived. -/
theorem isViable_of_mem_eval (h : i ∈ g.itemAutomaton.eval word) : g.IsViable word i := by
  refine eval_induction ⟨g.acceptRule, [], rfl, .refl⟩ ?_ ?_ h
  · -- the symbol after the dot is now the last one of the word
    intro word i symbol ⟨rule, after, hrule, hderives⟩ hnext
    refine ⟨rule, after, hrule, ?_⟩
    rw [drop_of_next? hrule hnext] at hderives
    rw [List.append_assoc]
    exact hderives
  · -- an alternative takes the place of the nonterminal after the dot
    intro word i id alternative ⟨rule, after, hrule, hderives⟩ hnext hid
    have hne : id ≠ 0 := by
      rintro rfl
      simp [Grammar.rule?] at hid
    refine ⟨alternative, rule.symbols.drop (i.dot + 1) ++ after, by rw [rule?, if_neg hne, hid], ?_⟩
    rw [drop_of_next? hrule hnext, List.cons_append] at hderives
    rw [List.drop_zero, ← List.append_assoc]
    exact hderives.tail (.replace word _ (Grammar.mem_rules_of_rule? hid))

end Augmented

/-- The symbols of a stack, from the bottom up. -/
def Attempt.word (a : Attempt) : List Symbol := a.stack.reverse.map (·.symbol)

theorem Follows.follow?_eq {g : Augmented} {stack : List Frame} {q : StateId}
    (h : Follows g stack q) :
    g.automaton.follow? 0 (stack.reverse.map (·.symbol)) = some q := by
  induction h with
  | initial => rfl
  | push _ hq ih =>
    -- the topmost frame is the last symbol of the word
    rw [List.reverse_cons, List.map_append, List.map_singleton, Automaton.follow?_append_singleton,
      ih, Option.bind_some, hq]

/-- What is on a stack begins a word that the start symbol derives. -/
theorem Follows.exists_derives {g : Augmented} {a : Attempt} (h : Follows g a.stack a.state) :
    ∃ after, g.grammar.Derives [.nonterminal g.start] (a.word ++ after) := by
  -- a state that is reached holds an item, and the word goes on with what is after its dot
  obtain ⟨i, hi⟩ := Augmented.follow?_isSome_iff.mp ⟨a.state, h.follow?_eq⟩
  obtain ⟨rule, after, -, hderives⟩ := Augmented.isViable_of_mem_eval hi
  exact ⟨_, hderives⟩

/-- Steps lead from one attempt to another, and shift the given tokens on the way. -/
inductive Attempt.Consumes (t : ParseTable) (a : Attempt) :
    List (String × List Char) → Attempt → Prop
  | refl : Consumes t a [] a
  | step {tokens : List (String × List Char)} {b c : Attempt} (h : Consumes t a tokens b)
      (hstep : b.step t = .next c) : Consumes t a (tokens ++ (b.token? t).toList) c

namespace Attempt.Consumes

variable {engine : Engine} {g : Augmented} {t : ParseTable} {a b : Attempt}
  {tokens : List (String × List Char)}

theorem reaches (h : a.Consumes t tokens b) : Step.Reaches (Attempt.step t) a b := by
  induction h with
  | refl => exact .refl
  | step _ hstep ih => exact ih.tail hstep

theorem exists_of_reaches (h : Step.Reaches (Attempt.step t) a b) :
    ∃ tokens, a.Consumes t tokens b := by
  induction h with
  | refl => exact ⟨[], .refl⟩
  | tail _ hstep ih =>
    obtain ⟨tokens, hconsumes⟩ := ih
    exact ⟨_, hconsumes.step hstep⟩

/-- The tokens are the leaves of the trees that the stack stands for. -/
theorem exists_builds {rest : List Char} {offset : Nat}
    (h : (Attempt.initial t rest offset).Consumes t tokens a) (ht : TableOf engine g t) :
    ∃ trees, a.Builds engine g.grammar rest offset trees ∧
      Tree.leavesOf trees.reverse = tokens := by
  induction h with
  | refl => exact ⟨[], .initial engine g.grammar t rest offset, rfl⟩
  | step hconsumes hstep ih =>
    obtain ⟨trees, hbuilds, hleaves⟩ := ih
    have hf := ht.follows_of_reaches (Attempt.Reaches.free hconsumes.reaches)
    obtain ⟨others, hnext, hothers⟩ := hbuilds.next ht hf (Attempt.freeStep_of_step hstep)
    exact ⟨others, hnext, by rw [hothers, hleaves]⟩

end Attempt.Consumes

/-- An attempt from byte `start` of the input on has consumed tokens that match all of the text up
to where it is. Its stack stands for trees with these tokens as their leaves, and begins a word that
the start symbol derives. -/
structure Attempt.HasRead (engine : Engine) (g : Augmented) (input : String) (start : Nat)
    (a : Attempt) (tokens : List (String × List Char)) : Prop where
  derives : ∃ after, g.grammar.Derives [.nonterminal g.start] (a.word ++ after)
  trees : ∃ trees, List.Forall₂ (Frame.StandsFor g.grammar) a.stack trees ∧
    Tree.leavesOf trees.reverse = tokens
  reads : ∃ rest, Text.dropBytes? start input.toList = some rest ∧
    ReadsAll (IsMatch engine) tokens rest
  text : tokens.flatMap (·.2) = Text.slice start a.offset input.toList
  rest : Text.dropBytes? a.offset input.toList = some a.rest

namespace Attempt.HasRead

variable {engine : Engine} {g : Augmented} {t : ParseTable} {input : String} {k : Nat}
  {rest : List Char} {a : Attempt} {tokens : List (String × List Char)}

theorem of_consumes (ht : TableOf engine g t) (hrest : Text.dropBytes? k input.toList = some rest)
    (h : (Attempt.initial t rest k).Consumes t tokens a) : a.HasRead engine g input k tokens := by
  obtain ⟨trees, hbuilds, rfl⟩ := h.exists_builds ht
  obtain ⟨before, hbefore, rfl⟩ := Text.eq_append_of_dropBytes? hrest
  -- the input is what comes before the attempt, what its trees read, and the rest
  have hinput : input.toList = before ++ Tree.yieldOf trees.reverse ++ a.rest := by
    rw [hbefore, hbuilds.text, List.append_assoc]
  refine ⟨?_, ⟨trees, hbuilds.frames, rfl⟩, ⟨rest, hrest, hbuilds.reads⟩, ?_, ?_⟩
  · exact (ht.follows_of_reaches (Attempt.Reaches.free h.reaches)).exists_derives
  · rw [hinput, hbuilds.offset, Text.slice_append]
    rfl
  · rw [hinput, hbuilds.offset, ← Text.byteLength_append, Text.dropBytes?_byteLength_append]

/-- Not only what is on the stack but also what has been read begins a word that can be derived. -/
theorem exists_derives (h : a.HasRead engine g input k tokens) :
    ∃ after, g.grammar.Derives [.nonterminal g.start] (tokenSymbols tokens ++ after) := by
  obtain ⟨after, hderives⟩ := h.derives
  obtain ⟨trees, hframes, rfl⟩ := h.trees
  have hframes' := List.forall₂_reverse_iff.mpr hframes
  have hword : trees.reverse.map Tree.symbol = a.word := Frame.StandsFor.symbols_eq hframes'
  -- each symbol on the stack derives the leaves of its tree
  have hleaves : g.grammar.Derives a.word (tokenSymbols (Tree.leavesOf trees.reverse)) := by
    rw [← hword]
    apply Tree.derives_leavesOf
    intro c hc
    exact (Frame.StandsFor.isOf_of_mem hframes' hc).derives
  exact ⟨after, hderives.trans (hleaves.append_right after)⟩

end Attempt.HasRead

/-- Wherever an attempt comes to, its stack begins a word that the start symbol derives, with trees
whose leaves are the tokens consumed so far, which make up the text up to there. A syntax error is
reported where such an attempt has no move, so that what was consumed begins a derived word too. -/
theorem valid_prefixes {engine : Engine} {g : Grammar} {start : String} {t : ParseTable}
    {input : String} {k : Nat} {rest : List Char}
    (hgenerate : g.generate (g.analyze engine) start = .ok t)
    (hrest : Text.dropBytes? k input.toList = some rest) :
    (∀ a, Step.Reaches (Attempt.step t) (.initial t rest k) a →
      ∃ tokens, (Attempt.initial t rest k).Consumes t tokens a ∧
        a.HasRead engine ⟨g, start⟩ input k tokens) ∧
    ∀ offset, t.parseAt input k = .error (.syntaxError offset) →
      ∃ a tokens after, (Attempt.initial t rest k).Consumes t tokens a ∧
        t.move? a.state a.rest = none ∧ a.HasRead engine ⟨g, start⟩ input k tokens ∧
        tokens.flatMap (·.2) = Text.slice k offset input.toList ∧
        g.Derives [.nonterminal start] (tokenSymbols tokens ++ after) := by
  have ht := tableOf_of_generate hgenerate
  have hall : ∀ a, Step.Reaches (Attempt.step t) (.initial t rest k) a →
      ∃ tokens, (Attempt.initial t rest k).Consumes t tokens a ∧
        a.HasRead engine ⟨g, start⟩ input k tokens := by
    intro a hreaches
    obtain ⟨tokens, hconsumes⟩ := Attempt.Consumes.exists_of_reaches hreaches
    exact ⟨tokens, hconsumes, .of_consumes ht hrest hconsumes⟩
  refine ⟨hall, fun offset herror => ?_⟩
  obtain ⟨hnone, -⟩ | ⟨rest', hrest', hattempt⟩ := ParseTable.parseAt_eq_error herror
  · rw [hrest] at hnone
    simp at hnone
  · -- a syntax error is where an attempt has no move; what it has read is valid
    obtain rfl := Option.some.inj (hrest.symm.trans hrest')
    obtain ⟨a, hreaches, hm, rfl⟩ := ParseTable.exists_of_syntaxError hattempt
    obtain ⟨tokens, hconsumes, hread⟩ := hall a hreaches
    obtain ⟨after, hderives⟩ := hread.exists_derives
    exact ⟨a, tokens, after, hconsumes, hm, hread, hread.text, hderives⟩

theorem brackets_valid_prefixes : ∃ t,
    Grammar.brackets.generate (Grammar.brackets.analyze Pattern.engine) "S" = .ok t ∧
    Text.dropBytes? 2 "é((x)".toList = some "((x)".toList ∧
    t.parseAt "é((x)" 2 = .error (.syntaxError 6) ∧
    (∀ a, Step.Reaches (Attempt.step t) (.initial t "((x)".toList 2) a →
      ∃ tokens, (Attempt.initial t "((x)".toList 2).Consumes t tokens a ∧
        a.HasRead Pattern.engine ⟨.brackets, "S"⟩ "é((x)" 2 tokens) ∧
    ∃ a tokens after, (Attempt.initial t "((x)".toList 2).Consumes t tokens a ∧
      t.move? a.state a.rest = none ∧ a.HasRead Pattern.engine ⟨.brackets, "S"⟩ "é((x)" 2 tokens ∧
      tokens.flatMap (·.2) = Text.slice 2 6 "é((x)".toList ∧
      Grammar.brackets.Derives [.nonterminal "S"] (tokenSymbols tokens ++ after) := by
  obtain ⟨t, ht, hcheck⟩ := Except.exists_ok
    (x := Grammar.brackets.generate (Grammar.brackets.analyze Pattern.engine) "S")
    (p := fun t => t.parseAt "é((x)" 2 = .error (.syntaxError 6)) (by decide +kernel)
  have herror := of_decide_eq_true hcheck
  have hrest : Text.dropBytes? 2 "é((x)".toList = some "((x)".toList := by decide
  have hread := valid_prefixes ht hrest
  exact ⟨t, ht, hrest, herror, hread.1, hread.2 6 herror⟩

end Reformat
