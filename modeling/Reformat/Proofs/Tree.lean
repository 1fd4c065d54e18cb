import Mathlib.Data.List.Forall2
import Reformat.Grammar
import Reformat.Terminal

/-! Parse trees of a grammar: the text that they read, and the text that templates make of it. -/

namespace Reformat

/-- A tree is a piece of text that a pattern read, or a rule with a tree for each of its
elements. -/
inductive Tree where
  | leaf (pattern : String) (text : List Char)
  | node (rule : Rule) (children : List Tree)

namespace Tree

def symbol : Tree → Symbol
  | leaf pattern _ => .terminal pattern
  | node rule _ => .nonterminal rule.name

/-- The trees in which every inner node is a rule of the grammar with its elements in order. -/
inductive IsOf (g : Grammar) : Tree → Prop
  | leaf (pattern : String) (text : List Char) : IsOf g (leaf pattern text)
  | node {rule : Rule} {children : List Tree} (hrule : rule ∈ g.rules)
      (hsymbols : children.map symbol = rule.symbols) (hchildren : ∀ c ∈ children, IsOf g c) :
      IsOf g (node rule children)

mutual

/-- The leaves from left to right, patterns with the texts that they read. -/
def leaves : Tree → List (String × List Char)
  | leaf pattern text => [(pattern, text)]
  | node _ children => leavesOf children

def leavesOf : List Tree → List (String × List Char)
  | [] => []
  | c :: cs => c.leaves ++ leavesOf cs

end

mutual

/-- The text that the templates make of the leaves, from the bottom up. -/
def evaluate : Tree → Except TemplateError String
  | leaf _ text => .ok (String.ofList text)
  | node rule children =>
    match evaluateAll children with
    | .ok texts => rule.template.render texts
    | .error error => .error error

def evaluateAll : List Tree → Except TemplateError (List String)
  | [] => .ok []
  | c :: cs =>
    match c.evaluate, evaluateAll cs with
    | .ok text, .ok texts => .ok (text :: texts)
    | .error error, _ => .error error
    | _, .error error => .error error

end

/-- The text of all leaves. -/
def yield (c : Tree) : List Char := c.leaves.flatMap (·.2)

def yieldOf (cs : List Tree) : List Char := (leavesOf cs).flatMap (·.2)

theorem leavesOf_append (cs ds : List Tree) :
    leavesOf (cs ++ ds) = leavesOf cs ++ leavesOf ds := by
  induction cs with
  | nil => rfl
  | cons c cs ih => rw [List.cons_append, leavesOf, ih, leavesOf, List.append_assoc]

theorem leavesOf_singleton (c : Tree) : leavesOf [c] = c.leaves := by
  rw [leavesOf, leavesOf, List.append_nil]

theorem leavesOf_reverse_cons (c : Tree) (cs : List Tree) :
    leavesOf (c :: cs).reverse = leavesOf cs.reverse ++ c.leaves := by
  rw [List.reverse_cons, leavesOf_append, leavesOf_singleton]

/-- A node has the leaves of its children, in their order. -/
theorem leavesOf_reverse_node (rule : Rule) (n : Nat) (cs : List Tree) :
    leavesOf (node rule (cs.take n).reverse :: cs.drop n).reverse = leavesOf cs.reverse := by
  calc leavesOf (node rule (cs.take n).reverse :: cs.drop n).reverse
      = leavesOf (cs.drop n).reverse ++ leavesOf (cs.take n).reverse := by
        rw [leavesOf_reverse_cons, leaves]
    _ = leavesOf cs.reverse := by
      rw [← leavesOf_append, ← List.reverse_append, List.take_append_drop]

theorem yieldOf_append (cs ds : List Tree) : yieldOf (cs ++ ds) = yieldOf cs ++ yieldOf ds := by
  rw [yieldOf, leavesOf_append, List.flatMap_append, ← yieldOf, ← yieldOf]

theorem yieldOf_singleton (c : Tree) : yieldOf [c] = c.yield := by
  rw [yieldOf, leavesOf_singleton, yield]

theorem evaluateAll_eq_ok {cs : List Tree} {texts : List String} :
    evaluateAll cs = .ok texts ↔ List.Forall₂ (fun c text => c.evaluate = .ok text) cs texts := by
  induction cs generalizing texts with
  | nil =>
    rw [List.forall₂_nil_left_iff, evaluateAll, Except.ok.injEq]
    exact eq_comm
  | cons c cs ih =>
    rw [List.forall₂_cons_left_iff, evaluateAll]
    constructor
    · intro h
      split at h
      · next text texts' hc hcs =>
        exact ⟨text, texts', hc, ih.mp hcs, (Except.ok.inj h).symm⟩
      · simp at h
      · simp at h
    · rintro ⟨text, texts', hc, hcs, rfl⟩
      rw [hc, ih.mpr hcs]

end Tree

/-- Leaves read a text one after the other, each of them where the one before it ended. -/
def ReadsAll (reads : String → List Char → List Char → Prop) :
    List (String × List Char) → List Char → Prop
  | [], _ => True
  | (pattern, word) :: leaves, text =>
    reads pattern word text ∧ ReadsAll reads leaves (text.drop word.length)

theorem readsAll_append {reads : String → List Char → List Char → Prop}
    {before after : List (String × List Char)} {text : List Char} :
    ReadsAll reads (before ++ after) text ↔ ReadsAll reads before text ∧
      ReadsAll reads after (text.drop (before.flatMap (·.2)).length) := by
  -- the text gets shorter with every leaf
  induction before generalizing text with
  | nil => simp [ReadsAll]
  | cons leaf before ih =>
    obtain ⟨pattern, word⟩ := leaf
    rw [List.cons_append, ReadsAll, ReadsAll, ih, List.drop_drop, List.flatMap_cons,
      List.length_append, and_assoc]

/-- A word is what a pattern matches at the start of a text. -/
def IsMatch (engine : Engine) (pattern : String) (word text : List Char) : Prop :=
  word ≠ [] ∧ word <+: text ∧ ∃ u : Terminal, Terminal.ofPattern? engine pattern = some u ∧
    u.matchBytes? text = some (Text.byteLength word)

theorem isMatch_take {engine : Engine} {pattern : String} {u : Terminal} {text : List Char}
    {n : Nat} (hu : Terminal.ofPattern? engine pattern = some u)
    (h : u.matchLength? text = some n) : IsMatch engine pattern (text.take n) text := by
  have hpos := Terminal.matchLength?_pos h
  have hle := Terminal.matchLength?_le h
  refine ⟨?_, List.take_prefix n text, u, hu, ?_⟩
  · apply List.ne_nil_of_length_pos
    rw [List.length_take]
    omega
  · rw [Terminal.matchBytes?_eq_map, h, Option.map_some]

end Reformat
