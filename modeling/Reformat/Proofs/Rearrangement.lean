import Reformat.Pattern.Engine
import Reformat.Proofs.Renumbering
import Reformat.Proofs.SetAttempts

/-! The order of declarations and unrelated rules matter only for conflicts and for the priority of
terminals. Where these are the same, attempts with the tables of two grammars correspond step by
step, through sets of items that are the same under other numbers. -/

namespace Reformat

section

variable {α β : Type} [DecidableEq α] {f : α → Option β} {as bs : List α}

/-- What is found is yielded by a value that comes no later than any other that yields something. -/
theorem exists_first_of_findSome? {b : β} (h : as.findSome? f = some b) :
    ∃ a ∈ as, f a = some b ∧ ∀ c, f c ≠ none → as.idxOf a ≤ as.idxOf c := by
  induction as with
  | nil => simp at h
  | cons x as ih =>
    rw [List.findSome?_cons] at h
    cases hx : f x with
    | some y =>
      rw [hx] at h
      refine ⟨x, List.mem_cons_self, hx.trans h, fun c _ => ?_⟩
      rw [List.idxOf_cons_self]
      exact Nat.zero_le _
    | none =>
      rw [hx] at h
      obtain ⟨a, ha, hb, hfirst⟩ := ih h
      refine ⟨a, List.mem_cons_of_mem x ha, hb, fun c hc => ?_⟩
      -- the first value yields nothing, so it is neither of the two
      have hne : ∀ d, f d ≠ none → x ≠ d := by
        rintro d hd rfl
        exact hd hx
      rw [List.idxOf_cons_ne _ (hne a (by simp [hb])), List.idxOf_cons_ne _ (hne c hc)]
      exact Nat.succ_le_succ (hfirst c hc)

/-- The same is found in two lists in which the values that yield something come in the same order.
-/
theorem findSome?_eq_of_order (hmem : ∀ a, f a ≠ none → (a ∈ as ↔ a ∈ bs))
    (horder : ∀ a c, f a ≠ none → f c ≠ none →
      (as.idxOf a < as.idxOf c ↔ bs.idxOf a < bs.idxOf c)) :
    as.findSome? f = bs.findSome? f := by
  have hnone : as.findSome? f = none ↔ bs.findSome? f = none := by
    rw [List.findSome?_eq_none_iff, List.findSome?_eq_none_iff]
    constructor
    · intro h a ha
      by_contra hne
      exact hne (h a ((hmem a hne).mpr ha))
    · intro h a ha
      by_contra hne
      exact hne (h a ((hmem a hne).mp ha))
  cases has : as.findSome? f with
  | none => exact (hnone.mp has).symm
  | some x =>
    cases hbs : bs.findSome? f with
    | none => simp [hnone.mpr hbs] at has
    | some y =>
      obtain ⟨a, ha, hx, hfirst⟩ := exists_first_of_findSome? has
      obtain ⟨c, hc, hy, hfirst'⟩ := exists_first_of_findSome? hbs
      have hane : f a ≠ none := by simp [hx]
      have hcne : f c ≠ none := by simp [hy]
      -- neither of the two values comes before the other
      have hle := hfirst c hcne
      have hnot : ¬ as.idxOf a < as.idxOf c := by
        rw [horder a c hane hcne]
        exact Nat.not_lt.mpr (hfirst' a hane)
      have heq : a = c := (List.idxOf_inj ha).mp (Nat.le_antisymm hle (Nat.not_lt.mp hnot))
      rw [← hx, ← hy, heq]

end

namespace Grammar

/-- The place of the first element with a pattern, among the elements of all rules. -/
def firstUse (g : Grammar) (pattern : String) : Nat :=
  (g.elements.map (·.symbol)).idxOf (.terminal pattern)

/-- The patterns in the rules that can be reached from a start symbol. -/
def patternsFrom (g : Grammar) (start : String) : Set String :=
  {pattern | ∃ id ∈ g.rulesFrom start, ∃ rule, g.rule? id = some rule ∧
    .terminal pattern ∈ rule.symbols}

/-- What can be reached from a start symbol has the same rules in both grammars. Two of them that
are complete in the same state are declared in the same order, and two patterns in them are first
used in the same order. -/
structure Rearranges (g g' : Grammar) (start : String) (number : RuleId → RuleId) : Prop extends
    g.SameRulesFrom g' start number where
  conflicts : ∀ state ∈ (Augmented.automaton ⟨g, start⟩).states, ∀ i ∈ state.reduces,
    ∀ j ∈ state.reduces, i ≠ 0 → j ≠ 0 → (i < j ↔ number i < number j)
  priorities : ∀ p ∈ g.patternsFrom start, ∀ q ∈ g.patternsFrom start,
    (g.firstUse p < g.firstUse q ↔ g'.firstUse p < g'.firstUse q)

end Grammar

namespace Augmented

open Classical in
/-- What a set of items reads where a symbol is looked at. -/
noncomputable def reading? (engine : Engine) (g : Augmented) (K : Set Item) (text : List Char) :
    Symbol → Option (String × Nat)
  | .nonterminal _ => none
  | .terminal pattern =>
    if ∃ i ∈ g.close K, g.next? i = some (.terminal pattern) then
      (Terminal.ofPattern? engine pattern).bind fun u => (u.matchLength? text).map (pattern, ·)
    else none

variable {engine : Engine} {g : Augmented} {K : Set Item} {text : List Char} {symbol : Symbol}
  {pattern : String}

theorem shift?_eq_findSome? : g.shift? engine K text =
    (g.grammar.elements.map (·.symbol)).findSome? (g.reading? engine K text) := by
  rw [shift?, List.findSome?_map]
  rfl

/-- What is read stands in a rule that can be reached. -/
theorem mem_patternsFrom_of_reading? (hK : K ⊆ g.itemsFrom)
    (h : g.reading? engine K text symbol ≠ none) :
    ∃ pattern ∈ g.grammar.patternsFrom g.start, symbol = .terminal pattern := by
  cases symbol with
  | nonterminal name => exact absurd rfl h
  | terminal pattern =>
    refine ⟨pattern, ?_, rfl⟩
    rw [reading?] at h
    split at h
    · next hread =>
      obtain ⟨i, hi, hnext⟩ := hread
      rcases next?_cases (close_subset_itemsFrom hK hi) hnext with hstart | hrule
      · simp at hstart
      · exact hrule
    · exact absurd rfl h

/-- A set of items holds a rule that is complete. -/
def Completes (g : Augmented) (K : Set Item) (id : RuleId) : Prop :=
  ∃ rule, g.rule? id = some rule ∧ ⟨id, rule.arity⟩ ∈ g.close K

theorem completes_of_complete? {rule : Rule} {id : RuleId}
    (h : g.complete? K = some (rule, id)) : g.Completes K id ∧ ∀ other < id,
      ¬ g.Completes K other := by
  obtain ⟨hrule, hmem, hfirst⟩ := of_complete?_eq_some h
  exact ⟨⟨rule, hrule, hmem⟩, fun other hlt ⟨rule', hrule', hmem'⟩ =>
    hfirst other hlt rule' hrule' hmem'⟩

/-- Complete rules of a set that is reached are those of some state. -/
theorem IsReached.exists_state (hK : g.IsReached K) : ∃ state ∈ g.automaton.states,
    ∀ id, g.Completes K id ↔ id ∈ state.reduces := by
  obtain ⟨q, state, hs, rfl⟩ := isReached_iff.mp hK
  refine ⟨state, Array.mem_of_getElem? hs, fun id => ?_⟩
  rw [mem_reduces_iff hs]
  exact exists_congr fun rule => and_congr_right' mem_close_kernelSet

end Augmented

namespace Grammar

variable {engine : Engine} {g g' : Grammar} {start : String} {number : RuleId → RuleId}
  {K : Set Item} {text : List Char} {id : RuleId}

theorem mem_elements_of_patternsFrom {pattern : String} (h : pattern ∈ g.patternsFrom start) :
    .terminal pattern ∈ g.elements.map (·.symbol) := by
  obtain ⟨id, -, rule, hrule, hmem⟩ := h
  rw [map_symbol_elements, List.mem_flatMap]
  have hmember := Array.mem_toList_iff.mpr (mem_rules_of_rule? hrule)
  exact ⟨rule.shape, List.mem_map_of_mem hmember, hmem⟩

namespace SameRulesFrom

variable (h : g.SameRulesFrom g' start number)

include h

theorem patternsFrom_subset : g.patternsFrom start ⊆ g'.patternsFrom start := by
  rintro pattern ⟨id, hid, rule, hrule, hmem⟩
  obtain ⟨rule', hrule', hsame⟩ := exists_eq_some_of_map_eq (h.content id hid) hrule
  have hsymbols : rule'.symbols = rule.symbols := congrArg (·.1.2) hsame
  exact ⟨number id, h.bijOn.mapsTo hid, rule', hrule', by rw [hsymbols]; exact hmem⟩

theorem reading?_renumber (hK : K ⊆ Augmented.itemsFrom ⟨g, start⟩) :
    Augmented.reading? engine ⟨g', start⟩ (Item.renumber number '' K) text =
      Augmented.reading? engine ⟨g, start⟩ K text := by
  have hafter : ∀ symbol, (∃ j ∈ Augmented.close ⟨g', start⟩ (Item.renumber number '' K),
      Augmented.next? ⟨g', start⟩ j = some symbol) ↔
      ∃ i ∈ Augmented.close ⟨g, start⟩ K, Augmented.next? ⟨g, start⟩ i = some symbol := by
    intro symbol
    rw [← h.image_close hK, Set.exists_mem_image]
    apply exists_congr
    intro i
    apply and_congr_right
    intro hi
    rw [h.next?_renumber (Augmented.close_subset_itemsFrom hK hi)]
  funext symbol
  cases symbol with
  | nonterminal name => rfl
  | terminal pattern =>
    rw [Augmented.reading?, Augmented.reading?]
    classical
    exact if_congr (hafter _) rfl rfl

/-- The same rules are complete. -/
theorem completes_renumber_iff (hK : K ⊆ Augmented.itemsFrom ⟨g, start⟩) {id' : RuleId} :
    Augmented.Completes ⟨g', start⟩ (Item.renumber number '' K) id' ↔
      ∃ id, Augmented.Completes ⟨g, start⟩ K id ∧ RuleId.renumber number id = id' := by
  have hitems := Augmented.close_subset_itemsFrom hK
  rw [Augmented.Completes, ← h.image_close hK]
  constructor
  · rintro ⟨rule', hrule', ⟨id, dot⟩, hmem, heq⟩
    obtain ⟨rfl, hdot⟩ := Item.mk.inj heq
    obtain ⟨rule, hrule, hsame⟩ :=
      exists_eq_some_of_map_eq (h.rule?_renumber (hitems hmem)).symm hrule'
    refine ⟨id, ⟨rule, hrule, ?_⟩, rfl⟩
    rw [Rule.arity_eq_of_shape (congrArg Prod.fst hsame), ← hdot]
    exact hmem
  · rintro ⟨id, ⟨rule, hrule, hmem⟩, rfl⟩
    obtain ⟨rule', hrule', hcontent⟩ :=
      exists_eq_some_of_map_eq (h.rule?_renumber (hitems hmem)) hrule
    refine ⟨rule', hrule', _, hmem, ?_⟩
    rw [Rule.arity_eq_of_shape (congrArg Prod.fst hcontent)]
    rfl

end SameRulesFrom

namespace Rearranges

variable (h : g.Rearranges g' start number)

include h

/-- The same pattern is read, since those that can be read are tried in the same order. -/
theorem shift?_renumber (hK : K ⊆ Augmented.itemsFrom ⟨g, start⟩) :
    Augmented.shift? engine ⟨g', start⟩ (Item.renumber number '' K) text =
      Augmented.shift? engine ⟨g, start⟩ K text := by
  rw [Augmented.shift?_eq_findSome?, Augmented.shift?_eq_findSome?, h.reading?_renumber hK,
    eq_comm]
  have hread : ∀ symbol, Augmented.reading? engine ⟨g, start⟩ K text symbol ≠ none →
      ∃ pattern ∈ g.patternsFrom start, symbol = .terminal pattern := fun symbol =>
    Augmented.mem_patternsFrom_of_reading? hK
  apply findSome?_eq_of_order
  · intro symbol hsymbol
    obtain ⟨pattern, hpattern, rfl⟩ := hread symbol hsymbol
    exact iff_of_true (mem_elements_of_patternsFrom hpattern)
      (mem_elements_of_patternsFrom (h.patternsFrom_subset hpattern))
  · intro p q hp hq
    obtain ⟨p, hpattern, rfl⟩ := hread p hp
    obtain ⟨q, hpattern', rfl⟩ := hread q hq
    exact h.priorities p hpattern q hpattern'

/-- Of the complete rules of a set that is reached the same one comes first. -/
theorem lt_iff (hK : Augmented.IsReached ⟨g, start⟩ K) {i j : RuleId}
    (hi : Augmented.Completes ⟨g, start⟩ K i) (hj : Augmented.Completes ⟨g, start⟩ K j) :
    i < j ↔ RuleId.renumber number i < RuleId.renumber number j := by
  obtain ⟨state, hstate, hcomplete⟩ := hK.exists_state
  have hmem : ∀ {id}, Augmented.Completes ⟨g, start⟩ K id →
      id ∈ Augmented.rulesFrom ⟨g, start⟩ := by
    rintro id ⟨rule, -, hitem⟩
    exact Augmented.close_subset_itemsFrom hK.subset hitem
  have hpos : ∀ {id}, id ∈ g.rulesFrom start → 0 < RuleId.renumber number id := by
    intro id hid
    rw [SameRulesFrom.renumber_eq hid]
    exact Nat.pos_of_ne_zero (ne_zero_of_mem_rulesFrom (h.bijOn.mapsTo hid))
  -- the accepting rule comes before all others in both grammars
  rcases hmem hi with rfl | hi'
  · rcases hmem hj with rfl | hj'
    · exact iff_of_false (Nat.lt_irrefl _) (Nat.lt_irrefl _)
    · exact iff_of_true (Nat.pos_of_ne_zero (ne_zero_of_mem_rulesFrom hj')) (hpos hj')
  · rcases hmem hj with rfl | hj'
    · exact iff_of_false (Nat.not_lt_zero _) (Nat.not_lt_zero _)
    · rw [SameRulesFrom.renumber_eq hi', SameRulesFrom.renumber_eq hj']
      exact h.conflicts state hstate i ((hcomplete i).mp hi) j ((hcomplete j).mp hj)
        (ne_zero_of_mem_rulesFrom hi') (ne_zero_of_mem_rulesFrom hj')

/-- No rule is complete in either grammar, or the same rule comes first. -/
theorem complete?_renumber (hK : Augmented.IsReached ⟨g, start⟩ K) :
    (Augmented.complete? ⟨g, start⟩ K = none ∧
      Augmented.complete? ⟨g', start⟩ (Item.renumber number '' K) = none) ∨
    ∃ rule rule' id, id ∈ Augmented.rulesFrom ⟨g, start⟩ ∧
      Augmented.complete? ⟨g, start⟩ K = some (rule, id) ∧
      Augmented.complete? ⟨g', start⟩ (Item.renumber number '' K) =
        some (rule', RuleId.renumber number id) ∧ rule'.content = rule.content := by
  have hiff : ∀ {id'}, Augmented.Completes ⟨g', start⟩ (Item.renumber number '' K) id' ↔
      ∃ id, Augmented.Completes ⟨g, start⟩ K id ∧ RuleId.renumber number id = id' :=
    h.completes_renumber_iff hK.subset
  cases hcomplete : Augmented.complete? ⟨g, start⟩ K with
  | none =>
    refine Or.inl ⟨rfl, Augmented.complete?_eq_none.mpr fun id' rule' hrule' hmem' => ?_⟩
    obtain ⟨id, ⟨rule, hrule, hmem⟩, -⟩ := hiff.mp ⟨rule', hrule', hmem'⟩
    exact Augmented.complete?_eq_none.mp hcomplete id rule hrule hmem
  | some found =>
    obtain ⟨rule, id⟩ := found
    obtain ⟨hid, hfirst⟩ := Augmented.completes_of_complete? hcomplete
    cases hcomplete' : Augmented.complete? ⟨g', start⟩ (Item.renumber number '' K) with
    | none =>
      obtain ⟨rule', hrule', hmem'⟩ := hiff.mpr ⟨id, hid, rfl⟩
      exact absurd hmem' (Augmented.complete?_eq_none.mp hcomplete' _ rule' hrule')
    | some found' =>
      obtain ⟨rule', id'⟩ := found'
      obtain ⟨hid', hfirst'⟩ := Augmented.completes_of_complete? hcomplete'
      obtain ⟨other, hother, rfl⟩ := hiff.mp hid'
      -- neither of the two comes before the other
      have hnot : ¬ other < id := fun hlt => hfirst other hlt hother
      have hnot' : ¬ id < other := by
        rw [h.lt_iff hK hid hother]
        exact fun hlt => hfirst' _ hlt (hiff.mpr ⟨id, hid, rfl⟩)
      obtain rfl : id = other := Nat.le_antisymm (Nat.not_lt.mp hnot) (Nat.not_lt.mp hnot')
      obtain ⟨hrule, hmem, -⟩ := Augmented.of_complete?_eq_some hcomplete
      obtain ⟨hrule', -⟩ := Augmented.of_complete?_eq_some hcomplete'
      have hfrom : id ∈ Augmented.rulesFrom ⟨g, start⟩ :=
        Augmented.close_subset_itemsFrom hK.subset hmem
      have hcontent := h.rule?_renumber hfrom
      rw [hrule, hrule'] at hcontent
      exact Or.inr ⟨rule, rule', id, hfrom, rfl, rfl, Option.some.inj hcontent⟩

end Rearranges

end Grammar

/-- An attempt without a table, under the other numbers of the rules. -/
def SetAttempt.renumber (number : RuleId → RuleId) (a : SetAttempt) : SetAttempt where
  stack := a.stack.map fun (text, K) => (text, Item.renumber number '' K)
  rest := a.rest
  offset := a.offset
  idle := a.idle
  limit := a.limit

namespace SetAttempt

variable {engine : Engine} {g g' : Grammar} {start : String} {number : RuleId → RuleId}
  (h : g.Rearranges g' start number) {a : SetAttempt}

/-- All sets on the stack are reached. -/
def Proper (g : Augmented) (a : SetAttempt) : Prop := ∀ part ∈ a.stack, g.IsReached part.2

theorem Proper.isReached_top {g : Augmented} (ha : a.Proper g) {stack : List (String × Set Item)}
    (hstack : stack ⊆ a.stack) : g.IsReached (top stack) := by
  cases stack with
  | nil => exact .initial
  | cons part stack => exact ha part (hstack List.mem_cons_self)

theorem top_map (stack : List (String × Set Item)) :
    top (stack.map fun (text, K) => (text, Item.renumber number '' K)) =
      Item.renumber number '' top stack := by
  cases stack with
  | nil => exact (Augmented.image_initialSet number).symm
  | cons part stack => rfl

include h

theorem shift_renumber (ha : a.Proper ⟨g, start⟩) (pattern : String) (n : Nat) :
    (a.renumber number).shift ⟨g', start⟩ pattern n =
      (a.shift ⟨g, start⟩ pattern n).renumber number := by
  have htop := ha.isReached_top (List.Subset.refl _)
  rw [shift, shift, renumber, renumber, idleLimit, idleLimit, h.setCount_eq, top_map,
    ← h.image_moved htop.subset, List.length_map]
  rfl

theorem reduce_renumber (ha : a.Proper ⟨g, start⟩) {rule rule' : Rule} {id : RuleId}
    (hid : id ∈ Augmented.rulesFrom ⟨g, start⟩) (hcontent : rule'.content = rule.content) :
    (∃ b, a.reduce ⟨g, start⟩ rule id = .next b ∧
      (a.renumber number).reduce ⟨g', start⟩ rule' (RuleId.renumber number id) =
        .next (b.renumber number)) ∨
    ∃ r, a.reduce ⟨g, start⟩ rule id = .done r ∧
      (a.renumber number).reduce ⟨g', start⟩ rule' (RuleId.renumber number id) = .done r := by
  have hname : rule'.name = rule.name := congrArg (·.1.1) hcontent
  have htemplate : rule'.template = rule.template := congrArg Prod.snd hcontent
  have harity : rule'.arity = rule.arity := Rule.arity_eq_of_shape (congrArg Prod.fst hcontent)
  have htexts : ((a.renumber number).stack.take rule.arity).reverse.map (·.1) =
      (a.stack.take rule.arity).reverse.map (·.1) := by
    rw [renumber, ← List.map_take, ← List.map_reverse, List.map_map]
    rfl
  have hbelow : (a.renumber number).stack.drop rule.arity =
      (a.stack.drop rule.arity).map fun (text, K) => (text, Item.renumber number '' K) := by
    rw [renumber, List.map_drop]
  have hmoved : Item.renumber number ''
      Augmented.moved ⟨g, start⟩ (top (a.stack.drop rule.arity)) (.nonterminal rule.name) =
      Augmented.moved ⟨g', start⟩ (Item.renumber number '' top (a.stack.drop rule.arity))
        (.nonterminal rule.name) :=
    h.image_moved (ha.isReached_top (List.drop_subset _ _)).subset _
  have hzero : RuleId.renumber number id = 0 ↔ id = 0 :=
    h.bijOn_renumber.injOn.eq_iff hid (Or.inl rfl)
  -- the rules agree in all that a reduction reads, and the stacks up to the numbers
  rw [reduce, reduce, hname, htemplate, harity, htexts, hbelow, top_map]
  cases rule.template.render ((a.stack.take rule.arity).reverse.map (·.1)) with
  | error error => exact Or.inr ⟨_, rfl, rfl⟩
  | ok text =>
    dsimp only
    by_cases hid : id = 0
    · rw [if_pos hid, if_pos (hzero.mpr hid)]
      exact Or.inr ⟨_, rfl, rfl⟩
    · rw [if_neg hid, if_neg (hzero.not.mpr hid)]
      refine Or.inl ⟨_, rfl, ?_⟩
      rw [← hmoved]
      rfl

/-- A step does the same under the other numbers. -/
theorem step_renumber (ha : a.Proper ⟨g, start⟩) :
    (∃ b, a.step engine ⟨g, start⟩ = .next b ∧
      (a.renumber number).step engine ⟨g', start⟩ = .next (b.renumber number)) ∨
    ∃ r, a.step engine ⟨g, start⟩ = .done r ∧
      (a.renumber number).step engine ⟨g', start⟩ = .done r := by
  have htop := ha.isReached_top (List.Subset.refl _)
  have hshift : Augmented.shift? engine ⟨g', start⟩ (top (a.renumber number).stack)
      (a.renumber number).rest = Augmented.shift? engine ⟨g, start⟩ (top a.stack) a.rest := by
    rw [renumber, top_map, h.shift?_renumber htop.subset]
  rw [step, step, hshift]
  cases Augmented.shift? engine ⟨g, start⟩ (top a.stack) a.rest with
  | some found => exact Or.inl ⟨_, rfl, congrArg Step.next (shift_renumber h ha _ _)⟩
  | none =>
    dsimp only
    rw [show top (a.renumber number).stack = _ from top_map a.stack]
    rcases h.complete?_renumber htop with ⟨hnone, hnone'⟩ |
      ⟨rule, rule', id, hid, hsome, hsome', hcontent⟩
    · rw [hnone, hnone']
      exact Or.inr ⟨_, rfl, rfl⟩
    · rw [hsome, hsome']
      dsimp only
      have hsame : (a.renumber number).limit ≤ (a.renumber number).idle ↔ a.limit ≤ a.idle :=
        Iff.rfl
      by_cases hlimit : a.limit ≤ a.idle
      · rw [if_pos hlimit, if_pos (hsame.mpr hlimit)]
        exact Or.inr ⟨_, rfl, rfl⟩
      · rw [if_neg hlimit, if_neg (hsame.not.mpr hlimit)]
        exact reduce_renumber h ha hid hcontent

end SetAttempt

namespace Augmented

variable {g : Augmented} {q : StateId} {stack : List Frame}

/-- The sets on a stack that spells a path are reached. -/
theorem isReached_of_mem_setStack (hf : Follows g stack q) :
    ∀ part ∈ g.setStack q stack, g.IsReached part.2 := by
  induction hf with
  | initial => simp [setStack]
  | @push stack frame q hstack hq ih =>
    intro part hpart
    rw [setStack, List.mem_cons] at hpart
    rcases hpart with rfl | hpart
    · have hlt := (Follows.push hstack hq).lt_size
      exact isReached_iff.mpr ⟨q, _, Array.getElem?_eq_getElem hlt, rfl⟩
    · exact ih part hpart

end Augmented

namespace Grammar.Rearranges

variable {engine : Engine} {g g' : Grammar} {start : String} {number : RuleId → RuleId}
  (h : g.Rearranges g' start number) {t t' : ParseTable}

include h

/-- An attempt with the table of the one grammar is an attempt with sets of items of the other. -/
theorem attempt_eq_run (ht : TableOf engine ⟨g, start⟩ t) (rest : List Char) (offset : Nat) :
    t.attempt rest offset =
      (SetAttempt.machine engine ⟨g', start⟩).run (.initial ⟨g', start⟩ rest offset) := by
  refine Machine.run_eq_of_corresponds (m := Attempt.machine t)
    (n := SetAttempt.machine engine ⟨g', start⟩)
    (fun a b => Follows ⟨g, start⟩ a.stack a.state ∧ b = (a.sets ⟨g, start⟩).renumber number)
    ?_ ⟨.initial, ?_⟩
  · -- the sets of an attempt take a step as the attempt does, and so do they under other numbers
    rintro a b ⟨hf, rfl⟩
    have hproper : (a.sets ⟨g, start⟩).Proper ⟨g, start⟩ := Augmented.isReached_of_mem_setStack hf
    rcases SetAttempt.step_renumber h hproper with ⟨c, hsets, hother⟩ | ⟨r, hsets, hother⟩
    · rcases ht.step_sets hf with ⟨b, hstep, hsets'⟩ | ⟨r, -, hsets'⟩
      · obtain rfl := Step.next.inj (hsets.symm.trans hsets')
        exact Or.inl ⟨b, _, hstep, hother, ht.follows_next hf (Attempt.freeStep_of_step hstep), rfl⟩
      · rw [hsets] at hsets'
        simp at hsets'
    · rcases ht.step_sets hf with ⟨b, -, hsets'⟩ | ⟨r', hstep, hsets'⟩
      · rw [hsets] at hsets'
        simp at hsets'
      · obtain rfl := Step.done.inj (hsets.symm.trans hsets')
        exact Or.inr ⟨r, hstep, hother⟩
  · rw [SetAttempt.initial, SetAttempt.idleLimit, h.setCount_eq, ← SetAttempt.idleLimit,
      ← ht.idleLimit_eq]
    rfl

end Grammar.Rearranges

/-- The order of declarations and unrelated rules matter only for conflicts and for the priority of
terminals. If two grammars have the same rules for what can be reached from a start symbol, in
orders that agree on rules that are complete in the same state and on the first uses of patterns,
then their tables for that symbol parse every input in the same way. -/
theorem parse_eq_of_rearranges {engine : Engine} {g g' : Grammar} {start : String}
    {number : RuleId → RuleId} (h : g.Rearranges g' start number) {t t' : ParseTable}
    (hgenerate : g.generate (g.analyze engine) start = .ok t)
    (hgenerate' : g'.generate (g'.analyze engine) start = .ok t') (input : String) (k : Nat) :
    t.parseAt input k = t'.parseAt input k := by
  have ht := tableOf_of_generate hgenerate
  have ht' := tableOf_of_generate hgenerate'
  rw [ParseTable.parseAt, ParseTable.parseAt]
  cases Text.dropBytes? k input.toList with
  | none => rfl
  | some rest =>
    dsimp only
    rw [h.attempt_eq_run ht, ht'.attempt_eq_run]

/-- A letter is read as an `A`, as its rule comes before that of `B`; an `A` may be a word as well.
-/
def Grammar.twoWays : Grammar where
  rules := #[
    ⟨"S", #[⟨.nonterminal "A", {}⟩], [.literal "a", .capture 0], {}⟩,
    ⟨"S", #[⟨.nonterminal "B", {}⟩], [.literal "b", .capture 0], {}⟩,
    ⟨"A", #[⟨.terminal "x", {}⟩], [], {}⟩,
    ⟨"B", #[⟨.terminal "x", {}⟩], [], {}⟩,
    ⟨"A", #[⟨.terminal "[a-z]+", {}⟩], [], {}⟩,
    ⟨"V", #[⟨.nonterminal "S", {}⟩, ⟨.terminal "v", {}⟩], [], {}⟩]

/-- The same rules in another order, among others. -/
def Grammar.twoWaysApart : Grammar where
  rules := #[
    ⟨"U", #[⟨.terminal "u", {}⟩], [], {}⟩,
    ⟨"S", #[⟨.nonterminal "B", {}⟩], [.literal "b", .capture 0], {}⟩,
    ⟨"A", #[⟨.terminal "x", {}⟩], [], {}⟩,
    ⟨"S", #[⟨.nonterminal "A", {}⟩], [.literal "a", .capture 0], {}⟩,
    ⟨"B", #[⟨.terminal "x", {}⟩], [], {}⟩,
    ⟨"A", #[⟨.terminal "[a-z]+", {}⟩], [], {}⟩]

namespace Grammar

def twoWaysNumber (id : RuleId) : RuleId := [0, 4, 2, 3, 5, 6].getD id 0

theorem rulesFrom_twoWays : twoWays.rulesFrom "S" = {1, 2, 3, 4, 5} := by
  have hreachable : ∀ name ∈ ["S", "A", "B"], twoWays.IsReachable "S" name := by
    simp only [List.forall_mem_cons, List.not_mem_nil, false_imp_iff, implies_true, and_true]
    refine ⟨.start, ?_, ?_⟩
    · exact .reference (Array.getElem_mem (by decide : 0 < twoWays.rules.size)) .start
        (by decide +kernel)
    · exact .reference (Array.getElem_mem (by decide : 1 < twoWays.rules.size)) .start
        (by decide +kernel)
  have hclosed := isReachable_iff_of_closed (by decide) (by simp [twoWays, Rule.symbols]) hreachable
  ext id
  simp only [rulesFrom, hclosed]
  rcases id with _ | _ | _ | _ | _ | _ | _ | id <;> simp [rule?, twoWays]

theorem rulesFrom_twoWaysApart : twoWaysApart.rulesFrom "S" = {2, 3, 4, 5, 6} := by
  have hreachable : ∀ name ∈ ["S", "A", "B"], twoWaysApart.IsReachable "S" name := by
    simp only [List.forall_mem_cons, List.not_mem_nil, false_imp_iff, implies_true, and_true]
    refine ⟨.start, ?_, ?_⟩
    · exact .reference (Array.getElem_mem (by decide : 3 < twoWaysApart.rules.size)) .start
        (by decide +kernel)
    · exact .reference (Array.getElem_mem (by decide : 1 < twoWaysApart.rules.size)) .start
        (by decide +kernel)
  have hclosed := isReachable_iff_of_closed (by decide) (by simp [twoWaysApart, Rule.symbols])
    hreachable
  ext id
  simp only [rulesFrom, hclosed]
  rcases id with _ | _ | _ | _ | _ | _ | _ | id <;> simp [rule?, twoWaysApart]

theorem patternsFrom_twoWays : ∀ p ∈ twoWays.patternsFrom "S", p = "x" ∨ p = "[a-z]+" := by
  rintro p ⟨id, hid, rule, hrule, hmem⟩
  have hsymbols : ∀ id ∈ [1, 2, 3, 4, 5], ∀ rule ∈ twoWays.rule? id, ∀ symbol ∈ rule.symbols,
      symbol ∈ [.nonterminal "A", .nonterminal "B", .terminal "x", .terminal "[a-z]+"] := by
    decide +kernel
  rw [rulesFrom_twoWays] at hid
  simpa using hsymbols id (by simpa using hid) rule hrule _ hmem

theorem twoWays_rearranges : twoWays.Rearranges twoWaysApart "S" twoWaysNumber where
  bijOn := by
    rw [rulesFrom_twoWays, rulesFrom_twoWaysApart]
    refine ⟨?_, ?_, ?_⟩
    · rintro id (rfl | rfl | rfl | rfl | rfl) <;> simp [twoWaysNumber]
    · rintro id (rfl | rfl | rfl | rfl | rfl) id' (rfl | rfl | rfl | rfl | rfl) <;>
        simp [twoWaysNumber]
    · rintro id (rfl | rfl | rfl | rfl | rfl)
      · exact ⟨2, by simp, rfl⟩
      · exact ⟨3, by simp, rfl⟩
      · exact ⟨1, by simp, rfl⟩
      · exact ⟨4, by simp, rfl⟩
      · exact ⟨5, by simp, rfl⟩
  content := by
    rw [rulesFrom_twoWays]
    rintro id (rfl | rfl | rfl | rfl | rfl) <;> rfl
  conflicts := by decide +kernel
  priorities := by
    intro p hp q hq
    rcases patternsFrom_twoWays p hp with rfl | rfl <;>
      rcases patternsFrom_twoWays q hq with rfl | rfl <;> decide +kernel

end Grammar

theorem twoWays_parse_eq : ∃ t t',
    Grammar.twoWays.Rearranges .twoWaysApart "S" Grammar.twoWaysNumber ∧
    Grammar.twoWays.generate (Grammar.twoWays.analyze Pattern.engine) "S" = .ok t ∧
    Grammar.twoWaysApart.generate (Grammar.twoWaysApart.analyze Pattern.engine) "S" = .ok t' ∧
    t.parseAt "xy" 0 = .ok ⟨0, 1, "ax"⟩ ∧ t.parseAt "xy" 0 = t'.parseAt "xy" 0 := by
  obtain ⟨t, ht, hparse⟩ := Except.exists_ok
    (x := Grammar.twoWays.generate (Grammar.twoWays.analyze Pattern.engine) "S")
    (p := fun t => t.parseAt "xy" 0 = .ok ⟨0, 1, "ax"⟩) (by decide +kernel)
  obtain ⟨t', ht', -⟩ := Except.exists_ok
    (x := Grammar.twoWaysApart.generate (Grammar.twoWaysApart.analyze Pattern.engine) "S")
    (p := fun _ => true) (by decide +kernel)
  exact ⟨t, t', Grammar.twoWays_rearranges, ht, ht', of_decide_eq_true hparse,
    parse_eq_of_rearranges Grammar.twoWays_rearranges ht ht' "xy" 0⟩

end Reformat
