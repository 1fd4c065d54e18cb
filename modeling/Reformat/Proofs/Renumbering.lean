import Mathlib.Data.Set.Function
import Reformat.Proofs.ItemSets
import Reformat.Proofs.Shapes

/-! Grammars with the same rules for what can be reached from a start symbol. The rules may have
other numbers, and there may be other rules. The sets of items that are reached from the initial set
correspond one to one. -/

namespace Reformat

theorem exists_eq_some_of_map_eq {α β : Type} {f : α → β} {x y : Option α} {a : α}
    (h : x.map f = y.map f) (hy : y = some a) : ∃ b, x = some b ∧ f b = f a := by
  rw [hy, Option.map_some, Option.map_eq_some_iff] at h
  exact h

theorem Rule.refersTo_iff {r : Rule} {name : String} :
    r.refersTo name = true ↔ .nonterminal name ∈ r.symbols := by
  rw [refersTo, symbols, List.mem_map, ← Array.any_toList, List.any_eq_true]
  simp only [decide_eq_true_eq]

/-- What a rule says apart from its positions. -/
def Rule.content (r : Rule) : (String × List Symbol) × Template := (r.shape, r.template)

namespace Grammar

/-- The nonterminals that references lead to from a start symbol. -/
inductive IsReachable (g : Grammar) (start : String) : String → Prop
  | start : IsReachable g start start
  | reference {rule : Rule} {name : String} (hrule : rule ∈ g.rules)
      (h : IsReachable g start rule.name) (hrefers : rule.refersTo name = true) :
      IsReachable g start name

/-- What is reached is all that is in a list, if that is closed under references. -/
theorem isReachable_iff_of_closed {g : Grammar} {start : String} {names : List String}
    (hstart : start ∈ names) (hclosed : ∀ rule ∈ g.rules, rule.name ∈ names →
      ∀ symbol ∈ rule.symbols, ∀ name, symbol = .nonterminal name → name ∈ names)
    (hreachable : ∀ name ∈ names, g.IsReachable start name) (name : String) :
    g.IsReachable start name ↔ name ∈ names := by
  refine ⟨fun h => ?_, hreachable name⟩
  induction h with
  | start => exact hstart
  | reference hrule _ hrefers ih =>
    exact hclosed _ hrule ih _ (Rule.refersTo_iff.mp hrefers) _ rfl

/-- The rules of the nonterminals that can be reached. -/
def rulesFrom (g : Grammar) (start : String) : Set RuleId :=
  {id | ∃ rule, g.rule? id = some rule ∧ g.IsReachable start rule.name}

/-- What can be reached from a start symbol has the same rules in both grammars: one rule of the
other grammar, under the number given to it, for each rule. -/
structure SameRulesFrom (g g' : Grammar) (start : String) (number : RuleId → RuleId) : Prop where
  bijOn : Set.BijOn number (g.rulesFrom start) (g'.rulesFrom start)
  content : ∀ id ∈ g.rulesFrom start,
    (g'.rule? (number id)).map Rule.content = (g.rule? id).map Rule.content

theorem exists_rule?_of_mem_rulesFrom {g : Grammar} {start : String} {id : RuleId}
    (h : id ∈ g.rulesFrom start) : ∃ rule, g.rule? id = some rule :=
  h.imp fun _ h => h.1

theorem ne_zero_of_mem_rulesFrom {g : Grammar} {start : String} {id : RuleId}
    (h : id ∈ g.rulesFrom start) : id ≠ 0 := by
  rintro rfl
  obtain ⟨rule, hrule⟩ := exists_rule?_of_mem_rulesFrom h
  simp [rule?] at hrule

end Grammar

/-- The number of a rule in the other grammar. The accepting rule has the number 0 in both. -/
def RuleId.renumber (number : RuleId → RuleId) (id : RuleId) : RuleId :=
  if id = 0 then 0 else number id

def Item.renumber (number : RuleId → RuleId) (i : Item) : Item where
  rule := RuleId.renumber number i.rule
  dot := i.dot

namespace Augmented

theorem image_initialSet (number : RuleId → RuleId) :
    Item.renumber number '' initialSet = initialSet := Set.image_singleton

/-- The rules that can be reached from the start symbol, and the accepting rule. -/
def rulesFrom (g : Augmented) : Set RuleId := insert 0 (g.grammar.rulesFrom g.start)

/-- The items of these rules. -/
def itemsFrom (g : Augmented) : Set Item := {i | i.rule ∈ g.rulesFrom}

variable {g : Augmented} {i : Item} {K : Set Item} {name : String} {symbol : Symbol}

/-- What stands after a dot is the start symbol, or stands in a rule that can be reached. -/
theorem next?_cases (hi : i ∈ g.itemsFrom) (hnext : g.next? i = some symbol) :
    symbol = .nonterminal g.start ∨ ∃ id ∈ g.grammar.rulesFrom g.start, ∃ rule,
      g.grammar.rule? id = some rule ∧ symbol ∈ rule.symbols := by
  obtain ⟨id, dot⟩ := i
  rcases hi with hzero | hid
  · -- the accepting rule has the start symbol only
    obtain rfl : id = 0 := hzero
    have haccept : g.rule? (Item.mk 0 dot).rule = some g.acceptRule := rfl
    rw [next?_eq haccept] at hnext
    have hmem := List.mem_of_getElem? hnext
    exact Or.inl (by simpa [acceptRule, Rule.symbols] using hmem)
  · obtain ⟨rule, hrule⟩ := Grammar.exists_rule?_of_mem_rulesFrom hid
    have hrule' : g.rule? id = some rule := by
      rw [rule?, if_neg (Grammar.ne_zero_of_mem_rulesFrom hid), hrule]
    rw [next?_eq hrule'] at hnext
    exact Or.inr ⟨id, hid, rule, hrule, List.mem_of_getElem? hnext⟩

theorem isReachable_of_next? (hi : i ∈ g.itemsFrom)
    (hnext : g.next? i = some (.nonterminal name)) : g.grammar.IsReachable g.start name := by
  rcases next?_cases hi hnext with hstart | ⟨id, ⟨rule, hrule, hreachable⟩, rule', hrule', hmem⟩
  · rw [Symbol.nonterminal.inj hstart]
    exact .start
  · obtain rfl := Option.some.inj (hrule.symm.trans hrule')
    exact .reference (Grammar.mem_rules_of_rule? hrule) hreachable (Rule.refersTo_iff.mpr hmem)

theorem mem_rulesFrom_of_mem_alternatives {id : RuleId}
    (hname : g.grammar.IsReachable g.start name) (hid : id ∈ g.grammar.alternatives name) :
    id ∈ g.grammar.rulesFrom g.start := by
  obtain ⟨rule, hrule, rfl⟩ := Grammar.mem_alternatives_iff.mp hid
  exact ⟨rule, hrule, hname⟩

/-- Without reading anything an item goes on to the alternatives of the nonterminal after its dot.
-/
theorem mem_step_none_iff {j : Item} : j ∈ g.itemAutomaton.step i none ↔
    ∃ name, g.next? i = some (.nonterminal name) ∧
      ∃ id ∈ g.grammar.alternatives name, ⟨id, 0⟩ = j := by
  rw [mem_step_none]
  constructor
  · rintro ⟨hdot, rule, hrule, hnext⟩
    refine ⟨rule.name, hnext, j.rule, Grammar.mem_alternatives_iff.mpr ⟨rule, hrule, rfl⟩, ?_⟩
    rw [← hdot]
  · rintro ⟨name, hnext, id, hid, rfl⟩
    obtain ⟨rule, hrule, rfl⟩ := Grammar.mem_alternatives_iff.mp hid
    exact ⟨rfl, rule, hrule, hnext⟩

theorem close_subset_itemsFrom (hK : K ⊆ g.itemsFrom) : g.close K ⊆ g.itemsFrom := by
  intro i hi
  induction hi with
  | base i hi => exact hK hi
  | step i j hj _ ih =>
    obtain ⟨name, hnext, id, hid, rfl⟩ := mem_step_none_iff.mp hj
    exact Or.inr (mem_rulesFrom_of_mem_alternatives (isReachable_of_next? ih hnext) hid)

theorem moved_subset_itemsFrom (hK : K ⊆ g.itemsFrom) : g.moved K symbol ⊆ g.itemsFrom := by
  rintro i ⟨j, hj, -, rfl⟩
  have hmem : j ∈ g.itemsFrom := close_subset_itemsFrom hK hj
  exact hmem

/-- Only items of reachable rules are reached. -/
theorem IsReached.subset (h : g.IsReached K) : K ⊆ g.itemsFrom := by
  induction h with
  | initial =>
    intro i hi
    obtain rfl : i = ⟨0, 0⟩ := hi
    exact Or.inl rfl
  | moved _ _ _ ih => exact moved_subset_itemsFrom ih

end Augmented

namespace Grammar.SameRulesFrom

variable {g g' : Grammar} {start : String} {number : RuleId → RuleId}
  (h : g.SameRulesFrom g' start number) {i j : Item} {id : RuleId} {K : Set Item} {symbol : Symbol}

theorem renumber_eq (hid : id ∈ g.rulesFrom start) : RuleId.renumber number id = number id :=
  if_neg (ne_zero_of_mem_rulesFrom hid)

include h

/-- The accepting rule keeps its number, and the others have their numbers one to one. -/
theorem bijOn_renumber : Set.BijOn (RuleId.renumber number) (Augmented.rulesFrom ⟨g, start⟩)
    (Augmented.rulesFrom ⟨g', start⟩) := by
  have hnumber : Set.BijOn (RuleId.renumber number) (g.rulesFrom start) (g'.rulesFrom start) :=
    h.bijOn.congr fun id hid => (renumber_eq hid).symm
  have hzero : RuleId.renumber number 0 = 0 := rfl
  have hnew : RuleId.renumber number 0 ∉ g'.rulesFrom start := by
    rw [hzero]
    exact fun hmem => ne_zero_of_mem_rulesFrom hmem rfl
  exact hnumber.insert hnew

theorem rule?_renumber (hid : id ∈ Augmented.rulesFrom ⟨g, start⟩) :
    (Augmented.rule? ⟨g', start⟩ (RuleId.renumber number id)).map Rule.content =
      (Augmented.rule? ⟨g, start⟩ id).map Rule.content := by
  rcases hid with rfl | hid
  · rfl
  · have hnumber := ne_zero_of_mem_rulesFrom (h.bijOn.mapsTo hid)
    rw [renumber_eq hid, Augmented.rule?, Augmented.rule?, if_neg hnumber,
      if_neg (ne_zero_of_mem_rulesFrom hid)]
    exact h.content id hid

theorem injOn : Set.InjOn (Item.renumber number) (Augmented.itemsFrom ⟨g, start⟩) := by
  rintro ⟨id, dot⟩ hi ⟨id', dot'⟩ hj heq
  obtain ⟨hid, hdot⟩ := Item.mk.inj heq
  obtain rfl : dot = dot' := hdot
  exact congrArg (Item.mk · dot) (h.bijOn_renumber.injOn hi hj hid)

theorem renumber_mem (hi : i ∈ Augmented.itemsFrom ⟨g, start⟩) :
    i.renumber number ∈ Augmented.itemsFrom ⟨g', start⟩ := h.bijOn_renumber.mapsTo hi

/-- An item keeps the symbol after its dot. -/
theorem next?_renumber (hi : i ∈ Augmented.itemsFrom ⟨g, start⟩) :
    Augmented.next? ⟨g', start⟩ (i.renumber number) = Augmented.next? ⟨g, start⟩ i := by
  have hshape := congrArg (Option.map Prod.fst) (h.rule?_renumber hi)
  rw [Option.map_map, Option.map_map] at hshape
  rw [Augmented.next?_eq_bind_shape, Augmented.next?_eq_bind_shape]
  exact congrArg (Option.bind · (·.2[i.dot]?)) hshape

/-- A reachable nonterminal has the same alternatives. -/
theorem image_alternatives {name : String} (hname : g.IsReachable start name)
    (hname' : g'.IsReachable start name) :
    number '' {id | id ∈ g.alternatives name} = {id | id ∈ g'.alternatives name} := by
  ext id'
  simp only [Set.mem_image, Set.mem_ofPred_eq, mem_alternatives_iff]
  constructor
  · rintro ⟨id, ⟨rule, hrule, rfl⟩, rfl⟩
    obtain ⟨rule', hrule', hsame⟩ :=
      exists_eq_some_of_map_eq (h.content id ⟨rule, hrule, hname⟩) hrule
    exact ⟨rule', hrule', congrArg (·.1.1) hsame⟩
  · rintro ⟨rule', hrule', rfl⟩
    obtain ⟨id, hid, rfl⟩ := h.bijOn.surjOn ⟨rule', hrule', hname'⟩
    obtain ⟨rule, hrule, hsame⟩ := exists_eq_some_of_map_eq (h.content id hid).symm hrule'
    exact ⟨id, ⟨rule, hrule, congrArg (·.1.1) hsame⟩, rfl⟩

/-- Without reading anything an item goes on to the same items. -/
theorem image_step (hi : i ∈ Augmented.itemsFrom ⟨g, start⟩) :
    Item.renumber number '' (Augmented.itemAutomaton ⟨g, start⟩).step i none =
      (Augmented.itemAutomaton ⟨g', start⟩).step (i.renumber number) none := by
  have hreachable : ∀ {name}, Augmented.next? ⟨g, start⟩ i = some (.nonterminal name) →
      g.IsReachable start name := Augmented.isReachable_of_next? hi
  -- the nonterminal after the dot is reachable in both grammars
  have halternatives : ∀ {name}, Augmented.next? ⟨g, start⟩ i = some (.nonterminal name) →
      number '' {id | id ∈ g.alternatives name} = {id | id ∈ g'.alternatives name} := by
    intro name hnext
    apply h.image_alternatives (hreachable hnext)
    apply Augmented.isReachable_of_next? (h.renumber_mem hi)
    rw [h.next?_renumber hi, hnext]
  have hbegin : ∀ {name id}, Augmented.next? ⟨g, start⟩ i = some (.nonterminal name) →
      id ∈ g.alternatives name → Item.renumber number ⟨id, 0⟩ = ⟨number id, 0⟩ := by
    intro name id hnext hid
    rw [Item.renumber, renumber_eq
      (Augmented.mem_rulesFrom_of_mem_alternatives (g := ⟨g, start⟩) (hreachable hnext) hid)]
  ext j
  rw [Augmented.mem_step_none_iff, h.next?_renumber hi]
  constructor
  · rintro ⟨k, hk, rfl⟩
    obtain ⟨name, hnext, id, hid, rfl⟩ := Augmented.mem_step_none_iff.mp hk
    refine ⟨name, hnext, number id, ?_, (hbegin hnext hid).symm⟩
    have hmem := Set.mem_image_of_mem number (show id ∈ {id | id ∈ g.alternatives name} from hid)
    rw [halternatives hnext] at hmem
    exact hmem
  · rintro ⟨name, hnext, id', hid', rfl⟩
    have hmem : id' ∈ {id | id ∈ g'.alternatives name} := hid'
    rw [← halternatives hnext] at hmem
    obtain ⟨id, hid, rfl⟩ := hmem
    exact ⟨⟨id, 0⟩, Augmented.mem_step_none_iff.mpr ⟨name, hnext, id, hid, rfl⟩, hbegin hnext hid⟩

/-- Closing a set and giving its items their numbers in the other grammar can be exchanged. -/
theorem image_close (hK : K ⊆ Augmented.itemsFrom ⟨g, start⟩) :
    Item.renumber number '' Augmented.close ⟨g, start⟩ K =
      Augmented.close ⟨g', start⟩ (Item.renumber number '' K) := by
  have hitems := Augmented.close_subset_itemsFrom hK
  -- each closure is followed by induction on why an item belongs to it
  ext j
  constructor
  · rintro ⟨i, hi, rfl⟩
    induction hi with
    | base i hi => exact .base _ (Set.mem_image_of_mem _ hi)
    | step i k hk hi ih =>
      refine εNFA.εClosure.step _ _ ?_ ih
      rw [← h.image_step (hitems hi)]
      exact Set.mem_image_of_mem _ hk
  · intro hj
    induction hj with
    | base j hj =>
      obtain ⟨i, hi, rfl⟩ := hj
      exact ⟨i, .base _ hi, rfl⟩
    | step j k hk _ ih =>
      obtain ⟨i, hi, rfl⟩ := ih
      rw [← h.image_step (hitems hi)] at hk
      obtain ⟨l, hl, rfl⟩ := hk
      exact ⟨l, εNFA.εClosure.step i l hl hi, rfl⟩

theorem image_moved (hK : K ⊆ Augmented.itemsFrom ⟨g, start⟩) (symbol : Symbol) :
    Item.renumber number '' Augmented.moved ⟨g, start⟩ K symbol =
      Augmented.moved ⟨g', start⟩ (Item.renumber number '' K) symbol := by
  have hitems := Augmented.close_subset_itemsFrom hK
  ext j
  rw [Augmented.moved, Augmented.moved, ← h.image_close hK]
  constructor
  · rintro ⟨_, ⟨i, hi, hnext, rfl⟩, rfl⟩
    refine ⟨i.renumber number, Set.mem_image_of_mem _ hi, ?_, rfl⟩
    rw [h.next?_renumber (hitems hi), hnext]
  · rintro ⟨_, ⟨i, hi, rfl⟩, hnext, rfl⟩
    rw [h.next?_renumber (hitems hi)] at hnext
    exact ⟨i.advance, ⟨i, hi, hnext, rfl⟩, rfl⟩

/-- The sets that are reached with the other grammar are those that are reached with the first,
under the other numbers. -/
theorem isReached_image_iff {L : Set Item} : Augmented.IsReached ⟨g', start⟩ L ↔
    ∃ K, Augmented.IsReached ⟨g, start⟩ K ∧ Item.renumber number '' K = L := by
  constructor
  · intro hL
    -- the sets before are images by induction, and images are moved to images
    induction hL with
    | initial => exact ⟨_, .initial, Augmented.image_initialSet number⟩
    | moved _ hj hnext ih =>
      obtain ⟨K, hK, rfl⟩ := ih
      rw [← h.image_close hK.subset] at hj
      obtain ⟨i, hi, rfl⟩ := hj
      rw [h.next?_renumber (Augmented.close_subset_itemsFrom hK.subset hi)] at hnext
      exact ⟨_, .moved hK hi hnext, h.image_moved hK.subset _⟩
  · rintro ⟨K, hK, rfl⟩
    induction hK with
    | initial =>
      rw [Augmented.image_initialSet]
      exact .initial
    | @moved K i symbol hK hi hnext ih =>
      rw [h.image_moved hK.subset]
      refine .moved (i := i.renumber number) ih ?_ ?_
      · rw [← h.image_close hK.subset]
        exact Set.mem_image_of_mem _ hi
      · rw [h.next?_renumber (Augmented.close_subset_itemsFrom hK.subset hi), hnext]

/-- Equally many sets are reached, so that the same numbers of reductions are allowed. -/
theorem setCount_eq : Augmented.setCount ⟨g', start⟩ = Augmented.setCount ⟨g, start⟩ := by
  have himage : {L | Augmented.IsReached ⟨g', start⟩ L} =
      (Item.renumber number '' ·) '' {K | Augmented.IsReached ⟨g, start⟩ K} := by
    ext L
    exact h.isReached_image_iff
  have hinjective : Set.InjOn (Item.renumber number '' ·)
      {K | Augmented.IsReached ⟨g, start⟩ K} :=
    h.injOn.image.mono fun K hK => Augmented.IsReached.subset hK
  rw [Augmented.setCount, Augmented.setCount, himage, hinjective.ncard_image]

end Grammar.SameRulesFrom

end Reformat
