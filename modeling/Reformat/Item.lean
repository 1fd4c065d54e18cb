import Reformat.Ascending
import Reformat.Grammar
import Reformat.Machine
import Reformat.Queue

/-!
Items: rules with a dot between two elements. The closure of items adds what may stand at the dot.
-/

namespace Reformat

open Std

/-- A grammar with an accepting rule that matches one start symbol. -/
structure Augmented where
  grammar : Grammar
  start : String

namespace Augmented

/-- The accepting rule passes on the text of the start symbol. -/
def acceptRule (g : Augmented) : Rule where
  name := "$accept"
  elements := #[⟨.nonterminal g.start, {}⟩]
  template := [.capture 0]

def rule? (g : Augmented) (id : RuleId) : Option Rule :=
  if id = 0 then some g.acceptRule else g.grammar.rule? id

end Augmented

/-- A rule and the number of its elements before the dot. -/
structure Item where
  rule : RuleId
  dot : Nat
  deriving DecidableEq

namespace Item

/-- Items are ordered by their rules, then by their dots. -/
instance : Ord Item := ⟨compareLex (compareOn Item.rule) (compareOn Item.dot)⟩

instance : TransOrd Item :=
  inferInstanceAs (TransCmp (compareLex (compareOn Item.rule) (compareOn Item.dot)))

instance : LawfulEqOrd Item where
  eq_of_compare {a b} h := by
    have h : compareLex (compareOn Item.rule) (compareOn Item.dot) a b = .eq := h
    simp only [compareLex_eq_eq, compareOn, Nat.compare_eq_eq] at h
    cases a
    cases b
    simp_all

/-- The item with the dot one element further. -/
def advance (i : Item) : Item := { i with dot := i.dot + 1 }

end Item

/-- An item with the symbol after its dot; there is none at the end of the rule. -/
structure TitledItem where
  item : Item
  next : Option Symbol
  deriving DecidableEq

namespace TitledItem

def isReduceReady (t : TitledItem) : Bool := t.next.isNone

end TitledItem

namespace Augmented

/-- The symbol after the dot of an item. -/
def next? (g : Augmented) (i : Item) : Option Symbol :=
  ((g.rule? i.rule).bind (·.elements[i.dot]?)).map (·.symbol)

def titled (g : Augmented) (i : Item) : TitledItem := ⟨i, g.next? i⟩

/-- An item is shown with its dot among the elements of its rule. -/
def itemText (g : Augmented) (i : Item) : String :=
  match g.rule? i.rule with
  | none => ""
  | some rule =>
    let elements := rule.symbols.zipIdx.map fun (symbol, k) =>
      if k = i.dot then ". " ++ symbol.text else symbol.text
    s!"{rule.name} -> [ " ++ " ".intercalate elements ++
      if i.dot = rule.arity then " . ]" else " ]"

end Augmented

/-- A closure in the making: the items to look at, those found so far, and the nonterminals whose
alternatives have been added. -/
structure Closing where
  queue : Queue Item
  found : Numbering Item := ∅
  expanded : Numbering String := ∅

namespace Closing

/-- Looks at the next item. -/
def step (g : Augmented) (s : Closing) : Step Closing (List TitledItem) :=
  match s.queue.pop? with
  | none => .done (s.found.toList.map g.titled)
  | some (item, queue) =>
    if s.found.contains item then .next { s with queue }
    else
      let found := s.found.insert item
      match g.next? item with
      | some (.nonterminal name) =>
        if s.expanded.contains name then .next { s with queue, found }
        else
          let items := (g.grammar.alternatives name).map (⟨·, 0⟩)
          .next { queue := items.foldl Queue.push queue, found, expanded := s.expanded.insert name }
      | _ => .next { s with queue, found }

/-- The number of items that may still be looked at. -/
def weight (g : Augmented) (s : Closing) : Nat :=
  ((g.grammar.nonterminals.filter (!s.expanded.contains ·)).flatMap g.grammar.alternatives).length +
    s.queue.toList.length

theorem length_filter_and_le (f : String → List RuleId) (p q : String → Bool)
    (names : List String) : ((names.filter fun n => p n && q n).flatMap f).length ≤
      ((names.filter p).flatMap f).length := by
  induction names with
  | nil => simp
  | cons n names ih =>
    by_cases hp : p n <;> by_cases hq : q n <;>
      simp only [List.filter_cons, hp, hq, Bool.and_true, Bool.and_false, Bool.and_self, if_true,
        List.flatMap_cons, List.length_append, Bool.false_eq_true, if_false] <;> omega

/-- Leaving out one more name takes away its alternatives. -/
theorem length_filter_ne (f : String → List RuleId) (p : String → Bool) (name : String)
    (names : List String) (hp : p name = true) (h : name ∉ names → f name = []) :
    ((names.filter fun n => p n && n ≠ name).flatMap f).length + (f name).length ≤
      ((names.filter p).flatMap f).length := by
  induction names with
  | nil => simp [h]
  | cons n names ih =>
    by_cases hn : n = name
    · subst hn
      have := length_filter_and_le f p (· ≠ n) names
      simp [hp]
      simp at this
      omega
    · have := ih fun hnot => h (by simp [hnot, Ne.symm hn])
      by_cases hk : p n
      · simp [hk, hn]
        simp at this
        omega
      · simpa [hk] using this

theorem contains_insert_eq {m : Numbering String} {name : String} (hm : m.contains name = false)
    (n : String) : (!(m.insert name).contains n) = (!m.contains n && n ≠ name) := by
  have : (m.insert name).contains n = (m.contains n || n = name) := by
    rw [Bool.eq_iff_iff]
    simp [Numbering.contains_iff, Numbering.toList_insert, hm]
  simp [this]

/-- The machine that closes items. -/
def machine (g : Augmented) : Machine Closing (List TitledItem) where
  step := step g
  weight := weight g
  lighter := by
    intro s t h
    unfold step at h
    split at h
    · simp at h
    · next item queue hpop =>
      have hlen := congrArg List.length (Queue.toList_eq_cons_of_pop? hpop)
      rw [List.length_cons] at hlen
      split at h
      · obtain rfl := Step.next.inj h
        simp only [weight]
        omega
      · simp only at h
        split at h
        · next name hname =>
          split at h
          · obtain rfl := Step.next.inj h
            simp only [weight]
            omega
          · next hexp =>
            obtain rfl := Step.next.inj h
            have hpush := Queue.length_foldl_push_le
              ((g.grammar.alternatives name).map (⟨·, 0⟩ : RuleId → Item)) queue
            have hshare := length_filter_ne g.grammar.alternatives (!s.expanded.contains ·) name
              g.grammar.nonterminals (by simpa using hexp) NameTable.get_eq_nil
            simp only [← contains_insert_eq (Bool.eq_false_iff.2 hexp)] at hshare
            simp only [List.length_map] at hpush
            simp only [weight]
            omega
        · obtain rfl := Step.next.inj h
          simp only [weight]
          omega

end Closing

/-- The closure of items: these first, then the alternatives of every nonterminal after a dot, in
the order in which they are found. -/
def Augmented.closure (g : Augmented) (kernel : List Item) : List TitledItem :=
  (Closing.machine g).run { queue := .ofList kernel }

/-- Items with the same symbol after their dots. -/
structure ItemGroup where
  symbol : Symbol
  items : List TitledItem

namespace ItemGroup

/-- Puts an item with its symbol after the dot into its group. -/
def add (symbol : Symbol) (item : TitledItem) : List ItemGroup → List ItemGroup
  | [] => [⟨symbol, [item]⟩]
  | group :: groups =>
    if group.symbol = symbol then ⟨group.symbol, group.items ++ [item]⟩ :: groups
    else group :: add symbol item groups

/-- The items with a symbol after the dot, by that symbol in the order of first appearance. -/
def ofItems (items : List TitledItem) : List ItemGroup :=
  items.foldl (fun groups t =>
    match t.next with
    | some symbol => add symbol t groups
    | none => groups) []

theorem mem_of_mem_add {symbol : Symbol} {item t : TitledItem} {groups : List ItemGroup}
    {group : ItemGroup} (hg : group ∈ add symbol item groups) (ht : t ∈ group.items) :
    (t = item ∧ group.symbol = symbol) ∨
      ∃ old ∈ groups, group.symbol = old.symbol ∧ t ∈ old.items := by
  fun_induction add symbol item groups with
  | case1 =>
    obtain rfl := List.mem_singleton.1 hg
    exact .inl ⟨List.mem_singleton.1 ht, rfl⟩
  | case2 old groups heq =>
    rcases List.mem_cons.1 hg with rfl | hg
    · rcases List.mem_append.1 ht with ht | ht
      · exact .inr ⟨old, List.mem_cons_self, rfl, ht⟩
      · exact .inl ⟨List.mem_singleton.1 ht, heq⟩
    · exact .inr ⟨group, List.mem_cons_of_mem _ hg, rfl, ht⟩
  | case3 old groups _ ih =>
    rcases List.mem_cons.1 hg with rfl | hg
    · exact .inr ⟨group, List.mem_cons_self, rfl, ht⟩
    · rcases ih hg with h | ⟨old', hold, hsym, hmem⟩
      · exact .inl h
      · exact .inr ⟨old', List.mem_cons_of_mem _ hold, hsym, hmem⟩

/-- A group holds items of the list with its symbol after the dot. -/
theorem mem_of_mem_ofItems {items : List TitledItem} {group : ItemGroup} {t : TitledItem}
    (hg : group ∈ ofItems items) (ht : t ∈ group.items) :
    t ∈ items ∧ t.next = some group.symbol := by
  suffices h : ∀ (groups : List ItemGroup), (∀ old ∈ groups, ∀ t ∈ old.items,
      t ∈ items ∧ t.next = some old.symbol) → ∀ rest ⊆ items, group ∈ rest.foldl (fun groups t =>
        match t.next with
        | some symbol => add symbol t groups
        | none => groups) groups → t ∈ items ∧ t.next = some group.symbol from
    h [] (by simp) items (fun _ h => h) hg
  intro groups hgroups rest hrest
  induction rest generalizing groups with
  | nil => exact fun h => hgroups group h t ht
  | cons u rest ih =>
    rw [List.foldl_cons]
    refine ih _ ?_ fun _ h => hrest (List.mem_cons_of_mem u h)
    split
    · next symbol hu =>
      intro old hold t ht
      rcases mem_of_mem_add hold ht with ⟨rfl, hs⟩ | ⟨old', hold', hs, ht'⟩
      · exact ⟨hrest List.mem_cons_self, hs ▸ hu⟩
      · exact hs ▸ hgroups old' hold' t ht'
    · exact hgroups

/-- The rules of the items with the dot at the end, in ascending order. -/
def reduces (items : List TitledItem) : List RuleId :=
  Ascending.ofList ((items.filter (·.isReduceReady)).map (·.item.rule))

/-- The items of the group with their dots moved past the symbol, in ascending order. -/
def kernel (group : ItemGroup) : List Item :=
  Ascending.ofList (group.items.map (·.item.advance))

end ItemGroup

end Reformat
