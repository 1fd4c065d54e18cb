import Mathlib.Data.List.Destutter
import Mathlib.Data.List.Sort
import Reformat.Proofs.BreadthFirst
import Reformat.Proofs.States

/-! Items by the symbols after their dots. One pass puts each item into the group of its symbol or
its rule among those to be reduced, which are sorted in the end. No item is lost on the way, and
none is there twice. -/

namespace Reformat

/-- The groups so far, by their symbols, and the rules of items with the dot at the end. -/
structure Grouping where
  groups : List (Symbol × List TitledItem) := []
  reduces : List RuleId := []

namespace Grouping

/-- Puts one more item where it belongs. A new symbol gets an empty group first. -/
def add (s : Grouping) (t : TitledItem) : Grouping :=
  match t.next with
  | some symbol =>
    let items := (Association.get? symbol s.groups).getD []
    { s with groups := Association.put symbol (items ++ [t]) s.groups }
  | none => { s with reduces := s.reduces ++ [t.item.rule] }

/-- The groups, and the rules sorted and without neighbours that are equal. -/
def finish (s : Grouping) : List ItemGroup × List RuleId :=
  (s.groups.map fun (symbol, items) => ⟨symbol, items⟩, s.reduces.mergeSort.destutter (· ≠ ·))

/-- Groups items in one pass. -/
def ofItems (items : List TitledItem) : List ItemGroup × List RuleId :=
  (items.foldl add {}).finish

end Grouping

/-- Sorting brings equal numbers next to each other. -/
theorem destutter_mergeSort (ids : List Nat) :
    ids.mergeSort.destutter (· ≠ ·) = Ascending.ofList ids := by
  have hsorted : ids.mergeSort.Pairwise (· ≤ ·) := List.pairwise_mergeSort' (· ≤ ·) ids
  have hdedup : ids.mergeSort.destutter (· ≠ ·) = ids.mergeSort.dedup :=
    hsorted.destutter_eq_dedup
  apply Ascending.eq_of_mem_iff
  · rw [hdedup]
    have hle := hsorted.sublist (List.dedup_sublist _)
    have hne := List.nodup_dedup ids.mergeSort
    refine (hle.and hne).imp fun {a b} h => ?_
    exact Nat.compare_eq_lt.mpr (Nat.lt_of_le_of_ne h.1 h.2)
  · exact Ascending.ofList_ascending ids
  · intro id
    rw [hdedup, List.mem_dedup, List.mem_mergeSort, Ascending.mem_ofList]

namespace ItemGroup

variable {items : List TitledItem} {groups : List ItemGroup} {group : ItemGroup} {t : TitledItem}
  {symbol : Symbol}

theorem ofItems_concat (items : List TitledItem) (t : TitledItem) : ofItems (items ++ [t]) =
    match t.next with
    | some symbol => add symbol t (ofItems items)
    | none => ofItems items := by
  rw [ofItems, List.foldl_append]
  rfl

theorem map_put (symbol : Symbol) (t : TitledItem) (pairs : List (Symbol × List TitledItem)) :
    (Association.put symbol ((Association.get? symbol pairs).getD [] ++ [t]) pairs).map
        (fun (symbol, items) => (⟨symbol, items⟩ : ItemGroup)) =
      add symbol t (pairs.map fun (symbol, items) => ⟨symbol, items⟩) := by
  induction pairs with
  | nil => rfl
  | cons pair pairs ih =>
    obtain ⟨k, old⟩ := pair
    rw [Association.get?, Association.put, List.map_cons, add]
    by_cases hk : k = symbol
    · rw [if_pos hk, if_pos hk, if_pos hk]
      rfl
    · rw [if_neg hk, if_neg hk, if_neg hk, List.map_cons, ih]

/-- The symbols come in the order of their first appearance. -/
theorem symbols_ofItems (items : List TitledItem) :
    (ofItems items).map (·.symbol) = (items.filterMap (·.next)).eraseDups := by
  -- groups grow at their ends, so the last item is taken off first
  induction items using List.reverseRecOn with
  | nil => rfl
  | append_singleton items t ih =>
    rw [ofItems_concat, List.filterMap_append]
    cases hn : t.next with
    | none => simpa [hn] using ih
    | some symbol =>
      have hlast : [t].filterMap (·.next) = [symbol] := by simp [hn]
      dsimp only
      rw [symbols_add, ih, hlast, eraseDups_concat]
      simp only [List.mem_eraseDups]

theorem items_eq_filter (h : group ∈ ofItems items) :
    group.items = items.filter (·.next = some group.symbol) := by
  have hfind := find?_of_mem h
  rw [find?_ofItems] at hfind
  split at hfind
  · exact nomatch hfind
  · exact (congrArg ItemGroup.items (Option.some.inj hfind)).symm

/-- An item with a symbol after its dot is in the group of the symbol. -/
theorem exists_mem_ofItems (ht : t ∈ items) (hn : t.next = some symbol) :
    ∃ group ∈ ofItems items, group.symbol = symbol ∧ t ∈ group.items := by
  have hsymbol : symbol ∈ (ofItems items).map (·.symbol) := by
    rw [symbols_ofItems, List.mem_eraseDups, List.mem_filterMap]
    exact ⟨t, ht, hn⟩
  obtain ⟨group, hgroup, rfl⟩ := List.mem_map.mp hsymbol
  refine ⟨group, hgroup, rfl, ?_⟩
  rw [items_eq_filter hgroup, List.mem_filter]
  exact ⟨ht, decide_eq_true hn⟩

theorem eq_of_symbol_eq {other : ItemGroup} (hgroup : group ∈ ofItems items)
    (hother : other ∈ ofItems items) (h : group.symbol = other.symbol) : group = other := by
  have hfind := find?_of_mem hgroup
  rw [h, find?_of_mem hother] at hfind
  exact (Option.some.inj hfind).symm

theorem flatMap_add_perm (symbol : Symbol) (t : TitledItem) (groups : List ItemGroup) :
    ((add symbol t groups).flatMap (·.items)).Perm (groups.flatMap (·.items) ++ [t]) := by
  fun_induction add symbol t groups with
  | case1 => exact List.Perm.refl _
  | case2 group groups hg =>
    rw [List.flatMap_cons, List.flatMap_cons, List.append_assoc, List.append_assoc]
    exact List.perm_append_comm.append_left group.items
  | case3 group groups hg ih =>
    rw [List.flatMap_cons, List.flatMap_cons, List.append_assoc]
    exact ih.append_left group.items

/-- The groups and what is in no group make up the list. -/
theorem flatMap_ofItems_perm (items : List TitledItem) :
    ((ofItems items).flatMap (·.items) ++ items.filter (·.isReduceReady)).Perm items := by
  induction items using List.reverseRecOn with
  | nil => exact List.Perm.refl _
  | append_singleton items t ih =>
    rw [ofItems_concat, List.filter_append]
    cases hn : t.next with
    | none =>
      have hlast : [t].filter (·.isReduceReady) = [t] := by simp [TitledItem.isReduceReady, hn]
      rw [hlast, ← List.append_assoc]
      exact ih.append_right [t]
    | some symbol =>
      have hlast : [t].filter (·.isReduceReady) = [] := by simp [TitledItem.isReduceReady, hn]
      rw [hlast, List.append_nil]
      have hadd := (flatMap_add_perm symbol t (ofItems items)).append_right
        (items.filter (·.isReduceReady))
      refine hadd.trans ?_
      rw [List.append_assoc]
      refine ((List.perm_append_comm.append_left _).trans ?_)
      rw [← List.append_assoc]
      exact ih.append_right [t]

end ItemGroup

namespace Grouping

variable {s : Grouping}

theorem map_groups_foldl (s : Grouping) (items : List TitledItem) :
    (items.foldl add s).groups.map (fun (symbol, items) => (⟨symbol, items⟩ : ItemGroup)) =
      items.foldl (fun groups t =>
        match t.next with
        | some symbol => ItemGroup.add symbol t groups
        | none => groups) (s.groups.map fun (symbol, items) => ⟨symbol, items⟩) := by
  induction items generalizing s with
  | nil => rfl
  | cons t items ih =>
    rw [List.foldl_cons, List.foldl_cons, ih, add]
    cases t.next with
    | none => rfl
    | some symbol =>
      dsimp only
      rw [ItemGroup.map_put]

theorem reduces_foldl (s : Grouping) (items : List TitledItem) : (items.foldl add s).reduces =
    s.reduces ++ (items.filter (·.isReduceReady)).map (·.item.rule) := by
  induction items generalizing s with
  | nil => exact (List.append_nil _).symm
  | cons t items ih =>
    rw [List.foldl_cons, ih, add]
    cases hn : t.next with
    | none => simp [TitledItem.isReduceReady, hn]
    | some symbol => simp [TitledItem.isReduceReady, hn]

/-- One pass comes to the same as the groups and the rules by themselves. -/
theorem ofItems_eq (items : List TitledItem) :
    ofItems items = (ItemGroup.ofItems items, ItemGroup.reduces items) := by
  rw [ofItems, finish, map_groups_foldl, reduces_foldl, destutter_mergeSort]
  rfl

/-- What groups of items and rules to be reduced have to do with the items. -/
structure Divides (items : List TitledItem) (groups : List ItemGroup) (reduces : List RuleId) :
    Prop where
  nodup : (groups.map (·.symbol)).Nodup
  /-- The symbols come in the order of their first appearance. -/
  symbols : groups.map (·.symbol) = (items.filterMap (·.next)).eraseDups
  /-- A group has all items of its symbol, in their order. -/
  items_eq : ∀ group ∈ groups, group.items = items.filter (·.next = some group.symbol)
  ascending : reduces.Pairwise (· < ·)
  mem_reduces : ∀ id, id ∈ reduces ↔ ∃ t ∈ items, t.next = none ∧ t.item.rule = id
  /-- With their repetitions, the items are those of the groups and those without a symbol. -/
  perm : (groups.flatMap (·.items) ++ items.filter (·.isReduceReady)).Perm items
  /-- Each item is either accounted for by its rule or in just one group. -/
  parts : ∀ t ∈ items, Xor (t.next = none ∧ t.item.rule ∈ reduces)
    (∃! group, group ∈ groups ∧ t ∈ group.items)

end Grouping

/-- Whatever the items are, grouping them loses nothing and duplicates nothing. -/
theorem grouping_exact (items : List TitledItem) :
    Grouping.ofItems items = (ItemGroup.ofItems items, ItemGroup.reduces items) ∧
      Grouping.Divides items (ItemGroup.ofItems items) (ItemGroup.reduces items) := by
  refine ⟨Grouping.ofItems_eq items, ?_⟩
  constructor
  case nodup => exact ItemGroup.nodup_symbols_ofItems items
  case symbols => exact ItemGroup.symbols_ofItems items
  case items_eq => exact fun group hgroup => ItemGroup.items_eq_filter hgroup
  case ascending =>
    exact (Ascending.ofList_ascending _).imp fun hlt => Nat.compare_eq_lt.mp hlt
  case mem_reduces => exact fun id => ItemGroup.mem_reduces_iff
  case perm => exact ItemGroup.flatMap_ofItems_perm items
  case parts =>
    intro t ht
    cases hn : t.next with
    | none =>
      -- complete items are reduced, and no group has an item without a symbol
      refine .inl ⟨⟨rfl, ItemGroup.mem_reduces_iff.mpr ⟨t, ht, hn, rfl⟩⟩, ?_⟩
      rintro ⟨group, ⟨hgroup, hmem⟩, -⟩
      rw [ItemGroup.items_eq_filter hgroup, List.mem_filter, decide_eq_true_iff, hn] at hmem
      exact nomatch hmem.2
    | some symbol =>
      -- other items are in the group of their symbol, and there is one such group
      refine .inr ⟨?_, fun h => nomatch h.1⟩
      obtain ⟨group, hgroup, hsymbol, hmem⟩ := ItemGroup.exists_mem_ofItems ht hn
      refine ⟨group, ⟨hgroup, hmem⟩, ?_⟩
      rintro other ⟨hother, hmem'⟩
      rw [ItemGroup.items_eq_filter hother, List.mem_filter, decide_eq_true_iff, hn] at hmem'
      exact ItemGroup.eq_of_symbol_eq hother hgroup
        ((Option.some.inj hmem'.2).symm.trans hsymbol.symm)

end Reformat
