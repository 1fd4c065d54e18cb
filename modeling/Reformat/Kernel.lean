import Reformat.Item

/-!
Kernels: the lists of items that make up states. A grammar has finitely many of them.
-/

namespace Reformat

namespace Augmented

/-- The kernel of the initial state. -/
def initialKernel : List Item := [⟨0, 0⟩]

/-- All items of a rule. -/
def itemsOf (g : Augmented) (id : RuleId) : List Item :=
  match g.rule? id with
  | none => []
  | some rule => (List.range (rule.arity + 1)).map (⟨id, ·⟩)

/-- All items of all rules. -/
def items (g : Augmented) : List Item :=
  (List.range (g.grammar.rules.size + 1)).flatMap g.itemsOf

/-- A list that may be the kernel of a state. -/
structure IsKernel (g : Augmented) (kernel : List Item) : Prop where
  ascending : Ascending kernel
  subset : kernel ⊆ g.items

theorem mem_items {g : Augmented} {i : Item} :
    i ∈ g.items ↔ ∃ rule, g.rule? i.rule = some rule ∧ i.dot ≤ rule.arity := by
  simp only [items, List.mem_flatMap, List.mem_range, itemsOf]
  constructor
  · rintro ⟨id, hid, hi⟩
    split at hi
    · simp at hi
    · next rule hrule =>
      obtain ⟨dot, hdot, rfl⟩ := List.mem_map.1 hi
      exact ⟨rule, hrule, Nat.lt_succ_iff.1 (List.mem_range.1 hdot)⟩
  · rintro ⟨rule, hrule, hdot⟩
    refine ⟨i.rule, ?_, ?_⟩
    · cases i with
      | mk id dot =>
        cases id with
        | zero => exact Nat.succ_pos _
        | succ n =>
          simp only [rule?, Grammar.rule?] at hrule
          simp at hrule
          have := (Array.getElem?_eq_some_iff.1 hrule).1
          simp only
          omega
    · rw [hrule]
      exact List.mem_map.2 ⟨i.dot, List.mem_range.2 (by omega), rfl⟩

theorem isKernel_initial (g : Augmented) : g.IsKernel initialKernel where
  ascending := by simp [initialKernel, Ascending]
  subset := by
    intro i hi
    obtain rfl := List.mem_singleton.1 hi
    exact mem_items.2 ⟨g.acceptRule, rfl, Nat.zero_le _⟩

theorem advance_mem_items {g : Augmented} {i : Item} {symbol : Symbol}
    (h : g.next? i = some symbol) : i.advance ∈ g.items := by
  simp only [next?, Option.map_eq_some_iff, Option.bind_eq_some_iff] at h
  obtain ⟨e, ⟨rule, hrule, he⟩, _⟩ := h
  exact mem_items.2 ⟨rule, hrule, (Array.getElem?_eq_some_iff.1 he).1⟩

/-- The items of a closure know the symbols after their dots. -/
theorem next_of_mem_closure {g : Augmented} {kernel : List Item} {t : TitledItem}
    (h : t ∈ g.closure kernel) : t.next = g.next? t.item := by
  revert h
  refine Machine.run_induction (fun _ => True) (fun ts => t ∈ ts → t.next = g.next? t.item)
    ?_ ?_ _ trivial
  · exact fun _ _ _ _ => trivial
  · intro s r _ hr ht
    simp only [Closing.machine, Closing.step] at hr
    split at hr
    · obtain rfl := Step.done.inj hr
      obtain ⟨i, _, rfl⟩ := List.mem_map.1 ht
      rfl
    · split at hr
      · simp at hr
      · split at hr
        · split at hr <;> simp at hr
        · simp at hr

theorem isKernel_of_group {g : Augmented} {kernel : List Item} {group : ItemGroup}
    (h : group ∈ ItemGroup.ofItems (g.closure kernel)) : g.IsKernel group.kernel where
  ascending := Ascending.ofList_ascending _
  subset := by
    intro i hi
    obtain ⟨t, ht, rfl⟩ := List.mem_map.1 (Ascending.mem_ofList.1 hi)
    obtain ⟨hmem, hnext⟩ := ItemGroup.mem_of_mem_ofItems h ht
    exact advance_mem_items ((next_of_mem_closure hmem).symm.trans hnext)

/-- All lists of Booleans of a length. -/
def masks : Nat → List (List Bool)
  | 0 => [[]]
  | n + 1 => (masks n).map (false :: ·) ++ (masks n).map (true :: ·)

theorem length_masks (n : Nat) : (masks n).length = Nat.pow 2 n := by
  induction n with
  | zero => rfl
  | succ n ih =>
    rw [masks, List.length_append, List.length_map, List.length_map, ih]
    exact (Nat.mul_two _).symm

theorem mem_masks (m : List Bool) : m ∈ masks m.length := by
  induction m with
  | nil => simp [masks]
  | cons b m ih =>
    cases b <;> simp [masks, ih]

/-- There are at most as many kernels as sets of items. -/
theorem length_kernels_le {g : Augmented} {kernels : List (List Item)} (hn : kernels.Nodup)
    (hk : ∀ k ∈ kernels, g.IsKernel k) : kernels.length ≤ Nat.pow 2 g.items.length := by
  let mask (k : List Item) : List Bool := g.items.map fun i => decide (i ∈ k)
  have hinj : ∀ k ∈ kernels, ∀ l ∈ kernels, mask k = mask l → k = l := by
    intro k hk' l hl' he
    refine Ascending.eq_of_mem_iff (hk k hk').ascending (hk l hl').ascending fun i => ?_
    have hiff : ∀ i ∈ g.items, (i ∈ k ↔ i ∈ l) := fun i hi => by
      simpa using List.map_inj_left.1 he i hi
    exact ⟨fun hi => (hiff i ((hk k hk').subset hi)).1 hi,
      fun hi => (hiff i ((hk l hl').subset hi)).2 hi⟩
  have hnodup : (kernels.map mask).Nodup := by
    clear hk
    induction kernels with
    | nil => simp
    | cons k ks ih =>
      rw [List.nodup_cons] at hn
      rw [List.map_cons, List.nodup_cons]
      refine ⟨fun hm => ?_, ih hn.2 fun a ha b hb =>
        hinj a (List.mem_cons_of_mem k ha) b (List.mem_cons_of_mem k hb)⟩
      obtain ⟨l, hl, he⟩ := List.mem_map.1 hm
      have := hinj l (List.mem_cons_of_mem k hl) k List.mem_cons_self he
      exact hn.1 (this ▸ hl)
  have hsub : kernels.map mask ⊆ masks g.items.length := by
    intro m hm
    obtain ⟨k, _, rfl⟩ := List.mem_map.1 hm
    simpa [mask] using mem_masks (mask k)
  have hle := hnodup.length_le_of_subset hsub
  rwa [List.length_map, length_masks] at hle

end Augmented

end Reformat
