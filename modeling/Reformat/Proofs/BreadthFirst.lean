import Mathlib.Order.Bounds.Defs
import Reformat.Proofs.Alternatives
import Reformat.Proofs.Closure
import Reformat.Proofs.Runs

/-! The order of a closure. The items of the kernel come first, and then the alternatives of one
nonterminal after the other, in the order in which these come after dots. -/

namespace Reformat

open Std

section

variable {α : Type} [DecidableEq α] {as bs : List α} {a : α}

theorem eraseDups_concat (as : List α) (a : α) :
    (as ++ [a]).eraseDups = if a ∈ as then as.eraseDups else as.eraseDups ++ [a] := by
  rw [List.eraseDups_append]
  by_cases ha : a ∈ as
  · simp [List.removeAll, ha]
  · simp [List.removeAll, ha, List.eraseDups_cons]

theorem nodup_eraseDups (as : List α) : as.eraseDups.Nodup := by
  induction as using List.reverseRecOn with
  | nil => exact List.nodup_nil
  | append_singleton as a ih =>
    rw [eraseDups_concat]
    split
    · exact ih
    · next ha =>
      rw [List.nodup_append]
      refine ⟨ih, List.nodup_singleton a, fun b hb c hc hbc => ?_⟩
      rw [List.mem_singleton] at hc
      exact ha (hc ▸ hbc ▸ List.mem_eraseDups.mp hb)

theorem eraseDups_of_nodup (h : as.Nodup) : as.eraseDups = as := by
  induction as using List.reverseRecOn with
  | nil => rfl
  | append_singleton as a ih =>
    rw [List.nodup_append] at h
    have ha : a ∉ as := fun hmem => h.2.2 a hmem a List.mem_cons_self rfl
    rw [eraseDups_concat, if_neg ha, ih h.1]

/-- Lists with the same values in the same order go on in the same way. -/
theorem eraseDups_append_congr (h : as.eraseDups = bs.eraseDups) (cs : List α) :
    (as ++ cs).eraseDups = (bs ++ cs).eraseDups := by
  have hmem : ∀ c, c ∈ as ↔ c ∈ bs := by
    intro c
    rw [← List.mem_eraseDups, h, List.mem_eraseDups]
  simp only [List.eraseDups_append, h, List.removeAll, List.elem_eq_contains, List.contains_eq_mem,
    hmem]

/-- A value that came before may be left out. -/
theorem eraseDups_append_cons (ha : a ∈ as) (bs : List α) :
    (as ++ a :: bs).eraseDups = (as ++ bs).eraseDups := by
  have hlast : (as ++ [a]).eraseDups = as.eraseDups := by rw [eraseDups_concat, if_pos ha]
  rw [List.append_cons]
  exact eraseDups_append_congr hlast bs

end

/-- Apart from repetitions, what is pushed into a queue comes after what waits. -/
theorem Queue.eraseDups_append_foldl_push {α : Type} [Ord α] [TransOrd α] [LawfulEqOrd α]
    [DecidableEq α] {q : Queue α} (hq : q.WellFormed) (before as : List α) :
    (before ++ (as.foldl push q).toList).eraseDups = (before ++ q.toList ++ as).eraseDups := by
  induction as generalizing q with
  | nil => rw [List.foldl_nil, List.append_nil]
  | cons a as ih =>
    rw [List.foldl_cons, ih (hq.push a), toList_push]
    split
    · next hwaits =>
      have ha : a ∈ before ++ q.toList :=
        List.mem_append_right before ((hq.waiting_iff a).mp hwaits)
      exact (eraseDups_append_cons ha as).symm
    · rw [← List.append_assoc, List.append_assoc, List.singleton_append]

/-- The name of a nonterminal. -/
def Symbol.name? : Symbol → Option String
  | .terminal _ => none
  | .nonterminal name => some name

/-- The nonterminals after the dots of items, in the order in which they come first. -/
def namesAfterDots (items : List TitledItem) : List String :=
  (items.filterMap fun t => t.next.bind Symbol.name?).eraseDups

namespace Augmented

/-- The alternatives of a nonterminal with the dot at the beginning, in the order of their
declaration. -/
def beginnings (g : Augmented) (name : String) : List Item :=
  ((List.range' 1 g.grammar.rules.size).filter fun id =>
    (g.grammar.rule? id).any (·.name = name)).map (⟨·, 0⟩)

theorem beginnings_eq (g : Augmented) (name : String) :
    g.beginnings name = (g.grammar.alternatives name).map (⟨·, 0⟩) := by
  have hnumbers : List.range' 1 g.grammar.rules.size =
      (g.grammar.rules.toList.zipIdx 1).map (·.2) := by
    rw [List.zipIdx_map_snd, Array.length_toList]
  rw [beginnings, Grammar.alternatives, g.grammar.table_eq, NameTable.get_ofRules, hnumbers,
    List.filter_map]
  congr 2
  apply List.filter_congr
  rintro ⟨rule, id⟩ hmem
  -- rules are numbered from 1
  obtain ⟨hle, hget⟩ := List.mem_zipIdx_iff_le_and_getElem?_sub.mp hmem
  obtain ⟨n, rfl⟩ := Nat.exists_eq_add_of_le' hle
  have hrule : g.grammar.rule? (n + 1) = some rule := by
    rw [Grammar.rule?, ← Array.getElem?_toList]
    exact hget
  rw [Function.comp_apply, hrule, Option.any_some]

end Augmented

namespace Closing

variable {g : Augmented} {kernel : List Item} {s t : Closing}

/-- Up to repetitions, what was found and what waits is the kernel followed by the alternatives of
the names that were expanded, and these are the names after the dots of what was found. -/
structure Ordered (g : Augmented) (kernel : List Item) (s : Closing) : Prop where
  queue : s.queue.WellFormed
  known : (s.found.toList ++ s.queue.toList).eraseDups =
    (kernel ++ s.expanded.toList.flatMap g.beginnings).eraseDups
  expanded : s.expanded.toList = namesAfterDots (s.found.toList.map g.titled)

theorem namesAfterDots_concat (g : Augmented) (items : List Item) (item : Item) :
    namesAfterDots ((items ++ [item]).map g.titled) =
      match (g.next? item).bind Symbol.name? with
      | none => namesAfterDots (items.map g.titled)
      | some name =>
        if name ∈ namesAfterDots (items.map g.titled) then namesAfterDots (items.map g.titled)
        else namesAfterDots (items.map g.titled) ++ [name] := by
  rw [List.map_append, List.map_singleton, namesAfterDots, List.filterMap_append]
  have htitle : (g.titled item).next = g.next? item := rfl
  cases hname : (g.next? item).bind Symbol.name? with
  | none =>
    have hnil : [g.titled item].filterMap (fun t => t.next.bind Symbol.name?) = [] := by
      simp [htitle, hname]
    rw [hnil, List.append_nil]
    rfl
  | some name =>
    have hsingle : [g.titled item].filterMap (fun t => t.next.bind Symbol.name?) = [name] := by
      simp [htitle, hname]
    rw [hsingle, eraseDups_concat]
    simp only [namesAfterDots, List.mem_eraseDups]

theorem ordered_initial : Ordered g kernel { queue := .ofList kernel } where
  queue := Queue.wellFormed_empty.foldl_push kernel
  known := by
    change _ = (kernel ++ []).eraseDups
    rw [List.append_nil]
    exact Queue.eraseDups_append_foldl_push Queue.wellFormed_empty [] kernel
  expanded := rfl

theorem Ordered.step (hs : Ordered g kernel s) (h : step g s = .next t) : Ordered g kernel t := by
  obtain ⟨item, queue, hpop, hcases⟩ := step_cases h
  have hqueue := hs.queue.pop? hpop
  have hknown := hs.known
  rw [Queue.toList_eq_cons_of_pop? hpop] at hknown
  have hfound : item ∉ s.found.toList →
      (s.found.insert item).toList = s.found.toList ++ [item] := by
    intro hnew
    rw [Numbering.toList_insert, if_neg fun hold => hnew (Numbering.contains_iff.mp hold)]
  rcases hcases with ⟨hold, rfl⟩ | ⟨hnew, hexpanded, rfl⟩ | ⟨hnew, name, hname, hnot, rfl⟩
  · -- the item that is dropped came before
    rw [eraseDups_append_cons hold] at hknown
    exact ⟨hqueue, hknown, hs.expanded⟩
  · refine ⟨hqueue, ?_, ?_⟩
    · rw [hfound hnew, ← List.append_cons]
      exact hknown
    · dsimp only
      rw [hfound hnew, namesAfterDots_concat, ← hs.expanded]
      -- a name after the dot was expanded before
      cases hnext : g.next? item with
      | none => rfl
      | some symbol =>
        cases symbol with
        | terminal pattern => rfl
        | nonterminal name => exact (if_pos (hexpanded name hnext)).symm
  · have hnames : (s.expanded.insert name).toList = s.expanded.toList ++ [name] := by
      rw [Numbering.toList_insert, if_neg fun hold => hnot (Numbering.contains_iff.mp hold)]
    refine ⟨hqueue.foldl_push _, ?_, ?_⟩
    · dsimp only
      rw [hfound hnew, Queue.eraseDups_append_foldl_push hqueue, ← List.append_cons, hnames,
        List.flatMap_append, List.flatMap_singleton, ← List.append_assoc, g.beginnings_eq]
      exact eraseDups_append_congr hknown _
    · dsimp only
      rw [hfound hnew, hnames, namesAfterDots_concat, ← hs.expanded, hname]
      exact (if_neg hnot).symm

end Closing

namespace Augmented

variable {g : Augmented} {kernel : List Item}

/-- A set of items is closed if it has the alternatives of every nonterminal after a dot, from their
beginnings. -/
def IsClosed (g : Augmented) (S : Set Item) : Prop :=
  ∀ i ∈ S, ∀ id rule, g.grammar.rule? id = some rule →
    g.next? i = some (.nonterminal rule.name) → ⟨id, 0⟩ ∈ S

/-- The items of a closure are the least closed set with the kernel. -/
theorem isLeast_closure (g : Augmented) (kernel : List Item) :
    IsLeast {S : Set Item | g.IsClosed S ∧ ∀ i ∈ kernel, i ∈ S}
      {i | ∃ t ∈ g.closure kernel, t.item = i} := by
  have hmem : ∀ i, (∃ t ∈ g.closure kernel, t.item = i) ↔ g.InClosure kernel i := by
    intro i
    constructor
    · rintro ⟨t, ht, rfl⟩
      exact (mem_closure_iff.mp ht).1
    · intro hi
      exact ⟨g.titled i, mem_closure_iff.mpr ⟨hi, rfl⟩, rfl⟩
  simp only [hmem]
  constructor
  · refine ⟨fun i hi id rule hrule hnext => ?_, fun i hi => .kernel hi⟩
    exact .alternative hi hnext (Grammar.mem_alternatives_iff.mpr ⟨rule, hrule, rfl⟩)
  · rintro S ⟨hclosed, hkernel⟩ i hi
    -- induction on why the item belongs to the closure
    induction hi with
    | kernel hi => exact hkernel _ hi
    | alternative _ hnext hid ih =>
      obtain ⟨rule, hrule, rfl⟩ := Grammar.mem_alternatives_iff.mp hid
      exact hclosed _ ih _ rule hrule hnext

theorem closure_order (g : Augmented) (kernel : List Item) :
    ((g.closure kernel).map (·.item)).Nodup ∧ (g.closure kernel).map (·.item) =
      (kernel ++ (namesAfterDots (g.closure kernel)).flatMap g.beginnings).eraseDups := by
  refine Machine.run_induction (m := Closing.machine g) (Closing.Ordered g kernel)
    (fun items => (items.map (·.item)).Nodup ∧ items.map (·.item) =
      (kernel ++ (namesAfterDots items).flatMap g.beginnings).eraseDups)
    (fun s t hs h => Closing.Ordered.step hs h) ?_ _ Closing.ordered_initial
  intro s items hs h
  obtain ⟨hempty, rfl⟩ := Closing.step_done h
  have hitems : (s.found.toList.map g.titled).map (·.item) = s.found.toList := by
    rw [List.map_map]
    exact List.map_id _
  have hknown := hs.known
  rw [hempty, List.append_nil, eraseDups_of_nodup s.found.nodup_toList, hs.expanded] at hknown
  rw [hitems]
  exact ⟨s.found.nodup_toList, hknown⟩

/-- Items with the symbols after their dots are the closure of a kernel, breadth first. -/
structure ListsClosure (g : Augmented) (kernel : List Item) (items : List TitledItem) : Prop where
  nodup : items.Nodup
  titles : ∀ t ∈ items, t.next = g.next? t.item
  least : IsLeast {S : Set Item | g.IsClosed S ∧ ∀ i ∈ kernel, i ∈ S} {i | ∃ t ∈ items, t.item = i}
  begins : kernel.eraseDups <+: items.map (·.item)
  /-- What comes after the kernel are the alternatives of the nonterminals after dots, in the order
  in which these come first in the list itself. Nothing is there twice. -/
  order : items.map (·.item) =
    (kernel ++ (namesAfterDots items).flatMap g.beginnings).eraseDups

end Augmented

/-- Whatever the kernel is, the search for its closure ends, and lists the least set of items that is
closed and has the kernel, breadth first. -/
theorem closure_breadth_first (g : Augmented) (kernel : List Item) :
    (∃ s, Step.Reaches (Closing.step g) { queue := .ofList kernel } s ∧
      Closing.step g s = .done (g.closure kernel)) ∧
    g.ListsClosure kernel (g.closure kernel) := by
  obtain ⟨hnodup, horder⟩ := g.closure_order kernel
  refine ⟨(Closing.machine g).exists_done _, ?_⟩
  constructor
  case nodup => exact List.Nodup.of_map _ hnodup
  case titles => exact fun t ht => (Augmented.mem_closure_iff.mp ht).2
  case least => exact g.isLeast_closure kernel
  case begins =>
    rw [horder, List.eraseDups_append]
    exact List.prefix_append _ _
  case order => exact horder

end Reformat
