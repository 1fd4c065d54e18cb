import Mathlib.Data.List.Nodup
import Reformat.Item

/-! The closure of a kernel holds the items that can be reached from the kernel by going on to the
alternatives of the nonterminal after a dot, and no others. -/

namespace Reformat

open Std

namespace Queue

section

variable {α : Type} [Ord α] {q r : Queue α} {a b : α}

/-- The set of waiting values agrees with the line, in which nobody stands twice. -/
structure WellFormed (q : Queue α) : Prop where
  nodup : q.toList.Nodup
  waiting_iff : ∀ a, q.waiting.contains a = true ↔ a ∈ q.toList

theorem mem_toList_push (hq : q.WellFormed) :
    b ∈ (q.push a).toList ↔ b = a ∨ b ∈ q.toList := by
  rw [toList_push]
  split
  · next ha =>
    constructor
    · exact Or.inr
    · rintro (rfl | hb)
      · exact (hq.waiting_iff b).mp ha
      · exact hb
  · simp [or_comm]

theorem waiting_of_pop? (h : q.pop? = some (a, r)) : r.waiting = q.waiting.erase a := by
  unfold pop? at h
  split at h
  · simp only [Option.some.injEq, Prod.mk.injEq] at h
    obtain ⟨rfl, rfl⟩ := h
    rfl
  · split at h
    · simp at h
    · simp only [Option.some.injEq, Prod.mk.injEq] at h
      obtain ⟨rfl, rfl⟩ := h
      rfl

theorem wellFormed_empty : (∅ : Queue α).WellFormed where
  nodup := List.nodup_nil
  waiting_iff a := by
    change (∅ : TreeSet α).contains a = true ↔ a ∈ ([] : List α)
    simp

end

variable {α : Type} [Ord α] [TransOrd α] [LawfulEqOrd α] {q r : Queue α} {a b : α}

theorem WellFormed.push (hq : q.WellFormed) (a : α) : (q.push a).WellFormed := by
  by_cases ha : q.waiting.contains a = true
  · -- a value that waits already is not put into the line again
    rw [Queue.push, if_pos ha]
    exact hq
  · have hnot : a ∉ q.toList := fun hm => ha ((hq.waiting_iff a).mpr hm)
    refine ⟨?_, fun b => ?_⟩
    · rw [toList_push, if_neg ha, List.nodup_append]
      refine ⟨hq.nodup, List.nodup_singleton a, ?_⟩
      intro b hb c hc hbc
      rw [List.mem_singleton] at hc
      exact hnot (hc ▸ hbc ▸ hb)
    · rw [mem_toList_push hq, ← hq.waiting_iff b, Queue.push, if_neg ha]
      simp only [TreeSet.contains_insert, Bool.or_eq_true, beq_iff_eq,
        LawfulEqOrd.compare_eq_iff_eq]
      exact or_congr eq_comm Iff.rfl

theorem WellFormed.foldl_push (hq : q.WellFormed) (as : List α) :
    (as.foldl Queue.push q).WellFormed := by
  induction as generalizing q with
  | nil => exact hq
  | cons a as ih => exact ih (hq.push a)

theorem mem_toList_foldl_push (hq : q.WellFormed) (as : List α) :
    b ∈ (as.foldl Queue.push q).toList ↔ b ∈ as ∨ b ∈ q.toList := by
  induction as generalizing q with
  | nil => simp
  | cons a as ih =>
    rw [List.foldl_cons, ih (hq.push a), mem_toList_push hq, List.mem_cons]
    constructor
    · rintro (has | rfl | hold)
      · exact Or.inl (Or.inr has)
      · exact Or.inl (Or.inl rfl)
      · exact Or.inr hold
    · rintro ((rfl | has) | hold)
      · exact Or.inr (Or.inl rfl)
      · exact Or.inl has
      · exact Or.inr (Or.inr hold)

theorem WellFormed.pop? (hq : q.WellFormed) (h : q.pop? = some (a, r)) : r.WellFormed := by
  have hcons := toList_eq_cons_of_pop? h
  have hnodup := hq.nodup
  rw [hcons, List.nodup_cons] at hnodup
  refine ⟨hnodup.2, fun b => ?_⟩
  -- what is taken out stands nowhere else in the line, so it may leave the set
  rw [waiting_of_pop? h]
  rw [TreeSet.contains_erase, Bool.and_eq_true, hq.waiting_iff b, hcons, List.mem_cons, bne_iff_ne,
    ne_eq, LawfulEqOrd.compare_eq_iff_eq]
  constructor
  · rintro ⟨hab, rfl | hb⟩
    · exact absurd rfl hab
    · exact hb
  · intro hb
    exact ⟨fun hab => hnodup.1 (hab ▸ hb), Or.inr hb⟩

end Queue

theorem Numbering.mem_toList_insert {α : Type} [Ord α] [TransOrd α] [LawfulEqOrd α]
    {m : Numbering α} {a b : α} : b ∈ (m.insert a).toList ↔ b = a ∨ b ∈ m.toList := by
  rw [toList_insert]
  split
  · next ha => exact ⟨Or.inr, fun h => h.elim (fun he => he ▸ contains_iff.mp ha) id⟩
  · simp [or_comm]

/-- The items that the closure of a kernel has to hold. -/
inductive Augmented.InClosure (g : Augmented) (kernel : List Item) : Item → Prop
  | kernel {i : Item} (hi : i ∈ kernel) : InClosure g kernel i
  | alternative {i : Item} {name : String} {id : RuleId} (hi : InClosure g kernel i)
      (hnext : g.next? i = some (.nonterminal name)) (hid : id ∈ g.grammar.alternatives name) :
      InClosure g kernel ⟨id, 0⟩

namespace Closing

variable {g : Augmented} {kernel : List Item} {s t : Closing}

/-- Whether an item was found or waits to be looked at. -/
def Knows (s : Closing) (i : Item) : Prop := i ∈ s.found.toList ∨ i ∈ s.queue.toList

/-- What a step does: it drops an item that was found before, or finds an item after whose dot there
is nothing to expand, or finds one and lets the alternatives of a name wait. -/
theorem step_cases (h : step g s = .next t) :
    ∃ item queue, s.queue.pop? = some (item, queue) ∧
      ((item ∈ s.found.toList ∧ t = { s with queue }) ∨
        (item ∉ s.found.toList ∧
          (∀ name, g.next? item = some (.nonterminal name) → name ∈ s.expanded.toList) ∧
          t = { s with queue, found := s.found.insert item }) ∨
        (item ∉ s.found.toList ∧ ∃ name, g.next? item = some (.nonterminal name) ∧
          name ∉ s.expanded.toList ∧
          t = { queue := ((g.grammar.alternatives name).map (⟨·, 0⟩)).foldl Queue.push queue
                found := s.found.insert item
                expanded := s.expanded.insert name })) := by
  unfold step at h
  split at h
  · simp at h
  · next item queue hpop =>
    refine ⟨item, queue, hpop, ?_⟩
    split at h
    · next hfound => exact Or.inl ⟨Numbering.contains_iff.mp hfound, (Step.next.inj h).symm⟩
    · next hfound =>
      have hnew : item ∉ s.found.toList := fun hm => hfound (Numbering.contains_iff.mpr hm)
      -- a new item is found; what waits depends on the symbol after its dot
      refine Or.inr ?_
      simp only at h
      split at h
      · next name hname =>
        split at h
        · next hexp =>
          refine Or.inl ⟨hnew, fun n hn => ?_, (Step.next.inj h).symm⟩
          rw [hname, Option.some.injEq, Symbol.nonterminal.injEq] at hn
          exact hn ▸ Numbering.contains_iff.mp hexp
        · next hexp =>
          exact Or.inr ⟨hnew, name, hname, fun hm => hexp (Numbering.contains_iff.mpr hm),
            (Step.next.inj h).symm⟩
      · next hname =>
        exact Or.inl ⟨hnew, fun n hn => absurd hn (hname n), (Step.next.inj h).symm⟩

/-- What holds of a closure in the making. The last two fields make the found items closed once
nothing waits any more. -/
structure Invariant (g : Augmented) (kernel : List Item) (s : Closing) : Prop where
  queue : s.queue.WellFormed
  sound : ∀ i, s.Knows i → g.InClosure kernel i
  kernel : ∀ i ∈ kernel, s.Knows i
  expanded : ∀ i ∈ s.found.toList, ∀ name, g.next? i = some (.nonterminal name) →
    name ∈ s.expanded.toList
  alternatives : ∀ name ∈ s.expanded.toList, ∀ id ∈ g.grammar.alternatives name, s.Knows ⟨id, 0⟩

theorem invariant_initial : Invariant g kernel { queue := .ofList kernel } where
  queue := Queue.wellFormed_empty.foldl_push kernel
  sound i hi := by
    rcases hi with hi | hi
    · exact absurd hi (by simp)
    · rw [Queue.ofList, Queue.mem_toList_foldl_push Queue.wellFormed_empty] at hi
      exact hi.elim .kernel fun hi => absurd hi List.not_mem_nil
  kernel i hi :=
    Or.inr ((Queue.mem_toList_foldl_push Queue.wellFormed_empty kernel).mpr (Or.inl hi))
  expanded i hi := absurd hi (by simp)
  alternatives name hname := absurd hname (by simp)

theorem Invariant.step (hs : Invariant g kernel s) (h : step g s = .next t) :
    Invariant g kernel t := by
  obtain ⟨item, queue, hpop, hcases⟩ := step_cases h
  have hqueue := hs.queue.pop? hpop
  have hmem : ∀ i, i ∈ s.queue.toList ↔ i = item ∨ i ∈ queue.toList := by
    intro i
    rw [Queue.toList_eq_cons_of_pop? hpop, List.mem_cons]
  have hitem : g.InClosure kernel item := hs.sound item (Or.inr ((hmem item).mpr (Or.inl rfl)))
  rcases hcases with ⟨hold, rfl⟩ | ⟨-, hexp, ht⟩ | ⟨-, name, hname, -, ht⟩
  · -- the item that is dropped stays known, since it was found before
    have hknows : ∀ i, Knows { s with queue } i ↔ s.Knows i := by
      intro i
      simp only [Knows, hmem]
      constructor
      · exact Or.imp_right Or.inr
      · rintro (hfound | rfl | hwaits)
        · exact Or.inl hfound
        · exact Or.inl hold
        · exact Or.inr hwaits
    exact ⟨hqueue, fun i hi => hs.sound i ((hknows i).mp hi),
      fun i hi => (hknows i).mpr (hs.kernel i hi), hs.expanded,
      fun n hn id hid => (hknows _).mpr (hs.alternatives n hn id hid)⟩
  · -- the item moves from the queue to the found ones
    have hknows : ∀ i, t.Knows i ↔ s.Knows i := by
      intro i
      simp only [ht, Knows, hmem, Numbering.mem_toList_insert]
      rw [or_assoc, or_left_comm]
    subst ht
    refine ⟨hqueue, fun i hi => hs.sound i ((hknows i).mp hi),
      fun i hi => (hknows i).mpr (hs.kernel i hi), ?_,
      fun n hn id hid => (hknows _).mpr (hs.alternatives n hn id hid)⟩
    intro i hi n hn
    rcases Numbering.mem_toList_insert.mp hi with rfl | hi
    · exact hexp n hn
    · exact hs.expanded i hi n hn
  · -- the item moves as well, and the alternatives of the name become known
    have hknows : ∀ i, t.Knows i ↔
        s.Knows i ∨ ∃ id ∈ g.grammar.alternatives name, i = ⟨id, 0⟩ := by
      intro i
      simp only [ht, Knows, hmem, Numbering.mem_toList_insert,
        Queue.mem_toList_foldl_push hqueue, List.mem_map, eq_comm (a := i)]
      simp only [or_assoc, or_left_comm, or_comm]
    subst ht
    refine ⟨hqueue.foldl_push _, ?_, fun i hi => (hknows i).mpr (Or.inl (hs.kernel i hi)), ?_, ?_⟩
    · intro i hi
      rcases (hknows i).mp hi with hi | ⟨id, hid, rfl⟩
      · exact hs.sound i hi
      · exact .alternative hitem hname hid
    · intro i hi n hn
      rcases Numbering.mem_toList_insert.mp hi with rfl | hi
      · rw [hname, Option.some.injEq, Symbol.nonterminal.injEq] at hn
        exact Numbering.mem_toList_insert.mpr (Or.inl hn.symm)
      · exact Numbering.mem_toList_insert.mpr (Or.inr (hs.expanded i hi n hn))
    · intro n hn id hid
      rcases Numbering.mem_toList_insert.mp hn with rfl | hn
      · exact (hknows _).mpr (Or.inr ⟨id, hid, rfl⟩)
      · exact (hknows _).mpr (Or.inl (hs.alternatives n hn id hid))

theorem step_done {items : List TitledItem} (h : step g s = .done items) :
    s.queue.toList = [] ∧ items = s.found.toList.map g.titled := by
  unfold step at h
  split at h
  · next hpop => exact ⟨Queue.pop?_eq_none.mp hpop, (Step.done.inj h).symm⟩
  · split at h
    · simp at h
    · simp only at h
      split at h
      · split at h <;> simp at h
      · simp at h

end Closing

/-- The closure holds exactly the items of the least closed set, each with the symbol after its
dot. -/
theorem Augmented.mem_closure_iff {g : Augmented} {kernel : List Item} {t : TitledItem} :
    t ∈ g.closure kernel ↔ g.InClosure kernel t.item ∧ t.next = g.next? t.item := by
  refine Machine.run_induction (Closing.Invariant g kernel)
    (fun items => t ∈ items ↔ g.InClosure kernel t.item ∧ t.next = g.next? t.item)
    (fun _ _ hs h => hs.step h) ?_ _ Closing.invariant_initial
  intro s items hs h
  obtain ⟨hempty, rfl⟩ := Closing.step_done h
  -- nothing waits at the end, so all that is known was found
  have hfound : ∀ i, s.Knows i → i ∈ s.found.toList := by
    intro i hi
    exact hi.elim id fun hi => absurd hi (by simp [hempty])
  -- induction on why the item belongs to the closure
  have hclosed : ∀ i, g.InClosure kernel i → i ∈ s.found.toList := by
    intro i hi
    induction hi with
    | kernel hi => exact hfound _ (hs.kernel _ hi)
    | alternative _ hnext hid ih =>
      exact hfound _ (hs.alternatives _ (hs.expanded _ ih _ hnext) _ hid)
  rw [List.mem_map]
  constructor
  · rintro ⟨i, hi, rfl⟩
    exact ⟨hs.sound i (Or.inl hi), rfl⟩
  · rintro ⟨hi, hnext⟩
    exact ⟨t.item, hclosed _ hi, by rw [titled, ← hnext]⟩

end Reformat
