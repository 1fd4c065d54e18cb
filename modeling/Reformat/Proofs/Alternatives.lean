import Mathlib.Data.List.Induction
import Reformat.Grammar

/-! The table of names lists under each name the numbers of its rules, in the order of their
declaration. -/

namespace Reformat

open Std

theorem Numbering.number?_insert {α : Type} [Ord α] [TransOrd α] [LawfulEqOrd α] [DecidableEq α]
    {m : Numbering α} {a : α} (ha : m.number? a = none) (b : α) :
    (m.insert a).number? b = if b = a then some m.values.size else m.number? b := by
  apply Option.ext
  intro i
  rw [number?_eq_some, values_insert ha, Array.getElem?_push]
  have hb : m.number? b = some i ↔ m.values[i]? = some b := number?_eq_some
  split
  · next hi =>
    subst hi
    split
    · next hba => simp [hba]
    · next hba => simp [hb, Ne.symm hba]
  · next hi =>
    split
    · next hba =>
      subst hba
      rw [← hb, ha]
      simp [Ne.symm hi]
    · exact hb.symm

namespace NameTable

variable {t : NameTable} {name n : String} {id : RuleId}

/-- There is one list of alternatives for each name. -/
def WellFormed (t : NameTable) : Prop := t.names.values.size = t.alternatives.size

theorem WellFormed.add (ht : t.WellFormed) : (t.add name id).WellFormed := by
  unfold NameTable.add
  split
  · simpa [WellFormed] using ht
  · next h =>
    simp only [WellFormed] at ht ⊢
    rw [Numbering.insert, dif_neg (by simp [h]), Array.size_push, Array.size_push, ht]

theorem get_add (ht : t.WellFormed) :
    (t.add name id).get n = if n = name then t.get n ++ [id] else t.get n := by
  unfold add
  split
  · next i hi =>
    have hlt : i < t.alternatives.size := by
      rw [← ht]
      exact (Array.getElem?_eq_some_iff.mp (Numbering.number?_eq_some.mp hi)).1
    simp only [get]
    split
    · next j hj =>
      -- both names have numbers, and equal numbers belong to equal names
      rw [Array.getElem?_modify]
      by_cases hij : i = j
      · subst hij
        have hname := Option.some.inj
          ((Numbering.number?_eq_some.mp hj).symm.trans (Numbering.number?_eq_some.mp hi))
        simp [hname, hlt]
      · have hname : n ≠ name := by
          rintro rfl
          exact hij (Option.some.inj (hi.symm.trans hj))
        simp [hij, hname]
    · next hn =>
      have hname : n ≠ name := by
        rintro rfl
        simp [hn] at hi
      simp [hname]
  · next hnone =>
    simp only [get, Numbering.number?_insert hnone]
    by_cases hn : n = name
    · subst hn
      have hsize : t.names.values.size = t.alternatives.size := ht
      simp [hnone, hsize]
    · simp only [hn, if_false]
      split
      · next j hj =>
        -- the new list comes after that of any name with a number
        have hlt : j < t.alternatives.size := by
          rw [← ht]
          exact (Array.getElem?_eq_some_iff.mp (Numbering.number?_eq_some.mp hj)).1
        rw [Array.getElem?_push, if_neg (Nat.ne_of_lt hlt)]
      · rfl

theorem get_foldl_add (rules : List (Rule × RuleId)) (ht : t.WellFormed) :
    (rules.foldl (fun t (rule, id) => t.add rule.name id) t).get name =
      t.get name ++ (rules.filter (·.1.name = name)).map (·.2) := by
  induction rules generalizing t with
  | nil => simp
  | cons r rules ih =>
    rw [List.foldl_cons, ih ht.add, get_add ht]
    by_cases hr : r.1.name = name
    · simp [hr]
    · simp [hr, Ne.symm hr]

theorem get_ofRules (rules : Array Rule) (name : String) :
    (ofRules rules).get name =
      ((rules.toList.zipIdx 1).filter (·.1.name = name)).map (·.2) := by
  have hempty : WellFormed {} := rfl
  have hnone : NameTable.get {} name = [] := get_eq_nil (by simp)
  rw [ofRules, get_foldl_add _ hempty, hnone, List.nil_append]

theorem mem_get_ofRules {rules : Array Rule} : id ∈ (ofRules rules).get name ↔
    ∃ rule, (rule, id) ∈ rules.toList.zipIdx 1 ∧ rule.name = name := by
  rw [get_ofRules]
  simp only [List.mem_map, List.mem_filter, decide_eq_true_eq, Prod.exists, exists_eq_right]

/-- The numbers under a name ascend. -/
theorem pairwise_get_ofRules (rules : Array Rule) (name : String) :
    ((ofRules rules).get name).Pairwise (· < ·) := by
  have hsublist : ((ofRules rules).get name).Sublist ((rules.toList.zipIdx 1).map (·.2)) := by
    rw [get_ofRules]
    exact List.filter_sublist.map _
  rw [List.zipIdx_map_snd] at hsublist
  exact List.Pairwise.sublist hsublist List.pairwise_lt_range'

theorem ofRules_concat (rules : List Rule) (rule : Rule) : ofRules (rules ++ [rule]).toArray =
    (ofRules rules.toArray).add rule.name (rules.length + 1) := by
  simp [ofRules, List.zipIdx_append, Nat.add_comm]

theorem wellFormed_ofRules (rules : List Rule) : (ofRules rules.toArray).WellFormed := by
  induction rules using List.reverseRecOn with
  | nil => rfl
  | append_singleton rules rule ih =>
    rw [ofRules_concat]
    exact ih.add

theorem names_add (t : NameTable) (name : String) (id : RuleId) :
    (t.add name id).names.toList = (t.names.insert name).toList := by
  unfold add
  split
  · next h => rw [Numbering.insert, dif_pos (by simp [h])]
  · rfl

/-- Each name is there once, where it came first. -/
theorem names_ofRules (rules : List Rule) :
    (ofRules rules.toArray).names.toList = (rules.map (·.name)).eraseDups := by
  induction rules using List.reverseRecOn with
  | nil => rfl
  | append_singleton rules rule ih =>
    rw [ofRules_concat, names_add, Numbering.toList_insert, ih, List.map_append,
      List.eraseDups_append]
    by_cases hmem : ∃ r ∈ rules, r.name = rule.name
    · simp [List.removeAll, Numbering.contains_iff, ih, hmem]
    · simp [List.removeAll, Numbering.contains_iff, ih, hmem, List.eraseDups_cons]

theorem WellFormed.alternatives_eq (ht : t.WellFormed) :
    t.alternatives.toList = t.names.toList.map t.get := by
  refine List.ext_getElem (by simpa [Numbering.toList] using ht.symm) fun i hi hi' => ?_
  have hlt : i < t.names.values.size := by simpa [Numbering.toList] using hi'
  have hnumber : t.names.number? t.names.values[i] = some i :=
    Numbering.number?_eq_some.mpr (Array.getElem?_eq_getElem hlt)
  have halt : i < t.alternatives.size := hi
  simp [Numbering.toList, get, hnumber, halt]

/-- A well-formed table lists its names with what it gives for them. -/
theorem WellFormed.toList_eq (ht : t.WellFormed) :
    t.toList = t.names.toList.map fun name => (name, t.get name) := by
  rw [toList, ht.alternatives_eq, List.map_prod_left_eq_zip]

end NameTable

namespace Grammar

variable {g : Grammar} {name : String} {id : RuleId}

/-- The alternatives of a name are the rules with that name. -/
theorem mem_alternatives_iff :
    id ∈ g.alternatives name ↔ ∃ rule, g.rule? id = some rule ∧ rule.name = name := by
  rw [alternatives, g.table_eq, NameTable.mem_get_ofRules]
  -- rules are numbered from 1, so that 0 is nobody's number
  have hzip : ∀ rule, (rule, id) ∈ g.rules.toList.zipIdx 1 ↔ g.rule? id = some rule := by
    intro rule
    cases id with
    | zero => simp [List.mem_zipIdx_iff_le_and_getElem?_sub, rule?]
    | succ n => simp [List.mem_zipIdx_iff_le_and_getElem?_sub, rule?]
  simp only [hzip]

theorem mem_rules_of_rule? {rule : Rule} (h : g.rule? id = some rule) : rule ∈ g.rules := by
  cases id with
  | zero => simp [rule?] at h
  | succ n => exact Array.mem_of_getElem? h

theorem exists_rule?_of_mem {rule : Rule} (h : rule ∈ g.rules) : ∃ id, g.rule? id = some rule := by
  obtain ⟨n, hn⟩ := Array.mem_iff_getElem?.mp h
  exact ⟨n + 1, hn⟩

end Grammar

end Reformat
