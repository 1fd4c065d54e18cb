import Std.Data.TreeMap

/-!
Distinct values, numbered in the order in which they first came.
-/

namespace Reformat

open Std

/-- Values without repetition, with an index that finds the number of each. -/
structure Numbering (α : Type) [Ord α] where
  values : Array α
  index : TreeMap α Nat
  index_eq : ∀ (a : α) (i : Nat), index[a]? = some i ↔ values[i]? = some a

namespace Numbering

variable {α : Type} [Ord α]

def empty [TransOrd α] : Numbering α where
  values := #[]
  index := ∅
  index_eq := by simp

instance [TransOrd α] : EmptyCollection (Numbering α) := ⟨empty⟩

def size (m : Numbering α) : Nat := m.values.size

/-- The values in the order of their numbers. -/
def toList (m : Numbering α) : List α := m.values.toList

@[simp] theorem toList_empty [TransOrd α] : (∅ : Numbering α).toList = [] := rfl

/-- The number of a value. -/
def number? (m : Numbering α) (a : α) : Option Nat := m.index[a]?

def contains (m : Numbering α) (a : α) : Bool := (m.number? a).isSome

theorem number?_eq_some {m : Numbering α} {a : α} {i : Nat} :
    m.number? a = some i ↔ m.values[i]? = some a := m.index_eq a i

theorem number?_eq_none {m : Numbering α} {a : α} : m.number? a = none ↔ a ∉ m.toList := by
  rw [Option.eq_none_iff_forall_not_mem, toList, List.mem_iff_getElem?]
  simp only [Option.mem_def, number?_eq_some, Array.getElem?_toList, not_exists]

theorem contains_iff {m : Numbering α} {a : α} : m.contains a = true ↔ a ∈ m.toList := by
  refine ⟨fun h => Classical.byContradiction fun ha => ?_, fun ha => ?_⟩
  · simp [contains, number?_eq_none.2 ha] at h
  · rw [contains, Option.isSome_iff_ne_none]
    exact fun h => number?_eq_none.1 h ha

theorem nodup_toList (m : Numbering α) : m.toList.Nodup := by
  rw [List.nodup_iff_pairwise_ne, List.pairwise_iff_getElem]
  intro i j hi hj hij he
  have h1 : m.values[i]? = some m.toList[i] := by simp [toList]
  have h2 : m.values[j]? = some m.toList[i] := by rw [he]; simp [toList]
  have := (number?_eq_some.2 h1).symm.trans (number?_eq_some.2 h2)
  simp only [Option.some.injEq] at this
  omega

variable [TransOrd α] [LawfulEqOrd α]

/-- Gives a value the next number, unless it has one. -/
def insert (m : Numbering α) (a : α) : Numbering α :=
  if h : (m.number? a).isSome then m
  else
    let number := m.values.size
    { values := m.values.push a
      index := m.index.insert a number
      index_eq := by
        intro b i
        have ha : a ∉ m.toList := number?_eq_none.1 (by simpa using h)
        rw [TreeMap.getElem?_insert, Array.getElem?_push]
        have hb := m.index_eq b i
        split
        · next hc =>
          have hab := LawfulEqOrd.eq_of_compare hc
          subst hab
          split
          · next hi => simp [hi, number]
          · next hi =>
            constructor
            · intro he; exact absurd (Option.some.inj he).symm hi
            · intro he
              exact absurd (List.mem_iff_getElem?.2 ⟨i, by simpa [toList] using he⟩) ha
        · next hc =>
          split
          · next hi =>
            subst hi
            rw [hb]
            have hne : ¬ a = b := fun hab => hc (by rw [hab]; exact ReflCmp.compare_self)
            simp [hne]
          · exact hb }

theorem values_insert {m : Numbering α} {a : α} (h : m.number? a = none) :
    (m.insert a).values = m.values.push a := by
  rw [insert, dif_neg (by simp [h])]

theorem toList_insert (m : Numbering α) (a : α) :
    (m.insert a).toList = if m.contains a then m.toList else m.toList ++ [a] := by
  unfold insert contains
  split <;> simp_all [toList]

end Numbering

end Reformat
