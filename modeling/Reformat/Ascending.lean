/-!
Ascending lists: a set of values has one such list.
-/

namespace Reformat

open Std

variable {α : Type} [Ord α]

/-- Each value is smaller than all values after it. -/
def Ascending (as : List α) : Prop := as.Pairwise fun a b => compare a b = .lt

namespace Ascending

/-- Puts a value in its place, unless it is there. -/
def insert (a : α) : List α → List α
  | [] => [a]
  | b :: bs =>
    match compare a b with
    | .lt => a :: b :: bs
    | .eq => b :: bs
    | .gt => b :: insert a bs

/-- The ascending list of the values of a list. -/
def ofList (as : List α) : List α := as.foldr insert []

section

theorem mem_insert [LawfulEqOrd α] {a c : α} {bs : List α} : c ∈ insert a bs ↔ c = a ∨ c ∈ bs := by
  fun_induction insert a bs with
  | case1 => simp
  | case2 => simp
  | case3 b bs h => simp [LawfulEqOrd.eq_of_compare h]
  | case4 b bs h ih => simp [ih, or_left_comm]

theorem mem_ofList [LawfulEqOrd α] {c : α} {as : List α} : c ∈ ofList as ↔ c ∈ as := by
  induction as with
  | nil => simp [ofList]
  | cons a as ih => rw [ofList, List.foldr_cons, mem_insert, ← ofList, ih, List.mem_cons]

theorem nodup [ReflOrd α] {as : List α} (h : Ascending as) : as.Nodup :=
  List.nodup_iff_pairwise_ne.2 (h.imp fun {a b} hab he => by
    subst he
    simp at hab)

variable [TransOrd α] [LawfulEqOrd α]

theorem insert_ascending {a : α} {bs : List α} (h : Ascending bs) : Ascending (insert a bs) := by
  fun_induction insert a bs with
  | case1 => simp [Ascending]
  | case2 b bs hab =>
    refine List.Pairwise.cons (fun c hc => ?_) h
    rcases List.mem_cons.1 hc with rfl | hc
    · exact hab
    · exact TransCmp.lt_trans hab (List.rel_of_pairwise_cons h hc)
  | case3 => exact h
  | case4 b bs hab ih =>
    refine List.Pairwise.cons (fun c hc => ?_) (ih h.of_cons)
    rcases mem_insert.1 hc with rfl | hc
    · exact OrientedCmp.gt_iff_lt.1 hab
    · exact List.rel_of_pairwise_cons h hc

theorem ofList_ascending (as : List α) : Ascending (ofList as) := by
  induction as with
  | nil => simp [ofList, Ascending]
  | cons a as ih => exact insert_ascending ih

/-- Ascending lists of the same values are equal. -/
theorem eq_of_mem_iff {as bs : List α} (ha : Ascending as) (hb : Ascending bs)
    (h : ∀ c, c ∈ as ↔ c ∈ bs) : as = bs := by
  induction as generalizing bs with
  | nil =>
    cases bs with
    | nil => rfl
    | cons b bs => simpa using h b
  | cons a as ih =>
    cases bs with
    | nil => simpa using h a
    | cons b bs =>
      have hab : a = b := by
        rcases List.mem_cons.1 ((h a).1 List.mem_cons_self) with hab | hab
        · exact hab
        · rcases List.mem_cons.1 ((h b).2 List.mem_cons_self) with hba | hba
          · exact hba.symm
          · have h1 := List.rel_of_pairwise_cons ha hba
            have h2 := List.rel_of_pairwise_cons hb hab
            exact absurd (TransCmp.lt_trans h1 h2) (by simp)
      subst hab
      congr 1
      refine ih ha.of_cons hb.of_cons fun c => ⟨fun hc => ?_, fun hc => ?_⟩
      · rcases List.mem_cons.1 ((h c).1 (List.mem_cons_of_mem a hc)) with rfl | hc'
        · exact absurd hc (List.nodup_cons.1 (nodup ha)).1
        · exact hc'
      · rcases List.mem_cons.1 ((h c).2 (List.mem_cons_of_mem a hc)) with rfl | hc'
        · exact absurd hc (List.nodup_cons.1 (nodup hb)).1
        · exact hc'

end

end Ascending

end Reformat
