import Reformat.Proofs.Pushdown

/-! Runs of a pushdown in which every step takes states off. The paths never get longer, so that a
run with enough steps comes to some path twice, and with the same mark if there are two marks. -/

namespace Reformat

/-- Each list is the one before it with a new element in place of one or more at its front. -/
def Descends {α : Type} (n : Nat) (lists : Nat → List α) : Prop :=
  ∀ i < n, ∃ k a, 0 < k ∧ k ≤ (lists i).length ∧ lists (i + 1) = a :: (lists i).drop k

namespace Descends

variable {α : Type} {n i j : Nat} {lists : Nat → List α} (h : Descends n lists)

include h

theorem length_succ_le (hi : i < n) : (lists (i + 1)).length ≤ (lists i).length := by
  obtain ⟨k, a, hpos, hle, hnext⟩ := h i hi
  rw [hnext, List.length_cons, List.length_drop]
  omega

theorem length_le (hij : i ≤ j) (hj : j ≤ n) : (lists j).length ≤ (lists i).length := by
  induction j, hij using Nat.le_induction with
  | base => exact Nat.le_refl _
  | succ j _ ih => exact Nat.le_trans (h.length_succ_le hj) (ih (Nat.le_of_succ_le hj))

/-- As long as the lists keep their length, only the first element changes. -/
theorem tail_eq (hij : i ≤ j) (hj : j ≤ n) (hlength : (lists i).length = (lists j).length) :
    (lists i).tail = (lists j).tail := by
  induction j, hij using Nat.le_induction with
  | base => rfl
  | succ j hij ih =>
    have hlower := h.length_le hij (Nat.le_of_succ_le hj)
    have hstep := h.length_succ_le hj
    rw [ih (Nat.le_of_succ_le hj) (by omega)]
    obtain ⟨k, a, hpos, hle, hnext⟩ := h j hj
    -- a step that takes off more makes the list shorter
    have hone : k = 1 := by
      rw [hnext, List.length_cons, List.length_drop] at hlength hstep
      omega
    rw [hnext, hone, List.tail_cons, List.drop_one]

end Descends

namespace Pushdown

variable {m : Pushdown} {n i j : Nat} {paths : Nat → List StateId}

/-- The number of a level of a run: those above the last one come after the two marks of the last
one. -/
def level (n : Nat) (paths : Nat → List StateId) (mark : Nat → Bool) (i : Nat) : Nat :=
  if (paths i).length = (paths n).length then (mark i).toNat
  else (paths i).length - (paths n).length + 1

theorem level_lt (h : Descends n paths) (hlength : ∀ i ≤ n, 2 ≤ (paths i).length)
    (mark : Nat → Bool) (hi : i ≤ n) : level n paths mark i < (paths 0).length := by
  have hfirst := hlength 0 (Nat.zero_le n)
  have hlast := hlength n (Nat.le_refl n)
  have hupper := h.length_le (Nat.zero_le i) hi
  have hmark := (mark i).toNat_le
  unfold level
  split
  · omega
  · omega

theorem eq_of_top_eq (h : Descends n paths) (hij : i ≤ j) (hj : j ≤ n)
    (hlength : (paths i).length = (paths j).length) (hne : paths j ≠ [])
    (htop : top (paths i) = top (paths j)) : paths i = paths j := by
  have htail := h.tail_eq hij hj hlength
  have hne' : paths i ≠ [] := by
    rw [ne_eq, ← List.length_eq_zero_iff, hlength, List.length_eq_zero_iff]
    exact hne
  obtain ⟨p, path, hpath⟩ := List.exists_cons_of_ne_nil hne
  obtain ⟨p', path', hpath'⟩ := List.exists_cons_of_ne_nil hne'
  rw [hpath, hpath'] at htail htop
  obtain rfl : p' = p := htop
  obtain rfl : path' = path := htail
  rw [hpath, hpath']

namespace IsRun

/-- After a path that comes again no path is shorter, since the run goes around. -/
theorem length_eq_of_repeat (h : m.IsRun n paths) (hd : Descends n paths) (hij : i < j)
    (hj : j ≤ n) (hsame : paths i = paths j) {k : Nat} (hk : i + k ≤ n) :
    (paths (i + k)).length = (paths i).length := by
  induction k using Nat.strong_induction_on with
  | _ k ih =>
    by_cases hle : i + k ≤ j
    · have hupper := hd.length_le (Nat.le_add_right i k) hk
      have hlower := hd.length_le hle hj
      rw [← hsame] at hlower
      exact Nat.le_antisymm hupper hlower
    · -- one round earlier the run was at the same path
      obtain ⟨l, rfl⟩ : ∃ l, k = j - i + l := Nat.exists_eq_add_of_le (by omega)
      have hfirst := h.trail_eq (i := i) (k := l) (by omega)
      have hagain := h.trail_eq (i := j) (k := l) (by omega)
      rw [hsame, hagain, Option.some.injEq] at hfirst
      rw [show i + (j - i + l) = j + l by omega, hfirst]
      exact ih l (by omega) (by omega)

/-- Two paths on one level with the same state on top are equal, and so are their marks: above the
last level the run would go around for ever. -/
theorem repeat_of_level_eq (h : m.IsRun n paths) (hd : Descends n paths)
    (hlength : ∀ i ≤ n, 2 ≤ (paths i).length) {mark : Nat → Bool} (hij : i < j) (hj : j ≤ n)
    (hlevel : level n paths mark i = level n paths mark j)
    (htop : top (paths i) = top (paths j)) : paths i = paths j ∧ mark i = mark j := by
  have hupper := hd.length_le (Nat.le_of_lt hij) hj
  have hlower := hd.length_le hj (Nat.le_refl n)
  have hne : paths j ≠ [] := by
    have hpath := hlength j hj
    exact List.ne_nil_of_length_pos (by omega)
  unfold level at hlevel
  by_cases hlast : (paths i).length = (paths n).length
  · have hlast' : (paths j).length = (paths n).length := by omega
    rw [if_pos hlast, if_pos hlast'] at hlevel
    have hinj : ∀ b c : Bool, b.toNat = c.toNat → b = c := by decide
    exact ⟨eq_of_top_eq hd (Nat.le_of_lt hij) hj (by omega) hne htop, hinj _ _ hlevel⟩
  · rw [if_neg hlast] at hlevel
    have hmark := (mark j).toNat_le
    have hlen : (paths i).length = (paths j).length := by
      split at hlevel
      · omega
      · omega
    have hsame := eq_of_top_eq hd (Nat.le_of_lt hij) hj hlen hne htop
    -- but then the run never got down to its last level
    have hstay := h.length_eq_of_repeat hd hij hj hsame (k := n - i) (by omega)
    rw [show i + (n - i) = n by omega] at hstay
    exact absurd hstay.symm hlast

/-- A run comes to the same path with the same mark again, if it has as many steps as there are
states that may be on top, for each of the states at its start. -/
theorem exists_repeat (h : m.IsRun n paths) (hd : Descends n paths) {states : Nat}
    (hstates : ∀ i ≤ n, top (paths i) < states) (hlength : ∀ i ≤ n, 2 ≤ (paths i).length)
    (mark : Nat → Bool) (hn : (paths 0).length * states ≤ n) :
    ∃ i j, i < j ∧ j ≤ n ∧ paths i = paths j ∧ mark i = mark j := by
  -- there are more times than pairs of a level and a state on top
  have hcard : Fintype.card (Fin (paths 0).length × Fin states) < Fintype.card (Fin (n + 1)) := by
    rw [Fintype.card_prod, Fintype.card_fin, Fintype.card_fin, Fintype.card_fin]
    exact Nat.lt_succ_of_le hn
  obtain ⟨i, j, hne, hcode⟩ := Fintype.exists_ne_map_eq_of_card_lt
    (fun i : Fin (n + 1) =>
      ((⟨level n paths mark i, level_lt hd hlength mark (by omega)⟩ : Fin (paths 0).length),
        (⟨top (paths i), hstates i (by omega)⟩ : Fin states))) hcard
  obtain ⟨hlevels, htops⟩ := Prod.ext_iff.mp hcode
  have hlevel : level n paths mark i = level n paths mark j := Fin.val_eq_of_eq hlevels
  have htop : top (paths i) = top (paths j) := Fin.val_eq_of_eq htops
  rcases Nat.lt_or_gt_of_ne (Fin.val_ne_of_ne hne) with hlt | hgt
  · exact ⟨i, j, hlt, by omega, h.repeat_of_level_eq hd hlength hlt (by omega) hlevel htop⟩
  · exact ⟨j, i, hgt, by omega,
      h.repeat_of_level_eq hd hlength hgt (by omega) hlevel.symm htop.symm⟩

end IsRun

end Pushdown

end Reformat
