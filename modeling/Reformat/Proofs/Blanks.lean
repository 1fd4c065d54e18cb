import Reformat.Proofs.Shapes

/-! Which texts are empty. This is all that a template has to know of the texts of its parts to fail
or not, and to come to an empty text or not. -/

namespace Reformat

/-- Which texts are empty. -/
def blanks (texts : List String) : List Bool := texts.map String.isEmpty

theorem isEmpty_append (u v : String) : (u ++ v).isEmpty = (u.isEmpty && v.isEmpty) := by
  rw [Bool.eq_iff_iff, Bool.and_eq_true]
  simp only [String.isEmpty_iff, String.append_eq_empty_iff]

theorem isEmpty_join (texts : List String) :
    (String.join texts).isEmpty = (blanks texts).all id := by
  induction texts with
  | nil => rfl
  | cons text texts ih =>
    rw [String.join_cons, isEmpty_append, ih]
    rfl

theorem isEmpty_intercalate (texts : List String) :
    (" ".intercalate texts).isEmpty = (decide (texts.length < 2) && (blanks texts).all id) := by
  match texts with
  | [] => rfl
  | [text] =>
    rw [String.intercalate_singleton]
    simp [blanks]
  | text :: text' :: texts =>
    have hblank : " ".isEmpty = false := by rfl
    have hlong : ¬ (text :: text' :: texts).length < 2 := by
      rw [List.length_cons, List.length_cons]
      omega
    rw [String.intercalate_cons_cons, isEmpty_append, isEmpty_append, hblank,
      decide_eq_false hlong, Bool.and_false, Bool.false_and, Bool.false_and]

theorem length_eq_zero_iff_of_isEmpty_eq {u v : String} (h : u.isEmpty = v.isEmpty) :
    u.length = 0 ↔ v.length = 0 := by
  rw [String.length_eq_zero_iff, String.length_eq_zero_iff, ← String.isEmpty_iff,
    ← String.isEmpty_iff, h]

theorem length_eq_of_blanks_eq {us vs : List String} (h : blanks us = blanks vs) :
    us.length = vs.length := by
  simpa only [blanks, List.length_map] using congrArg List.length h

section

variable {us vs : List String} (h : blanks us = blanks vs)

include h

theorem Piece.render_alike (piece : Piece) :
    Except.Alike (fun u v => u.isEmpty = v.isEmpty) (piece.render us) (piece.render vs) := by
  induction piece with
  | literal text => exact .ok rfl
  | capture index =>
    have hindex : us[index]?.map String.isEmpty = vs[index]?.map String.isEmpty := by
      rw [← List.getElem?_map, ← List.getElem?_map]
      exact congrArg (·[index]?) h
    simp only [render]
    cases hu : us[index]? with
    | none =>
      cases hv : vs[index]? with
      | none =>
        rw [length_eq_of_blanks_eq h]
        exact .error _
      | some v => simp [hu, hv] at hindex
    | some u =>
      cases hv : vs[index]? with
      | none => simp [hu, hv] at hindex
      | some v =>
        rw [hu, hv] at hindex
        exact .ok (Option.some.inj hindex)
  | repeated unit counted hunit hcounted =>
    simp only [render]
    revert hunit hcounted
    generalize unit.render us = x, unit.render vs = y, counted.render us = k, counted.render vs = l
    intro hunit hcounted
    cases hcounted with
    | error e => exact .error e
    | @ok u v huv =>
      by_cases hu : u.length = 0
      · -- the unit does not count where nothing is counted
        have hv : v.length = 0 := by rwa [← length_eq_zero_iff_of_isEmpty_eq huv]
        simp only [bind, Except.bind, if_pos hu, if_pos hv]
        exact .ok rfl
      · have hv : ¬ v.length = 0 := by rwa [← length_eq_zero_iff_of_isEmpty_eq huv]
        simp only [bind, Except.bind, if_neg hu, if_neg hv]
        cases hunit with
        | error e => exact .error e
        | @ok u' v' huv' =>
          apply Except.Alike.ok
          rw [isEmpty_join, isEmpty_join, blanks, blanks, List.map_replicate, List.map_replicate,
            List.all_replicate, List.all_replicate, if_neg hu, if_neg hv, huv']

/-- Which texts are empty decides whether a template fails, and whether its text is empty. -/
theorem Template.render_alike (template : Template) :
    Except.Alike (fun u v => u.isEmpty = v.isEmpty) (template.render us) (template.render vs) := by
  unfold render
  split
  · apply Except.Alike.ok
    rw [isEmpty_intercalate, isEmpty_intercalate, h, length_eq_of_blanks_eq h]
  · have hpieces := Except.Alike.mapM fun piece (_ : piece ∈ template) =>
      Piece.render_alike h piece
    refine hpieces.map fun texts texts' _ _ hall => ?_
    have hblanks : blanks texts = blanks texts' := by
      rw [blanks, blanks, ← List.forall₂_eq_eq_eq, List.forall₂_map_left_iff,
        List.forall₂_map_right_iff]
      exact hall
    rw [isEmpty_join, isEmpty_join, hblanks]

end

end Reformat
