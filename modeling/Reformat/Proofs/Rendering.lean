import Mathlib.Data.List.Forall2
import Reformat.Outcome
import Reformat.Template

/-! When a traversal succeeds, and so when the text of a template exists. -/

namespace Reformat

/-- A traversal succeeds if and only if it does so for each element. -/
theorem mapM_eq_ok_iff {ε α β : Type} {f : α → Except ε β} {as : List α} {bs : List β} :
    as.mapM f = .ok bs ↔ List.Forall₂ (fun a b => f a = .ok b) as bs := by
  induction as generalizing bs with
  | nil =>
    rw [List.mapM_nil, List.forall₂_nil_left_iff]
    exact ⟨fun h => (Except.ok.inj h).symm, fun h => congrArg Except.ok h.symm⟩
  | cons a as ih =>
    rw [List.mapM_cons, List.forall₂_cons_left_iff]
    simp only [Except.bind_eq_ok, ih, pure, Except.pure, Except.ok.injEq, exists_and_left,
      eq_comm (a := bs)]

theorem exists_mapM_eq_ok {ε α β : Type} {f : α → Except ε β} {as : List α}
    (h : ∀ a ∈ as, ∃ b, f a = .ok b) : ∃ bs, as.mapM f = .ok bs := by
  simp only [mapM_eq_ok_iff]
  induction as with
  | nil => exact ⟨[], .nil⟩
  | cons a as ih =>
    obtain ⟨b, hb⟩ := h a List.mem_cons_self
    obtain ⟨bs, hbs⟩ := ih fun a ha => h a (List.mem_cons_of_mem _ ha)
    exact ⟨b :: bs, .cons hb hbs⟩

theorem exists_of_mapM {ε α β : Type} {f : α → Except ε β} {as : List α} {bs : List β}
    (h : as.mapM f = .ok bs) {b : β} (hb : b ∈ bs) : ∃ a ∈ as, f a = .ok b := by
  have hall := mapM_eq_ok_iff.mp h
  induction hall with
  | nil => exact absurd hb List.not_mem_nil
  | cons ha hall ih =>
    rcases List.mem_cons.mp hb with rfl | hb
    · exact ⟨_, List.mem_cons_self, ha⟩
    · obtain ⟨a, hmem, ha⟩ := ih (mapM_eq_ok_iff.mpr hall) hb
      exact ⟨a, List.mem_cons_of_mem _ hmem, ha⟩

namespace Piece

/-- A piece has a text where no part that it mentions is missing. -/
theorem exists_render {captures : List String} {piece : Piece}
    (h : ∀ index, piece.maxCapture? = some index → index < captures.length) :
    ∃ text, piece.render captures = .ok text := by
  induction piece with
  | literal text => exact ⟨text, rfl⟩
  | capture index =>
    have hlt := h index rfl
    exact ⟨captures[index], by rw [render, List.getElem?_eq_getElem hlt]⟩
  | repeated unit counted ihu ihc =>
    -- neither part mentions more than both of them together
    have hmax : ∀ piece : Piece, piece = unit ∨ piece = counted →
        ∀ index, piece.maxCapture? = some index → index < captures.length := by
      intro piece hpiece index hindex
      have hle : ∃ largest, max unit.maxCapture? counted.maxCapture? = some largest ∧
          index ≤ largest := by
        rcases hpiece with rfl | rfl
        · cases hc : counted.maxCapture? with
          | none => exact ⟨index, by rw [hindex]; rfl, Nat.le_refl _⟩
          | some other => exact ⟨max index other, by rw [hindex]; rfl, Nat.le_max_left _ _⟩
        · cases hu : unit.maxCapture? with
          | none => exact ⟨index, by rw [hindex]; rfl, Nat.le_refl _⟩
          | some other => exact ⟨max other index, by rw [hindex]; rfl, Nat.le_max_right _ _⟩
      obtain ⟨largest, hlargest, hindexle⟩ := hle
      exact Nat.lt_of_le_of_lt hindexle (h largest hlargest)
    obtain ⟨c, hc⟩ := ihc (hmax counted (Or.inr rfl))
    obtain ⟨u, hu⟩ := ihu (hmax unit (Or.inl rfl))
    rw [render, hc]
    -- without anything to count the unit is not looked at
    by_cases hzero : c.length = 0
    · exact ⟨"", by simp [bind, Except.bind, hzero, pure, Except.pure]⟩
    · exact ⟨_, by simp only [bind, Except.bind, if_neg hzero, hu, pure, Except.pure]; rfl⟩

end Piece

theorem Template.exists_render {captures : List String} {template : Template}
    (h : ∀ piece ∈ template, ∀ index, piece.maxCapture? = some index → index < captures.length) :
    ∃ text, template.render captures = .ok text := by
  obtain ⟨texts, htexts⟩ := exists_mapM_eq_ok fun piece hpiece =>
    Piece.exists_render (h piece hpiece)
  rw [render, htexts]
  split
  · exact ⟨_, rfl⟩
  · exact ⟨_, rfl⟩

theorem Template.render_capture (text : String) :
    Template.render [.capture 0] [text] = .ok text := by
  have hjoin : String.join [text] = text := by simp [String.join]
  rw [render, if_neg (by simp)]
  exact congrArg Except.ok hjoin

end Reformat
