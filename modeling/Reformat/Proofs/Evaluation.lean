import Mathlib.Algebra.Ring.Nat
import Reformat.Proofs.Diagnostics

/-! What a template comes to. Its pieces are evaluated from the left, and what is counted before
what is repeated, which is left out where there is nothing to count. The first part that is asked for
and missing ends the evaluation; otherwise the text of each piece follows from the texts of its
own. -/

namespace Reformat

/-- Appends a text to a buffer so many times. -/
def appendTimes (text : String) : Nat → String → String
  | 0, out => out
  | n + 1, out => appendTimes text n (out ++ text)

namespace Piece

variable {captures : List String} {piece : Piece} {index : Nat}

/-- Appends the text of a piece to a buffer. What is counted and what is repeated get buffers of
their own. -/
def appendTo (captures : List String) : Piece → String → Except TemplateError String
  | literal text, out => .ok (out ++ text)
  | capture index, out =>
    match captures[index]? with
    | some text => .ok (out ++ text)
    | none => .error (.captureOutOfRange index captures.length)
  | repeated unit counted, out => do
    let counted ← counted.appendTo captures ""
    if 0 < counted.length then
      let unit ← unit.appendTo captures ""
      return appendTimes unit counted.length out
    else return out

/-- The text of a piece, if parts that are missing count as empty. -/
def value (captures : List String) : Piece → String
  | literal text => text
  | capture index => (captures[index]?).getD ""
  | repeated unit counted =>
    String.join ((counted.value captures).toList.map fun _ => unit.value captures)

/-- The number of characters of a piece. -/
def characters (captures : List String) : Piece → Nat
  | literal text => text.length
  | capture index => ((captures[index]?).getD "").length
  | repeated unit counted => unit.characters captures * counted.characters captures

/-- The number of bytes of a piece. -/
def bytes (captures : List String) : Piece → Nat
  | literal text => text.utf8ByteSize
  | capture index => ((captures[index]?).getD "").utf8ByteSize
  | repeated unit counted => unit.bytes captures * counted.characters captures

end Piece

/-- What is asked for in two stages, where the second one is not come to if a part is missing. -/
def demandsThen (captures : List String) (first second : List Nat) : List Nat :=
  if ∀ index ∈ first, index < captures.length then first ++ second else first

/-- The numbers of the parts that the evaluation of a piece asks for, in this order. -/
def Piece.demands (captures : List String) : Piece → List Nat
  | literal _ => []
  | capture index => [index]
  | repeated unit counted => demandsThen captures (counted.demands captures)
      (if counted.value captures = "" then [] else unit.demands captures)

namespace Template

/-- Appends piece after piece to one buffer. -/
def fill (template : Template) (captures : List String) : Except TemplateError String :=
  if template.isEmpty then .ok (" ".intercalate captures)
  else template.foldlM (fun out piece => piece.appendTo captures out) ""

/-- The numbers of the parts that the evaluation of a template asks for, in this order. -/
def demands (captures : List String) (template : Template) : List Nat :=
  template.foldr (fun piece rest => demandsThen captures (piece.demands captures) rest) []

end Template

theorem appendTimes_eq (text : String) (n : Nat) (out : String) :
    appendTimes text n out = out ++ String.join (List.replicate n text) := by
  induction n generalizing out with
  | zero => simp [appendTimes]
  | succ n ih =>
    rw [appendTimes, ih, List.replicate_succ, String.join_cons, String.append_assoc]

/-- What adds up over two texts adds up over any number of them. -/
theorem measure_join {f : String → Nat} (hempty : f "" = 0)
    (happend : ∀ text text' : String, f (text ++ text') = f text + f text') (texts : List String) :
    f (String.join texts) = (texts.map f).sum := by
  induction texts with
  | nil => exact hempty
  | cons text texts ih => rw [String.join_cons, happend, ih, List.map_cons, List.sum_cons]

theorem length_join (texts : List String) :
    (String.join texts).length = (texts.map String.length).sum :=
  measure_join rfl String.length_append texts

theorem utf8ByteSize_join (texts : List String) :
    (String.join texts).utf8ByteSize = (texts.map String.utf8ByteSize).sum :=
  measure_join rfl (fun _ _ => String.utf8ByteSize_append) texts

/-- The first of the numbers that no part has. -/
def missing? (captures : List String) (demands : List Nat) : Option Nat :=
  demands.find? (captures.length ≤ ·)

/-- A value, unless a part is missing. -/
def answer {α : Type} (captures : List String) (demands : List Nat) (a : α) :
    Except TemplateError α :=
  match missing? captures demands with
  | some index => .error (.captureOutOfRange index captures.length)
  | none => .ok a

section

variable {α β : Type} {captures : List String} {first second demands : List Nat} {a : α}

theorem missing?_eq_none :
    missing? captures demands = none ↔ ∀ index ∈ demands, index < captures.length := by
  simp [missing?]

theorem missing?_demandsThen : missing? captures (demandsThen captures first second) =
    (missing? captures first).or (missing? captures second) := by
  rw [demandsThen]
  split
  · rw [missing?, List.find?_append]
    rfl
  · next hmissing =>
    rw [← missing?_eq_none, ← ne_eq, Option.ne_none_iff_isSome, Option.isSome_iff_exists]
      at hmissing
    obtain ⟨index, hindex⟩ := hmissing
    rw [hindex, Option.some_or]

theorem answer_eq_error {error : TemplateError} : answer captures demands a = .error error ↔
    ∃ index, missing? captures demands = some index ∧
      error = .captureOutOfRange index captures.length := by
  rw [answer]
  cases missing? captures demands with
  | none => simp
  | some index => simp [eq_comm (a := error)]

theorem answer_eq_ok {b : α} : answer captures demands a = .ok b ↔
    (∀ index ∈ demands, index < captures.length) ∧ b = a := by
  rw [answer, ← missing?_eq_none]
  cases missing? captures demands with
  | none => simp [eq_comm (a := b)]
  | some index => simp

theorem map_answer (f : α → β) :
    (answer captures demands a).map f = answer captures demands (f a) := by
  rw [answer, answer]
  cases missing? captures demands <;> rfl

/-- What comes after a stage without an answer is of no account. -/
theorem answer_demandsThen (f : α → Except TemplateError β) {b : β}
    (h : f a = answer captures second b) :
    answer captures first a >>= f = answer captures (demandsThen captures first second) b := by
  rw [answer, answer, missing?_demandsThen]
  cases missing? captures first with
  | some index => rfl
  | none =>
    rw [Option.none_or]
    exact h

end

namespace Piece

variable {captures : List String} {piece : Piece} {index : Nat}

theorem value_repeated (unit counted : Piece) : (repeated unit counted).value captures =
    String.join (List.replicate (counted.value captures).length (unit.value captures)) := by
  rw [value, List.map_const', String.length_toList]

/-- A piece fails at the first part that it asks for and that is missing, and has its value
otherwise. -/
theorem render_eq (captures : List String) (piece : Piece) :
    piece.render captures = answer captures (piece.demands captures) (piece.value captures) := by
  induction piece with
  | literal text => rfl
  | capture index =>
    rw [render, demands, value, answer, missing?, List.find?_singleton]
    by_cases hindex : index < captures.length
    · simp [hindex, Nat.not_le_of_lt hindex]
    · simp [Nat.le_of_not_lt hindex]
  | repeated unit counted ihUnit ihCounted =>
    rw [render, ihCounted, demands, value_repeated]
    apply answer_demandsThen
    -- where nothing is counted, the unit is not come to
    by_cases hempty : counted.value captures = ""
    · rw [if_pos hempty, hempty]
      rfl
    · have hlength : ¬ (counted.value captures).length = 0 := by
        rwa [String.length_eq_zero_iff]
      rw [if_neg hlength, if_neg hempty, ihUnit, ← map_answer (a := unit.value captures)
        fun text => String.join (List.replicate (counted.value captures).length text)]
      rfl

/-- The buffer gets what the piece comes to, at its end. -/
theorem appendTo_eq (captures : List String) (piece : Piece) (out : String) :
    piece.appendTo captures out = (piece.render captures).map (out ++ ·) := by
  induction piece generalizing out with
  | literal text => rfl
  | capture index =>
    rw [appendTo, render]
    cases captures[index]? <;> rfl
  | repeated unit counted ihUnit ihCounted =>
    rw [appendTo, render, ihCounted]
    cases counted.render captures with
    | error error => rfl
    | ok text =>
      simp only [Except.map, bind, Except.bind, String.empty_append]
      by_cases hzero : text.length = 0
      · rw [if_neg (by omega), if_pos hzero]
        simp only [pure, Except.pure, String.append_empty]
      · rw [if_pos (by omega), if_neg hzero, ihUnit]
        cases unit.render captures with
        | error error => rfl
        | ok unitText =>
          simp only [Except.map, pure, Except.pure, String.empty_append, appendTimes_eq]

theorem length_value (captures : List String) (piece : Piece) :
    (piece.value captures).length = piece.characters captures := by
  induction piece with
  | literal text => rfl
  | capture index => rfl
  | repeated unit counted ihUnit ihCounted =>
    rw [value_repeated, length_join, List.map_replicate, List.sum_replicate_nat, ihUnit,
      ihCounted, characters, Nat.mul_comm]

theorem utf8ByteSize_value (captures : List String) (piece : Piece) :
    (piece.value captures).utf8ByteSize = piece.bytes captures := by
  induction piece with
  | literal text => rfl
  | capture index => rfl
  | repeated unit counted ihUnit ihCounted =>
    rw [value_repeated, utf8ByteSize_join, List.map_replicate, List.sum_replicate_nat,
      ihUnit, length_value, bytes, Nat.mul_comm]

theorem mem_demandsThen {first second : List Nat} (h : index ∈ demandsThen captures first second) :
    index ∈ first ∨ index ∈ second := by
  rw [demandsThen] at h
  split at h
  · exact List.mem_append.mp h
  · exact .inl h

/-- Only parts that a piece mentions are asked for. -/
theorem mentions_of_mem_demands (h : index ∈ piece.demands captures) : piece.Mentions index := by
  induction piece with
  | literal text => exact absurd h List.not_mem_nil
  | capture other =>
    obtain rfl := List.mem_singleton.mp h
    exact .capture
  | repeated unit counted ihUnit ihCounted =>
    rcases mem_demandsThen h with hcounted | hunit
    · exact .counted (ihCounted hcounted)
    · split at hunit
      · exact absurd hunit List.not_mem_nil
      · exact .unit (ihUnit hunit)

end Piece

namespace Template

variable {template : Template} {captures : List String} {index : Nat}

theorem mapM_render (captures : List String) (template : Template) :
    template.mapM (Piece.render captures) =
      answer captures (template.demands captures) (template.map (Piece.value captures)) := by
  induction template with
  | nil => rfl
  | cons piece rest ih =>
    rw [List.mapM_cons, Piece.render_eq]
    -- the first piece is one stage, the rest is the other
    apply answer_demandsThen
    rw [ih, List.map_cons, ← map_answer (a := rest.map (Piece.value captures))
      fun texts => piece.value captures :: texts]
    rfl

theorem render_eq (h : template ≠ []) (captures : List String) : template.render captures =
    answer captures (template.demands captures)
      (String.join (template.map (Piece.value captures))) := by
  rw [render, if_neg (by rwa [List.isEmpty_iff]), mapM_render, map_answer]

theorem render_eq_ok (h : template ≠ []) {text : String} : template.render captures = .ok text ↔
    (∀ index ∈ template.demands captures, index < captures.length) ∧
      text = String.join (template.map (Piece.value captures)) := by
  rw [render_eq h, answer_eq_ok]

theorem render_eq_error (h : template ≠ []) {error : TemplateError} :
    template.render captures = .error error ↔
      ∃ index, (template.demands captures).find? (captures.length ≤ ·) = some index ∧
        error = .captureOutOfRange index captures.length := by
  rw [render_eq h, answer_eq_error, missing?]

theorem foldlM_appendTo (captures : List String) (template : Template) (out : String) :
    template.foldlM (fun out piece => piece.appendTo captures out) out =
      (template.mapM (Piece.render captures)).map fun texts => out ++ String.join texts := by
  induction template generalizing out with
  | nil =>
    change _ = Except.ok (out ++ "")
    rw [String.append_empty]
    rfl
  | cons piece rest ih =>
    rw [List.foldlM_cons, List.mapM_cons, Piece.appendTo_eq]
    cases piece.render captures with
    | error error => rfl
    | ok text =>
      change rest.foldlM _ (out ++ text) = _
      rw [ih]
      cases rest.mapM (Piece.render captures) with
      | error error => rfl
      | ok texts =>
        change Except.ok (out ++ text ++ String.join texts) =
          Except.ok (out ++ String.join (text :: texts))
        rw [String.join_cons, String.append_assoc]

/-- Piece after piece in one buffer comes to the same as the pieces put together at the end. -/
theorem fill_eq (template : Template) (captures : List String) :
    template.fill captures = template.render captures := by
  rw [fill, render, foldlM_appendTo]
  simp only [String.empty_append]

theorem mem_demands (h : index ∈ template.demands captures) :
    ∃ piece ∈ template, index ∈ piece.demands captures := by
  induction template with
  | nil => exact absurd h List.not_mem_nil
  | cons piece rest ih =>
    rcases Piece.mem_demandsThen h with hpiece | hrest
    · exact ⟨piece, List.mem_cons_self, hpiece⟩
    · obtain ⟨other, hother, hindex⟩ := ih hrest
      exact ⟨other, List.mem_cons_of_mem piece hother, hindex⟩

/-- Where no piece mentions a part that is missing, none is asked for. -/
theorem lt_of_mem_demands
    (hmax : ∀ piece ∈ template, piece.maxCapture?.all (· < captures.length))
    (h : index ∈ template.demands captures) : index < captures.length := by
  obtain ⟨piece, hpiece, hdemands⟩ := mem_demands h
  obtain ⟨largest, hlargest, hle⟩ :=
    Piece.exists_maxCapture?_of_mentions (Piece.mentions_of_mem_demands hdemands)
  have hlt := hmax piece hpiece
  rw [hlargest, Option.all_some, decide_eq_true_iff] at hlt
  exact Nat.lt_of_le_of_lt hle hlt

/-- What the evaluation of a template does. -/
structure EvaluatesExactly (template : Template) (captures : List String) : Prop where
  /-- One buffer for all pieces comes to the same. -/
  fill_eq : template.fill captures = template.render captures
  fails_iff : template ≠ [] → ((∃ error, template.render captures = .error error) ↔
    ∃ index ∈ template.demands captures, captures.length ≤ index)
  /-- The first part that is asked for and missing is reported. -/
  error_iff : template ≠ [] → ∀ error, template.render captures = .error error ↔
    ∃ index, (template.demands captures).find? (captures.length ≤ ·) = some index ∧
      error = .captureOutOfRange index captures.length
  ok_iff : template ≠ [] → ∀ text, template.render captures = .ok text ↔
    (∀ index ∈ template.demands captures, index < captures.length) ∧
      text = String.join (template.map (Piece.value captures))
  characters : template ≠ [] → ∀ text, template.render captures = .ok text →
    text.length = (template.map (Piece.characters captures)).sum
  bytes : template ≠ [] → ∀ text, template.render captures = .ok text →
    text.utf8ByteSize = (template.map (Piece.bytes captures)).sum
  /-- What a piece asks for is at most the largest number that it mentions. -/
  demands_le : ∀ piece ∈ template, ∀ index ∈ piece.demands captures,
    ∃ largest, piece.maxCapture? = some largest ∧ index ≤ largest
  succeeds : (∀ piece ∈ template, piece.maxCapture?.all (· < captures.length)) →
    ∃ text, template.render captures = .ok text

end Template

/-- A template fails exactly at the first part that its evaluation asks for in vain, and otherwise
has the text that its pieces come to. -/
theorem templates_evaluate_exactly (template : Template) (captures : List String) :
    template.EvaluatesExactly captures := by
  constructor
  case fill_eq => exact template.fill_eq captures
  case error_iff => exact fun h error => Template.render_eq_error h
  case ok_iff => exact fun h text => Template.render_eq_ok h
  case demands_le =>
    intro piece _ index hindex
    exact Piece.exists_maxCapture?_of_mentions (Piece.mentions_of_mem_demands hindex)
  case fails_iff =>
    intro h
    simp only [Template.render_eq_error h, exists_comm (α := TemplateError), exists_and_left,
      exists_eq, and_true]
    rw [← Option.isSome_iff_exists, List.find?_isSome]
    simp only [decide_eq_true_eq]
  case characters =>
    intro h text htext
    -- the text is the values of the pieces one after the other
    rw [((Template.render_eq_ok h).mp htext).2, length_join, List.map_map]
    congr 2
    funext piece
    exact piece.length_value captures
  case bytes =>
    intro h text htext
    rw [((Template.render_eq_ok h).mp htext).2, utf8ByteSize_join, List.map_map]
    congr 2
    funext piece
    exact piece.utf8ByteSize_value captures
  case succeeds =>
    intro hmax
    by_cases h : template = []
    · subst h
      exact ⟨_, rfl⟩
    · exact ⟨_, (Template.render_eq_ok h).mpr ⟨fun _ => Template.lt_of_mem_demands hmax, rfl⟩⟩

-- a unit is not looked at where there is nothing to count, and after what is counted otherwise
example : Template.render [.repeated (.capture 9) (.capture 0), .repeated
      (.repeated (.literal "é") (.literal "ab")) (.literal "xyz")] [""] = .ok "éééééé" ∧
    Template.render [.repeated (.capture 7) (.repeated (.literal "x") (.capture 8))] [""] =
      .error (.captureOutOfRange 8 1) := by
  decide +kernel

end Reformat
