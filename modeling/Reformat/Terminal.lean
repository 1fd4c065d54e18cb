import Reformat.Matcher
import Reformat.Outcome

/-!
Terminals: patterns that match at the start of the remaining text.
-/

namespace Reformat

/-- A pattern and what was compiled for it. -/
structure Terminal where
  pattern : String
  matcher : Matcher

namespace Terminal

/-- The pattern that matches at the start of a text what the given pattern matches there. -/
def anchored (pattern : String) : String := "\\A(?:" ++ pattern ++ ")"

/-- The terminal of a pattern. The pattern has to be well-formed by itself, so that its groups
cannot reach outside the anchor, and in its place behind the anchor. -/
def compile (engine : Engine) (pattern : String) : Except String Terminal := do
  let _ ← engine.compile pattern
  let matcher ← engine.compile (anchored pattern)
  return ⟨pattern, matcher⟩

/-- The terminal of a pattern, if the pattern is well-formed. -/
def ofPattern? (engine : Engine) (pattern : String) : Option Terminal :=
  (compile engine pattern).toOption

/-- The number of bytes that match at the start of a text. The empty match does not count. -/
def matchBytes? (t : Terminal) (text : List Char) : Option Nat :=
  (t.matcher.find? text).filter (0 < ·)

/-- The number of characters that match at the start of a text. -/
def matchLength? (t : Terminal) (text : List Char) : Option Nat :=
  (t.matchBytes? text).map fun n => (Text.startingBefore n text).length

theorem ofPattern?_eq_some {engine : Engine} {pattern : String} {t : Terminal} :
    ofPattern? engine pattern = some t ↔ compile engine pattern = .ok t := Except.toOption_eq_some

/-- A terminal is matched by what the engine makes of the anchored pattern. -/
theorem compile_eq_ok {engine : Engine} {pattern : String} {t : Terminal} :
    compile engine pattern = .ok t ↔ (∃ plain, engine.compile pattern = .ok plain) ∧
      ∃ matcher, engine.compile (anchored pattern) = .ok matcher ∧ ⟨pattern, matcher⟩ = t := by
  simp only [compile, Except.bind_eq_ok, exists_and_right, pure, Except.pure, Except.ok.injEq]

theorem pattern_of_ofPattern? {engine : Engine} {pattern : String} {t : Terminal}
    (h : ofPattern? engine pattern = some t) : t.pattern = pattern := by
  obtain ⟨-, matcher, -, rfl⟩ := compile_eq_ok.mp (ofPattern?_eq_some.mp h)
  rfl

/-- A match is a beginning of the text. -/
theorem exists_prefix_of_matchBytes? {t : Terminal} {text : List Char} {n : Nat}
    (h : t.matchBytes? text = some n) : ∃ word rest, text = word ++ rest ∧ word ≠ [] ∧
      Text.byteLength word = n ∧ t.matchLength? text = some word.length := by
  obtain ⟨hfind, hpos⟩ := Option.filter_eq_some_iff.mp h
  obtain ⟨rest, hrest⟩ := t.matcher.boundary hfind
  obtain ⟨word, hword, hbytes⟩ := Text.eq_append_of_dropBytes? hrest
  refine ⟨word, rest, hword, ?_, hbytes, ?_⟩
  · rintro rfl
    rw [Text.byteLength_nil] at hbytes
    simp [← hbytes] at hpos
  · rw [matchLength?, h, Option.map_some, hword, ← hbytes, Text.startingBefore_byteLength_append]

theorem matchLength?_pos {t : Terminal} {text : List Char} {n : Nat}
    (h : t.matchLength? text = some n) : 0 < n := by
  obtain ⟨bytes, hbytes, -⟩ := Option.map_eq_some_iff.mp h
  obtain ⟨word, rest, -, hne, -, hlength⟩ := exists_prefix_of_matchBytes? hbytes
  obtain rfl := Option.some.inj (hlength.symm.trans h)
  exact List.length_pos_iff.mpr hne

theorem matchLength?_le {t : Terminal} {text : List Char} {n : Nat}
    (h : t.matchLength? text = some n) : n ≤ text.length := by
  obtain ⟨bytes, hbytes, -⟩ := Option.map_eq_some_iff.mp h
  obtain ⟨word, rest, rfl, -, -, hlength⟩ := exists_prefix_of_matchBytes? hbytes
  obtain rfl := Option.some.inj (hlength.symm.trans h)
  rw [List.length_append]
  exact Nat.le_add_right _ _

/-- The bytes that match are those of the characters that match. -/
theorem matchBytes?_eq_map (t : Terminal) (text : List Char) :
    t.matchBytes? text = (t.matchLength? text).map fun n => Text.byteLength (text.take n) := by
  cases hbytes : t.matchBytes? text with
  | none => rw [matchLength?, hbytes]; rfl
  | some n =>
    obtain ⟨word, rest, rfl, -, rfl, hlength⟩ := exists_prefix_of_matchBytes? hbytes
    rw [hlength, Option.map_some, List.take_left]

/-- A terminal is shown as its pattern between slashes. -/
def text (t : Terminal) : String := s!"/{t.pattern}/"

end Terminal

end Reformat
