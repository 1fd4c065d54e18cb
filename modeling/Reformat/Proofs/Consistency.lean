import Reformat.Formatter
import Reformat.Pattern.Engine
import Reformat.Proofs.Scans
import Reformat.Proofs.ViablePrefix

/-! Tables of grammars are consistent: no attempt with such a table fails for any other reason than
the text, and no scan fails where everything may be passed over. -/

namespace Reformat

/-- A reduction finds all that it asks for: enough frames, a text for its template, a goto in the
state below the frames, and nothing below them where it accepts. -/
structure Attempt.Supplied (t : ParseTable) (a : Attempt) (id : ReductionId) : Prop where
  arity_le : (t.reduction id).arity ≤ a.stack.length
  renders : ∃ text, (t.reduction id).template.render
    ((a.parts (t.reduction id).arity).map (·.text)) = .ok text
  goto : id ≠ 0 → ∀ p, a.path[(t.reduction id).arity]? = some p →
    ∃ next, (t.row p).goto? (t.reduction id).name = some next
  balanced : id = 0 → a.stack.length = (t.reduction id).arity

namespace TableOf

variable {engine : Engine} {g : Augmented} {t : ParseTable} {a : Attempt} {id : ReductionId}

theorem supplied (h : TableOf engine g t) (hf : Follows g a.stack a.state)
    (hm : t.move? a.state a.rest = some (.reduce id)) : a.Supplied t id := by
  obtain ⟨rule, p, text, hrule, hreduction, hp, -, -, -, htext⟩ := h.exists_parts hf hm
  refine ⟨?_, ?_, ?_, ?_⟩
  · rw [hreduction]
    exact Attempt.le_of_path hp
  · rw [hreduction]
    exact ⟨text, htext⟩
  · -- below the parts is the state in which they were begun, where the name has a goto
    intro hid q hq
    rcases h.reduce_cases hf hm with ⟨hzero, -⟩ |
      ⟨-, other, r, -, next, hother, hr, -, -, -, hgoto, -⟩
    · exact absurd hzero hid
    · rw [Augmented.rule?, if_neg hid, hother] at hrule
      obtain rfl := Option.some.inj hrule
      rw [hreduction] at hq ⊢
      obtain rfl := Option.some.inj (hr.symm.trans hq)
      exact ⟨next, by rw [h.goto?_eq, hgoto]⟩
  · rintro rfl
    rcases h.reduce_cases hf hm with ⟨-, frame, hframe, -⟩ | ⟨hne, -⟩
    · obtain rfl : g.acceptRule = rule := Option.some.inj hrule
      rw [hreduction, hframe]
      rfl
    · exact absurd rfl hne

theorem attempt_ne_internal (h : TableOf engine g t) (rest : List Char) (offset : Nat)
    (error : InternalError) : t.attempt rest offset ≠ .error (.internal error) := by
  intro hinternal
  obtain ⟨a, hreaches, ⟨-, hstalled⟩ | ⟨-, herror⟩ | ⟨id, hm, hdone⟩⟩ := t.attempt_cases rest offset
  · simp [hinternal] at hstalled
  · simp [hinternal] at herror
  · have hf := h.follows_of_reaches (Attempt.Reaches.free hreaches)
    obtain ⟨frame, -, -, hok⟩ := h.accept_of_done hf hm hdone
    simp [hinternal] at hok

theorem parseAt_ne_internal (h : TableOf engine g t) (input : String) (k : Nat)
    (error : InternalError) : t.parseAt input k ≠ .error (.internal error) := by
  intro hparse
  rcases ParseTable.parseAt_eq_error hparse with ⟨-, herror⟩ | ⟨rest, -, hattempt⟩
  · simp at herror
  · exact h.attempt_ne_internal rest k error hattempt

end TableOf

/-- Tables with which no attempt is inconsistent. -/
def Consistent (tables : List ParseTable) : Prop :=
  ∀ t ∈ tables, ∀ rest offset error, t.attempt rest offset ≠ .error (.internal error)

namespace Consistent

variable {tables : List ParseTable}

theorem scan_cases (h : Consistent tables) (config : ScanConfig) (input : String) :
    (∃ segments, scan tables config input = .ok segments) ∨
      config.searchMode = false ∧
        ∃ position, scan tables config input = .error (.unexpectedInput position) := by
  have hresult := scanResult_scan tables config input
  generalize scan tables config input = r at hresult ⊢
  cases hresult with
  | split _ => exact Or.inl ⟨_, rfl⟩
  | inconsistent ht hattempt => exact absurd hattempt (h _ ht _ _ _)
  | stuck hstuck => exact Or.inr ⟨hstuck.mode, _, rfl⟩

theorem format_cases (h : Consistent tables) (config : ScanConfig) (input : String) :
    (∃ output, format tables config input = .ok output) ∨
      config.searchMode = false ∧
        ∃ position, format tables config input = .error (.unexpectedInput position) := by
  rcases h.scan_cases config input with ⟨segments, hscan⟩ | ⟨hmode, position, hscan⟩
  · exact Or.inl ⟨_, by rw [format, hscan]; rfl⟩
  · exact Or.inr ⟨hmode, position, by rw [format, hscan]; rfl⟩

theorem scan_ne_internal (h : Consistent tables) (config : ScanConfig) (input symbol : String)
    (error : InternalError) : scan tables config input ≠ .error (.internal symbol error) := by
  rcases h.scan_cases config input with ⟨segments, hok⟩ | ⟨-, position, herror⟩
  · simp [hok]
  · simp [herror]

theorem format_ne_internal (h : Consistent tables) (config : ScanConfig) (input symbol : String)
    (error : InternalError) : format tables config input ≠ .error (.internal symbol error) := by
  rcases h.format_cases config input with ⟨output, hok⟩ | ⟨-, position, herror⟩
  · simp [hok]
  · simp [herror]

end Consistent

namespace Grammar

variable {g : Grammar} {analysis : Analysis} {starts : List String} {f : Formatter}

/-- What has to hold for a formatter to be put together. -/
theorem formatterWith_eq_ok : g.formatterWith analysis starts = .ok f ↔ analysis.errors = [] ∧
    starts ≠ [] ∧ ∃ tables, starts.mapM (g.generate analysis) = .ok tables ∧
      f = { tables, config := { searchMode := g.searchMode } } := by
  rw [formatterWith, Except.bind_eq_ok]
  simp only [Except.mapError_eq_ok, Analysis.check_eq_ok, exists_and_left, exists_const,
    Except.throw_bind]
  refine and_congr_right fun _ => ?_
  rw [← List.isEmpty_eq_false_iff]
  cases starts.isEmpty with
  | true => simp
  | false =>
    simp only [Bool.false_eq_true, if_false, Except.bind_eq_ok, Except.mapError_eq_ok, true_and]
    simp [pure, Except.pure, eq_comm]

/-- Neither errors of the analysis nor those of a table look like the lack of start symbols. -/
theorem formatterWith_eq_noStartSymbol : g.formatterWith analysis starts = .error .noStartSymbol ↔
    analysis.errors = [] ∧ starts = [] := by
  rw [formatterWith, Except.bind_eq_error]
  simp only [Except.mapError_eq_ok, Except.mapError_eq_error, Analysis.check_eq_ok,
    exists_and_left, exists_const, Except.throw_bind, reduceCtorEq, and_false, false_or]
  refine and_congr_right fun _ => ?_
  rw [← List.isEmpty_iff]
  cases starts.isEmpty with
  | true => simp
  | false => simp [Except.bind_eq_error, Except.mapError_eq_error, pure, Except.pure]

end Grammar

theorem generate_of_mem_tables {engine : Engine} {g : Grammar} {starts : List String}
    {f : Formatter} (h : g.formatterWith (g.analyze engine) starts = .ok f) {t : ParseTable}
    (ht : t ∈ f.tables) :
    ∃ start ∈ starts, g.generate (g.analyze engine) start = .ok t := by
  obtain ⟨-, -, tables, htables, rfl⟩ := Grammar.formatterWith_eq_ok.mp h
  exact exists_of_mapM htables ht

theorem consistent_of_formatter {engine : Engine} {g : Grammar} {f : Formatter}
    (h : g.formatter engine = .ok f ∨ ∃ starts, g.formatterFor engine starts = .ok f) :
    Consistent f.tables := by
  obtain ⟨starts, hstarts⟩ : ∃ starts, g.formatterWith (g.analyze engine) starts = .ok f := by
    rcases h with h | ⟨starts, h⟩
    · exact ⟨(g.analyze engine).startSymbols, h⟩
    · exact ⟨starts, h⟩
  intro t ht rest offset error
  obtain ⟨start, -, hgenerate⟩ := generate_of_mem_tables hstarts ht
  exact (tableOf_of_generate hgenerate).attempt_ne_internal rest offset error

/-- Whatever engine compiles the patterns, no parse with the table of a grammar fails for an
internal reason, as every reduction that an attempt comes to finds its parts, their text and its
goto. Hence formatters fail only on unexpected input, and in search mode they do not fail. -/
theorem internal_errors_impossible (engine : Engine) (g : Grammar) :
    (∀ start t, g.generate (g.analyze engine) start = .ok t →
      (∀ input k error, t.parseAt input k ≠ .error (.internal error)) ∧
      ∀ rest offset a id, Step.Reaches (Attempt.step t) (.initial t rest offset) a →
        t.move? a.state a.rest = some (.reduce id) → a.Supplied t id) ∧
    ∀ f, (g.formatter engine = .ok f ∨ ∃ starts, g.formatterFor engine starts = .ok f) →
      ∀ (config : ScanConfig) (input : String),
        (∀ symbol error, { f with config }.scan input ≠ .error (.internal symbol error) ∧
          { f with config }.format input ≠ .error (.internal symbol error)) ∧
        (config.searchMode = true → ∃ segments output,
          { f with config }.scan input = .ok segments ∧
            { f with config }.format input = .ok output) := by
  constructor
  · intro start t hgenerate
    have htable := tableOf_of_generate hgenerate
    refine ⟨htable.parseAt_ne_internal, ?_⟩
    intro rest offset a id hreaches hmove
    exact htable.supplied (htable.follows_of_reaches (Attempt.Reaches.free hreaches)) hmove
  · intro f hf config input
    have hconsistent := consistent_of_formatter hf
    refine ⟨fun symbol error => ⟨hconsistent.scan_ne_internal config input symbol error,
      hconsistent.format_ne_internal config input symbol error⟩, fun hmode => ?_⟩
    -- only whole documents can be refused
    rcases hconsistent.scan_cases config input with ⟨segments, hsegments⟩ | ⟨hfull, -⟩
    · rcases hconsistent.format_cases config input with ⟨output, houtput⟩ | ⟨hfull, -⟩
      · exact ⟨segments, output, hsegments, houtput⟩
      · exact absurd (hmode.symm.trans hfull) (by decide)
    · exact absurd (hmode.symm.trans hfull) (by decide)

theorem brackets_without_internal_errors : ∃ t f a id,
    Grammar.brackets.generate (Grammar.brackets.analyze Pattern.engine) "S" = .ok t ∧
    Grammar.brackets.formatter Pattern.engine = .ok f ∧
    Step.Reaches (Attempt.step t) (.initial t ['x'] 0) a ∧
    t.move? a.state a.rest = some (.reduce id) ∧ a.Supplied t id ∧
    (∀ error, t.parseAt "((x)" 0 ≠ .error (.internal error)) ∧
    ∃ segments output, { f with config := { searchMode := true } }.scan ")(x)" = .ok segments ∧
      { f with config := { searchMode := true } }.format ")(x)" = .ok output := by
  -- the letter is shifted and then reduced
  obtain ⟨t, ht, hcheck⟩ := Except.exists_ok
    (x := Grammar.brackets.generate (Grammar.brackets.analyze Pattern.engine) "S")
    (p := fun t => t.move? 0 ['x'] = some (.shift 2 3 1) ∧ t.move? 3 [] = some (.reduce 2))
    (by decide +kernel)
  obtain ⟨hshift, hreduce⟩ := of_decide_eq_true hcheck
  obtain ⟨f, hf, -⟩ := Except.exists_ok (x := Grammar.brackets.formatter Pattern.engine)
    (p := fun _ => true) (by decide +kernel)
  have hstep : Attempt.step t (.initial t ['x'] 0) =
      .next (Attempt.shift t (.initial t ['x'] 0) 2 3 1) := by
    simp [Attempt.step, Attempt.isSpent, Attempt.freeStep, Attempt.initial, hshift]
  have hreaches : Step.Reaches (Attempt.step t) (.initial t ['x'] 0)
      (Attempt.shift t (.initial t ['x'] 0) 2 3 1) := .single hstep
  obtain ⟨htables, hformatters⟩ := internal_errors_impossible Pattern.engine Grammar.brackets
  obtain ⟨hparse, hsupplied⟩ := htables "S" t ht
  obtain ⟨-, hscan⟩ := hformatters f (Or.inl hf) { searchMode := true } ")(x)"
  exact ⟨t, f, _, 2, ht, hf, hreaches, hreduce, hsupplied _ _ _ 2 hreaches hreduce,
    hparse "((x)" 0, hscan rfl⟩

end Reformat
