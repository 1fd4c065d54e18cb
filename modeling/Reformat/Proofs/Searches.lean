import Reformat.Pattern.Engine
import Reformat.Proofs.Safety
import Reformat.Proofs.Scans

/-! Searches and scans of the whole document. Both take the same matches one after the other, up to
the place where a scan of the whole document is stuck and a search passes over a character. -/

namespace Reformat

namespace Scan

variable {tables : List ParseTable} {config whole search : ScanConfig} {input : String}
  {s u : Scan} {start : Nat} {before : List Segment}

/-- A step of a search is that of a scan of the whole document, unless that is stuck: then the
search passes over a character. -/
theorem step_search (hwhole : whole.searchMode = false) (hsearch : search.searchMode = true)
    (s : Scan) : step tables search input s = step tables whole input s ∨
      ∃ c rest, step tables whole input s =
          .done (.error (.unexpectedInput (Position.locate input s.offset))) ∧
        step tables search input s =
          .next ⟨rest, s.offset + c.utf8Size, pass s.offset c s.segments⟩ := by
  unfold step
  split
  · exact Or.inl rfl
  · next c rest hrest =>
    split
    · exact Or.inl rfl
    · exact Or.inl rfl
    · rw [hwhole, hsearch]
      exact Or.inr ⟨c, rest, rfl, rfl⟩

theorem reaches_search (hwhole : whole.searchMode = false) (hsearch : search.searchMode = true)
    (h : Step.Reaches (step tables whole input) s u) :
    Step.Reaches (step tables search input) s u := by
  refine Relation.ReflTransGen.mono (fun a b hstep => ?_) _ _ h
  rcases step_search hwhole hsearch a with hsame | ⟨c, rest, hstuck, -⟩
  · exact hsame.trans hstep
  · rw [hstep] at hstuck
    simp at hstuck

/-- The segments found so far begin with `before`, and the next one is passed over from byte
`start` on. -/
def PassedFrom (start : Nat) (before : List Segment) (s : Scan) : Prop :=
  ∃ later stop, s.segments = later ++ .unmatched start stop :: before

theorem PassedFrom.pass (h : s.PassedFrom start before) (c : Char) :
    ∃ later stop, Scan.pass s.offset c s.segments = later ++ .unmatched start stop :: before := by
  obtain ⟨later, stop, hsegments⟩ := h
  rcases pass_cases s.offset c s.segments with ⟨first, last, others, hhead, hpass⟩ | ⟨-, hpass⟩
  · rw [hpass]
    rw [hhead] at hsegments
    cases later with
    | nil =>
      -- it is this segment that becomes longer
      obtain ⟨hsegment, rfl⟩ := List.cons.inj hsegments
      obtain ⟨rfl, -⟩ := Segment.unmatched.inj hsegment
      exact ⟨[], _, rfl⟩
    | cons segment later =>
      obtain ⟨-, rfl⟩ := List.cons.inj hsegments
      exact ⟨_ :: later, stop, rfl⟩
  · rw [hpass, hsegments]
    exact ⟨_ :: later, stop, rfl⟩

theorem PassedFrom.next (h : s.PassedFrom start before)
    (hstep : step tables config input s = .next u) : u.PassedFrom start before := by
  rcases next_cases hstep with ⟨place, parse, -, rfl⟩ | ⟨c, rest, -, -, -, rfl⟩
  · obtain ⟨later, stop, hsegments⟩ := h
    exact ⟨_ :: later, stop, congrArg (_ :: ·) hsegments⟩
  · exact h.pass c

/-- A search that has passed something over keeps it among its segments, unless a table turns out to
be inconsistent. -/
theorem PassedFrom.run (h : s.PassedFrom start before) (hsearch : search.searchMode = true) :
    (∃ symbol error, (machine tables search input).run s = .error (.internal symbol error)) ∨
      ∃ stop others, (machine tables search input).run s =
        .ok (before.reverse ++ .unmatched start stop :: others) := by
  refine Machine.run_induction (m := machine tables search input) (PassedFrom start before)
    (fun r => (∃ symbol error, r = .error (.internal symbol error)) ∨
      ∃ stop others, r = .ok (before.reverse ++ .unmatched start stop :: others)) ?_ ?_ s h
  · exact fun _ _ hpassed hstep => hpassed.next hstep
  · rintro a r ⟨later, stop, hsegments⟩ hdone
    rcases done_cases hdone with ⟨-, rfl⟩ | ⟨error, herror, rfl⟩ | ⟨-, -, hmode, -⟩
    · refine Or.inr ⟨stop, later.reverse, ?_⟩
      rw [hsegments, List.reverse_append, List.reverse_cons, List.append_assoc]
      rfl
    · obtain ⟨t, -, e, -, rfl⟩ := firstParse?_eq_error herror
      exact Or.inl ⟨_, _, rfl⟩
    · rw [hsearch] at hmode
      simp at hmode

/-- A scan ends in a state if it comes to that state and makes no more steps from there. -/
def EndsIn (tables : List ParseTable) (config : ScanConfig) (input : String) (s : Scan) : Prop :=
  Step.Reaches (step tables config input) { rest := input.toList } s ∧
    step tables config input s = .done (scan tables config input)

theorem exists_endsIn (tables : List ParseTable) (config : ScanConfig) (input : String) :
    ∃ s, EndsIn tables config input s :=
  (machine tables config input).exists_done { rest := input.toList }

/-- Wherever a scan comes to, the rest of it decides the result. -/
theorem scan_eq_run (h : Step.Reaches (step tables config input) { rest := input.toList } s) :
    scan tables config input = (machine tables config input).run s :=
  (machine tables config input).run_of_reaches h

theorem covers_of_reaches
    (h : Step.Reaches (step tables config input) { rest := input.toList } s) :
    s.Covers tables config input :=
  h.preserves (fun _ _ hcovers hstep => hcovers.next hstep)
    ⟨Text.dropBytes?_byteLength_append [] input.toList, .nil tables config input⟩

/-- Where a scan of the whole document ends, a search has the same result, or passes over what is
unexpected there, after the same matches. -/
theorem EndsIn.search_cases (h : EndsIn tables whole input s) (hwhole : whole.searchMode = false)
    (hsearch : search.searchMode = true) :
    scan tables search input = scan tables whole input ∨
      scan tables whole input = .error (.unexpectedInput (Position.locate input s.offset)) ∧
      (∀ segment ∈ s.segments, segment.isUnmatched = false) ∧
      ((∃ symbol error, scan tables search input = .error (.internal symbol error)) ∨
        ∃ stop others, scan tables search input =
          .ok (s.segments.reverse ++ .unmatched s.offset stop :: others)) := by
  obtain ⟨hreaches, hdone⟩ := h
  have hrun := scan_eq_run (reaches_search hwhole hsearch hreaches)
  rcases step_search hwhole hsearch s with hsame | ⟨c, rest, hstuck, hnext⟩
  · left
    rw [hrun]
    exact Machine.run_of_done (hsame.trans hdone)
  · have hmatched : ∀ segment ∈ s.segments, segment.isUnmatched = false := by
      intro segment hsegment
      apply (covers_of_reaches hreaches).splits.isUnmatched_eq_false hwhole
      rwa [List.mem_reverse]
    refine Or.inr ⟨Step.done.inj (hdone.symm.trans hstuck), hmatched, ?_⟩
    -- there are only matches so far, so that the character begins a segment
    have hpassed : PassedFrom s.offset s.segments
        ⟨rest, s.offset + c.utf8Size, pass s.offset c s.segments⟩ := by
      rcases pass_cases s.offset c s.segments with ⟨first, last, others, hhead, -⟩ | ⟨-, hpass⟩
      · rw [hhead] at hmatched
        exact absurd (hmatched _ List.mem_cons_self) (by simp [Segment.isUnmatched])
      · exact ⟨[], _, hpass⟩
    rw [hrun, Machine.run_of_next (m := machine tables search input) hnext]
    exact hpassed.run hsearch

theorem EndsIn.offset_locate (h : EndsIn tables config input s) :
    (Position.locate input s.offset).offset = s.offset := by
  have hlength := (covers_of_reaches h.1).byteLength_eq
  exact Nat.min_eq_left (by omega)

end Scan

/-- A search and a scan of the whole document agree as far as both go. Segments and inconsistencies
that the scan of the whole document returns are those of the search. Where that scan ends at
unexpected input, the search, unless it comes to an inconsistent table, has found the same matches
up to there, and then passes over what is unexpected. Where a search passes nothing over, the whole
document is scanned like this too. -/
theorem search_agrees_with_whole {whole search : ScanConfig} (hwhole : whole.searchMode = false)
    (hsearch : search.searchMode = true) (tables : List ParseTable) (input : String) :
    (∀ segments, scan tables whole input = .ok segments →
      scan tables search input = .ok segments) ∧
    (∀ symbol error, scan tables whole input = .error (.internal symbol error) →
      scan tables search input = .error (.internal symbol error)) ∧
    (∀ position, scan tables whole input = .error (.unexpectedInput position) →
      (∃ symbol error, scan tables search input = .error (.internal symbol error)) ∨
      ∃ s stop others, Scan.EndsIn tables whole input s ∧ s.offset = position.offset ∧
        (∀ segment ∈ s.segments, segment.isUnmatched = false) ∧
        scan tables search input =
          .ok (s.segments.reverse ++ .unmatched position.offset stop :: others)) ∧
    ∀ segments, scan tables search input = .ok segments →
      (∀ segment ∈ segments, segment.isUnmatched = false) →
        scan tables whole input = .ok segments := by
  obtain ⟨s, hends⟩ := Scan.exists_endsIn tables whole input
  have hcases := hends.search_cases hwhole hsearch
  refine ⟨fun segments hscan => ?_, fun symbol error hscan => ?_, fun position hscan => ?_,
    fun segments hscan hmatched => ?_⟩
  · rcases hcases with hsame | ⟨hstuck, -⟩
    · exact hsame.trans hscan
    · simp [hscan] at hstuck
  · rcases hcases with hsame | ⟨hstuck, -⟩
    · exact hsame.trans hscan
    · simp [hscan] at hstuck
  · rcases hcases with hsame | ⟨hstuck, hmatched, hinternal | ⟨stop, others, hok⟩⟩
    · -- a search is never stuck
      have hresult := scanResult_scan tables search input
      rw [hsame.trans hscan] at hresult
      cases hresult with
      | stuck hstuck => simp [hstuck.mode] at hsearch
    · exact Or.inl hinternal
    · obtain rfl := FormatError.unexpectedInput.inj (Except.error.inj (hscan.symm.trans hstuck))
      rw [hends.offset_locate]
      exact Or.inr ⟨s, stop, others, hends, rfl, hmatched, hok⟩
  · rcases hcases with hsame | ⟨-, -, ⟨symbol, error, hinternal⟩ | ⟨stop, others, hok⟩⟩
    · exact hsame.symm.trans hscan
    · simp [hscan] at hinternal
    · obtain rfl := Except.ok.inj (hscan.symm.trans hok)
      exact absurd (hmatched (.unmatched s.offset stop) (by simp)) (by simp [Segment.isUnmatched])

theorem brackets_search_agrees : ∃ t u,
    Grammar.brackets.generate (Grammar.brackets.analyze Pattern.engine) "S" = .ok t ∧
    handmadeTable = .ok u ∧
    scan [t] {} "(x)x" = .ok [.matched 0 ⟨0, 3, "[x]"⟩, .matched 0 ⟨3, 4, "x"⟩] ∧
    scan [t] { searchMode := true } "(x)x" =
      .ok [.matched 0 ⟨0, 3, "[x]"⟩, .matched 0 ⟨3, 4, "x"⟩] ∧
    scan [u] {} "xé" = .error (.internal "E" (.stackUnderflow "P")) ∧
    scan [u] { searchMode := true } "xé" = .error (.internal "E" (.stackUnderflow "P")) ∧
    scan [t] {} "x!é(x)" = .error (.unexpectedInput ⟨1, 2, 1⟩) ∧
    ((∃ symbol error,
        scan [t] { searchMode := true } "x!é(x)" = .error (.internal symbol error)) ∨
      ∃ s stop others, Scan.EndsIn [t] {} "x!é(x)" s ∧ s.offset = 1 ∧
        (∀ segment ∈ s.segments, segment.isUnmatched = false) ∧
        scan [t] { searchMode := true } "x!é(x)" =
          .ok (s.segments.reverse ++ .unmatched 1 stop :: others)) := by
  obtain ⟨t, ht, hcheck⟩ := Except.exists_ok
    (x := Grammar.brackets.generate (Grammar.brackets.analyze Pattern.engine) "S")
    (p := fun t => scan [t] {} "(x)x" =
        .ok [.matched 0 ⟨0, 3, "[x]"⟩, .matched 0 ⟨3, 4, "x"⟩] ∧
      scan [t] {} "x!é(x)" = .error (.unexpectedInput ⟨1, 2, 1⟩)) (by decide +kernel)
  obtain ⟨hscan, hstuck⟩ := of_decide_eq_true hcheck
  obtain ⟨u, hu, hinternal⟩ := Except.exists_ok (x := handmadeTable)
    (p := fun u => scan [u] {} "xé" = .error (.internal "E" (.stackUnderflow "P")))
    (by decide +kernel)
  have hwhole : ({} : ScanConfig).searchMode = false := rfl
  have hsearch : ({ searchMode := true } : ScanConfig).searchMode = true := rfl
  have hagrees := search_agrees_with_whole hwhole hsearch
  exact ⟨t, u, ht, hu, hscan, (hagrees [t] _).1 _ hscan, of_decide_eq_true hinternal,
    (hagrees [u] _).2.1 _ _ (of_decide_eq_true hinternal), hstuck, (hagrees [t] _).2.2.1 _ hstuck⟩

end Reformat
