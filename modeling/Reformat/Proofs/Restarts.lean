import Reformat.Pattern.Engine
import Reformat.Proofs.Searches

/-! What comes before a place in a text has no part in what is parsed from there on: attempts at a
later offset are the same but for the offset, and a scan may be started anew where a segment ends. -/

namespace Reformat

/-! ### Attempts -/

/-- The same error, `n` bytes further on. -/
def AttemptError.later (n : Nat) : AttemptError → AttemptError
  | syntaxError offset => syntaxError (n + offset)
  | stalled offset => stalled (n + offset)
  | internal error => internal error

/-- The same match, `n` bytes further on. -/
def Match.later (n : Nat) (m : Match) : Match := ⟨n + m.start, n + m.stop, m.output⟩

/-- The same parse, `n` bytes further on. -/
def Parse.later (n : Nat) (parse : Parse) : Parse := { parse with stop := n + parse.stop }

/-- The same attempt, `n` bytes further on. -/
def Attempt.later (n : Nat) (a : Attempt) : Attempt := { a with offset := n + a.offset }

/-- The same outcome of an attempt, `n` bytes further on. -/
def outcomeLater (n : Nat) (r : Except AttemptError Parse) : Except AttemptError Parse :=
  (r.map (Parse.later n)).mapError (AttemptError.later n)

namespace Attempt

variable {t : ParseTable}

theorem reduce_later (n : Nat) (a : Attempt) (id : ReductionId) :
    (a.later n).reduce t id = (a.reduce t id).map (later n) (outcomeLater n) := by
  simp only [reduce, later]
  cases takeFrames? (t.reduction id).arity a.stack [] with
  | none => rfl
  | some taken =>
    obtain ⟨parts, stack⟩ := taken
    dsimp only
    cases (t.reduction id).template.render (parts.map (·.text)) with
    | error error => rfl
    | ok text =>
      dsimp only
      by_cases hid : id = 0
      · rw [if_pos hid, if_pos hid]
        cases stack.isEmpty <;> rfl
      · rw [if_neg hid, if_neg hid]
        cases (t.row ((parts.head?.map (·.state)).getD a.state)).goto? (t.reduction id).name <;> rfl

/-- A step pays no regard to the offset. -/
theorem step_later (n : Nat) (a : Attempt) :
    (a.later n).step t = (a.step t).map (later n) (outcomeLater n) := by
  have hspent : (a.later n).isSpent t = a.isSpent t := rfl
  rw [step, step, hspent]
  split
  · rfl
  · have hmove : t.move? (a.later n).state (a.later n).rest = t.move? a.state a.rest := rfl
    rw [freeStep, freeStep, hmove]
    cases t.move? a.state a.rest with
    | none => rfl
    | some move =>
      cases move with
      | shift terminal next length =>
        refine congrArg Step.next ?_
        rw [shift, shift, later]
        simp only [later, Nat.add_assoc]
      | reduce id => exact reduce_later n a id

end Attempt

namespace ParseTable

variable (t : ParseTable) (n : Nat)

theorem attempt_later (rest : List Char) (offset : Nat) :
    t.attempt rest (n + offset) = outcomeLater n (t.attempt rest offset) :=
  Machine.run_map (m := Attempt.machine t) (n := Attempt.machine t) (Attempt.step_later n)
    (.initial t rest offset)

theorem parseAt_append (u v : String) (k : Nat) :
    t.parseAt (u ++ v) (Text.byteLength u.toList + k) =
      ((t.parseAt v k).map (Match.later (Text.byteLength u.toList))).mapError
        (AttemptError.later (Text.byteLength u.toList)) := by
  rw [parseAt, parseAt, String.toList_append, Text.dropBytes?_byteLength_add]
  cases Text.dropBytes? k v.toList with
  | none => rfl
  | some rest =>
    dsimp only
    rw [attempt_later]
    cases t.attempt rest k <;> rfl

end ParseTable

/-! ### Scans -/

theorem firstParse?_later (n : Nat) (rest : List Char) (offset place : Nat)
    (tables : List ParseTable) : firstParse? rest (n + offset) place tables =
      (firstParse? rest offset place tables).map (Option.map (Prod.map id (Parse.later n))) := by
  induction tables generalizing place with
  | nil => rfl
  | cons t tables ih =>
    rw [firstParse?, firstParse?, t.attempt_later]
    cases t.attempt rest offset with
    | error e =>
      cases e with
      | internal error => rfl
      | syntaxError k => exact ih (place + 1)
      | stalled k => exact ih (place + 1)
    | ok parse =>
      have hrest : (parse.later n).rest = parse.rest := rfl
      simp only [outcomeLater, Except.map, Except.mapError, hrest]
      split
      · rfl
      · exact ih (place + 1)

/-- The same segment, `n` bytes further on. -/
def Segment.later (n : Nat) : Segment → Segment
  | matched place found => matched place (found.later n)
  | unmatched start stop => unmatched (n + start) (n + stop)

namespace Scan

variable {tables : List ParseTable} {config : ScanConfig} {input text : String} {s u v : Scan}
  {segment : Segment} {earlier later : List Segment} {n : Nat}

theorem step_of_nil (h : s.rest = []) :
    step tables config input s = .done (.ok s.segments.reverse) := by
  rw [step, h]

theorem step_of_cons {c : Char} {rest : List Char} (h : s.rest = c :: rest) :
    step tables config input s = match firstParse? s.rest s.offset 0 tables with
      | .error error => .done (.error error)
      | .ok (some (place, parse)) => .next ⟨parse.rest, parse.stop,
          .matched place ⟨s.offset, parse.stop, parse.output⟩ :: s.segments⟩
      | .ok none =>
        if config.searchMode then .next ⟨rest, s.offset + c.utf8Size, pass s.offset c s.segments⟩
        else .done (.error (.unexpectedInput (Position.locate input s.offset))) := by
  obtain ⟨left, offset, segments⟩ := s
  obtain rfl : left = c :: rest := h
  rfl

/-- The last segment of a scan is complete: the next step begins a new one. -/
def IsComplete (tables : List ParseTable) (config : ScanConfig) (input : String) (s : Scan) : Prop :=
  ∀ u, step tables config input s = .next u → ∃ segment, u.segments = segment :: s.segments

/-- A step begins a segment, or puts another one in the place of the last. -/
theorem segments_of_next (h : step tables config input s = .next u) :
    (∃ segment, u.segments = segment :: s.segments) ∨
      ∃ last longer others, s.segments = last :: others ∧ u.segments = longer :: others := by
  rcases next_cases h with ⟨place, parse, -, rfl⟩ | ⟨c, rest, -, -, -, rfl⟩
  · exact Or.inl ⟨_, rfl⟩
  · rcases pass_cases s.offset c s.segments with ⟨start, stop, others, hlast, hpass⟩ | ⟨-, hpass⟩
    · exact Or.inr ⟨_, _, others, hlast, hpass⟩
    · exact Or.inl ⟨_, hpass⟩

theorem pass_ne_nil (offset : Nat) (c : Char) (segments : List Segment) :
    pass offset c segments ≠ [] := by
  rcases pass_cases offset c segments with ⟨start, stop, others, -, hpass⟩ | ⟨-, hpass⟩ <;>
    simp [hpass]

/-- A scan that has more than some segments was in a state with just these, the last of them
complete. -/
theorem exists_isComplete
    (h : Step.Reaches (step tables config input) { rest := input.toList } s)
    (hsegments : s.segments = later ++ segment :: earlier) (hlater : later ≠ []) :
    ∃ u, Step.Reaches (step tables config input) { rest := input.toList } u ∧
      u.segments = segment :: earlier ∧ u.IsComplete tables config input := by
  induction h generalizing later with
  | refl => simp at hsegments
  | @tail a b hreaches hstep ih =>
    obtain ⟨last, later, rfl⟩ := List.exists_cons_of_ne_nil hlater
    rw [List.cons_append] at hsegments
    rcases segments_of_next hstep with ⟨new, hnew⟩ | ⟨old, longer, others, hold, hlonger⟩
    · obtain ⟨-, hbefore⟩ := List.cons.inj (hnew.symm.trans hsegments)
      by_cases hnil : later = []
      · -- this is the step that begins the next segment
        rw [hnil, List.nil_append] at hbefore
        refine ⟨a, hreaches, hbefore, fun v hv => ⟨new, ?_⟩⟩
        rw [← Step.next.inj (hstep.symm.trans hv), hnew]
      · exact ih hbefore hnil
    · obtain ⟨-, rfl⟩ := List.cons.inj (hlonger.symm.trans hsegments)
      have hsplit : a.segments = (old :: later) ++ segment :: earlier := hold
      exact ih hsplit (List.cons_ne_nil old later)

/-- A scan `s`, `n` bytes into its text, goes on as a scan `u` of what was left does that was started
there; `earlier` are the segments up to there. -/
structure GoesOnAs (tables : List ParseTable) (config : ScanConfig) (input : String) (n : Nat)
    (earlier : List Segment) (s u : Scan) : Prop where
  rest : s.rest = u.rest
  offset : s.offset = n + u.offset
  segments : s.segments = u.segments.map (Segment.later n) ++ earlier
  isComplete : u.segments = [] → s.IsComplete tables config input

namespace GoesOnAs

variable (h : GoesOnAs tables config input n earlier s u)

include h

/-- Both scans add a character that they pass over to the same segment. -/
theorem pass {c : Char} {rest : List Char}
    (hstep : step tables config input s =
      .next ⟨rest, s.offset + c.utf8Size, Scan.pass s.offset c s.segments⟩) :
    Scan.pass s.offset c s.segments =
      (Scan.pass u.offset c u.segments).map (Segment.later n) ++ earlier := by
  cases hsegments : u.segments with
  | nil =>
    -- the last of the earlier segments is not made longer
    obtain ⟨new, hnew⟩ := h.isComplete hsegments _ hstep
    rcases pass_cases s.offset c s.segments with ⟨start, stop, others, hlast, hpass⟩ | ⟨-, hpass⟩
    · have hlength := congrArg List.length (hpass.symm.trans hnew)
      simp [hlast] at hlength
    · rw [hpass, h.segments, hsegments, h.offset, Nat.add_assoc]
      rfl
  | cons last others =>
    rw [h.segments, hsegments, h.offset]
    cases last <;>
      simp only [List.map_cons, List.cons_append, Segment.later, Scan.pass, Nat.add_assoc]

/-- Both scans take a step, or both are done, with the same further segments. -/
theorem step : (∃ s' u', Scan.step tables config input s = .next s' ∧
      Scan.step tables config text u = .next u' ∧
      GoesOnAs tables config input n earlier s' u') ∨
    ∃ r r', Scan.step tables config input s = .done r ∧ Scan.step tables config text u = .done r' ∧
      ∀ segments, r = .ok segments → ∃ others, r' = .ok others ∧
        segments = earlier.reverse ++ others.map (Segment.later n) := by
  cases hrest : u.rest with
  | nil =>
    refine Or.inr ⟨_, _, step_of_nil (h.rest.trans hrest), step_of_nil hrest, ?_⟩
    rintro segments ⟨rfl⟩
    refine ⟨_, rfl, ?_⟩
    rw [h.segments, List.reverse_append, List.map_reverse]
  | cons c rest =>
    -- what is left of both texts is the same, so that the same table succeeds
    have hsame := firstParse?_later n u.rest u.offset 0 tables
    rw [← h.rest, ← h.offset, h.rest] at hsame
    have hstep : Scan.step tables config input s = _ := step_of_cons (h.rest.trans hrest)
    have hstep' : Scan.step tables config text u = _ := step_of_cons hrest
    rw [h.rest, hsame] at hstep
    cases hfirst : firstParse? u.rest u.offset 0 tables with
    | error e =>
      rw [hfirst] at hstep hstep'
      exact Or.inr ⟨_, _, hstep, hstep', by simp⟩
    | ok found =>
      rw [hfirst] at hstep hstep'
      cases found with
      | some found =>
        refine Or.inl ⟨_, _, hstep, hstep', rfl, rfl, ?_, by simp⟩
        rw [h.segments, h.offset]
        rfl
      | none =>
        cases hmode : config.searchMode with
        | false =>
          rw [hmode] at hstep hstep'
          exact Or.inr ⟨_, _, hstep, hstep', by simp⟩
        | true =>
          rw [hmode] at hstep hstep'
          refine Or.inl ⟨_, _, hstep, hstep', rfl, ?_, h.pass hstep, fun hnil => ?_⟩
          · change s.offset + c.utf8Size = n + (u.offset + c.utf8Size)
            rw [h.offset, Nat.add_assoc]
          · exact absurd hnil (pass_ne_nil u.offset c u.segments)

end GoesOnAs

/-- A scan whose last segment is complete finds from there on what one finds that is started there. -/
theorem IsComplete.run {segments : List Segment} (h : u.IsComplete tables config input)
    (hrun : (machine tables config input).run u = .ok segments) :
    ∃ others, scan tables config (String.ofList u.rest) = .ok others ∧
      segments = u.segments.reverse ++ others.map (Segment.later u.offset) := by
  have hgoes : GoesOnAs tables config input u.offset u.segments u { rest := u.rest } :=
    ⟨rfl, rfl, rfl, fun _ => h⟩
  have hrelated := Machine.run_related (m := machine tables config input)
    (n := machine tables config (String.ofList u.rest))
    (GoesOnAs tables config input u.offset u.segments) _ (fun _ _ h => h.step) hgoes
  rw [scan, String.toList_ofList]
  exact hrelated segments hrun

/-- For each segment that a scan returns there is a state in which it is the last and complete. -/
theorem exists_isComplete_of_scan
    (hscan : scan tables config input = .ok (earlier ++ segment :: later)) :
    ∃ u, Step.Reaches (step tables config input) { rest := input.toList } u ∧
      u.segments = segment :: earlier.reverse ∧ u.IsComplete tables config input := by
  obtain ⟨s, hreaches, hdone⟩ := exists_endsIn tables config input
  rw [hscan] at hdone
  have hsegments : s.segments = later.reverse ++ segment :: earlier.reverse := by
    rcases done_cases hdone with ⟨-, hok⟩ | ⟨e, -, herror⟩ | ⟨-, -, -, herror⟩
    · have hreverse := congrArg List.reverse (Except.ok.inj hok)
      rw [List.reverse_reverse] at hreverse
      simp [← hreverse]
    · simp at herror
    · simp at herror
  by_cases hnil : later = []
  · -- the last segment of all is complete since there are no more steps
    refine ⟨s, hreaches, ?_, fun v hv => ?_⟩
    · rw [hsegments, hnil]
      rfl
    · rw [hdone] at hv
      simp at hv
  · exact exists_isComplete hreaches hsegments (by simpa using hnil)

/-- What is left where a segment ends is scanned as it was in the whole. -/
theorem exists_restart
    (hscan : scan tables config input = .ok (earlier ++ segment :: later)) :
    ∃ rest others, Text.dropBytes? segment.stop input.toList = some rest ∧
      scan tables config (String.ofList rest) = .ok others ∧
      later = others.map (Segment.later segment.stop) := by
  obtain ⟨u, hu, husegments, hcomplete⟩ := exists_isComplete_of_scan hscan
  have hcovers := covers_of_reaches hu
  have hstop : segment.stop = u.offset := by
    have hsplits := hcovers.splits
    rw [husegments, List.reverse_cons, Splits.append_singleton_iff] at hsplits
    exact hsplits.2.2.1
  obtain ⟨others, hothers, hall⟩ := hcomplete.run ((scan_eq_run hu).symm.trans hscan)
  rw [husegments, List.reverse_cons, List.reverse_reverse, List.append_assoc, List.singleton_append,
    List.append_cancel_left_eq, List.cons.injEq] at hall
  rw [hstop]
  exact ⟨u.rest, others, hcovers.rest, hothers, hall.2⟩

end Scan

/-- Parsing sees only the text from the cursor on. What comes before it adds to the offsets that are
reported, and to nothing else. So a scan may be started anew where a segment ends: it finds the
segments that come after that one. -/
theorem parsing_sees_the_rest_only :
    (∀ (t : ParseTable) (u v : String) (k : Nat),
      t.parseAt (u ++ v) (Text.byteLength u.toList + k) =
        ((t.parseAt v k).map (Match.later (Text.byteLength u.toList))).mapError
          (AttemptError.later (Text.byteLength u.toList))) ∧
    ∀ (tables : List ParseTable) (config : ScanConfig) (input : String)
      (earlier : List Segment) (segment : Segment) (later : List Segment),
      scan tables config input = .ok (earlier ++ segment :: later) →
        ∃ rest others, Text.dropBytes? segment.stop input.toList = some rest ∧
          scan tables config (String.ofList rest) = .ok others ∧
          later = others.map (Segment.later segment.stop) :=
  ⟨ParseTable.parseAt_append, fun _ _ _ _ _ _ => Scan.exists_restart⟩

theorem brackets_restart : ∃ t rest others,
    Grammar.brackets.generate (Grammar.brackets.analyze Pattern.engine) "S" = .ok t ∧
    t.parseAt ("é" ++ "(x)!") (Text.byteLength "é".toList + 0) =
      ((t.parseAt "(x)!" 0).map (Match.later (Text.byteLength "é".toList))).mapError
        (AttemptError.later (Text.byteLength "é".toList)) ∧
    scan [t] { searchMode := true } "é(x)é!x" =
      .ok [.unmatched 0 2, .matched 0 ⟨2, 5, "[x]"⟩, .unmatched 5 8, .matched 0 ⟨8, 9, "x"⟩] ∧
    Text.dropBytes? 5 "é(x)é!x".toList = some rest ∧
    scan [t] { searchMode := true } (String.ofList rest) = .ok others ∧
    [.unmatched 5 8, .matched 0 ⟨8, 9, "x"⟩] = others.map (Segment.later 5) := by
  obtain ⟨t, ht, hcheck⟩ := Except.exists_ok
    (x := Grammar.brackets.generate (Grammar.brackets.analyze Pattern.engine) "S")
    (p := fun t => scan [t] { searchMode := true } "é(x)é!x" =
      .ok [.unmatched 0 2, .matched 0 ⟨2, 5, "[x]"⟩, .unmatched 5 8, .matched 0 ⟨8, 9, "x"⟩])
    (by decide +kernel)
  have hscan := of_decide_eq_true hcheck
  obtain ⟨rest, others, hrest, hothers, hlater⟩ := parsing_sees_the_rest_only.2 [t] _ _
    [.unmatched 0 2] (.matched 0 ⟨2, 5, "[x]"⟩) _ hscan
  exact ⟨t, rest, others, ht, parsing_sees_the_rest_only.1 t "é" "(x)!" 0, hscan, hrest, hothers,
    hlater⟩

end Reformat
