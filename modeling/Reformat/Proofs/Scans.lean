import Reformat.Pattern.Engine
import Reformat.Proofs.Segments
import Reformat.Proofs.Tables

/-! What a scan makes of a document, with any tables: it splits the document up to where it is, and
comes to an end where there is nothing left, or where it is stuck. -/

namespace Reformat

/-- A scan has come to a byte up to which the document is split into matches, and at which it can
neither go on nor pass anything over. -/
structure StuckAt (tables : List ParseTable) (config : ScanConfig) (input : String) (k : Nat) :
    Prop where
  mode : config.searchMode = false
  splits : ∃ segments, Splits tables config input segments k ∧
    ∀ s ∈ segments, s.isUnmatched = false
  lt : k < Text.byteLength input.toList
  boundary : Text.IsBoundary input.toList k
  misses : ∀ t ∈ tables, t.Misses input k

/-- What a scan may return: the segments that the document splits into, the error of a table that is
inconsistent, or the place where it is stuck. -/
inductive ScanResult (tables : List ParseTable) (config : ScanConfig) (input : String) :
    Except FormatError (List Segment) → Prop
  | split {segments : List Segment}
      (hsplits : Splits tables config input segments (Text.byteLength input.toList)) :
      ScanResult tables config input (.ok segments)
  | inconsistent {t : ParseTable} {rest : List Char} {offset : Nat} {e : InternalError}
      (ht : t ∈ tables) (hattempt : t.attempt rest offset = .error (.internal e)) :
      ScanResult tables config input (.error (.internal t.startSymbol e))
  | stuck {k : Nat} (hstuck : StuckAt tables config input k) :
      ScanResult tables config input (.error (.unexpectedInput (Position.locate input k)))

namespace Scan

variable {tables : List ParseTable} {config : ScanConfig} {input : String} {s u : Scan}
  {place : Nat} {parse : Parse} {c : Char} {rest : List Char} {segments : List Segment}

/-- A scan has split the document up to where it is. -/
structure Covers (tables : List ParseTable) (config : ScanConfig) (input : String) (s : Scan) :
    Prop where
  rest : Text.dropBytes? s.offset input.toList = some s.rest
  splits : Splits tables config input s.segments.reverse s.offset

theorem next_cases (h : step tables config input s = .next u) :
    (∃ place parse, firstParse? s.rest s.offset 0 tables = .ok (some (place, parse)) ∧
      u = ⟨parse.rest, parse.stop,
        .matched place ⟨s.offset, parse.stop, parse.output⟩ :: s.segments⟩) ∨
    ∃ c rest, s.rest = c :: rest ∧ firstParse? s.rest s.offset 0 tables = .ok none ∧
      config.searchMode = true ∧ u = ⟨rest, s.offset + c.utf8Size, pass s.offset c s.segments⟩ := by
  unfold step at h
  split at h
  · simp at h
  · next c rest hrest =>
    split at h
    · simp at h
    · next place parse hparse => exact Or.inl ⟨place, parse, hparse, (Step.next.inj h).symm⟩
    · next hnone =>
      split at h
      · next hmode => exact Or.inr ⟨c, rest, hrest, hnone, hmode, (Step.next.inj h).symm⟩
      · simp at h

theorem done_cases {r : Except FormatError (List Segment)}
    (h : step tables config input s = .done r) :
    (s.rest = [] ∧ r = .ok s.segments.reverse) ∨
    (∃ error, firstParse? s.rest s.offset 0 tables = .error error ∧ r = .error error) ∨
    (s.rest ≠ [] ∧ firstParse? s.rest s.offset 0 tables = .ok none ∧ config.searchMode = false ∧
      r = .error (.unexpectedInput (Position.locate input s.offset))) := by
  unfold step at h
  split at h
  · next hrest => exact Or.inl ⟨hrest, (Step.done.inj h).symm⟩
  · next c rest hrest =>
    split at h
    · next error herror => exact Or.inr (Or.inl ⟨error, herror, (Step.done.inj h).symm⟩)
    · simp at h
    · next hnone =>
      split at h
      · simp at h
      · next hmode =>
        refine Or.inr (Or.inr ⟨?_, hnone, Bool.eq_false_iff.mpr hmode, (Step.done.inj h).symm⟩)
        rw [hrest]
        exact List.cons_ne_nil c rest

/-- A character goes to the last segment if that is unmatched, and else to a new one. -/
theorem pass_cases (offset : Nat) (c : Char) (segments : List Segment) :
    (∃ start stop others, segments = .unmatched start stop :: others ∧
      pass offset c segments = .unmatched start (offset + c.utf8Size) :: others) ∨
    ((∀ s ∈ segments.head?, s.isUnmatched = false) ∧
      pass offset c segments = .unmatched offset (offset + c.utf8Size) :: segments) := by
  cases segments with
  | nil => exact Or.inr ⟨by simp, rfl⟩
  | cons s segments =>
    cases s with
    | matched place found =>
      refine Or.inr ⟨fun s hs => ?_, rfl⟩
      obtain rfl := Option.some.inj hs
      rfl
    | unmatched start stop => exact Or.inl ⟨start, stop, segments, rfl, rfl⟩

namespace Covers

/-- A match is one more segment. -/
theorem take (h : s.Covers tables config input)
    (hparse : firstParse? s.rest s.offset 0 tables = .ok (some (place, parse))) :
    Covers tables config input ⟨parse.rest, parse.stop,
      .matched place ⟨s.offset, parse.stop, parse.output⟩ :: s.segments⟩ := by
  obtain ⟨earlier, t, later, rfl, hplace, hattempt, hearlier⟩ := firstParse?_eq_some hparse
  obtain rfl : place = earlier.length := hplace.trans (Nat.zero_add _)
  obtain ⟨word, hword, hstop⟩ := ParseTable.exists_word hattempt
  have hlength := length_of_firstParse? hparse
  have hrest := h.rest
  rw [hword] at hrest
  have hend : Text.dropBytes? parse.stop input.toList = some parse.rest := by
    rw [hstop]
    exact Text.dropBytes?_add hrest
  -- what is matched is not empty, since less of the text is left
  have hlt : s.offset < parse.stop := by
    have hne : Text.byteLength word ≠ 0 := by
      rw [Ne, Text.byteLength_eq_zero]
      rintro rfl
      rw [hword] at hlength
      exact Nat.lt_irrefl _ hlength
    omega
  refine ⟨hend, ?_⟩
  rw [List.reverse_cons, Splits.append_singleton_iff]
  refine ⟨h.splits, hlt, rfl, ⟨⟨_, h.rest⟩, ⟨_, hend⟩⟩, ?_, ?_⟩
  · rintro last - ⟨-, hmatched⟩
    exact absurd hmatched (by simp [Segment.isUnmatched])
  · refine .matched (t := t) ?_ (ParseTable.parseAt_of_attempt h.rest hattempt) ?_
    · rw [List.getElem?_append_right (Nat.le_refl _), Nat.sub_self]
      rfl
    · rw [List.take_left]
      exact fun u hu => (hearlier u hu).misses h.rest

/-- What is passed over belongs to an unmatched segment. -/
theorem pass (h : s.Covers tables config input) (hrest : s.rest = c :: rest)
    (hmode : config.searchMode = true) (hnothing : ∀ t ∈ tables, t.ParsesNothing s.rest s.offset) :
    Covers tables config input ⟨rest, s.offset + c.utf8Size, Scan.pass s.offset c s.segments⟩ := by
  have hdrop : Text.dropBytes? s.offset input.toList = some ([c] ++ rest) := by
    rw [h.rest, hrest]
    rfl
  have hend : Text.dropBytes? (s.offset + c.utf8Size) input.toList = some rest :=
    Text.dropBytes?_add hdrop
  have hmisses : ∀ k, s.offset ≤ k → k < s.offset + c.utf8Size →
      Text.IsBoundary input.toList k → ∀ t ∈ tables, t.Misses input k := by
    intro k hle hlt hk t ht
    rw [hk.eq_of_lt hdrop hle hlt]
    exact (hnothing t ht).misses h.rest
  have hpos := c.utf8Size_pos
  refine ⟨hend, ?_⟩
  rcases pass_cases s.offset c s.segments with ⟨start, stop, others, hsegments, hpass⟩ |
    ⟨hlast, hpass⟩
  · -- the last segment ends where the character begins
    have hsplits := h.splits
    rw [hsegments, List.reverse_cons, Splits.append_singleton_iff] at hsplits
    obtain ⟨hbefore, hlt, hstop, ⟨hstart, -⟩, hseparate, hfound⟩ := hsplits
    obtain rfl : stop = s.offset := hstop
    rw [hpass, List.reverse_cons, Splits.append_singleton_iff]
    refine ⟨hbefore, Nat.lt_add_right _ hlt, rfl, ⟨hstart, ⟨_, hend⟩⟩, hseparate, ?_⟩
    cases hfound with
    | unmatched _ hearlier =>
      refine .unmatched hmode fun k hle hlt hk => ?_
      by_cases hk' : k < s.offset
      · exact hearlier k hle hk' hk
      · exact hmisses k (Nat.le_of_not_lt hk') hlt hk
  · rw [hpass, List.reverse_cons, Splits.append_singleton_iff]
    refine ⟨h.splits, ?_, rfl, ⟨⟨_, h.rest⟩, ⟨_, hend⟩⟩, ?_, .unmatched hmode hmisses⟩
    · exact Nat.lt_add_of_pos_right hpos
    · rw [List.getLast?_reverse]
      rintro last hmem ⟨hunmatched, -⟩
      rw [hlast last hmem] at hunmatched
      simp at hunmatched

theorem next (h : s.Covers tables config input) (hstep : step tables config input s = .next u) :
    u.Covers tables config input := by
  rcases next_cases hstep with ⟨place, parse, hparse, rfl⟩ | ⟨c, rest, hrest, hnone, hmode, rfl⟩
  · exact h.take hparse
  · exact h.pass hrest hmode (firstParse?_eq_none hnone)

theorem byteLength_eq (h : s.Covers tables config input) :
    Text.byteLength input.toList = s.offset + Text.byteLength s.rest := by
  obtain ⟨before, hinput, hoffset⟩ := Text.eq_append_of_dropBytes? h.rest
  rw [hinput, Text.byteLength_append, hoffset]

theorem done (h : s.Covers tables config input) {r : Except FormatError (List Segment)}
    (hdone : step tables config input s = .done r) : ScanResult tables config input r := by
  rcases done_cases hdone with ⟨hrest, rfl⟩ | ⟨error, herror, rfl⟩ | ⟨hrest, hnone, hmode, rfl⟩
  · apply ScanResult.split
    rw [h.byteLength_eq, hrest]
    exact h.splits
  · obtain ⟨t, ht, e, hattempt, rfl⟩ := firstParse?_eq_error herror
    exact .inconsistent ht hattempt
  · refine .stuck ⟨hmode, ⟨_, h.splits, ?_⟩, ?_, ⟨_, h.rest⟩, ?_⟩
    · exact fun _ hs => h.splits.isUnmatched_eq_false hmode hs
    · have hne : Text.byteLength s.rest ≠ 0 := mt Text.byteLength_eq_zero.mp hrest
      rw [h.byteLength_eq]
      exact Nat.lt_add_of_pos_right (Nat.pos_of_ne_zero hne)
    · exact fun t ht => (firstParse?_eq_none hnone t ht).misses h.rest

end Covers

end Scan

theorem scanResult_scan (tables : List ParseTable) (config : ScanConfig) (input : String) :
    ScanResult tables config input (scan tables config input) := by
  refine Machine.run_induction (m := Scan.machine tables config input)
    (Scan.Covers tables config input) (ScanResult tables config input) ?_ ?_ _ ?_
  · exact fun _ _ hcovers hstep => hcovers.next hstep
  · exact fun _ _ hcovers hdone => hcovers.done hdone
  · exact ⟨Text.dropBytes?_byteLength_append [] input.toList, .nil tables config input⟩

/-- Segments that a scan returns split all of the document, and what is made of the document is made
of them, one after the other. Input is unexpected only where a scan that is not a search is stuck,
with nothing but matches before. -/
theorem scan_exact (tables : List ParseTable) (config : ScanConfig) (input : String) :
    (∀ segments, scan tables config input = .ok segments →
      Splits tables config input segments (Text.byteLength input.toList) ∧
      ∃ texts, List.Forall₂ (Segment.Contributes config input) segments texts ∧
        format tables config input = .ok (String.join texts)) ∧
    (∀ position, scan tables config input = .error (.unexpectedInput position) →
      ∃ k, position = Position.locate input k ∧ StuckAt tables config input k) ∧
    ∀ error, scan tables config input = .error error →
      format tables config input = .error error := by
  have hresult := scanResult_scan tables config input
  refine ⟨fun segments hscan => ?_, fun position hscan => ?_, fun error hscan => ?_⟩
  · rw [hscan] at hresult
    cases hresult with
    | split hsplits =>
      refine ⟨hsplits, _, hsplits.contributes, ?_⟩
      rw [format, hscan]
      rfl
  · rw [hscan] at hresult
    cases hresult with
    | stuck hstuck => exact ⟨_, rfl, hstuck⟩
  · rw [format, hscan]
    rfl

theorem brackets_scan_exact : ∃ t,
    Grammar.brackets.generate (Grammar.brackets.analyze Pattern.engine) "S" = .ok t ∧
    scan [t] ⟨true, true⟩ "é(x)é!" =
      .ok [.unmatched 0 2, .matched 0 ⟨2, 5, "[x]"⟩, .unmatched 5 8] ∧
    Splits [t] ⟨true, true⟩ "é(x)é!"
      [.unmatched 0 2, .matched 0 ⟨2, 5, "[x]"⟩, .unmatched 5 8] (Text.byteLength "é(x)é!".toList) ∧
    (∃ texts, List.Forall₂ (Segment.Contributes ⟨true, true⟩ "é(x)é!")
        [.unmatched 0 2, .matched 0 ⟨2, 5, "[x]"⟩, .unmatched 5 8] texts ∧
      format [t] ⟨true, true⟩ "é(x)é!" = .ok (String.join texts)) ∧
    scan [t] ⟨false, true⟩ "x!" = .error (.unexpectedInput ⟨1, 2, 1⟩) ∧
    (∃ k, ⟨1, 2, 1⟩ = Position.locate "x!" k ∧ StuckAt [t] ⟨false, true⟩ "x!" k) ∧
    format [t] ⟨false, true⟩ "x!" = .error (.unexpectedInput ⟨1, 2, 1⟩) := by
  obtain ⟨t, ht, hcheck⟩ := Except.exists_ok
    (x := Grammar.brackets.generate (Grammar.brackets.analyze Pattern.engine) "S")
    (p := fun t => scan [t] ⟨true, true⟩ "é(x)é!" =
        .ok [.unmatched 0 2, .matched 0 ⟨2, 5, "[x]"⟩, .unmatched 5 8] ∧
      scan [t] ⟨false, true⟩ "x!" = .error (.unexpectedInput ⟨1, 2, 1⟩)) (by decide +kernel)
  obtain ⟨hscan, herror⟩ := of_decide_eq_true hcheck
  obtain ⟨hsplits, htexts⟩ := (scan_exact [t] ⟨true, true⟩ "é(x)é!").1 _ hscan
  have hstuck := (scan_exact [t] ⟨false, true⟩ "x!").2
  exact ⟨t, ht, hscan, hsplits, htexts, herror, hstuck.1 _ herror, hstuck.2 _ herror⟩

end Reformat
