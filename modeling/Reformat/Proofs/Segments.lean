import Mathlib.Data.List.Chain
import Mathlib.Data.List.Forall2
import Reformat.Document
import Reformat.Proofs.Runs

/-! The segments of a document, for any tables: they lie one after the other, each of them the first
match at its start or a stretch in which nothing matches. -/

namespace Reformat

/-- A byte at which a character begins, or the end of the text. -/
def Text.IsBoundary (text : List Char) (k : Nat) : Prop := ∃ rest, dropBytes? k text = some rest

/-- There is no boundary inside a character. -/
theorem Text.IsBoundary.eq_of_lt {text rest : List Char} {c : Char} {j k : Nat}
    (hj : IsBoundary text j) (hk : dropBytes? k text = some (c :: rest)) (hle : k ≤ j)
    (hlt : j < k + c.utf8Size) : j = k := by
  obtain ⟨v, hv⟩ := hj
  obtain ⟨u, hu, rfl⟩ := eq_append_of_dropBytes? hv
  obtain ⟨before, hbefore, rfl⟩ := eq_append_of_dropBytes? hk
  have hsame : before ++ c :: rest = u ++ v := hbefore.symm.trans hu
  rcases List.append_eq_append_iff.mp hsame with ⟨w, rfl, hw⟩ | ⟨w, rfl, -⟩
  · cases w with
    | nil => rw [List.append_nil]
    | cons d w =>
      -- the character would come before the boundary
      obtain rfl : c = d := (List.cons.inj hw).1
      rw [byteLength_append, byteLength_cons] at hlt
      omega
  · rw [byteLength_append] at hle ⊢
    omega

theorem Text.dropBytes?_add {text word rest : List Char} {k : Nat}
    (h : dropBytes? k text = some (word ++ rest)) :
    dropBytes? (k + byteLength word) text = some rest := by
  obtain ⟨before, rfl, rfl⟩ := eq_append_of_dropBytes? h
  rw [← byteLength_append, ← List.append_assoc, dropBytes?_byteLength_append]

/-- Between two boundaries there is a slice of the text. -/
theorem Text.exists_slice {text : List Char} {j k : Nat} (hj : IsBoundary text j)
    (hk : IsBoundary text k) (hle : j ≤ k) : ∃ before after,
      text = before ++ slice j k text ++ after ∧ byteLength before = j ∧
        byteLength (before ++ slice j k text) = k := by
  obtain ⟨v, hv⟩ := hj
  obtain ⟨after, hafter⟩ := hk
  obtain ⟨before, hbefore, rfl⟩ := eq_append_of_dropBytes? hv
  obtain ⟨u, hu, rfl⟩ := eq_append_of_dropBytes? hafter
  obtain ⟨word, rfl⟩ : before <+: u := by
    rcases List.append_eq_append_iff.mp (hbefore.symm.trans hu) with ⟨w, hw, -⟩ | ⟨w, hw, -⟩
    · exact ⟨w, hw.symm⟩
    · rw [hw, byteLength_append] at hle
      have hnil : w = [] := byteLength_eq_zero.mp (by omega)
      exact ⟨[], by rw [hw, hnil, List.append_nil, List.append_nil]⟩
  have hslice : slice (byteLength before) (byteLength (before ++ word)) text = word := by
    rw [hu, byteLength_append, slice_append]
  rw [hslice]
  exact ⟨before, after, hu, rfl, rfl⟩

namespace Attempt

variable {t : ParseTable} {a : Attempt}

/-- An attempt goes forward in its text. -/
theorem exists_word {rest : List Char} {offset : Nat}
    (h : Step.Reaches (step t) (.initial t rest offset) a) :
    ∃ word, rest = word ++ a.rest ∧ a.offset = offset + Text.byteLength word := by
  refine h.preserves (motive := fun a => ∃ word, rest = word ++ a.rest ∧
    a.offset = offset + Text.byteLength word) ?_ ⟨[], rfl, rfl⟩
  intro a b ⟨word, htext, hoffset⟩ hstep
  rcases freeStep_cases (freeStep_of_step hstep) with ⟨terminal, next, n, -, rfl⟩ | ⟨id, -, hreduce⟩
  · refine ⟨word ++ a.rest.take n, ?_, ?_⟩
    · change rest = word ++ a.rest.take n ++ a.rest.drop n
      rw [List.append_assoc, List.take_append_drop]
      exact htext
    · rw [Text.byteLength_append, ← Nat.add_assoc, ← hoffset]
      rfl
  · obtain ⟨-, p, text, next, -, -, -, rfl⟩ := next_of_reduce_cases hreduce
    exact ⟨word, htext, hoffset⟩

end Attempt

namespace ParseTable

variable {t : ParseTable} {input : String} {rest : List Char} {k : Nat} {parse : Parse}

/-- A parse leaves the end of the text that it was given. -/
theorem exists_word (h : t.attempt rest k = .ok parse) :
    ∃ word, rest = word ++ parse.rest ∧ parse.stop = k + Text.byteLength word := by
  obtain ⟨a, hreaches, ⟨-, hstalled⟩ | ⟨-, herror⟩ | ⟨id, -, hdone⟩⟩ := t.attempt_cases rest k
  · simp [h] at hstalled
  · simp [h] at herror
  · rw [h] at hdone
    obtain ⟨hstop, hrest⟩ := Attempt.stop_of_reduce hdone
    rw [hstop, hrest]
    exact Attempt.exists_word hreaches

/-- A table parses nothing at the start of a text: it fails, or leaves all of the text. -/
def ParsesNothing (t : ParseTable) (rest : List Char) (offset : Nat) : Prop :=
  ∀ parse, t.attempt rest offset = .ok parse → ¬ parse.rest.length < rest.length

theorem parsesNothing_of_error {e : AttemptError} (h : t.attempt rest k = .error e) :
    t.ParsesNothing rest k := by
  intro parse hparse
  rw [h] at hparse
  simp at hparse

theorem parsesNothing_of_ok (h : t.attempt rest k = .ok parse)
    (hlength : ¬ parse.rest.length < rest.length) : t.ParsesNothing rest k := by
  intro other hother
  obtain rfl := Except.ok.inj (h.symm.trans hother)
  exact hlength

/-- A table misses a byte of the input: it fails there or matches nothing. -/
def Misses (t : ParseTable) (input : String) (k : Nat) : Prop :=
  ∀ found, t.parseAt input k = .ok found → found.isEmpty = true

theorem ParsesNothing.misses (h : t.ParsesNothing rest k)
    (hrest : Text.dropBytes? k input.toList = some rest) : t.Misses input k := by
  intro found hfound
  obtain ⟨rest', parse, hrest', hattempt, rfl⟩ := parseAt_eq_ok hfound
  obtain rfl := Option.some.inj (hrest.symm.trans hrest')
  obtain ⟨word, hword, hstop⟩ := exists_word hattempt
  -- where all of the text is left, what was consumed is empty
  have hlength := h parse hattempt
  rw [hword, List.length_append] at hlength
  have hnil : word = [] := List.length_eq_zero_iff.mp (by omega)
  rw [Match.isEmpty, hstop, hnil]
  exact decide_eq_true rfl

end ParseTable

section

variable {rest : List Char} {offset place k : Nat} {tables : List ParseTable} {parse : Parse}

/-- The parse that is found is that of a table, and all tables before it parse nothing. -/
theorem firstParse?_eq_some (h : firstParse? rest offset place tables = .ok (some (k, parse))) :
    ∃ earlier t later, tables = earlier ++ t :: later ∧ k = place + earlier.length ∧
      t.attempt rest offset = .ok parse ∧ ∀ u ∈ earlier, u.ParsesNothing rest offset := by
  fun_induction firstParse? rest offset place tables with
  | case1 => simp at h
  | case2 place t tables parse' hattempt _ =>
    simp only [Except.ok.injEq, Option.some.injEq, Prod.mk.injEq] at h
    obtain ⟨rfl, rfl⟩ := h
    exact ⟨[], t, tables, rfl, rfl, hattempt, by simp⟩
  | case3 place t tables parse' hattempt hlength ih =>
    obtain ⟨earlier, u, later, rfl, rfl, hparse, hearlier⟩ := ih h
    refine ⟨t :: earlier, u, later, rfl, ?_, hparse, List.forall_mem_cons.mpr ⟨?_, hearlier⟩⟩
    · rw [List.length_cons, Nat.add_right_comm, Nat.add_assoc]
    · exact ParseTable.parsesNothing_of_ok hattempt hlength
  | case4 => simp at h
  | case5 place t tables error _ hattempt ih =>
    obtain ⟨earlier, u, later, rfl, rfl, hparse, hearlier⟩ := ih h
    refine ⟨t :: earlier, u, later, rfl, ?_, hparse, List.forall_mem_cons.mpr ⟨?_, hearlier⟩⟩
    · rw [List.length_cons, Nat.add_right_comm, Nat.add_assoc]
    · exact ParseTable.parsesNothing_of_error hattempt

theorem firstParse?_eq_none (h : firstParse? rest offset place tables = .ok none) :
    ∀ t ∈ tables, t.ParsesNothing rest offset := by
  fun_induction firstParse? rest offset place tables with
  | case1 => simp
  | case2 => simp at h
  | case3 place t tables parse hattempt hlength ih =>
    exact List.forall_mem_cons.mpr ⟨ParseTable.parsesNothing_of_ok hattempt hlength, ih h⟩
  | case4 => simp at h
  | case5 place t tables error _ hattempt ih =>
    exact List.forall_mem_cons.mpr ⟨ParseTable.parsesNothing_of_error hattempt, ih h⟩

/-- Only an inconsistent table keeps a scan from looking at the next one. -/
theorem firstParse?_eq_error {error : FormatError}
    (h : firstParse? rest offset place tables = .error error) :
    ∃ t ∈ tables, ∃ e, t.attempt rest offset = .error (.internal e) ∧
      error = .internal t.startSymbol e := by
  fun_induction firstParse? rest offset place tables with
  | case1 => simp at h
  | case2 => simp at h
  | case3 _ t tables _ _ _ ih =>
    obtain ⟨u, hu, he⟩ := ih h
    exact ⟨u, List.mem_cons_of_mem t hu, he⟩
  | case4 place t tables e hattempt =>
    exact ⟨t, List.mem_cons_self, e, hattempt, (Except.error.inj h).symm⟩
  | case5 _ t tables _ _ _ ih =>
    obtain ⟨u, hu, he⟩ := ih h
    exact ⟨u, List.mem_cons_of_mem t hu, he⟩

end

namespace Segment

def start : Segment → Nat
  | matched _ found => found.start
  | unmatched start _ => start

def stop : Segment → Nat
  | matched _ found => found.stop
  | unmatched _ stop => stop

def isUnmatched : Segment → Bool
  | matched _ _ => false
  | unmatched _ _ => true

/-- Segments lie one after the other from byte `lo` to byte `hi`, and none of them is empty. -/
def Tile (lo : Nat) : List Segment → Nat → Prop
  | [], hi => lo = hi
  | s :: segments, hi => s.start = lo ∧ s.start < s.stop ∧ Tile s.stop segments hi

/-- What a scan finds at a segment: the first table that does not miss its start, or, where the
document is searched, no table at any place in it. -/
inductive IsFound (tables : List ParseTable) (config : ScanConfig) (input : String) :
    Segment → Prop
  | matched {place : Nat} {t : ParseTable} {found : Match} (htable : tables[place]? = some t)
      (hparse : t.parseAt input found.start = .ok found)
      (hearlier : ∀ u ∈ tables.take place, u.Misses input found.start) :
      IsFound tables config input (.matched place found)
  | unmatched {start stop : Nat} (hmode : config.searchMode = true)
      (hmisses : ∀ k, start ≤ k → k < stop → Text.IsBoundary input.toList k →
        ∀ t ∈ tables, t.Misses input k) :
      IsFound tables config input (.unmatched start stop)

theorem tile_append {lo hi : Nat} {segments others : List Segment} :
    Tile lo (segments ++ others) hi ↔ ∃ mid, Tile lo segments mid ∧ Tile mid others hi := by
  induction segments generalizing lo with
  | nil =>
    constructor
    · exact fun h => ⟨lo, rfl, h⟩
    · intro ⟨mid, hmid, h⟩
      obtain rfl : lo = mid := hmid
      exact h
  | cons s segments ih =>
    rw [List.cons_append, Tile, ih]
    constructor
    · intro ⟨hstart, hlt, mid, hmid, h⟩
      exact ⟨mid, ⟨hstart, hlt, hmid⟩, h⟩
    · intro ⟨mid, ⟨hstart, hlt, hmid⟩, h⟩
      exact ⟨hstart, hlt, mid, hmid, h⟩

theorem lt_of_tile {lo hi : Nat} {segments : List Segment} {s : Segment}
    (h : Tile lo segments hi) (hs : s ∈ segments) : s.start < s.stop := by
  obtain ⟨before, after, rfl⟩ := List.append_of_mem hs
  obtain ⟨mid, -, -, hlt, -⟩ := tile_append.mp h
  exact hlt

/-- What a segment adds to the output: what was made of the match, or a piece of the input if that
is to be kept. -/
inductive Contributes (config : ScanConfig) (input : String) : Segment → String → Prop
  | matched (place : Nat) (found : Match) :
      Contributes config input (.matched place found) found.output
  | kept {start stop : Nat} {before word after : List Char} (hkeep : config.keepUnmatched = true)
      (hinput : input.toList = before ++ word ++ after) (hstart : Text.byteLength before = start)
      (hstop : Text.byteLength (before ++ word) = stop) :
      Contributes config input (.unmatched start stop) (String.ofList word)
  | left (start stop : Nat) (hkeep : config.keepUnmatched = false) :
      Contributes config input (.unmatched start stop) ""

theorem contributes_output {config : ScanConfig} {input : String} {s : Segment}
    (hstart : Text.IsBoundary input.toList s.start) (hstop : Text.IsBoundary input.toList s.stop)
    (hlt : s.start < s.stop) : s.Contributes config input (s.output config input) := by
  cases s with
  | matched place found => exact .matched place found
  | unmatched start stop =>
    rw [output]
    split
    · next hkeep =>
      obtain ⟨before, after, hinput, hbefore, hword⟩ :=
        Text.exists_slice hstart hstop (Nat.le_of_lt hlt)
      exact .kept hkeep hinput hbefore hword
    · next hkeep => exact .left start stop (Bool.eq_false_iff.mpr hkeep)

end Segment

/-- A document is split, up to byte `stop`, into segments between characters, no two of which could
be one unmatched segment. -/
structure Splits (tables : List ParseTable) (config : ScanConfig) (input : String)
    (segments : List Segment) (stop : Nat) : Prop where
  tile : Segment.Tile 0 segments stop
  boundaries : ∀ s ∈ segments, Text.IsBoundary input.toList s.start ∧
    Text.IsBoundary input.toList s.stop
  separate : segments.IsChain fun s u => ¬ (s.isUnmatched = true ∧ u.isUnmatched = true)
  found : ∀ s ∈ segments, s.IsFound tables config input

namespace Splits

variable {tables : List ParseTable} {config : ScanConfig} {input : String}
  {segments : List Segment} {s : Segment} {stop : Nat}

theorem nil (tables : List ParseTable) (config : ScanConfig) (input : String) :
    Splits tables config input [] 0 :=
  ⟨rfl, by simp, .nil, by simp⟩

/-- The last segment goes on where those before it end. -/
theorem append_singleton_iff : Splits tables config input (segments ++ [s]) stop ↔
    Splits tables config input segments s.start ∧ s.start < s.stop ∧ s.stop = stop ∧
      (Text.IsBoundary input.toList s.start ∧ Text.IsBoundary input.toList s.stop) ∧
      (∀ u ∈ segments.getLast?, ¬ (u.isUnmatched = true ∧ s.isUnmatched = true)) ∧
      s.IsFound tables config input := by
  constructor
  · -- the tiles before the last one end where that begins
    intro ⟨htile, hboundaries, hseparate, hfound⟩
    obtain ⟨mid, hbefore, hstart, hlt, hstop⟩ := Segment.tile_append.mp htile
    rw [List.forall_mem_append, List.forall_mem_singleton] at hboundaries hfound
    obtain ⟨hchain, -, hlast⟩ := List.isChain_append.mp hseparate
    refine ⟨⟨?_, hboundaries.1, hchain, hfound.1⟩, hlt, hstop, hboundaries.2, ?_, hfound.2⟩
    · rw [hstart]
      exact hbefore
    · exact fun u hu => hlast u hu s rfl
  · intro ⟨h, hlt, hstop, hboundary, hlast, hfound⟩
    refine ⟨?_, ?_, ?_, ?_⟩
    · exact Segment.tile_append.mpr ⟨s.start, h.tile, rfl, hlt, hstop⟩
    · exact List.forall_mem_append.mpr ⟨h.boundaries, List.forall_mem_singleton.mpr hboundary⟩
    · refine List.isChain_append.mpr ⟨h.separate, .singleton s, fun u hu v hv => ?_⟩
      obtain rfl : s = v := Option.some.inj hv
      exact hlast u hu
    · exact List.forall_mem_append.mpr ⟨h.found, List.forall_mem_singleton.mpr hfound⟩

/-- Where a document is not searched, all of it is matched. -/
theorem isUnmatched_eq_false (h : Splits tables config input segments stop)
    (hmode : config.searchMode = false) (hs : s ∈ segments) : s.isUnmatched = false := by
  cases h.found s hs with
  | matched _ _ _ => rfl
  | unmatched hsearch _ => simp [hmode] at hsearch

/-- The outputs of the segments are what they add to the output. -/
theorem contributes (h : Splits tables config input segments stop) :
    List.Forall₂ (Segment.Contributes config input) segments
      (segments.map (·.output config input)) := by
  rw [List.forall₂_map_right_iff, List.forall₂_same]
  intro s hs
  obtain ⟨hstart, hstop⟩ := h.boundaries s hs
  exact Segment.contributes_output hstart hstop (Segment.lt_of_tile h.tile hs)

end Splits

end Reformat
