import Mathlib.Data.List.Induction
import Mathlib.Data.Prod.Lex
import Mathlib.Order.Monotone.Defs
import Reformat.Proofs.Bounds
import Reformat.Proofs.Segments

/-! Lines and columns. They are counted in one pass over the characters, in 32 bits, which is enough
for texts of fewer than `2 ^ 32 - 1` bytes. They grow with the offset, and at the boundaries of
characters they tell one offset from another. -/

namespace Reformat

namespace Text

/-- The characters with the bytes at which they start, the first one at byte `start`. -/
def starts (start : Nat) : List Char → List (Nat × Char)
  | [] => []
  | c :: cs => (start, c) :: starts (start + c.utf8Size) cs

theorem le_of_mem_starts {start : Nat} {cs : List Char} {p : Nat × Char} (h : p ∈ starts start cs) :
    start ≤ p.1 := by
  induction cs generalizing start with
  | nil => exact absurd h List.not_mem_nil
  | cons c cs ih =>
    rcases List.mem_cons.mp h with rfl | h
    · exact Nat.le_refl start
    · exact Nat.le_trans (Nat.le_add_right start c.utf8Size) (ih h)

theorem pairwise_starts (start : Nat) (cs : List Char) :
    (starts start cs).Pairwise (·.1 < ·.1) := by
  induction cs generalizing start with
  | nil => exact List.Pairwise.nil
  | cons c cs ih =>
    refine List.Pairwise.cons (fun p hp => ?_) (ih _)
    exact Nat.lt_of_lt_of_le (Nat.lt_add_of_pos_right c.utf8Size_pos) (le_of_mem_starts hp)

/-- The characters that start before byte `stop`. -/
theorem map_filter_starts (start stop : Nat) (cs : List Char) :
    ((starts start cs).filter (·.1 < stop)).map (·.2) = startingBefore (stop - start) cs := by
  induction cs generalizing start with
  | nil => cases stop - start <;> rfl
  | cons c cs ih =>
    rw [starts]
    by_cases hlt : start < stop
    · obtain ⟨n, hn⟩ : ∃ n, stop - start = n + 1 := ⟨stop - start - 1, by omega⟩
      have hrest : stop - (start + c.utf8Size) = n + 1 - c.utf8Size := by omega
      rw [List.filter_cons_of_pos (by simpa using hlt), List.map_cons, ih, hrest, hn,
        startingBefore]
    · have hrest : stop - (start + c.utf8Size) = 0 := by omega
      have hzero : stop - start = 0 := by omega
      rw [List.filter_cons_of_neg (by simpa using hlt), ih, hrest, hzero, startingBefore,
        startingBefore]

theorem startingBefore_of_le {n : Nat} {cs : List Char} (h : byteLength cs ≤ n) :
    startingBefore n cs = cs := by
  induction cs generalizing n with
  | nil => cases n <;> rfl
  | cons c cs ih =>
    have hc := c.utf8Size_pos
    rw [byteLength_cons] at h
    obtain ⟨m, rfl⟩ : ∃ m, n = m + 1 := ⟨n - 1, by omega⟩
    rw [startingBefore, ih (by omega)]

/-- An offset past the end stands for the end. -/
theorem startingBefore_min (n : Nat) (cs : List Char) :
    startingBefore (min n (byteLength cs)) cs = startingBefore n cs := by
  rcases Nat.le_total n (byteLength cs) with hle | hle
  · rw [Nat.min_eq_left hle]
  · rw [Nat.min_eq_right hle, startingBefore_of_le hle, startingBefore_of_le (Nat.le_refl _)]

theorem startingBefore_prefix {m n : Nat} (h : m ≤ n) (cs : List Char) :
    startingBefore m cs <+: startingBefore n cs := by
  induction cs generalizing m n with
  | nil => cases m <;> exact List.nil_prefix
  | cons c cs ih =>
    cases m with
    | zero => exact List.nil_prefix
    | succ m =>
      obtain ⟨k, rfl⟩ : ∃ k, n = k + 1 := ⟨n - 1, by omega⟩
      rw [startingBefore, startingBefore, List.cons_prefix_cons]
      exact ⟨rfl, ih (by omega)⟩

end Text

namespace Position

variable {p q : Position} {u v cs : List Char} {c : Char} {m n start stop : Nat}

/-- The line, the column and the offset, in the order in which positions are compared. -/
def key (p : Position) : ℕ ×ₗ ℕ ×ₗ ℕ := toLex (p.line, toLex (p.column, p.offset))

theorem key_injective : Function.Injective key := by
  intro p q h
  obtain ⟨hline, h⟩ := Prod.mk.inj (toLex.injective h)
  obtain ⟨hcolumn, hoffset⟩ := Prod.mk.inj (toLex.injective h)
  cases p
  cases q
  congr

/-- Positions are ordered by their lines, then by their columns, then by their offsets. -/
instance : PartialOrder Position := PartialOrder.lift key key_injective

/-- What is shown of a position. -/
def lineColumn (p : Position) : ℕ ×ₗ ℕ := toLex (p.line, p.column)

theorem le_of_lineColumn_lt (h : p.lineColumn < q.lineColumn) : p ≤ q := by
  change p.key ≤ q.key
  rw [key, key, Prod.Lex.toLex_le_toLex, Prod.Lex.toLex_le_toLex]
  rcases Prod.Lex.toLex_lt_toLex.mp h with hline | ⟨hline, hcolumn⟩
  · exact .inl hline
  · exact .inr ⟨hline, .inl hcolumn⟩

theorem after_le_after (h : m ≤ n) (u : List Char) : after u m ≤ after u n := by
  change (after u m).key ≤ (after u n).key
  rw [key, key, Prod.Lex.toLex_le_toLex, Prod.Lex.toLex_le_toLex]
  exact .inr ⟨rfl, .inr ⟨rfl, h⟩⟩

theorem line_after_concat (u : List Char) (c : Char) (n : Nat) :
    (after (u ++ [c]) n).line = if c = '\n' then (after u n).line + 1 else (after u n).line := by
  unfold after
  dsimp only
  rw [List.count_append, List.count_singleton]
  by_cases hc : c = '\n'
  · simp [hc, Nat.add_assoc]
  · simp [hc]

theorem column_after_concat (u : List Char) (c : Char) (n : Nat) :
    (after (u ++ [c]) n).column = if c = '\n' then 1 else (after u n).column + 1 := by
  unfold after
  dsimp only
  rw [List.reverse_concat, List.takeWhile_cons]
  by_cases hc : c = '\n'
  · simp [hc]
  · simp [hc, Nat.add_assoc]

/-- Each character leads to a later line, or to a later column of the same line. -/
theorem lineColumn_after_lt (hv : v ≠ []) :
    (after u m).lineColumn < (after (u ++ v) n).lineColumn := by
  have hconcat : ∀ (w : List Char) (c : Char) (k : Nat),
      (after w k).lineColumn < (after (w ++ [c]) n).lineColumn := by
    intro w c k
    rw [lineColumn, lineColumn, Prod.Lex.toLex_lt_toLex, line_after_concat, column_after_concat]
    split
    · exact .inl (Nat.lt_succ_self _)
    · exact .inr ⟨rfl, Nat.lt_succ_self _⟩
  induction v using List.reverseRecOn with
  | nil => exact absurd rfl hv
  | append_singleton v c ih =>
    rw [← List.append_assoc]
    by_cases hnil : v = []
    · rw [hnil, List.append_nil]
      exact hconcat u c m
    · exact (ih hnil).trans (hconcat (u ++ v) c n)

theorem locate_eq (text : String) (n : Nat) : locate text n =
    after (Text.startingBefore n text.toList) (min n (Text.byteLength text.toList)) := by
  rw [locate, Text.startingBefore_min]

theorem locate_monotone (text : String) : Monotone (locate text) := by
  intro m n h
  rw [locate_eq, locate_eq]
  obtain ⟨v, hv⟩ := Text.startingBefore_prefix h text.toList
  rw [← hv]
  by_cases hnil : v = []
  · rw [hnil, List.append_nil]
    exact after_le_after (min_le_min_right _ h) _
  · exact le_of_lineColumn_lt (lineColumn_after_lt hnil)

theorem locate_boundary {text : String} {rest : List Char}
    (h : text.toList = u ++ rest) :
    locate text (Text.byteLength u) = after u (Text.byteLength u) := by
  rw [locate_eq, h, Text.startingBefore_byteLength_append, Text.byteLength_append,
    Nat.min_eq_left (Nat.le_add_right _ _)]

/-- Two boundaries of characters have different lines or different columns. -/
theorem injOn_lineColumn (text : String) : Set.InjOn (fun n => (locate text n).lineColumn)
    {n | Text.IsBoundary text.toList n} := by
  -- the characters before one boundary begin those before the other, and more would lead further
  have hextend : ∀ {u w rest : List Char}, text.toList = u ++ w ++ rest →
      (locate text (Text.byteLength u)).lineColumn =
        (locate text (Text.byteLength (u ++ w))).lineColumn → w = [] := by
    intro u w rest htext hsame
    by_contra hw
    rw [locate_boundary htext, locate_boundary (htext.trans (List.append_assoc u w rest))] at hsame
    exact absurd hsame (ne_of_lt (lineColumn_after_lt hw))
  rintro j ⟨v, hv⟩ k ⟨rest, hrest⟩ hsame
  obtain ⟨u, hu, rfl⟩ := Text.eq_append_of_dropBytes? hv
  obtain ⟨u', hu', rfl⟩ := Text.eq_append_of_dropBytes? hrest
  rcases List.prefix_or_prefix_of_prefix ⟨v, hu.symm⟩ ⟨rest, hu'.symm⟩ with ⟨w, rfl⟩ | ⟨w, rfl⟩
  · rw [hextend hu' hsame, List.append_nil]
  · rw [hextend hu hsame.symm, List.append_nil]

/-- One more, where 32 bits can hold it. -/
def succ? (n : UInt32) : Option UInt32 :=
  if n.toNat + 1 < UInt32.size then some (n + 1) else none

/-- A line and a column in 32 bits. -/
structure Counts where
  line : UInt32
  column : UInt32

namespace Counts

/-- The counts after one more character. -/
def next? (s : Counts) (c : Char) : Option Counts :=
  if c = '\n' then (succ? s.line).map (⟨·, 1⟩) else (succ? s.column).map (⟨s.line, ·⟩)

/-- Goes over characters up to the first one that starts at byte `stop` or after it. -/
def run? (stop : Nat) (s : Counts) : List (Nat × Char) → Option Counts
  | [] => some s
  | (i, c) :: rest => if stop ≤ i then some s else (s.next? c).bind fun t => t.run? stop rest

def position (s : Counts) (offset : Nat) : Position := ⟨s.line.toNat, s.column.toNat, offset⟩

end Counts

/-- The place of a byte, if 32 bits can hold all that is counted on the way. -/
def locate? (text : String) (offset : Nat) : Option Position :=
  let stop := min offset (Text.byteLength text.toList)
  (Counts.run? stop ⟨1, 1⟩ (Text.starts 0 text.toList)).map (·.position stop)

theorem exists_succ? {n : UInt32} (h : n.toNat + 1 < UInt32.size) :
    ∃ k, succ? n = some k ∧ k.toNat = n.toNat + 1 := by
  refine ⟨n + 1, if_pos h, ?_⟩
  rw [UInt32.toNat_add]
  exact Nat.mod_eq_of_lt h

theorem line_after_le (u : List Char) (n : Nat) : (after u n).line ≤ u.length + 1 := by
  have hcount : u.count '\n' ≤ u.length := List.count_le_length
  change 1 + u.count '\n' ≤ u.length + 1
  omega

theorem column_after_le (u : List Char) (n : Nat) : (after u n).column ≤ u.length + 1 := by
  have htake := (List.takeWhile_sublist (· ≠ '\n') (l := u.reverse)).length_le
  rw [List.length_reverse] at htake
  change 1 + (u.reverse.takeWhile (· ≠ '\n')).length ≤ u.length + 1
  omega

namespace Counts

variable {s : Counts}

theorem position_eq_after : s.position n = after u n ↔
    s.line.toNat = (after u n).line ∧ s.column.toNat = (after u n).column := by
  constructor
  · intro h
    exact ⟨congrArg Position.line h, congrArg Position.column h⟩
  · rintro ⟨hline, hcolumn⟩
    rw [position, hline, hcolumn]
    rfl

theorem exists_next? (h : s.position n = after u n) (hsize : u.length + 2 < UInt32.size)
    (c : Char) : ∃ t, s.next? c = some t ∧ t.position n = after (u ++ [c]) n := by
  obtain ⟨hline, hcolumn⟩ := position_eq_after.mp h
  have hline_le := line_after_le u n
  have hcolumn_le := column_after_le u n
  simp only [position_eq_after, line_after_concat, column_after_concat]
  by_cases hc : c = '\n'
  · obtain ⟨line, hsucc, hnext⟩ := exists_succ? (n := s.line) (by omega)
    refine ⟨⟨line, 1⟩, ?_, ?_, ?_⟩
    · rw [next?, if_pos hc, hsucc, Option.map_some]
    · rw [if_pos hc, hnext, hline]
    · rw [if_pos hc]
      rfl
  · obtain ⟨column, hsucc, hnext⟩ := exists_succ? (n := s.column) (by omega)
    refine ⟨⟨s.line, column⟩, ?_, ?_, ?_⟩
    · rw [next?, if_neg hc, hsucc, Option.map_some]
    · rw [if_neg hc, hline]
    · rw [if_neg hc, hnext, hcolumn]

/-- After the characters `u`, the count goes on with those that start before byte `stop`. -/
theorem exists_run? (h : s.position n = after u n) (hsize : (u ++ cs).length + 1 < UInt32.size) :
    ∃ t, s.run? stop (Text.starts start cs) = some t ∧
      t.position n = after (u ++ Text.startingBefore (stop - start) cs) n := by
  induction cs generalizing u start s with
  | nil =>
    have hnil : Text.startingBefore (stop - start) [] = [] := by cases stop - start <;> rfl
    rw [hnil, List.append_nil]
    exact ⟨s, rfl, h⟩
  | cons c cs ih =>
    rw [Text.starts, run?]
    by_cases hstop : stop ≤ start
    · rw [if_pos hstop, Nat.sub_eq_zero_of_le hstop, Text.startingBefore, List.append_nil]
      exact ⟨s, rfl, h⟩
    · obtain ⟨k, hk⟩ : ∃ k, stop - start = k + 1 := ⟨stop - start - 1, by omega⟩
      have hrest : k + 1 - c.utf8Size = stop - (start + c.utf8Size) := by omega
      have hu : u.length + 2 < UInt32.size := by
        rw [List.length_append, List.length_cons] at hsize
        omega
      obtain ⟨t, hnext, ht⟩ := exists_next? h hu c
      rw [List.append_cons] at hsize
      rw [if_neg hstop, hnext, Option.bind_some, hk, Text.startingBefore, hrest, List.append_cons]
      exact ih ht hsize

end Counts

theorem locate?_eq {text : String} (h : Text.byteLength text.toList < 2 ^ 32 - 1) (n : Nat) :
    locate? text n = some (locate text n) := by
  have hlength := Text.length_le_byteLength text.toList
  have hsize : ([] ++ text.toList).length + 1 < UInt32.size := by
    change text.toList.length + 1 < 2 ^ 32
    omega
  have hstart : Counts.position ⟨1, 1⟩ (min n (Text.byteLength text.toList)) =
      after [] (min n (Text.byteLength text.toList)) := rfl
  obtain ⟨t, hrun, ht⟩ := Counts.exists_run? hstart hsize
  rw [locate?, hrun, Option.map_some, ht]
  rfl

theorem line_after_map (ps : List (Nat × Char)) (n : Nat) :
    (after (ps.map (·.2)) n).line = 1 + ps.countP (·.2 = '\n') := by
  change 1 + (ps.map (·.2)).count '\n' = _
  rw [List.count, List.countP_map]
  rfl

/-- Of characters in the order of their starts, those that come after all newlines make up the
column. -/
theorem column_after_map {ps : List (Nat × Char)} (h : ps.Pairwise (·.1 < ·.1)) (n : Nat) :
    (after (ps.map (·.2)) n).column =
      1 + ps.countP fun p => ∀ q ∈ ps, q.2 = '\n' → q.1 < p.1 := by
  induction ps using List.reverseRecOn with
  | nil => rfl
  | append_singleton ps last ih =>
    obtain ⟨hps, -, hlast⟩ := List.pairwise_append.mp h
    have hlt : ∀ p ∈ ps, p.1 < last.1 := fun p hp => hlast p hp last List.mem_cons_self
    rw [List.map_append, List.map_singleton, column_after_concat, ih hps, List.countP_append,
      List.countP_singleton]
    simp only [List.forall_mem_append, List.forall_mem_singleton]
    by_cases hc : last.2 = '\n'
    · -- nothing comes after the last character
      have hnone : ps.countP (fun p => (∀ q ∈ ps, q.2 = '\n' → q.1 < p.1) ∧
          (last.2 = '\n' → last.1 < p.1)) = 0 := by
        rw [List.countP_eq_zero]
        intro p hp
        rw [decide_eq_true_iff]
        exact fun hafter => Nat.lt_asymm (hlt p hp) (hafter.2 hc)
      rw [if_pos hc, hnone]
      simp [hc]
    · have hall : ∀ q ∈ ps, q.2 = '\n' → q.1 < last.1 := fun q hq _ => hlt q hq
      simp only [hc, false_implies, and_true, if_false]
      rw [if_pos (decide_eq_true hall), Nat.add_assoc]

/-- Where the bytes of a text are. -/
structure Locates (text : String) : Prop where
  /-- 32 bits are enough. -/
  locate?_eq : ∀ n, locate? text n = some (locate text n)
  offset_eq : ∀ n, (locate text n).offset = min n (Text.byteLength text.toList)
  line_eq : ∀ n, (locate text n).line =
    1 + ((Text.starts 0 text.toList).filter (·.1 < n)).countP (·.2 = '\n')
  /-- The column counts the characters that start before the byte and after every newline that
  starts before it. -/
  column_eq : ∀ n, (locate text n).column =
    1 + ((Text.starts 0 text.toList).filter (·.1 < n)).countP fun p =>
      ∀ q ∈ (Text.starts 0 text.toList).filter (·.1 < n), q.2 = '\n' → q.1 < p.1
  monotone : Monotone (locate text)
  /-- Line and column identify a boundary. -/
  eq_of_boundaries : ∀ j k, Text.IsBoundary text.toList j → Text.IsBoundary text.toList k →
    (locate text j).line = (locate text k).line →
      (locate text j).column = (locate text k).column → j = k

end Position

/-- In a text of fewer than `2 ^ 32 - 1` bytes, all offsets have the right lines and columns. -/
theorem locate_exact {text : String} (h : Text.byteLength text.toList < 2 ^ 32 - 1) :
    Position.Locates text := by
  have hstarts (n : Nat) : ((Text.starts 0 text.toList).filter (·.1 < n)).map (·.2) =
      Text.startingBefore n text.toList := Text.map_filter_starts 0 n text.toList
  constructor
  case locate?_eq => exact Position.locate?_eq h
  case offset_eq => exact fun n => rfl
  case line_eq =>
    intro n
    rw [Position.locate_eq, ← hstarts, Position.line_after_map]
  case column_eq =>
    intro n
    have hpairwise := (Text.pairwise_starts 0 text.toList).filter (·.1 < n)
    rw [Position.locate_eq, ← hstarts, Position.column_after_map hpairwise]
  case monotone => exact Position.locate_monotone text
  case eq_of_boundaries =>
    intro j k hj hk hline hcolumn
    refine Position.injOn_lineColumn text hj hk ?_
    change toLex ((Position.locate text j).line, (Position.locate text j).column) =
      toLex ((Position.locate text k).line, (Position.locate text k).column)
    rw [hline, hcolumn]

/-- Byte 6 falls inside a character, which counts. -/
theorem accents_located : Text.byteLength "ab\ncdé\nf".toList < 2 ^ 32 - 1 ∧
    Position.locate? "ab\ncdé\nf" 6 = some ⟨2, 4, 6⟩ ∧
    Position.locate "ab\ncdé\nf" 6 ≤ Position.locate "ab\ncdé\nf" 100 ∧
    ((Position.locate "ab\ncdé\nf" 3).line, (Position.locate "ab\ncdé\nf" 3).column) ≠
      ((Position.locate "ab\ncdé\nf" 8).line, (Position.locate "ab\ncdé\nf" 8).column) := by
  have hlength : Text.byteLength "ab\ncdé\nf".toList < 2 ^ 32 - 1 := by decide
  have hlocates := locate_exact hlength
  refine ⟨hlength, ?_, hlocates.monotone (by decide), ?_⟩
  · rw [hlocates.locate?_eq]
    decide
  · intro h
    obtain ⟨hline, hcolumn⟩ := Prod.mk.inj h
    exact absurd (hlocates.eq_of_boundaries 3 8 ⟨"cdé\nf".toList, by decide⟩ ⟨['f'], by decide⟩
      hline hcolumn) (by decide)

end Reformat
