import Mathlib.Data.List.Chain
import Mathlib.Data.List.TakeWhile
import Reformat.Proofs.Safety
import Reformat.Proofs.Searches

/-! How long attempts and scans take, with any tables. Shifts use up the text, and what an attempt
may reduce between two shifts is limited by the depth of its stack; a scan goes on by at least one
character with each step. -/

namespace Reformat

/-- Where each element of a chain that is counted makes a measure smaller, and none makes it larger,
there are no more of them than the measure allows at the start. -/
theorem length_filter_le_of_isChain {α : Type} {R : α → α → Prop} {p : α → Bool} {f : α → Nat}
    (pos : ∀ a, p a = true → 0 < f a)
    (next : ∀ a b, R a b → f b ≤ f a ∧ (p a = true → f b < f a)) {a : α} {l : List α}
    (h : (a :: l).IsChain R) : ((a :: l).filter p).length ≤ f a := by
  induction l generalizing a with
  | nil =>
    by_cases hp : p a = true
    · rw [List.filter_cons_of_pos hp]
      exact pos a hp
    · rw [List.filter_cons_of_neg hp]
      exact Nat.zero_le _
  | cons b l ih =>
    obtain ⟨hab, hl⟩ := List.isChain_cons_cons.mp h
    have hrest := ih hl
    obtain ⟨hle, hlt⟩ := next a b hab
    by_cases hp : p a = true
    · rw [List.filter_cons_of_pos hp, List.length_cons]
      exact Nat.lt_of_le_of_lt hrest (hlt hp)
    · rw [List.filter_cons_of_neg hp]
      exact Nat.le_trans hrest hle

/-- The states of a complete run, from the first one to that which leads to the result. -/
structure Step.IsRun {σ ρ : Type} (step : σ → Step σ ρ) (s : σ) (states : List σ) (r : ρ) :
    Prop where
  first : states.head? = some s
  chain : states.IsChain fun a b => step a = .next b
  last : ∃ a, states.getLast? = some a ∧ step a = .done r

theorem Machine.isRun_visited {σ ρ : Type} (m : Machine σ ρ) (s : σ) :
    Step.IsRun m.step s (m.visited s) (m.run s) := by
  fun_induction visited m s with
  | case1 s t h ih =>
    obtain ⟨hfirst, hchain, a, hlast, hdone⟩ := ih
    rw [run_of_next h]
    refine ⟨rfl, List.isChain_cons.mpr ⟨fun u hu => ?_, hchain⟩, a, ?_, hdone⟩
    · rw [hfirst] at hu
      obtain rfl : t = u := Option.some.inj hu
      exact h
    · rw [List.getLast?_cons, hlast]
      rfl
  | case2 s r h =>
    rw [run_of_done h]
    exact ⟨rfl, .singleton s, s, rfl, h⟩

theorem Text.length_le_byteLength (text : List Char) : text.length ≤ byteLength text := by
  induction text with
  | nil => exact Nat.le_refl 0
  | cons c text ih =>
    have hc := c.utf8Size_pos
    rw [List.length_cons, byteLength_cons]
    omega

namespace Attempt

variable {t : ParseTable} {a b : Attempt}

/-- Whether an attempt shifts a terminal. -/
def shifts (t : ParseTable) (a : Attempt) : Bool :=
  t.move? a.state a.rest matches some (.shift ..)

/-- Whether an attempt reduces a rule, where it does not stall instead. -/
def reduces (t : ParseTable) (a : Attempt) : Bool :=
  !a.isSpent t && t.move? a.state a.rest matches some (.reduce _)

theorem shifts_iff : a.shifts t = true ↔
    ∃ terminal next n, t.move? a.state a.rest = some (.shift terminal next n) := by
  rw [shifts]
  split
  · next terminal next n hm => exact iff_of_true rfl ⟨terminal, next, n, hm⟩
  · next hm => exact iff_of_false Bool.false_ne_true fun ⟨terminal, next, n, h⟩ => hm _ _ _ h

theorem reduces_iff : a.reduces t = true ↔
    a.idle < a.limit ∧ ∃ id, t.move? a.state a.rest = some (.reduce id) := by
  have hmove : (t.move? a.state a.rest matches some (.reduce _)) = true ↔
      ∃ id, t.move? a.state a.rest = some (.reduce id) := by
    split
    · next id hm => exact iff_of_true rfl ⟨id, hm⟩
    · next hm => exact iff_of_false Bool.false_ne_true fun ⟨id, h⟩ => hm _ h
  rw [reduces, Bool.and_eq_true, Bool.not_eq_true', ← Bool.not_eq_true, isSpent_iff, hmove]
  constructor
  · rintro ⟨hspent, hm⟩
    exact ⟨Nat.lt_of_not_le fun hle => hspent ⟨hle, hm⟩, hm⟩
  · rintro ⟨hlt, hm⟩
    exact ⟨fun hspent => Nat.not_le.mpr hlt hspent.1, hm⟩

/-- A shift uses up some of the text and sets the limit anew; a reduction counts as one. -/
theorem next_cases (h : a.step t = .next b) :
    (a.shifts t = true ∧ b.rest.length < a.rest.length ∧ b.idle = 0 ∧
      b.limit = idleLimit t b.stack.length) ∨
    (a.reduces t = true ∧ a.shifts t = false ∧ b.rest = a.rest ∧ b.limit = a.limit ∧
      b.idle = a.idle + 1) := by
  rcases freeStep_cases (freeStep_of_step h) with ⟨terminal, next, n, hm, rfl⟩ | ⟨id, hm, hreduce⟩
  · obtain ⟨hpos, hle⟩ := length_of_shift hm
    refine Or.inl ⟨shifts_iff.mpr ⟨terminal, next, n, hm⟩, ?_, rfl, rfl⟩
    simp only [shift, List.length_drop]
    omega
  · obtain ⟨hrest, hlimit, hidle, -⟩ := next_of_reduce hreduce
    rw [step_of_reduce hm] at h
    split at h
    · simp at h
    · next hlt =>
      refine Or.inr ⟨reduces_iff.mpr ⟨Nat.lt_of_not_le hlt, id, hm⟩, ?_, hrest, hlimit, hidle⟩
      simp only [shifts, hm]

variable {states : List Attempt}

/-- A run has no more shifts than there are characters left at its start. -/
theorem length_shifts_le (h : (a :: states).IsChain fun a b => a.step t = .next b) :
    ((a :: states).filter (·.shifts t)).length ≤ a.rest.length := by
  refine length_filter_le_of_isChain (f := fun a => a.rest.length) (fun b hb => ?_)
    (fun b c hstep => ?_) h
  · obtain ⟨terminal, next, n, hm⟩ := shifts_iff.mp hb
    exact Nat.lt_of_lt_of_le (length_of_shift hm).1 (length_of_shift hm).2
  · rcases next_cases hstep with ⟨-, hlt, -⟩ | ⟨-, hshifts, hrest, -⟩
    · exact ⟨Nat.le_of_lt hlt, fun _ => hlt⟩
    · rw [hrest]
      exact ⟨Nat.le_refl _, fun h => absurd h (by simp [hshifts])⟩

/-- Reductions one after the other are no more than the limit leaves at the first of them. -/
theorem length_reductions_le (h : (a :: states).IsChain fun a b => a.step t = .next b)
    (hreduces : ∀ b ∈ a :: states, b.reduces t = true) :
    (a :: states).length ≤ a.limit - a.idle := by
  have hall : (a :: states).filter (·.reduces t) = a :: states := List.filter_eq_self.mpr hreduces
  rw [← hall]
  refine length_filter_le_of_isChain (f := fun a => a.limit - a.idle)
    (R := fun a b => a.step t = .next b ∧ a.reduces t = true) (fun b hb => ?_)
    (fun b c ⟨hstep, hb⟩ => ?_) (h.imp_of_mem_imp fun b _ hb _ hstep => ⟨hstep, hreduces b hb⟩)
  · have hlt := (reduces_iff.mp hb).1
    omega
  · obtain ⟨hlt, id, hm⟩ := reduces_iff.mp hb
    rcases next_cases hstep with ⟨hshifts, -⟩ | ⟨-, -, -, hlimit, hidle⟩
    · obtain ⟨terminal, next, n, hshift⟩ := shifts_iff.mp hshifts
      simp [hm] at hshift
    · rw [hlimit, hidle]
      exact ⟨by omega, fun _ => by omega⟩

/-- At its start and after each shift an attempt has made no reductions, and the limit is that of
its stack. -/
theorem limit_of_isRun {rest : List Char} {offset : Nat} {r : Except AttemptError Parse}
    {earlier later : List Attempt}
    (h : Step.IsRun (step t) (.initial t rest offset) (earlier ++ a :: later) r)
    (hearlier : ∀ b ∈ earlier.getLast?, b.shifts t = true) :
    a.idle = 0 ∧ a.limit = idleLimit t a.stack.length := by
  cases hlast : earlier.getLast? with
  | none =>
    have hfirst := h.first
    rw [List.getLast?_eq_none_iff.mp hlast] at hfirst
    obtain rfl : a = .initial t rest offset := Option.some.inj hfirst
    exact ⟨rfl, rfl⟩
  | some b =>
    have hstep : b.step t = .next a := (List.isChain_append.mp h.chain).2.2 b hlast a rfl
    rcases next_cases hstep with ⟨-, -, hidle, hlimit⟩ | ⟨-, hshifts, -⟩
    · exact ⟨hidle, hlimit⟩
    · simp [hearlier b hlast] at hshifts

end Attempt

/-- Every step of a scan uses up some of the text. -/
theorem Scan.length_iterations_le {tables : List ParseTable} {config : ScanConfig} {input : String}
    {s : Scan} {states : List Scan}
    (h : (s :: states).IsChain fun s u => step tables config input s = .next u) :
    ((s :: states).filter fun s => !s.rest.isEmpty).length ≤ s.rest.length := by
  refine length_filter_le_of_isChain (f := fun s => s.rest.length) (fun u hu => ?_)
    (fun u v hstep => ?_) h
  · rw [List.length_pos_iff]
    simpa using hu
  · have hlt := (machine tables config input).lighter hstep
    exact ⟨Nat.le_of_lt hlt, fun _ => hlt⟩

/-- Every attempt and every scan comes to an end, with any tables. An attempt takes no step where it
may not begin; else it makes no more shifts than there are bytes left, and from its start or a shift
on, no more reductions before the next shift than its stack allows there. A scan has no more
iterations than the document has bytes. -/
theorem attempts_and_scans_end :
    (∀ (t : ParseTable) (input : String) (k : Nat),
      (Text.dropBytes? k input.toList = none ∧ t.parseAt input k = .error (.syntaxError k)) ∨
      ∃ rest states, Text.dropBytes? k input.toList = some rest ∧
        t.parseAt input k =
          (t.attempt rest k).map (fun parse => ⟨k, parse.stop, parse.output⟩) ∧
        Step.IsRun (Attempt.step t) (.initial t rest k) states (t.attempt rest k) ∧
        (states.filter (·.shifts t)).length ≤ Text.byteLength input.toList - k ∧
        ∀ earlier a during later, states = earlier ++ a :: during ++ later →
          (∀ b ∈ earlier.getLast?, b.shifts t = true) →
          (∀ b ∈ a :: during, b.reduces t = true) →
            (a :: during).length ≤ (a.stack.length + 1) * (t.numStates + 1)) ∧
    ∀ (tables : List ParseTable) (config : ScanConfig) (input : String), ∃ states,
      Step.IsRun (Scan.step tables config input) { rest := input.toList } states
        (scan tables config input) ∧
      (states.filter fun s => !s.rest.isEmpty).length ≤ Text.byteLength input.toList := by
  refine ⟨fun t input k => ?_, fun tables config input => ?_⟩
  · cases hrest : Text.dropBytes? k input.toList with
    -- an offset that is no boundary is refused before the first step
    | none => exact Or.inl ⟨rfl, by rw [ParseTable.parseAt, hrest]⟩
    | some rest =>
      have hrun := (Attempt.machine t).isRun_visited (.initial t rest k)
      refine Or.inr ⟨rest, _, rfl, by rw [ParseTable.parseAt, hrest], hrun, ?_, ?_⟩
      · -- a shift takes a character at least, and a character a byte
        obtain ⟨before, hinput, rfl⟩ := Text.eq_append_of_dropBytes? hrest
        obtain ⟨states, hstates⟩ := List.head?_eq_some_iff.mp hrun.first
        have hchain := hrun.chain
        rw [hstates] at hchain ⊢
        rw [hinput, Text.byteLength_append, Nat.add_sub_cancel_left]
        exact Nat.le_trans (Attempt.length_shifts_le hchain) (Text.length_le_byteLength rest)
      · -- the idle reductions are counted from the last shift, whose stack sets the limit
        intro earlier a during later hstates hearlier hreduces
        rw [hstates, List.append_assoc, List.cons_append] at hrun
        obtain ⟨hidle, hlimit⟩ := Attempt.limit_of_isRun hrun hearlier
        have hchain := hrun.chain
        rw [← List.cons_append] at hchain
        have hle := Attempt.length_reductions_le hchain.right_of_append.left_of_append hreduces
        rwa [hidle, hlimit, Nat.sub_zero, Attempt.idleLimit] at hle
  · have hrun := (Scan.machine tables config input).isRun_visited { rest := input.toList }
    refine ⟨_, hrun, ?_⟩
    obtain ⟨states, hstates⟩ := List.head?_eq_some_iff.mp hrun.first
    have hchain := hrun.chain
    rw [hstates] at hchain ⊢
    exact Nat.le_trans (Scan.length_iterations_le hchain) (Text.length_le_byteLength _)

/-- A table with which nothing is ever shifted and an empty rule always comes next. -/
def cyclicTable : Except DefinitionError ParseTable :=
  ParseTable.assemble "S" #[] #[.accept, ⟨"S", 2, []⟩, ⟨"E", 0, []⟩] #[
    { gotos := [("S", 1), ("E", 1)], otherwise := some 2 },
    { gotos := [("E", 1)], otherwise := some 2 }]

theorem cycle_ends : ∃ t states, cyclicTable = .ok t ∧ t.parseAt "" 0 = .error (.stalled 0) ∧
    Step.IsRun (Attempt.step t) (.initial t [] 0) (.initial t [] 0 :: states) (t.attempt [] 0) ∧
    (∀ b ∈ Attempt.initial t [] 0 :: states.takeWhile (·.reduces t), b.reduces t = true) ∧
    (Attempt.initial t [] 0 :: states.takeWhile (·.reduces t)).length ≤
      (0 + 1) * (t.numStates + 1) := by
  obtain ⟨t, ht, hcheck⟩ := Except.exists_ok (x := cyclicTable)
    (p := fun t => t.parseAt "" 0 = .error (.stalled 0) ∧
      (Attempt.initial t [] 0).reduces t = true) (by decide +kernel)
  obtain ⟨hstalled, hinitial⟩ := of_decide_eq_true hcheck
  rcases attempts_and_scans_end.1 t "" 0 with ⟨hnone, -⟩ | ⟨rest, states, hrest, -, hrun, -, hle⟩
  · simp [Text.dropBytes?] at hnone
  · obtain rfl : [] = rest := Option.some.inj hrest
    obtain ⟨states, rfl⟩ := List.head?_eq_some_iff.mp hrun.first
    have hreduces : ∀ b ∈ Attempt.initial t [] 0 :: states.takeWhile (·.reduces t),
        b.reduces t = true :=
      List.forall_mem_cons.mpr ⟨hinitial, fun b hb => List.mem_takeWhile_imp hb⟩
    refine ⟨t, states, ht, hstalled, hrun, hreduces, ?_⟩
    refine hle [] _ _ (states.dropWhile (·.reduces t)) ?_ (by simp) hreduces
    rw [List.nil_append, List.cons_append, List.takeWhile_append_dropWhile]

end Reformat
