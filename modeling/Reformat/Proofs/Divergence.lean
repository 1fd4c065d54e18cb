import Mathlib.Order.Preorder.Finite
import Reformat.Pattern.Engine
import Reformat.Proofs.Blanks
import Reformat.Proofs.Descents
import Reformat.Proofs.Safety
import Reformat.Proofs.Stalls

/-! What an attempt would do if it never gave up. A table without empty reductions has attempts
that go on for ever, and these are the ones that stall: so many reductions come back to the same
states with the same texts empty, and this is all that decides what is done next. -/

namespace Reformat

namespace Attempt

/-- Which texts on the stack are empty. -/
def blanks (a : Attempt) : List Bool := a.stack.map (·.text.isEmpty)

/-- Attempts in the same states before the same text, with the same texts on the stack empty. -/
structure Alike (a b : Attempt) : Prop where
  path : a.path = b.path
  blanks : a.blanks = b.blanks
  rest : a.rest = b.rest

variable {t : ParseTable} {a b a' c : Attempt} {n : Nat}

theorem blanks_parts (a : Attempt) (n : Nat) :
    Reformat.blanks ((a.parts n).map (·.text)) = (a.blanks.take n).reverse := by
  rw [Reformat.blanks, List.map_map, parts, List.map_reverse, List.map_take]
  rfl

namespace Alike

theorem trans (hab : a.Alike b) (hbc : b.Alike c) : a.Alike c :=
  ⟨hab.path.trans hbc.path, hab.blanks.trans hbc.blanks, hab.rest.trans hbc.rest⟩

/-- What one of two such attempts reduces the other one reduces too. -/
theorem reduced? (h : a.Alike b) (ha : a.reduced? t = some a') :
    ∃ b', b.reduced? t = some b' ∧ a'.Alike b' := by
  obtain ⟨id, hm, hreduce⟩ := reduced?_eq_some.mp ha
  obtain ⟨hid, p, text, next, hp, htext, hgoto, rfl⟩ := next_of_reduce_cases hreduce
  have hstate : a.state = b.state := (List.cons.inj h.path).1
  have hstates : a.stack.map (·.state) = b.stack.map (·.state) := (List.cons.inj h.path).2
  have hparts : Reformat.blanks ((a.parts (t.reduction id).arity).map (·.text)) =
      Reformat.blanks ((b.parts (t.reduction id).arity).map (·.text)) := by
    rw [blanks_parts, blanks_parts, h.blanks]
  -- the template cannot tell the parts apart
  have hrender := Template.render_alike hparts (t.reduction id).template
  rw [htext] at hrender
  generalize htext' : (t.reduction id).template.render
    ((b.parts (t.reduction id).arity).map (·.text)) = r at hrender
  cases hrender with
  | @ok _ text' hblank =>
    rw [hstate, h.rest] at hm
    rw [h.path] at hp
    refine ⟨_, reduced?_eq_some.mpr ⟨id, hm, reduce_of_goto hp htext' hid hgoto⟩, ?_, ?_, h.rest⟩
    · simp only [Attempt.path, List.map_cons, List.map_drop, hstates]
    · have hblanks := h.blanks
      simp only [Attempt.blanks, List.map_cons, List.map_drop] at hblanks ⊢
      rw [hblanks, hblank]

theorem trail (h : a.Alike b) (ha : trail (Attempt.reduced? t) n a = some a') :
    ∃ b', Reformat.trail (Attempt.reduced? t) n b = some b' ∧ a'.Alike b' := by
  induction n generalizing a b with
  | zero =>
    obtain rfl := Option.some.inj ha
    exact ⟨b, rfl, h⟩
  | succ n ih =>
    obtain ⟨c, hc, htrail⟩ := Option.bind_eq_some_iff.mp ha
    obtain ⟨d, hd, halike⟩ := h.reduced? hc
    obtain ⟨b', hb', halike'⟩ := ih halike htrail
    refine ⟨b', ?_, halike'⟩
    rw [Reformat.trail, hd, Option.bind_some, hb']

end Alike

/-- Reductions that come to an attempt like the one that they began with go on for ever. -/
theorem forever_of_alike (hb : trail (reduced? t) (n + 1) a = some b) (h : a.Alike b) :
    Forever (reduced? t) a := by
  refine forever_of_return (p := fun c => a.Alike c) (fun c hc => ?_) ⟨rfl, rfl, rfl⟩
  obtain ⟨d, hd, halike⟩ := hc.trail hb
  exact ⟨n, d, hd, h.trans halike⟩

theorem rest_of_trail (hb : trail (reduced? t) n a = some b) : b.rest = a.rest := by
  induction n generalizing b with
  | zero =>
    obtain rfl := Option.some.inj hb
    rfl
  | succ n ih =>
    rw [trail_succ] at hb
    obtain ⟨c, hc, hcb⟩ := Option.bind_eq_some_iff.mp hb
    rw [(rest_of_reduced? hcb).1, ih hc]

section

variable (hpos : ∀ id, 1 ≤ (t.reduction id).arity) {c : Nat → Attempt}
  (hc : ∀ i ≤ n, trail (reduced? t) i a = some (c i))

include hc

theorem isRun_path : (t.pushdown a.rest).IsRun n fun i => (c i).path := by
  intro i hi
  rw [← rest_of_trail (hc i (Nat.le_of_lt hi))]
  exact step_pushdown (step_of_sequence hc hi)

theorem state_lt (ha : a.state < t.numStates) {i : Nat} (hi : i ≤ n) :
    (c i).state < t.numStates := by
  cases i with
  | zero =>
    obtain rfl : a = c 0 := Option.some.inj (hc 0 hi)
    exact ha
  | succ i =>
    obtain ⟨id, -, hreduce⟩ := reduced?_eq_some.mp (step_of_sequence hc hi)
    obtain ⟨-, p, text, next, -, -, hgoto, heq⟩ := next_of_reduce_cases hreduce
    rw [heq]
    exact ParseTable.lt_of_goto? hgoto

include hpos

theorem descends_stack : Descends n fun i => (c i).stack := by
  intro i hi
  obtain ⟨id, -, hreduce⟩ := reduced?_eq_some.mp (step_of_sequence hc hi)
  obtain ⟨-, p, text, next, hp, -, -, heq⟩ := next_of_reduce_cases hreduce
  exact ⟨(t.reduction id).arity, _, hpos id, le_of_path hp, congrArg (·.stack) heq⟩

theorem descends_path : Descends n fun i => (c i).path := by
  intro i hi
  obtain ⟨id, -, hreduce⟩ := reduced?_eq_some.mp (step_of_sequence hc hi)
  obtain ⟨-, p, text, next, hp, -, -, heq⟩ := next_of_reduce_cases hreduce
  refine ⟨(t.reduction id).arity, next, hpos id, ?_, ?_⟩
  · rw [length_path]
    exact Nat.le_succ_of_le (le_of_path hp)
  · dsimp only
    rw [heq, drop_path hp, path, List.map_cons]

theorem stack_ne_nil (hn : 0 < n) {i : Nat} (hi : i ≤ n) : (c i).stack ≠ [] := by
  have hdescends := descends_stack hpos hc
  apply List.ne_nil_of_length_pos
  by_cases hlast : i < n
  · obtain ⟨k, frame, hk, hle, -⟩ := hdescends i hlast
    exact Nat.lt_of_lt_of_le hk hle
  · -- the last reduction has put a frame on top
    obtain ⟨m, rfl⟩ := Nat.exists_eq_succ_of_ne_zero (Nat.ne_of_gt hn)
    obtain ⟨k, frame, -, -, hnext⟩ := hdescends m (Nat.lt_succ_self m)
    have hi : i = m + 1 := by omega
    dsimp only at hnext
    rw [hi, hnext]
    exact Nat.succ_pos _

end

/-- As many reductions as are allowed, none of them empty, never end. -/
theorem forever_of_idleLimit (hpos : ∀ id, 1 ≤ (t.reduction id).arity)
    (ha : a.state < t.numStates) (hb : trail (reduced? t) n a = some b)
    (hn : idleLimit t a.stack.length ≤ n) : Forever (reduced? t) a := by
  obtain ⟨c, hc⟩ := exists_sequence hb
  have hzero : a = c 0 := Option.some.inj (hc 0 (Nat.zero_le n))
  -- a level and a state on top leave fewer possibilities than the limit
  have hlong : (c 0).path.length * t.numStates < n := by
    calc (c 0).path.length * t.numStates
        = (a.stack.length + 1) * t.numStates := by rw [hzero, length_path]
      _ < (a.stack.length + 1) * (t.numStates + 1) :=
        Nat.mul_lt_mul_of_pos_left (Nat.lt_succ_self _) (Nat.succ_pos _)
      _ ≤ n := hn
  have hne : ∀ i ≤ n, (c i).stack ≠ [] := fun i hi =>
    stack_ne_nil hpos hc (Nat.zero_lt_of_lt hlong) hi
  have hlength : ∀ i ≤ n, 2 ≤ (c i).path.length := by
    intro i hi
    rw [length_path]
    exact Nat.succ_le_succ (List.length_pos_iff.mpr (hne i hi))
  -- a path comes again, and the text on top is then as empty as before
  obtain ⟨i, j, hij, hj, hpath, hmark⟩ := (isRun_path hc).exists_repeat (descends_path hpos hc)
    (fun i hi => state_lt hc ha hi) hlength
    (fun i => (c i).blanks.headD true) (Nat.le_of_lt hlong)
  have hstack : (c i).stack.length = (c j).stack.length := by
    have hlengths := congrArg List.length hpath
    rw [length_path, length_path] at hlengths
    exact Nat.succ.inj hlengths
  have htail := (descends_stack hpos hc).tail_eq (Nat.le_of_lt hij) hj hstack
  have halike : (c i).Alike (c j) := by
    refine ⟨hpath, ?_, ?_⟩
    · obtain ⟨frame, frames, hi⟩ := List.exists_cons_of_ne_nil (hne i (by omega))
      obtain ⟨frame', frames', hj⟩ := List.exists_cons_of_ne_nil (hne j hj)
      rw [hi, hj] at htail
      have hframes : frames = frames' := htail
      rw [blanks, blanks, hi, hj, List.map_cons, List.map_cons] at hmark ⊢
      exact congrArg₂ List.cons hmark (by rw [hframes])
    · rw [rest_of_trail (hc i (by omega)), rest_of_trail (hc j hj)]
  obtain ⟨k, rfl⟩ := Nat.exists_eq_add_of_lt hij
  have hround : trail (reduced? t) (k + 1) (c i) = some (c (i + k + 1)) := by
    have hall := hc (i + k + 1) hj
    rwa [Nat.add_assoc, trail_add, hc i (by omega), Option.bind_some] at hall
  exact forever_of_trail (hc i (by omega)) (forever_of_alike hround halike)

end Attempt

namespace Step

variable {σ ρ : Type} {step : σ → Step σ ρ} {s t : σ} {r : ρ} {n : Nat}

/-- Steps that follow others go on from where these led, unless these came to the end. -/
theorem iterate_add (n m : Nat) (s : σ) : iterate step (n + m) s =
    match iterate step n s with
    | .next t => iterate step m t
    | .done r => .done r := by
  induction n generalizing s with
  | zero => rw [Nat.zero_add, iterate]
  | succ n ih =>
    rw [Nat.succ_add, iterate, iterate]
    cases step s with
    | next t => exact ih t
    | done r => rfl

theorem iterate_add_of_next (h : iterate step n s = .next t) (m : Nat) :
    iterate step (n + m) s = iterate step m t := by
  rw [iterate_add, h]

theorem Reaches.exists_iterate (h : Reaches step s t) : ∃ n, iterate step n s = .next t := by
  induction h with
  | refl => exact ⟨0, rfl⟩
  | tail _ hstep ih =>
    obtain ⟨n, hn⟩ := ih
    refine ⟨n + 1, ?_⟩
    rw [iterate_add_of_next hn, iterate, hstep]
    rfl

theorem iterate_add_of_done (h : iterate step n s = .done r) (m : Nat) :
    iterate step (n + m) s = .done r := by
  rw [iterate_add, h]

theorem iterate_succ_of_done (h : iterate step n s = .next t) (hdone : step t = .done r) :
    iterate step (n + 1) s = .done r := by
  rw [iterate_add_of_next h, iterate, hdone]

theorem eq_of_iterate_done {r' : ρ} {m : Nat} (h : iterate step n s = .done r)
    (h' : iterate step m s = .done r') : r = r' := by
  have hlong := iterate_add_of_done h m
  rw [Nat.add_comm, iterate_add_of_done h' n] at hlong
  exact (Step.done.inj hlong).symm

theorem lt_of_iterate {m : Nat} (h : iterate step n s = .done r)
    (hm : iterate step m s = .next t) : m < n := by
  by_contra hge
  obtain ⟨k, rfl⟩ := Nat.exists_eq_add_of_le (Nat.le_of_not_lt hge)
  rw [iterate_add_of_done h k] at hm
  simp at hm

end Step

/-- The steps of an attempt without a limit that are reductions. -/
def Attempt.reductionTimes (t : ParseTable) (a : Attempt) : Set Nat :=
  { n | ∃ b id, Step.iterate (freeStep t) n a = .next b ∧
    t.move? b.state b.rest = some (.reduce id) }

/-- Without a limit, infinitely many steps of the parse from byte `start` on are reductions. -/
def ParseTable.ReducesForever (t : ParseTable) (input : String) (start : Nat) : Prop :=
  ∃ rest, Text.dropBytes? start input.toList = some rest ∧
    (Attempt.reductionTimes t (.initial t rest start)).Infinite

/-- Without a limit, the parse from byte `start` on ends, and this is its result. -/
inductive ParseTable.FreeParse (t : ParseTable) (input : String) (start : Nat) :
    Except AttemptError Match → Prop
  | outside (hrest : Text.dropBytes? start input.toList = none) :
      FreeParse t input start (.error (.syntaxError start))
  | inside {rest : List Char} {n : Nat} {r : Except AttemptError Parse}
      (hrest : Text.dropBytes? start input.toList = some rest)
      (hdone : Step.iterate (Attempt.freeStep t) n (.initial t rest start) = .done r) :
      FreeParse t input start (r.map fun parse => ⟨start, parse.stop, parse.output⟩)

namespace Attempt

variable {t : ParseTable} {a b : Attempt} {rest : List Char} {k offset : Nat} {input : String}

/-- Only the limit makes an attempt stall. -/
theorem freeStep_ne_stalled : a.freeStep t ≠ .done (.error (.stalled offset)) := by
  intro hdone
  unfold freeStep at hdone
  split at hdone
  · simp at hdone
  · simp at hdone
  · next id _ =>
    have hsound : ∀ e, a.reduce t id ≠ .done (.error (.internal e)) := by simp [hdone]
    obtain ⟨p, text, -, -, ⟨-, hok⟩ | ⟨-, next, -, hnext⟩⟩ := reduce_cases hsound
    · simp [hdone] at hok
    · simp [hdone] at hnext

theorem iterate_of_trail {n : Nat} (h : trail (reduced? t) n a = some b) :
    Step.iterate (freeStep t) n a = .next b := by
  induction n generalizing a with
  | zero => exact congrArg Step.next (Option.some.inj h)
  | succ n ih =>
    obtain ⟨c, hc, htrail⟩ := Option.bind_eq_some_iff.mp h
    rw [Step.iterate, freeStep_of_reduced? hc]
    exact ih htrail

/-- Where it reduces for ever, an attempt makes infinitely many reductions. -/
theorem infinite_reductionTimes {s : Attempt} (hreaches : Step.Reaches (freeStep t) s a)
    (h : Forever (reduced? t) a) : (reductionTimes t s).Infinite := by
  obtain ⟨n, hn⟩ := hreaches.exists_iterate
  have hall : ∀ m, ∃ b, Step.iterate (freeStep t) (n + m) s = .next b ∧
      ∃ c, b.reduced? t = some c := by
    intro m
    obtain ⟨c, hc⟩ := h (m + 1)
    rw [trail_succ] at hc
    obtain ⟨b, hb, hbc⟩ := Option.bind_eq_some_iff.mp hc
    refine ⟨b, ?_, c, hbc⟩
    rw [Step.iterate_add_of_next hn]
    exact iterate_of_trail hb
  apply Set.infinite_of_forall_exists_gt
  intro m
  obtain ⟨b, hb, c, hbc⟩ := hall (m + 1)
  obtain ⟨id, hm, -⟩ := reduced?_eq_some.mp hbc
  exact ⟨n + (m + 1), ⟨b, id, hb, hm⟩, by omega⟩

theorem finite_reductionTimes {s : Attempt} {n : Nat} {r : Except AttemptError Parse}
    (h : Step.iterate (freeStep t) n s = .done r) : (reductionTimes t s).Finite := by
  apply (Set.finite_lt_nat n).subset
  rintro m ⟨b, id, hb, -⟩
  exact Step.lt_of_iterate h hb

/-- An attempt stalls if it would reduce for ever, and otherwise comes to the end that it would come
to without a limit. -/
theorem free_cases (hpos : ∀ id, 1 ≤ (t.reduction id).arity)
    (hrest : Text.dropBytes? k input.toList = some rest) :
    ((∃ offset, t.attempt rest k = .error (.stalled offset)) ∧
      (reductionTimes t (.initial t rest k)).Infinite) ∨
    ((¬ ∃ offset, t.attempt rest k = .error (.stalled offset)) ∧
      ∃ n, Step.iterate (freeStep t) n (.initial t rest k) = .done (t.attempt rest k)) := by
  have hends : ∀ a, Step.Reaches (freeStep t) (.initial t rest k) a →
      a.freeStep t = .done (t.attempt rest k) →
      (¬ ∃ offset, t.attempt rest k = .error (.stalled offset)) ∧
        ∃ n, Step.iterate (freeStep t) n (.initial t rest k) = .done (t.attempt rest k) := by
    intro a hreaches hdone
    obtain ⟨n, hn⟩ := hreaches.exists_iterate
    refine ⟨?_, n + 1, Step.iterate_succ_of_done hn hdone⟩
    rintro ⟨offset, hstalled⟩
    rw [hstalled] at hdone
    exact freeStep_ne_stalled hdone
  obtain ⟨b, hreaches, ⟨hspent, hstalled⟩ | ⟨hm, hsyntax⟩ | ⟨id, hm, hdone⟩⟩ :=
    t.attempt_cases rest k
  · -- what is spent was spent on reductions since the last shift
    obtain ⟨a, ha, -, htrail, hlimit, -⟩ := exists_trail_of_reaches hreaches
    have hplaced := Placed.of_reaches hrest ha
    have hstate : a.state < t.numStates := hplaced.states _ List.mem_cons_self
    have hidle : b.limit ≤ b.idle := (isSpent_iff.mp hspent).1
    rw [hlimit] at hidle
    have hforever := forever_of_idleLimit hpos hstate htrail hidle
    exact Or.inl ⟨⟨_, hstalled⟩, infinite_reductionTimes (Reaches.free ha) hforever⟩
  · apply Or.inr
    apply hends b (Reaches.free hreaches)
    rw [freeStep, hm, hsyntax]
  · apply Or.inr
    apply hends b (Reaches.free hreaches)
    rw [freeStep, hm]
    exact hdone

end Attempt

namespace ParseTable

variable {t : ParseTable} {rest : List Char} {k : Nat} {input : String}

theorem one_le_arity (h : ∀ r ∈ t.reductions, 1 ≤ r.arity) (id : ReductionId) :
    1 ≤ (t.reduction id).arity := by
  rw [reduction]
  cases hid : t.reductions[id]? with
  | none => exact Nat.le_refl 1
  | some r => exact h r (Array.mem_of_getElem? hid)

theorem parseAt_of_inside (hrest : Text.dropBytes? k input.toList = some rest) :
    t.parseAt input k = (t.attempt rest k).map fun parse => ⟨k, parse.stop, parse.output⟩ := by
  rw [parseAt, hrest]

theorem parseAt_of_outside (hrest : Text.dropBytes? k input.toList = none) :
    t.parseAt input k = .error (.syntaxError k) := by
  rw [parseAt, hrest]

theorem stalled_parseAt_iff (hrest : Text.dropBytes? k input.toList = some rest) :
    (∃ offset, t.parseAt input k = .error (.stalled offset)) ↔
      ∃ offset, t.attempt rest k = .error (.stalled offset) := by
  rw [parseAt_of_inside hrest]
  cases t.attempt rest k with
  | error e => simp [Except.map]
  | ok parse => simp [Except.map]

theorem reducesForever_iff (hrest : Text.dropBytes? k input.toList = some rest) :
    t.ReducesForever input k ↔ (Attempt.reductionTimes t (.initial t rest k)).Infinite := by
  rw [ReducesForever, hrest]
  simp only [Option.some.injEq, exists_eq_left']

/-- There is only one result to come to. -/
theorem freeParse_iff (hrest : Text.dropBytes? k input.toList = some rest) {n : Nat}
    {r : Except AttemptError Parse} {result : Except AttemptError Match}
    (hdone : Step.iterate (Attempt.freeStep t) n (.initial t rest k) = .done r) :
    t.FreeParse input k result ↔ result = r.map fun parse => ⟨k, parse.stop, parse.output⟩ := by
  constructor
  · intro hfree
    cases hfree with
    | outside hnone => simp [hrest] at hnone
    | inside hrest' hdone' =>
      obtain rfl := Option.some.inj (hrest.symm.trans hrest')
      rw [Step.eq_of_iterate_done hdone' hdone]
  · rintro rfl
    exact .inside hrest hdone

theorem freeParse_iff_of_outside (hrest : Text.dropBytes? k input.toList = none)
    {result : Except AttemptError Match} :
    t.FreeParse input k result ↔ result = .error (.syntaxError k) := by
  constructor
  · intro hfree
    cases hfree with
    | outside => rfl
    | inside hsome => simp [hrest] at hsome
  · rintro rfl
    exact .outside hrest

end ParseTable

/-- With a table without empty reductions a parse stalls if and only if it would make infinitely
many reductions without the limit. A parse that does not stall has the result that it would have
without the limit. -/
theorem stalled_iff_reducesForever {t : ParseTable} (h : ∀ r ∈ t.reductions, 1 ≤ r.arity)
    (input : String) (k : Nat) :
    ((∃ offset, t.parseAt input k = .error (.stalled offset)) ↔ t.ReducesForever input k) ∧
    ((¬ ∃ offset, t.parseAt input k = .error (.stalled offset)) →
      ∀ r, t.FreeParse input k r ↔ r = t.parseAt input k) := by
  cases hrest : Text.dropBytes? k input.toList with
  | none =>
    -- there is nothing to parse, with or without the limit
    have hforever : ¬ t.ReducesForever input k := by
      rintro ⟨rest, hsome, -⟩
      simp [hrest] at hsome
    rw [ParseTable.parseAt_of_outside hrest]
    exact ⟨iff_of_false (by simp) hforever, fun _ r => ParseTable.freeParse_iff_of_outside hrest⟩
  | some rest =>
    rw [ParseTable.stalled_parseAt_iff hrest, ParseTable.reducesForever_iff hrest,
      ParseTable.parseAt_of_inside hrest]
    rcases Attempt.free_cases (ParseTable.one_le_arity h) hrest with ⟨hstalled, hinfinite⟩ |
      ⟨hnot, n, hdone⟩
    · exact ⟨iff_of_true hstalled hinfinite, fun hnot => absurd hstalled hnot⟩
    · have hfinite : ¬ (Attempt.reductionTimes t (.initial t rest k)).Infinite :=
        Set.not_infinite.mpr (Attempt.finite_reductionTimes hdone)
      exact ⟨iff_of_false hnot hfinite, fun _ r => ParseTable.freeParse_iff hrest hdone⟩

/-- A table for no grammar. After an `x` it makes `C` of `C` for ever. After a `y` it makes `A` and
`B` of each other, but the second `B` asks for a part that is not there, as its `A` is not empty. -/
def roundaboutTable : Except DefinitionError ParseTable :=
  ParseTable.assemble "C" (["x", "y"].filterMap (Terminal.ofPattern? Pattern.engine)).toArray
    #[.accept, ⟨"C", 1, []⟩, ⟨"A", 1, [.literal ""]⟩,
      ⟨"B", 1, [.repeated (.capture 7) (.capture 0)]⟩, ⟨"A", 1, [.literal "z"]⟩] #[
    { actions := [(0, .shift 1), (1, .shift 2)], gotos := [("C", 1), ("A", 3), ("B", 4)] },
    { otherwise := some 1 },
    { otherwise := some 2 },
    { otherwise := some 3 },
    { otherwise := some 4 }]

theorem roundabout_stalled : ∃ t, roundaboutTable = .ok t ∧ (∀ r ∈ t.reductions, 1 ≤ r.arity) ∧
    t.parseAt "x" 0 = .error (.stalled 1) ∧ t.ReducesForever "x" 0 ∧
    t.parseAt "y" 0 = .error (.internal (.template "B" (.captureOutOfRange 7 1))) ∧
    ¬ t.ReducesForever "y" 0 ∧
    ∀ r, t.FreeParse "y" 0 r ↔ r = .error (.internal (.template "B" (.captureOutOfRange 7 1))) := by
  obtain ⟨t, ht, hcheck⟩ := Except.exists_ok (x := roundaboutTable)
    (p := fun t => (∀ r ∈ t.reductions, 1 ≤ r.arity) ∧ t.parseAt "x" 0 = .error (.stalled 1) ∧
      t.parseAt "y" 0 = .error (.internal (.template "B" (.captureOutOfRange 7 1))))
    (by decide +kernel)
  obtain ⟨hpos, hstalled, hfailed⟩ := of_decide_eq_true hcheck
  have hnot : ¬ ∃ offset, t.parseAt "y" 0 = .error (.stalled offset) := by simp [hfailed]
  have hx := stalled_iff_reducesForever hpos "x" 0
  have hy := stalled_iff_reducesForever hpos "y" 0
  refine ⟨t, ht, hpos, hstalled, hx.1.mp ⟨1, hstalled⟩, hfailed, fun h => hnot (hy.1.mpr h), ?_⟩
  rw [← hfailed]
  exact hy.2 hnot

end Reformat
