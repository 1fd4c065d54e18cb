import Reformat.Pattern.Engine
import Reformat.Proofs.Pushdown
import Reformat.Proofs.ViablePrefix

/-! What an attempt does when it stalls. Reductions are seen as the steps of a pushdown on the
states of the stack; an attempt that stalls would go on for ever, unless it made something out of
nothing. -/

namespace Reformat

/-- Where the next move leads if it is a reduction that does not end the attempt. -/
def Attempt.reduced? (t : ParseTable) (a : Attempt) : Option Attempt :=
  match t.move? a.state a.rest with
  | some (.reduce id) =>
    match a.reduce t id with
    | .next b => some b
    | .done _ => none
  | _ => none

/-- What the reductions of a table before a text do to the states of a stack. -/
def ParseTable.pushdown (t : ParseTable) (text : List Char) : Pushdown where
  arity q :=
    match t.move? q text with
    | some (.reduce id) => (t.reduction id).arity
    | _ => 0
  goto q p :=
    match t.move? q text with
    | some (.reduce id) => if id = 0 then none else (t.row p).goto? (t.reduction id).name
    | _ => none

/-- One of `n` reductions takes off frames that have all come on top of the stack since an earlier
one of them. As nothing was read meanwhile, they were made of empty alternatives. -/
def Attempt.ReducesHollow (t : ParseTable) (a : Attempt) (n : Nat) : Prop :=
  ∃ i < n, ∃ j ≤ i, ∃ b c id, trail (reduced? t) j a = some b ∧ trail (reduced? t) i a = some c ∧
    t.move? c.state c.rest = some (.reduce id) ∧ 0 < (t.reduction id).arity ∧
    b.stack.length + (t.reduction id).arity ≤ c.stack.length

namespace Attempt

variable {t : ParseTable} {a b : Attempt} {id : ReductionId} {n : Nat}

theorem reduced?_eq_some : a.reduced? t = some b ↔
    ∃ id, t.move? a.state a.rest = some (.reduce id) ∧ a.reduce t id = .next b := by
  unfold reduced?
  constructor
  · intro h
    split at h
    · next id hm =>
      split at h
      · next c hc => exact ⟨id, hm, by rw [hc, Option.some.inj h]⟩
      · simp at h
    · simp at h
  · rintro ⟨id, hm, hreduce⟩
    simp only [hm, hreduce]

theorem freeStep_of_reduced? (h : a.reduced? t = some b) : a.freeStep t = .next b := by
  obtain ⟨id, hm, hreduce⟩ := reduced?_eq_some.mp h
  rw [freeStep, hm]
  exact hreduce

/-- Reductions leave the text alone. -/
theorem rest_of_reduced? (h : a.reduced? t = some b) : b.rest = a.rest ∧ b.offset = a.offset := by
  obtain ⟨id, -, hreduce⟩ := reduced?_eq_some.mp h
  obtain ⟨-, p, text, next, -, -, -, rfl⟩ := next_of_reduce_cases hreduce
  exact ⟨rfl, rfl⟩

theorem arity_pushdown (hm : t.move? a.state a.rest = some (.reduce id)) :
    (t.pushdown a.rest).arity (Pushdown.top a.path) = (t.reduction id).arity := by
  have htop : Pushdown.top a.path = a.state := rfl
  simp only [ParseTable.pushdown, htop, hm]

/-- A reduction is a step of the pushdown. -/
theorem step_pushdown (h : a.reduced? t = some b) :
    (t.pushdown a.rest).step a.path = some b.path := by
  obtain ⟨id, hm, hreduce⟩ := reduced?_eq_some.mp h
  obtain ⟨hid, p, text, next, hp, -, hgoto, rfl⟩ := next_of_reduce_cases hreduce
  apply Pushdown.step_eq_some.mpr
  rw [arity_pushdown hm, drop_path hp]
  refine ⟨List.cons_ne_nil _ _, next, ?_, rfl⟩
  have htop : Pushdown.top a.path = a.state := rfl
  simp only [ParseTable.pushdown, htop, hm, if_neg hid]
  exact hgoto

end Attempt

namespace Follows

variable {g : Augmented} {stack : List Frame} {q : StateId}

theorem lt_size (h : Follows g stack q) : q < g.automaton.states.size := by
  cases h with
  | initial =>
    obtain ⟨s, hs, -⟩ := g.state_zero
    exact (Array.getElem?_eq_some_iff.mp hs).1
  | push _ hq =>
    obtain ⟨-, s, -, hs, -⟩ := Augmented.kernel_eq_of_next? hq
    exact (Array.getElem?_eq_some_iff.mp hs).1

end Follows

namespace TableOf

variable {engine : Engine} {g : Augmented} {t : ParseTable} {a b : Attempt} {n : Nat}

/-- A step of the pushdown is a reduction. -/
theorem exists_reduced? (h : TableOf engine g t) (hf : Follows g a.stack a.state)
    {path : List StateId} (hpath : (t.pushdown a.rest).step a.path = some path) :
    ∃ b, a.reduced? t = some b ∧ b.path = path := by
  obtain ⟨-, next, hgoto, -⟩ := Pushdown.step_eq_some.mp hpath
  have htop : Pushdown.top a.path = a.state := rfl
  simp only [ParseTable.pushdown, htop] at hgoto
  split at hgoto
  · next id hm =>
    rcases h.reduce_cases hf hm with ⟨hid, -⟩ |
      ⟨-, rule, p, text, next, -, -, -, -, -, -, hreduce⟩
    · simp [hid] at hgoto
    · have hreduced := Attempt.reduced?_eq_some.mpr ⟨id, hm, hreduce⟩
      exact ⟨_, hreduced, Option.some.inj ((Attempt.step_pushdown hreduced).symm.trans hpath)⟩
  · simp at hgoto

theorem follows_of_trail (h : TableOf engine g t) (hf : Follows g a.stack a.state)
    (hb : trail (Attempt.reduced? t) n a = some b) :
    Follows g b.stack b.state ∧ b.rest = a.rest ∧ b.offset = a.offset := by
  induction n generalizing b with
  | zero =>
    obtain rfl := Option.some.inj hb
    exact ⟨hf, rfl, rfl⟩
  | succ n ih =>
    rw [trail_succ] at hb
    obtain ⟨c, hc, hcb⟩ := Option.bind_eq_some_iff.mp hb
    obtain ⟨hfollows, hrest, hoffset⟩ := ih hc
    obtain ⟨hrest', hoffset'⟩ := Attempt.rest_of_reduced? hcb
    exact ⟨h.follows_next hfollows (Attempt.freeStep_of_reduced? hcb), hrest'.trans hrest,
      hoffset'.trans hoffset⟩

/-- Reductions go on where the pushdown does. -/
theorem exists_trail (h : TableOf engine g t) (hf : Follows g a.stack a.state) {path : List StateId}
    (hpath : trail (t.pushdown a.rest).step n a.path = some path) :
    ∃ b, trail (Attempt.reduced? t) n a = some b ∧ b.path = path := by
  induction n generalizing path with
  | zero => exact ⟨a, rfl, Option.some.inj hpath⟩
  | succ n ih =>
    rw [trail_succ] at hpath
    obtain ⟨path', hpath', hstep⟩ := Option.bind_eq_some_iff.mp hpath
    obtain ⟨c, hc, rfl⟩ := ih hpath'
    obtain ⟨hfollows, hrest, -⟩ := h.follows_of_trail hf hc
    rw [← hrest] at hstep
    obtain ⟨b, hb, hpathb⟩ := h.exists_reduced? hfollows hstep
    exact ⟨b, by rw [trail_succ, hc, Option.bind_some, hb], hpathb⟩

/-- The paths of a sequence of reductions are a run of the pushdown. -/
theorem isRun_path (h : TableOf engine g t) (hf : Follows g a.stack a.state) {c : Nat → Attempt}
    (hc : ∀ i ≤ n, trail (Attempt.reduced? t) i a = some (c i)) :
    (t.pushdown a.rest).IsRun n fun i => (c i).path := by
  intro i hi
  have hrest := (h.follows_of_trail hf (hc i (Nat.le_of_lt hi))).2.1
  rw [← hrest]
  exact Attempt.step_pushdown (step_of_sequence hc hi)

/-- The run is solid if no reduction is hollow. -/
theorem isSolid_path (h : TableOf engine g t) (hf : Follows g a.stack a.state) {c : Nat → Attempt}
    (hc : ∀ i ≤ n, trail (Attempt.reduced? t) i a = some (c i)) (hhollow : ¬ a.ReducesHollow t n) :
    (t.pushdown a.rest).IsSolid n fun i => (c i).path := by
  intro i hi j hj hpos
  obtain ⟨id, hm, -⟩ := Attempt.reduced?_eq_some.mp (step_of_sequence hc hi)
  have hrest := (h.follows_of_trail hf (hc i (Nat.le_of_lt hi))).2.1
  rw [← hrest, Attempt.arity_pushdown hm] at hpos ⊢
  rw [Attempt.length_path, Attempt.length_path]
  by_contra hge
  apply hhollow
  exact ⟨i, hi, j, hj, c j, c i, id, hc j (by omega), hc i (by omega), hm, hpos, by omega⟩

/-- As many reductions as are allowed never end, or one of them is hollow. -/
theorem forever_or_hollow (h : TableOf engine g t) (hf : Follows g a.stack a.state)
    (hn : Attempt.idleLimit t a.stack.length ≤ n)
    (hb : trail (Attempt.reduced? t) n a = some b) :
    Forever (Attempt.reduced? t) a ∨ a.ReducesHollow t n := by
  by_cases hhollow : a.ReducesHollow t n
  · exact Or.inr hhollow
  refine Or.inl ?_
  obtain ⟨c, hc⟩ := exists_sequence hb
  have hzero : c 0 = a := (Option.some.inj (hc 0 (Nat.zero_le n))).symm
  have hstates : ∀ i < n, Pushdown.top (c i).path < t.numStates := by
    intro i hi
    rw [h.numStates_eq]
    exact (h.follows_of_trail hf (hc i (Nat.le_of_lt hi))).1.lt_size
  have hlong : (c 0).path.length * t.numStates < n := by
    calc (c 0).path.length * t.numStates
        = (a.stack.length + 1) * t.numStates := by rw [hzero, Attempt.length_path]
      _ < (a.stack.length + 1) * (t.numStates + 1) :=
        Nat.mul_lt_mul_of_pos_left (Nat.lt_succ_self _) (Nat.succ_pos _)
      _ ≤ n := hn
  -- a pushdown that goes on for ever takes the attempt with it
  have hsolid := h.isSolid_path hf hc hhollow
  have hforever := (h.isRun_path hf hc).forever_of_length hsolid hstates hlong
  intro k
  obtain ⟨path, hpath⟩ := hforever k
  rw [hzero] at hpath
  obtain ⟨b, hb, -⟩ := h.exists_trail hf hpath
  exact ⟨b, hb⟩

end TableOf

namespace Attempt

variable {t : ParseTable} {rest : List Char} {offset : Nat} {a b : Attempt}

/-- The reductions that an attempt counts are those since its start or its last shift, and there are
no more of them than it allows. -/
theorem exists_trail_of_reaches (h : Step.Reaches (step t) (.initial t rest offset) b) :
    ∃ a, Step.Reaches (step t) (.initial t rest offset) a ∧ a.idle = 0 ∧
      trail (reduced? t) b.idle a = some b ∧ b.limit = idleLimit t a.stack.length ∧
      b.idle ≤ b.limit := by
  induction h with
  | refl => exact ⟨_, .refl, rfl, rfl, rfl, Nat.zero_le _⟩
  | tail hreaches hstep ih =>
    next c d =>
    rcases freeStep_cases (freeStep_of_step hstep) with ⟨terminal, next, n, -, hshift⟩ |
      ⟨id, hm, hreduce⟩
    · -- a shift starts the count anew
      refine ⟨d, hreaches.tail hstep, ?_, ?_, ?_, ?_⟩ <;> rw [hshift]
      · rfl
      · rfl
      · rfl
      · exact Nat.zero_le _
    · -- a reduction that is made is one more, and not one too many
      obtain ⟨a, ha, hidle, htrail, hlimit, -⟩ := ih
      obtain ⟨-, hlimit', hidle', -⟩ := next_of_reduce hreduce
      have hspent : ¬ c.isSpent t = true := by
        intro hspent
        rw [step, if_pos hspent] at hstep
        simp at hstep
      have hlt : c.idle < c.limit := by
        by_contra hge
        exact hspent (isSpent_iff.mpr ⟨by omega, id, hm⟩)
      refine ⟨a, ha, hidle, ?_, ?_, ?_⟩
      · rw [hidle', trail_succ, htrail, Option.bind_some]
        exact reduced?_eq_some.mpr ⟨id, hm, hreduce⟩
      · rw [hlimit', hlimit]
      · omega

/-- An attempt that reduces for ever comes to nothing else. -/
theorem forever_of_reaches (h : Forever (reduced? t) a) (hb : Step.Reaches (freeStep t) a b) :
    Forever (reduced? t) b := by
  refine hb.preserves (motive := fun a => Forever (reduced? t) a) ?_ h
  intro a b ha hstep n
  obtain ⟨c, hc⟩ := ha (n + 1)
  obtain ⟨b', hb', hc'⟩ := Option.bind_eq_some_iff.mp hc
  obtain rfl := Step.next.inj (hstep.symm.trans (freeStep_of_reduced? hb'))
  exact ⟨c, hc'⟩

theorem not_forever_of_done {r : Except AttemptError Parse} (h : a.freeStep t = .done r) :
    ¬ Forever (reduced? t) a := by
  intro hforever
  obtain ⟨c, hc⟩ := hforever 1
  obtain ⟨b, hb, -⟩ := Option.bind_eq_some_iff.mp hc
  have hnext := freeStep_of_reduced? hb
  rw [h] at hnext
  simp at hnext

/-- Where no reduction adds a frame to the stack, none of them is hollow. -/
theorem not_reducesHollow {n : Nat}
    (h : ∀ i b id, trail (reduced? t) i a = some b → t.move? b.state b.rest = some (.reduce id) →
      id ≠ 0 → 0 < (t.reduction id).arity) : ¬ a.ReducesHollow t n := by
  rintro ⟨i, hi, j, hj, b, c, id, hb, hc, hm, hpos, hle⟩
  -- the stack never gets higher than it was in `b`
  have hheight : ∀ k c, trail (reduced? t) (j + k) a = some c →
      c.stack.length ≤ b.stack.length := by
    intro k
    induction k with
    | zero =>
      intro c hc
      obtain rfl := Option.some.inj (hb.symm.trans hc)
      exact Nat.le_refl _
    | succ k ih =>
      intro d hd
      rw [← Nat.add_assoc, trail_succ] at hd
      obtain ⟨c, hc, hcd⟩ := Option.bind_eq_some_iff.mp hd
      obtain ⟨id, hm, hreduce⟩ := reduced?_eq_some.mp hcd
      obtain ⟨hid, p, text, next, hp, -, -, rfl⟩ := next_of_reduce_cases hreduce
      have hlower := ih c hc
      have harity := h (j + k) c id hc hm hid
      have hfits := le_of_path hp
      rw [List.length_cons, List.length_drop]
      omega
  obtain ⟨k, rfl⟩ := Nat.exists_eq_add_of_le hj
  have hlast := hheight k c hc
  omega

end Attempt

namespace TableOf

variable {engine : Engine} {g : Augmented} {t : ParseTable} {rest : List Char} {offset : Nat}

/-- A spent attempt has come, since its start or its last shift, to reductions that do not end or of
which one is hollow. -/
theorem stalled_cases (h : TableOf engine g t) {stop : Nat}
    (hattempt : t.attempt rest offset = .error (.stalled stop)) :
    ∃ a, Step.Reaches (Attempt.freeStep t) (.initial t rest offset) a ∧ a.idle = 0 ∧
      a.offset = stop ∧
      (∃ b id, trail (Attempt.reduced? t) (Attempt.idleLimit t a.stack.length) a = some b ∧
        t.move? b.state b.rest = some (.reduce id)) ∧
      (Forever (Attempt.reduced? t) a ∨
        a.ReducesHollow t (Attempt.idleLimit t a.stack.length)) := by
  obtain ⟨b, hreaches, ⟨hspent, hstalled⟩ | ⟨-, herror⟩ | ⟨id, hm, hdone⟩⟩ :=
    t.attempt_cases rest offset
  · obtain ⟨a, ha, hidle, htrail, hlimit, hle⟩ := Attempt.exists_trail_of_reaches hreaches
    have hfree := Attempt.Reaches.free ha
    have hf := h.follows_of_reaches hfree
    obtain ⟨hge, id, hm⟩ := Attempt.isSpent_iff.mp hspent
    have hall : b.idle = Attempt.idleLimit t a.stack.length := by omega
    have hstop : b.offset = stop := by
      rw [hattempt] at hstalled
      simpa using hstalled.symm
    rw [hall] at htrail
    refine ⟨a, hfree, hidle, ?_, ⟨b, id, htrail, hm⟩, ?_⟩
    · rw [← hstop, (h.follows_of_trail hf htrail).2.2]
    · exact h.forever_or_hollow hf (Nat.le_refl _) htrail
  · simp [hattempt] at herror
  · have hf := h.follows_of_reaches (Attempt.Reaches.free hreaches)
    obtain ⟨frame, -, -, hok⟩ := h.accept_of_done hf hm hdone
    simp [hattempt] at hok

end TableOf

/-- A parse stalls only after as many reductions as are allowed since the start or the last shift,
and before one more. These go on for ever at that byte, or one of them is hollow: it replaces parts
that were all made since then, of nothing but empty alternatives. -/
theorem stalled_forever_or_hollow {engine : Engine} {g : Grammar} {start : String}
    {t : ParseTable} {input : String} {k offset : Nat}
    (hgenerate : g.generate (g.analyze engine) start = .ok t)
    (hparse : t.parseAt input k = .error (.stalled offset)) :
    ∃ rest a, Text.dropBytes? k input.toList = some rest ∧
      Step.Reaches (Attempt.freeStep t) (.initial t rest k) a ∧ a.idle = 0 ∧ a.offset = offset ∧
      (∃ b id, trail (Attempt.reduced? t) (Attempt.idleLimit t a.stack.length) a = some b ∧
        t.move? b.state b.rest = some (.reduce id)) ∧
      ((∀ n, ∃ b, trail (Attempt.reduced? t) n a = some b ∧ b.offset = offset) ∨
        a.ReducesHollow t (Attempt.idleLimit t a.stack.length)) := by
  have htable := tableOf_of_generate hgenerate
  rcases ParseTable.parseAt_eq_error hparse with ⟨-, herror⟩ | ⟨rest, hrest, hattempt⟩
  · simp at herror
  · obtain ⟨a, hreaches, hidle, hoffset, hspent, hcases⟩ := htable.stalled_cases hattempt
    refine ⟨rest, a, hrest, hreaches, hidle, hoffset, hspent, ?_⟩
    rcases hcases with hforever | hhollow
    · refine Or.inl fun n => ?_
      obtain ⟨b, hb⟩ := hforever n
      have hf := htable.follows_of_reaches hreaches
      exact ⟨b, hb, by rw [(htable.follows_of_trail hf hb).2.2, hoffset]⟩
    · exact Or.inr hhollow

/-- An empty alternative that is reduced before every letter that is not there. -/
def Grammar.emptied : Grammar where
  rules := #[
    ⟨"S", #[⟨.nonterminal "E", {}⟩, ⟨.nonterminal "S", {}⟩], [], {}⟩,
    ⟨"S", #[⟨.terminal "x", {}⟩], [], {}⟩,
    ⟨"E", #[], [], {}⟩]

theorem emptied_stalled : ∃ t rest a,
    Grammar.emptied.generate (Grammar.emptied.analyze Pattern.engine) "S" = .ok t ∧
    t.parseAt "y" 0 = .error (.stalled 0) ∧ Text.dropBytes? 0 "y".toList = some rest ∧
    Step.Reaches (Attempt.freeStep t) (.initial t rest 0) a ∧ a.idle = 0 ∧ a.offset = 0 ∧
    (∃ b id, trail (Attempt.reduced? t) (Attempt.idleLimit t a.stack.length) a = some b ∧
      t.move? b.state b.rest = some (.reduce id)) ∧
    ((∀ n, ∃ b, trail (Attempt.reduced? t) n a = some b ∧ b.offset = 0) ∨
      a.ReducesHollow t (Attempt.idleLimit t a.stack.length)) := by
  obtain ⟨t, ht, hcheck⟩ := Except.exists_ok
    (x := Grammar.emptied.generate (Grammar.emptied.analyze Pattern.engine) "S")
    (p := fun t => t.parseAt "y" 0 = .error (.stalled 0)) (by decide +kernel)
  have hparse := of_decide_eq_true hcheck
  obtain ⟨rest, a, hall⟩ := stalled_forever_or_hollow ht hparse
  exact ⟨t, rest, a, ht, hparse, hall⟩

/-- Pairs of pairs of empty alternatives. -/
def Grammar.emptyPairs : Grammar where
  rules := #[
    ⟨"S", #[⟨.nonterminal "A", {}⟩, ⟨.nonterminal "A", {}⟩], [.capture 0, .capture 1], {}⟩,
    ⟨"A", #[⟨.nonterminal "B", {}⟩, ⟨.nonterminal "B", {}⟩], [.capture 0, .capture 1], {}⟩,
    ⟨"B", #[], [.literal "b"], {}⟩]

/-- Not all reductions that stall go on for ever: eight steps without the limit accept the pairs. -/
theorem empty_pairs_stalled : ∃ t,
    Grammar.emptyPairs.generate (Grammar.emptyPairs.analyze Pattern.engine) "S" = .ok t ∧
    t.parseAt "" 0 = .error (.stalled 0) ∧
    Step.iterate (Attempt.freeStep t) 8 (.initial t [] 0) = .done (.ok ⟨"bbbb", 0, []⟩) := by
  obtain ⟨t, ht, hcheck⟩ := Except.exists_ok
    (x := Grammar.emptyPairs.generate (Grammar.emptyPairs.analyze Pattern.engine) "S")
    (p := fun t => decide (t.parseAt "" 0 = .error (.stalled 0)) &&
      match Step.iterate (Attempt.freeStep t) 8 (.initial t [] 0) with
      | .done (.ok parse) => decide (parse.output = "bbbb" ∧ parse.stop = 0 ∧ parse.rest = [])
      | _ => false) (by decide +kernel)
  rw [Bool.and_eq_true, decide_eq_true_eq] at hcheck
  obtain ⟨hparse, hsteps⟩ := hcheck
  refine ⟨t, ht, hparse, ?_⟩
  split at hsteps
  · next parse heq =>
    obtain ⟨output, stop, rest⟩ := parse
    obtain ⟨rfl, rfl, rfl⟩ := of_decide_eq_true hsteps
    exact heq
  · simp at hsteps

end Reformat
