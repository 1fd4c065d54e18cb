import Mathlib.Logic.Relation
import Mathlib.Tactic.ByContra
import Reformat.Attempt

/-! Runs of step functions, and what a step of an attempt does to its stack. -/

namespace Reformat

namespace Step

variable {σ ρ : Type}

/-- Steps lead from one state to another. -/
def Reaches (step : σ → Step σ ρ) : σ → σ → Prop :=
  Relation.ReflTransGen fun s t => step s = .next t

/-- What a step leads to, seen through a map on states and a map on results. -/
def map {τ π : Type} (f : σ → τ) (g : ρ → π) : Step σ ρ → Step τ π
  | .next s => .next (f s)
  | .done r => .done (g r)

theorem Reaches.preserves {step : σ → Step σ ρ} {motive : σ → Prop} {s t : σ}
    (h : Reaches step s t) (next : ∀ s t, motive s → step s = .next t → motive t)
    (start : motive s) : motive t := by
  induction h with
  | refl => exact start
  | tail _ hstep ih => exact next _ _ ih hstep

/-- Of two states that are reached, one comes before the other. -/
theorem Reaches.total {step : σ → Step σ ρ} {s t u : σ} (ht : Reaches step s t)
    (hu : Reaches step s u) : Reaches step t u ∨ Reaches step u t := by
  refine Relation.ReflTransGen.total_of_right_unique ?_ ht hu
  intro a b c hb hc
  exact Step.next.inj (hb.symm.trans hc)

/-- Steps come to an end in one state at most. -/
theorem Reaches.eq_of_done {step : σ → Step σ ρ} {s t u : σ} {r r' : ρ} (ht : Reaches step s t)
    (hu : Reaches step s u) (hr : step t = .done r) (hr' : step u = .done r') : t = u := by
  have hstop : ∀ {t u : σ} {r : ρ}, Reaches step t u → step t = .done r → t = u := by
    intro t u r h hdone
    rcases Relation.ReflTransGen.cases_head h with heq | ⟨v, hv, -⟩
    · exact heq
    · rw [hdone] at hv
      simp at hv
  -- the run is deterministic, so that one of the two comes first
  rcases ht.total hu with htu | hut
  · exact hstop htu hr
  · exact (hstop hut hr').symm

end Step

/-- A run ends in a state that it reaches. -/
theorem Machine.exists_done {σ ρ : Type} (m : Machine σ ρ) (s : σ) :
    ∃ t, Step.Reaches m.step s t ∧ m.step t = .done (m.run s) := by
  fun_induction run m s with
  | case1 s t h ih =>
    obtain ⟨u, hu, hdone⟩ := ih
    exact ⟨u, .head h hu, hdone⟩
  | case2 s r h => exact ⟨s, .refl, h⟩

namespace Machine

variable {σ τ ρ π : Type} {m : Machine σ ρ} {n : Machine τ π}

/-- The result of a run is decided wherever it comes to. -/
theorem run_of_reaches {s t : σ} (h : Step.Reaches m.step s t) : m.run s = m.run t := by
  induction h with
  | refl => rfl
  | tail _ hstep ih => rw [ih, run_of_next hstep]

/-- Machines whose states correspond, step by step, come to results that agree. -/
theorem run_related (corresponds : σ → τ → Prop) (agrees : ρ → π → Prop)
    (hstep : ∀ s s', corresponds s s' →
      (∃ t t', m.step s = .next t ∧ n.step s' = .next t' ∧ corresponds t t') ∨
      ∃ r r', m.step s = .done r ∧ n.step s' = .done r' ∧ agrees r r')
    {s : σ} {s' : τ} (h : corresponds s s') : agrees (m.run s) (n.run s') := by
  fun_induction run m s generalizing s' with
  | case1 s t ht ih =>
    rcases hstep s s' h with ⟨u, t', hu, ht', hnext⟩ | ⟨r, r', hr, -⟩
    · obtain rfl := Step.next.inj (ht.symm.trans hu)
      rw [run_of_next ht']
      exact ih hnext
    · rw [ht] at hr
      simp at hr
  | case2 s r hr =>
    rcases hstep s s' h with ⟨u, t', hu, -⟩ | ⟨q, r', hq, hr', hagrees⟩
    · rw [hr] at hu
      simp at hu
    · obtain rfl := Step.done.inj (hr.symm.trans hq)
      rw [run_of_done hr']
      exact hagrees

/-- What a map on states and a map on results exchange with steps, they exchange with runs. -/
theorem run_map {f : σ → τ} {g : ρ → π} (h : ∀ s, n.step (f s) = (m.step s).map f g) (s : σ) :
    n.run (f s) = g (m.run s) := by
  refine (run_related (fun s t => t = f s) (fun r q => q = g r) (fun s t hs => ?_) rfl)
  rw [hs, h]
  cases m.step s with
  | next u => exact Or.inl ⟨u, f u, rfl, rfl, rfl⟩
  | done r => exact Or.inr ⟨r, g r, rfl, rfl, rfl⟩

/-- Machines whose states correspond, step by step, come to the same result. -/
theorem run_eq_of_corresponds {n : Machine τ ρ} (corresponds : σ → τ → Prop)
    (hstep : ∀ s s', corresponds s s' →
      (∃ t t', m.step s = .next t ∧ n.step s' = .next t' ∧ corresponds t t') ∨
      ∃ r, m.step s = .done r ∧ n.step s' = .done r)
    {s : σ} {s' : τ} (h : corresponds s s') : m.run s = n.run s' := by
  refine run_related corresponds Eq (fun s s' hs => ?_) h
  rcases hstep s s' hs with hnext | ⟨r, hr, hr'⟩
  · exact Or.inl hnext
  · exact Or.inr ⟨r, r, hr, hr', rfl⟩

end Machine

namespace Attempt

variable {t : ParseTable} {a b : Attempt} {id : ReductionId} {n : Nat}

theorem takeFrames?_eq (n : Nat) (stack taken : List Frame) : takeFrames? n stack taken =
    if n ≤ stack.length then some ((stack.take n).reverse ++ taken, stack.drop n) else none := by
  fun_induction takeFrames? n stack taken with
  | case1 stack taken => simp
  | case2 taken n => simp
  | case3 taken n frame stack ih => simp [ih]

/-- The states from the current one down to that of the empty stack. -/
def path (a : Attempt) : List StateId := a.state :: a.stack.map (·.state)

/-- The topmost frames, the lowest of them first. -/
def parts (a : Attempt) (n : Nat) : List Frame := (a.stack.take n).reverse

theorem length_path (a : Attempt) : a.path.length = a.stack.length + 1 := by
  rw [path, List.length_cons, List.length_map]

theorem drop_path {p : StateId} (hp : a.path[n]? = some p) :
    a.path.drop n = p :: (a.stack.drop n).map (·.state) := by
  obtain ⟨hlt, hget⟩ := List.getElem?_eq_some_iff.mp hp
  rw [List.drop_eq_getElem_cons hlt, hget, path, List.drop_succ_cons, List.map_drop]

theorem le_of_path {p : StateId} (h : a.path[n]? = some p) : n ≤ a.stack.length := by
  have hlt := (List.getElem?_eq_some_iff.mp h).1
  simp only [path, List.length_cons, List.length_map] at hlt
  omega

theorem exists_path (h : n ≤ a.stack.length) : ∃ p, a.path[n]? = some p :=
  ⟨_, List.getElem?_eq_getElem (by simp only [path, List.length_cons, List.length_map]; omega)⟩

/-- The state below the frames that are taken off is that of the lowest of them. -/
theorem exposed_eq {p : StateId} (h : a.path[n]? = some p) :
    ((a.parts n).head?.map (·.state)).getD a.state = p := by
  cases n with
  | zero => simpa [parts, path] using h
  | succ n =>
    -- the parts are reversed, so the first of them is the last that is taken
    have hle := le_of_path h
    rw [path, List.getElem?_cons_succ, List.getElem?_map, Option.map_eq_some_iff] at h
    obtain ⟨frame, hframe, rfl⟩ := h
    have hlast : (a.stack.take (n + 1)).getLast? = some frame := by
      rw [List.getLast?_eq_getElem?, List.length_take, Nat.min_eq_left hle,
        List.getElem?_take_of_lt (by omega)]
      exact hframe
    rw [parts, List.head?_reverse, hlast]
    rfl

section

variable {p : StateId} {text : String} (hp : a.path[(t.reduction id).arity]? = some p)
  (htext : (t.reduction id).template.render
    ((a.parts (t.reduction id).arity).map (·.text)) = .ok text)

include hp htext

/-- A reduction whose parts are there and fit the template goes on from the state below them. -/
theorem reduce_of_goto (hid : id ≠ 0) {next : StateId}
    (hnext : (t.row p).goto? (t.reduction id).name = some next) :
    a.reduce t id = .next { a with
      state := next
      stack := ⟨p, .nonterminal (t.reduction id).name, text⟩ :: a.stack.drop (t.reduction id).arity
      idle := a.idle + 1 } := by
  have hexposed := exposed_eq hp
  rw [parts] at hexposed htext
  simp only [reduce, takeFrames?_eq, if_pos (le_of_path hp), List.append_nil, hexposed, htext,
    if_neg hid, hnext]

theorem reduce_of_missing (hid : id ≠ 0)
    (hnone : (t.row p).goto? (t.reduction id).name = none) :
    a.reduce t id = .done (.error (.internal (.missingGoto p (t.reduction id).name))) := by
  have hexposed := exposed_eq hp
  rw [parts] at hexposed htext
  simp only [reduce, takeFrames?_eq, if_pos (le_of_path hp), List.append_nil, hexposed, htext,
    if_neg hid, hnone]

/-- The accepting reduction ends the attempt. -/
theorem reduce_of_accept (hid : id = 0) : a.reduce t id =
    if (a.stack.drop (t.reduction id).arity).isEmpty then .done (.ok ⟨text, a.offset, a.rest⟩)
    else .done (.error (.internal
      (.unbalancedAccept (a.stack.drop (t.reduction id).arity).length))) := by
  rw [parts] at htext
  simp only [reduce, takeFrames?_eq, if_pos (le_of_path hp), List.append_nil, htext, if_pos hid]

end

/-- Unless the table is inconsistent, the parts of a reduction are there and fit the template. -/
theorem parts_of_reduce (h : ∀ e, a.reduce t id ≠ .done (.error (.internal e))) :
    ∃ p text, a.path[(t.reduction id).arity]? = some p ∧
      (t.reduction id).template.render ((a.parts (t.reduction id).arity).map (·.text)) =
        .ok text := by
  -- each thing that is missing would be an internal error of its own
  have hle : (t.reduction id).arity ≤ a.stack.length := by
    by_contra hlt
    apply h (.stackUnderflow (t.reduction id).name)
    simp only [reduce, takeFrames?_eq, if_neg hlt]
  obtain ⟨p, hp⟩ := exists_path hle
  cases htext : (t.reduction id).template.render
      ((a.parts (t.reduction id).arity).map (·.text)) with
  | error e =>
    rw [parts] at htext
    exfalso
    apply h (.template (t.reduction id).name e)
    simp only [reduce, takeFrames?_eq, if_pos hle, List.append_nil, htext]
  | ok text => exact ⟨p, text, hp, rfl⟩

/-- Unless the table is inconsistent, a reduction accepts, or goes on from the state below its
parts. -/
theorem reduce_cases (h : ∀ e, a.reduce t id ≠ .done (.error (.internal e))) : ∃ p text,
    a.path[(t.reduction id).arity]? = some p ∧
    (t.reduction id).template.render ((a.parts (t.reduction id).arity).map (·.text)) = .ok text ∧
    ((id = 0 ∧ a.reduce t id = .done (.ok ⟨text, a.offset, a.rest⟩)) ∨
    (id ≠ 0 ∧ ∃ next, (t.row p).goto? (t.reduction id).name = some next ∧
      a.reduce t id = .next { a with
        state := next
        stack := ⟨p, .nonterminal (t.reduction id).name, text⟩ ::
          a.stack.drop (t.reduction id).arity
        idle := a.idle + 1 })) := by
  obtain ⟨p, text, hp, htext⟩ := parts_of_reduce h
  refine ⟨p, text, hp, htext, ?_⟩
  by_cases hid : id = 0
  · have haccept := reduce_of_accept hp htext hid
    split at haccept
    · exact Or.inl ⟨hid, haccept⟩
    · exact absurd haccept (h _)
  · cases hnext : (t.row p).goto? (t.reduction id).name with
    | none => exact absurd (reduce_of_missing hp htext hid hnext) (h _)
    | some next => exact Or.inr ⟨hid, next, rfl, reduce_of_goto hp htext hid hnext⟩

/-- What a reduction did that led on. -/
theorem next_of_reduce_cases (h : a.reduce t id = .next b) : id ≠ 0 ∧ ∃ p text next,
    a.path[(t.reduction id).arity]? = some p ∧
    (t.reduction id).template.render ((a.parts (t.reduction id).arity).map (·.text)) = .ok text ∧
    (t.row p).goto? (t.reduction id).name = some next ∧
    b = { a with
      state := next
      stack := ⟨p, .nonterminal (t.reduction id).name, text⟩ :: a.stack.drop (t.reduction id).arity
      idle := a.idle + 1 } := by
  have hsound : ∀ e, a.reduce t id ≠ .done (.error (.internal e)) := by simp [h]
  obtain ⟨p, text, hp, htext, ⟨-, hdone⟩ | ⟨hid, next, hnext, hstep⟩⟩ := reduce_cases hsound
  · rw [h] at hdone
    simp at hdone
  · exact ⟨hid, p, text, next, hp, htext, hnext, Step.next.inj (h.symm.trans hstep)⟩

/-- A parse ends where the attempt has come to. -/
theorem stop_of_reduce {parse : Parse} (h : a.reduce t id = .done (.ok parse)) :
    parse.stop = a.offset ∧ parse.rest = a.rest := by
  have hsound : ∀ e, a.reduce t id ≠ .done (.error (.internal e)) := by simp [h]
  obtain ⟨p, text, -, -, ⟨-, hdone⟩ | ⟨-, next, -, hstep⟩⟩ := reduce_cases hsound
  · obtain rfl := Except.ok.inj (Step.done.inj (h.symm.trans hdone))
    exact ⟨rfl, rfl⟩
  · rw [h] at hstep
    simp at hstep

/-- A step that leads on shifts a terminal or reduces a rule. -/
theorem freeStep_cases (h : freeStep t a = .next b) :
    (∃ terminal next n, t.move? a.state a.rest = some (.shift terminal next n) ∧
      b = a.shift t terminal next n) ∨
    ∃ id, t.move? a.state a.rest = some (.reduce id) ∧ a.reduce t id = .next b := by
  unfold freeStep at h
  split at h
  · simp at h
  · next terminal next n hm => exact Or.inl ⟨terminal, next, n, hm, (Step.next.inj h).symm⟩
  · next id hm => exact Or.inr ⟨id, hm, h⟩

theorem freeStep_of_step (h : step t a = .next b) : freeStep t a = .next b := by
  unfold step at h
  split at h
  · simp at h
  · exact h

theorem isSpent_iff :
    a.isSpent t = true ↔ a.limit ≤ a.idle ∧ ∃ id, t.move? a.state a.rest = some (.reduce id) := by
  rw [isSpent, Bool.and_eq_true, decide_eq_true_eq]
  apply and_congr_right
  intro _
  split
  · next id hm => simp [hm]
  · next hm => simpa using hm

/-- Only reductions may be one too many. -/
theorem step_eq_freeStep (h : ∀ id, t.move? a.state a.rest ≠ some (.reduce id)) :
    a.step t = a.freeStep t := by
  have hspent : ¬ a.isSpent t = true := by
    rw [isSpent_iff]
    intro ⟨_, id, hm⟩
    exact h id hm
  rw [step, if_neg hspent]

theorem step_of_reduce (hm : t.move? a.state a.rest = some (.reduce id)) :
    a.step t = if a.limit ≤ a.idle then .done (.error (.stalled a.offset)) else a.reduce t id := by
  have hspent : a.isSpent t = true ↔ a.limit ≤ a.idle := by
    rw [isSpent_iff]
    exact and_iff_left ⟨id, hm⟩
  simp only [step, hspent, freeStep, hm]

theorem Reaches.free (h : Step.Reaches (step t) a b) : Step.Reaches (freeStep t) a b :=
  Relation.ReflTransGen.mono (fun _ _ => freeStep_of_step) _ _ h

end Attempt

/-- An attempt ends where it is spent, where there is no move, or with a reduction. -/
theorem ParseTable.attempt_cases (t : ParseTable) (rest : List Char) (offset : Nat) :
    ∃ a, Step.Reaches (Attempt.step t) (.initial t rest offset) a ∧
      ((a.isSpent t = true ∧ t.attempt rest offset = .error (.stalled a.offset)) ∨
      (t.move? a.state a.rest = none ∧ t.attempt rest offset = .error (.syntaxError a.offset)) ∨
      ∃ id, t.move? a.state a.rest = some (.reduce id) ∧
        a.reduce t id = .done (t.attempt rest offset)) := by
  obtain ⟨a, hreaches, hdone⟩ := (Attempt.machine t).exists_done (.initial t rest offset)
  refine ⟨a, hreaches, ?_⟩
  change Attempt.step t a = .done (t.attempt rest offset) at hdone
  rw [Attempt.step] at hdone
  split at hdone
  · next hspent => exact Or.inl ⟨hspent, (Step.done.inj hdone).symm⟩
  · rw [Attempt.freeStep] at hdone
    split at hdone
    · next hm => exact Or.inr (Or.inl ⟨hm, (Step.done.inj hdone).symm⟩)
    · simp at hdone
    · next id hm => exact Or.inr (Or.inr ⟨id, hm, hdone⟩)

/-- A syntax error is reported where there is no move. -/
theorem ParseTable.exists_of_syntaxError {t : ParseTable} {rest : List Char} {k offset : Nat}
    (h : t.attempt rest k = .error (.syntaxError offset)) :
    ∃ a, Step.Reaches (Attempt.step t) (.initial t rest k) a ∧ t.move? a.state a.rest = none ∧
      a.offset = offset := by
  obtain ⟨a, hreaches, ⟨-, hstalled⟩ | ⟨hm, hsyntax⟩ | ⟨id, -, hdone⟩⟩ := t.attempt_cases rest k
  · simp [h] at hstalled
  · rw [h] at hsyntax
    exact ⟨a, hreaches, hm, (AttemptError.syntaxError.inj (Except.error.inj hsyntax)).symm⟩
  · -- a reduction is accepted, leads on, or is inconsistent
    rw [h] at hdone
    have hsound : ∀ e, a.reduce t id ≠ .done (.error (.internal e)) := by simp [hdone]
    obtain ⟨p, text, -, -, ⟨-, hok⟩ | ⟨-, next, -, hnext⟩⟩ := Attempt.reduce_cases hsound
    · simp [hdone] at hok
    · simp [hdone] at hnext

theorem ParseTable.parseAt_of_attempt {t : ParseTable} {input : String} {rest : List Char} {k : Nat}
    {parse : Parse} (hrest : Text.dropBytes? k input.toList = some rest)
    (h : t.attempt rest k = .ok parse) :
    t.parseAt input k = .ok ⟨k, parse.stop, parse.output⟩ := by
  rw [parseAt, hrest]
  dsimp only
  rw [h]
  rfl

theorem ParseTable.parseAt_eq_ok {t : ParseTable} {input : String} {k : Nat} {found : Match}
    (h : t.parseAt input k = .ok found) : ∃ rest parse, Text.dropBytes? k input.toList = some rest ∧
      t.attempt rest k = .ok parse ∧ found = ⟨k, parse.stop, parse.output⟩ := by
  rw [parseAt] at h
  split at h
  · simp at h
  · next rest hrest =>
    cases hattempt : t.attempt rest k with
    | error e => simp [hattempt, Except.map] at h
    | ok parse =>
      rw [hattempt] at h
      exact ⟨rest, parse, hrest, hattempt, (Except.ok.inj h).symm⟩

theorem ParseTable.parseAt_eq_error {t : ParseTable} {input : String} {k : Nat} {e : AttemptError}
    (h : t.parseAt input k = .error e) :
    (Text.dropBytes? k input.toList = none ∧ e = .syntaxError k) ∨
      ∃ rest, Text.dropBytes? k input.toList = some rest ∧ t.attempt rest k = .error e := by
  rw [parseAt] at h
  split at h
  · next hrest => exact Or.inl ⟨hrest, (Except.error.inj h).symm⟩
  · next rest hrest =>
    cases hattempt : t.attempt rest k with
    | ok parse => simp [hattempt, Except.map] at h
    | error e' =>
      rw [hattempt] at h
      have he : e' = e := Except.error.inj h
      exact Or.inr ⟨rest, hrest, he ▸ hattempt⟩

end Reformat
