import Mathlib.Data.Fintype.Pigeonhole
import Mathlib.Data.Fintype.Prod
import Reformat.Automaton

/-! Runs of partial functions, and the runs of reductions on the states of a stack. Such a run
repeats itself for ever if it goes on for long without taking off states that came from nothing. -/

namespace Reformat

section

variable {α : Type} {f : α → Option α} {a b : α} {m n : Nat}

/-- Where a partial function leads in `n` steps. -/
def trail (f : α → Option α) : Nat → α → Option α
  | 0, a => some a
  | n + 1, a => (f a).bind (trail f n)

/-- The steps of a partial function do not come to an end. -/
def Forever (f : α → Option α) (a : α) : Prop := ∀ n, ∃ b, trail f n a = some b

theorem trail_add (m n : Nat) (a : α) : trail f (m + n) a = (trail f m a).bind (trail f n) := by
  induction m generalizing a with
  | zero => rw [Nat.zero_add, trail, Option.bind_some]
  | succ m ih =>
    rw [Nat.succ_add, trail, trail, Option.bind_assoc]
    exact Option.bind_congr fun b _ => ih b

theorem trail_succ (n : Nat) (a : α) : trail f (n + 1) a = (trail f n a).bind f := by
  have hone : trail f 1 = f := by
    ext1 b
    exact Option.bind_fun_some (f b)
  rw [trail_add, hone]

theorem exists_trail_of_le (h : trail f n a = some b) (hm : m ≤ n) : ∃ c, trail f m a = some c := by
  obtain ⟨k, rfl⟩ := Nat.exists_eq_add_of_le hm
  rw [trail_add] at h
  obtain ⟨c, hc, -⟩ := Option.bind_eq_some_iff.mp h
  exact ⟨c, hc⟩

/-- The states on the way make up a sequence, which is of no interest after `n`. -/
theorem exists_sequence (h : trail f n a = some b) :
    ∃ c : Nat → α, ∀ i ≤ n, trail f i a = some (c i) := by
  have hall : ∀ i, ∃ c, i ≤ n → trail f i a = some c := by
    intro i
    by_cases hi : i ≤ n
    · obtain ⟨c, hc⟩ := exists_trail_of_le h hi
      exact ⟨c, fun _ => hc⟩
    · exact ⟨a, fun hle => absurd hle hi⟩
  choose c hc using hall
  exact ⟨c, hc⟩

theorem step_of_sequence {c : Nat → α} (hc : ∀ i ≤ n, trail f i a = some (c i)) {i : Nat}
    (hi : i < n) : f (c i) = some (c (i + 1)) := by
  have hnext := hc (i + 1) hi
  rw [trail_succ, hc i (Nat.le_of_lt hi), Option.bind_some] at hnext
  exact hnext

theorem forever_of_trail (h : trail f m a = some b) (hb : Forever f b) : Forever f a := by
  intro n
  obtain ⟨c, hc⟩ := hb n
  have hlong : trail f (m + n) a = some c := by rw [trail_add, h, Option.bind_some, hc]
  exact exists_trail_of_le hlong (Nat.le_add_left n m)

/-- What is always come back to is never left. -/
theorem forever_of_return {p : α → Prop} (h : ∀ a, p a → ∃ n b, trail f (n + 1) a = some b ∧ p b)
    (ha : p a) : Forever f a := by
  intro n
  induction n using Nat.strong_induction_on generalizing a with
  | _ n ih =>
    obtain ⟨k, b, hb, hp⟩ := h a ha
    by_cases hn : n ≤ k + 1
    · exact exists_trail_of_le hb hn
    · -- after one more return there are fewer steps left to make
      obtain ⟨c, hc⟩ := ih (n - (k + 1)) (by omega) hp
      refine ⟨c, ?_⟩
      rw [show n = k + 1 + (n - (k + 1)) by omega, trail_add, hb, Option.bind_some, hc]

end

/-- What reductions do to the states of a stack: the state on top says how many states are taken
off, and which state comes on top of the one below them. -/
structure Pushdown where
  arity : StateId → Nat
  goto : StateId → StateId → Option StateId

namespace Pushdown

/-- The state on top. -/
def top (path : List StateId) : StateId := path.headD 0

def step (m : Pushdown) (path : List StateId) : Option (List StateId) :=
  let below := path.drop (m.arity (top path))
  if below = [] then none else (m.goto (top path) (top below)).map (· :: below)

/-- The first states of a run that makes `n` steps. -/
def IsRun (m : Pushdown) (n : Nat) (paths : Nat → List StateId) : Prop :=
  ∀ i < n, m.step (paths i) = some (paths (i + 1))

/-- No step takes off only states that came on top of what was there at some time before. -/
def IsSolid (m : Pushdown) (n : Nat) (paths : Nat → List StateId) : Prop :=
  ∀ i < n, ∀ j ≤ i, 0 < m.arity (top (paths i)) →
    (paths i).length < (paths j).length + m.arity (top (paths i))

variable {m : Pushdown} {n i j k : Nat} {path path' : List StateId} {paths : Nat → List StateId}

theorem step_eq_some : m.step path = some path' ↔ path.drop (m.arity (top path)) ≠ [] ∧
    ∃ next, m.goto (top path) (top (path.drop (m.arity (top path)))) = some next ∧
      path' = next :: path.drop (m.arity (top path)) := by
  simp only [step, Option.ite_none_left_eq_some, Option.map_eq_some_iff, eq_comm (a := path')]

/-- A step that takes nothing off depends only on the state on top. -/
theorem step_of_arity_eq_zero (h : m.step path = some path') (hzero : m.arity (top path) = 0)
    {other : List StateId} (hother : other ≠ []) (htop : top other = top path) :
    m.step other = some (top path' :: other) := by
  obtain ⟨-, next, hgoto, rfl⟩ := step_eq_some.mp h
  rw [hzero, List.drop_zero] at hgoto
  apply step_eq_some.mpr
  rw [htop, hzero, List.drop_zero, htop]
  exact ⟨hother, next, hgoto, rfl⟩

namespace IsRun

theorem trail_eq (h : m.IsRun n paths) (hk : i + k ≤ n) :
    trail m.step k (paths i) = some (paths (i + k)) := by
  induction k with
  | zero => rfl
  | succ k ih =>
    rw [trail_succ, ih (by omega), Option.bind_some, h (i + k) (by omega), Nat.add_assoc]

theorem ne_nil (h : m.IsRun n paths) (hi : i < n) : paths i ≠ [] := by
  intro hnil
  have hstep := h i hi
  rw [hnil, step_eq_some] at hstep
  exact hstep.1 List.drop_nil

/-- As long as nothing is taken off, a run can be made on any other states with the same top. -/
theorem exists_same (h : m.IsRun n paths) (hk : i + k ≤ n)
    (hzero : ∀ l, i ≤ l → l < i + k → m.arity (top (paths l)) = 0) {other : List StateId}
    (hother : other ≠ []) (htop : top other = top (paths i)) :
    ∃ path, trail m.step k other = some path ∧ path ≠ [] ∧ top path = top (paths (i + k)) := by
  induction k with
  | zero => exact ⟨other, rfl, hother, htop⟩
  | succ k ih =>
    obtain ⟨path, hpath, hne, hsame⟩ := ih (by omega) fun l hl hlt => hzero l hl (by omega)
    have hstep := step_of_arity_eq_zero (h (i + k) (by omega))
      (hzero (i + k) (by omega) (by omega)) hne hsame
    refine ⟨top (paths (i + k + 1)) :: path, ?_, List.cons_ne_nil _ _, rfl⟩
    rw [trail_succ, hpath, Option.bind_some, hstep]

/-- Where a state comes back before anything is taken off, the states in between are put on top for
ever. -/
theorem forever_of_pushes (h : m.IsRun n paths) (hij : i < j) (hj : j < n)
    (hzero : ∀ l, i ≤ l → l < n → m.arity (top (paths l)) = 0)
    (htop : top (paths i) = top (paths j)) : Forever m.step (paths i) := by
  refine forever_of_return (p := fun path => path ≠ [] ∧ top path = top (paths i)) ?_
    ⟨h.ne_nil (by omega), rfl⟩
  rintro path ⟨hne, hsame⟩
  obtain ⟨k, rfl⟩ := Nat.exists_eq_add_of_lt hij
  obtain ⟨path', hpath', hne', hsame'⟩ := h.exists_same (k := k + 1) (by omega)
    (fun l hl hlt => hzero l hl (by omega)) hne hsame
  exact ⟨k, path', hpath', hne', hsame'.trans htop.symm⟩

/-- Where two steps take off what is on top of equally many states, and no step between them takes
off more, these states are the same. -/
theorem drop_eq (h : m.IsRun n paths) (hsolid : m.IsSolid n paths) (hij : i ≤ j) (hj : j < n)
    (htop : top (paths i) = top (paths j)) (hpos : 0 < m.arity (top (paths i)))
    (hlength : (paths i).length = (paths j).length) :
    (paths i).drop (m.arity (top (paths i))) = (paths j).drop (m.arity (top (paths j))) := by
  -- what the first step leaves is at the bottom of all later states up to the second step
  have hsuffix : ∀ k, i + k ≤ j → (paths i).drop (m.arity (top (paths i))) <:+ paths (i + k) := by
    intro k
    induction k with
    | zero => exact fun _ => List.drop_suffix _ _
    | succ k ih =>
      intro hk
      -- the second step would be hollow if one before it had left fewer states
      obtain ⟨-, next, -, hnext⟩ := step_eq_some.mp (h (i + k) (by omega))
      have hle := hsolid j hj (i + (k + 1)) hk (htop ▸ hpos)
      rw [← Nat.add_assoc, hnext, List.length_cons, ← hlength, ← htop] at hle
      have hbelow := List.suffix_of_suffix_length_le (ih (by omega)) (List.drop_suffix _ _) (by
        rw [List.length_drop]
        omega : _ ≤ ((paths (i + k)).drop (m.arity (top (paths (i + k))))).length)
      rw [← Nat.add_assoc, hnext]
      exact hbelow.trans (List.suffix_cons _ _)
  obtain ⟨k, rfl⟩ := Nat.exists_eq_add_of_le hij
  have hsame := List.suffix_of_suffix_length_le (hsuffix k (Nat.le_refl _))
    (List.drop_suffix (m.arity (top (paths (i + k)))) (paths (i + k))) (by
      rw [List.length_drop, List.length_drop, htop, hlength])
  apply hsame.eq_of_length
  rw [List.length_drop, List.length_drop, htop, hlength]

/-- Two steps on equal states that leave equally many lead to the same states, so that the run comes
back there for ever. -/
theorem forever_of_drops (h : m.IsRun n paths) (hsolid : m.IsSolid n paths) (hij : i < j)
    (hj : j < n) (htop : top (paths i) = top (paths j)) (hpos : 0 < m.arity (top (paths i)))
    (hlength : (paths i).length = (paths j).length) : Forever m.step (paths i) := by
  have hdrop := h.drop_eq hsolid (Nat.le_of_lt hij) hj htop hpos hlength
  have hagain : some (paths (i + 1)) = some (paths (j + 1)) :=
    calc some (paths (i + 1)) = m.step (paths i) := (h i (by omega)).symm
      _ = m.step (paths j) := by rw [step, step, hdrop, htop]
      _ = some (paths (j + 1)) := h j hj
  have hforever : Forever m.step (paths (i + 1)) := by
    refine forever_of_return (p := (· = paths (i + 1))) ?_ rfl
    rintro path rfl
    obtain ⟨k, rfl⟩ := Nat.exists_eq_add_of_lt hij
    refine ⟨k, paths (i + 1), ?_, rfl⟩
    rw [h.trail_eq (by omega), hagain]
    congr 2
    omega
  exact forever_of_trail (h.trail_eq (k := 1) (by omega)) hforever

/-- How many states are left by the next step that takes off any; 0 if there is none. -/
def Leaves (m : Pushdown) (n : Nat) (paths : Nat → List StateId) (i left : Nat) : Prop :=
  (left = 0 ∧ ∀ l, i ≤ l → l < n → m.arity (top (paths l)) = 0) ∨
    ∃ k, i + k < n ∧ (∀ l, i ≤ l → l < i + k → m.arity (top (paths l)) = 0) ∧
      0 < m.arity (top (paths (i + k))) ∧ 0 < left ∧
      (paths (i + k)).length = left + m.arity (top (paths (i + k)))

theorem exists_leaves (h : m.IsRun n paths) (hsolid : m.IsSolid n paths) (hi : i < n) :
    ∃ left < (paths 0).length, Leaves m n paths i left := by
  by_cases hall : ∀ l, i ≤ l → l < n → m.arity (top (paths l)) = 0
  · refine ⟨0, ?_, Or.inl ⟨rfl, hall⟩⟩
    exact List.length_pos_of_ne_nil (h.ne_nil (by omega))
  · -- the first step that takes any states off
    have hex : ∃ k, i + k < n ∧ 0 < m.arity (top (paths (i + k))) := by
      push Not at hall
      obtain ⟨l, hil, hln, hl⟩ := hall
      obtain ⟨k, rfl⟩ := Nat.exists_eq_add_of_le hil
      exact ⟨k, hln, Nat.pos_of_ne_zero hl⟩
    classical
    obtain ⟨hk, hpos⟩ := Nat.find_spec hex
    have hfirst : ∀ l, i ≤ l → l < i + Nat.find hex → m.arity (top (paths l)) = 0 := by
      intro l hil hl
      obtain ⟨k, rfl⟩ := Nat.exists_eq_add_of_le hil
      have hmin := Nat.find_min hex (show k < Nat.find hex by omega)
      by_contra hne
      exact hmin ⟨by omega, Nat.pos_of_ne_zero hne⟩
    generalize Nat.find hex = k at hk hpos hfirst
    have hbelow := (step_eq_some.mp (h (i + k) hk)).1
    have hleft := List.length_pos_of_ne_nil hbelow
    rw [List.length_drop] at hleft
    -- it takes off more than came on top of the first path
    have hlt := hsolid (i + k) hk 0 (Nat.zero_le _) hpos
    exact ⟨(paths (i + k)).length - m.arity (top (paths (i + k))), by omega,
      Or.inr ⟨k, hk, hfirst, hpos, hleft, by omega⟩⟩

/-- A state that comes back, with the same number of states left by what comes next, comes back for
ever. -/
theorem forever_of_leaves (h : m.IsRun n paths) (hsolid : m.IsSolid n paths) (hij : i < j)
    (hj : j < n) (htop : top (paths i) = top (paths j)) {left : Nat}
    (hi : Leaves m n paths i left) (hleft : Leaves m n paths j left) :
    Forever m.step (paths i) := by
  rcases hi with ⟨-, hzero⟩ | ⟨k, hk, hzero, hpos, hleftpos, hlength⟩
  · -- nothing is taken off any more
    exact h.forever_of_pushes hij hj hzero htop
  · rcases hleft with ⟨hnone, -⟩ | ⟨k', hk', hzero', hpos', -, hlength'⟩
    · omega
    · -- the states on top are the same after each step, so both come to the next step at once
      have hsame : ∀ l, l ≤ k → j + l ≤ n → top (paths (j + l)) = top (paths (i + l)) := by
        intro l hl hjl
        obtain ⟨path, hpath, -, hpathtop⟩ := h.exists_same (i := i) (k := l) (by omega)
          (fun l' hil hlt => hzero l' hil (by omega)) (h.ne_nil hj) htop.symm
        rw [h.trail_eq hjl] at hpath
        rw [Option.some.inj hpath, hpathtop]
      obtain rfl : k = k' := by
        rcases Nat.lt_trichotomy k k' with hlt | heq | hgt
        · have hz := hzero' (j + k) (by omega) (by omega)
          rw [hsame k (Nat.le_refl k) (by omega)] at hz
          omega
        · exact heq
        · have hz := hzero (i + k') (by omega) (by omega)
          rw [← hsame k' (by omega) (by omega)] at hz
          omega
      have hk' := hsame k (Nat.le_refl k) (by omega)
      apply forever_of_trail (h.trail_eq (k := k) (by omega))
      refine h.forever_of_drops hsolid (by omega : i + k < j + k) (by omega) hk'.symm hpos ?_
      rw [hlength, hlength', hk']

/-- A solid run that is longer than there are states on top, for each number of states that may be
left, does not come to an end. -/
theorem forever_of_length (h : m.IsRun n paths) (hsolid : m.IsSolid n paths) {states : Nat}
    (hstates : ∀ i < n, top (paths i) < states) (hn : (paths 0).length * states < n) :
    Forever m.step (paths 0) := by
  have hexists : ∀ i : Fin n, ∃ left : Fin (paths 0).length, Leaves m n paths i left := by
    intro i
    obtain ⟨left, hlt, hleft⟩ := h.exists_leaves hsolid i.isLt
    exact ⟨⟨left, hlt⟩, hleft⟩
  choose left hleft using hexists
  -- two steps agree in the state on top and in the number of states left
  have hcard : Fintype.card (Fin (paths 0).length × Fin states) < Fintype.card (Fin n) := by
    rw [Fintype.card_prod, Fintype.card_fin, Fintype.card_fin, Fintype.card_fin]
    exact hn
  obtain ⟨i, j, hne, hsame⟩ := Fintype.exists_ne_map_eq_of_card_lt
    (fun i : Fin n => (left i, (⟨top (paths i), hstates i i.isLt⟩ : Fin states))) hcard
  have hrepeat : ∀ i j : Fin n, i < j → left i = left j → top (paths i) = top (paths j) →
      Forever m.step (paths 0) := by
    intro i j hij hlefts htop
    have hforever := h.forever_of_leaves hsolid hij j.isLt htop (hleft i) (hlefts ▸ hleft j)
    have htrail := h.trail_eq (i := 0) (k := i) (by omega)
    rw [Nat.zero_add] at htrail
    exact forever_of_trail htrail hforever
  obtain ⟨hlefts, htops⟩ := Prod.ext_iff.mp hsame
  have htop : top (paths i) = top (paths j) := Fin.val_eq_of_eq htops
  rcases Nat.lt_or_gt_of_ne (Fin.val_ne_of_ne hne) with hlt | hgt
  · exact hrepeat i j hlt hlefts htop
  · exact hrepeat j i hgt hlefts.symm htop.symm

end IsRun

end Pushdown

end Reformat
