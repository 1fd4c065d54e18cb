/-!
Machines that step from state to state. A run follows the steps to the result; that it ends is part
of the machine.
-/

namespace Reformat

/-- What a step leads to: one more state, or the result. -/
inductive Step (σ ρ : Type) where
  | next (s : σ)
  | done (r : ρ)

/-- A step function together with a weight that every step reduces. -/
structure Machine (σ ρ : Type) where
  step : σ → Step σ ρ
  weight : σ → Nat
  lighter : ∀ {s t}, step s = .next t → weight t < weight s

namespace Step

variable {σ ρ : Type}

/-- What a step function leads to in at most `n` steps. -/
def iterate (step : σ → Step σ ρ) : Nat → σ → Step σ ρ
  | 0, s => .next s
  | n + 1, s =>
    match step s with
    | .next t => iterate step n t
    | .done r => .done r

end Step

namespace Machine

variable {σ ρ : Type}

/-- The result that the steps from a state lead to. -/
def run (m : Machine σ ρ) (s : σ) : ρ :=
  match _h : m.step s with
  | .next t => m.run t
  | .done r => r
termination_by m.weight s
decreasing_by exact m.lighter _h

/-- The states on the way to the result. -/
def visited (m : Machine σ ρ) (s : σ) : List σ :=
  match _h : m.step s with
  | .next t => s :: m.visited t
  | .done _ => [s]
termination_by m.weight s
decreasing_by exact m.lighter _h

variable {m : Machine σ ρ}

theorem run_of_next {s t : σ} (h : m.step s = .next t) : m.run s = m.run t := by
  rw [run]
  split <;> simp_all

theorem run_of_done {s : σ} {r : ρ} (h : m.step s = .done r) : m.run s = r := by
  rw [run]
  split <;> simp_all

/-- What holds at the start and is kept by each step holds where the run ends. -/
theorem run_induction (motive : σ → Prop) (property : ρ → Prop)
    (next : ∀ s t, motive s → m.step s = .next t → motive t)
    (done : ∀ s r, motive s → m.step s = .done r → property r)
    (s : σ) (start : motive s) : property (m.run s) := by
  fun_induction run m s with
  | case1 s t h ih => exact ih (next s t start h)
  | case2 s r h => exact done s r start h

end Machine

end Reformat
