import Std.Data.TreeSet

/-!
First-in, first-out queues that ignore values already waiting in them.
-/

namespace Reformat

open Std

/-- Values leave from the front; those at the back came last first. The set holds all of them. -/
structure Queue (α : Type) [Ord α] where
  front : List α := []
  back : List α := []
  waiting : TreeSet α := ∅

namespace Queue

variable {α : Type} [Ord α]

instance : EmptyCollection (Queue α) := ⟨{}⟩

/-- The waiting values, the next one first. -/
def toList (q : Queue α) : List α := q.front ++ q.back.reverse

/-- Lets a value wait, unless it does already. -/
def push (q : Queue α) (a : α) : Queue α :=
  if q.waiting.contains a then q
  else { q with back := a :: q.back, waiting := q.waiting.insert a }

/-- The next value and the queue without it. -/
def pop? (q : Queue α) : Option (α × Queue α) :=
  match q.front with
  | a :: front => some (a, { q with front, waiting := q.waiting.erase a })
  | [] =>
    match q.back.reverse with
    | [] => none
    | a :: front => some (a, { front, back := [], waiting := q.waiting.erase a })

/-- A queue filled from a list. -/
def ofList (as : List α) : Queue α := as.foldl push ∅

theorem toList_push (q : Queue α) (a : α) :
    (q.push a).toList = if q.waiting.contains a then q.toList else q.toList ++ [a] := by
  unfold push
  split <;> simp [toList]

theorem toList_eq_cons_of_pop? {q r : Queue α} {a : α} (h : q.pop? = some (a, r)) :
    q.toList = a :: r.toList := by
  unfold pop? at h
  unfold toList
  split at h
  · simp only [Option.some.injEq, Prod.mk.injEq] at h
    obtain ⟨rfl, rfl⟩ := h
    simp_all
  · split at h
    · simp at h
    · simp only [Option.some.injEq, Prod.mk.injEq] at h
      obtain ⟨rfl, rfl⟩ := h
      simp_all

theorem pop?_eq_none {q : Queue α} : q.pop? = none ↔ q.toList = [] := by
  unfold pop? toList
  split
  · simp_all
  · split <;> simp_all

theorem length_push_le (q : Queue α) (a : α) : (q.push a).toList.length ≤ q.toList.length + 1 := by
  rw [toList_push]
  split <;> simp

theorem length_foldl_push_le (as : List α) (q : Queue α) :
    (as.foldl push q).toList.length ≤ q.toList.length + as.length := by
  induction as generalizing q with
  | nil => simp
  | cons a as ih =>
    have h1 := ih (q.push a)
    have h2 := q.length_push_le a
    simp only [List.foldl_cons, List.length_cons]
    omega

end Queue

end Reformat
