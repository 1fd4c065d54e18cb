import Reformat.Proofs.BreadthFirst

/-! Queues under any sequence of operations. What comes out of a queue is what comes out of a plain
list to which values are added at the end if they are not there; the same goes for a queue whose set
of values is an array that fills its gaps from the end. -/

namespace Reformat

open Std

/-- What may be done to a queue. -/
inductive Operation (α : Type) where
  | push (a : α)
  | pop

/-- What the operations make of a state, and which value a pop gives. -/
structure Line (σ α : Type) where
  empty : σ
  push : σ → α → σ
  pop : σ → Option α × σ

namespace Line

variable {σ τ α : Type}

/-- The state after values have been pushed. -/
def fill (m : Line σ α) (as : List α) : σ := as.foldl m.push m.empty

/-- The results of the pops, and the state in the end. -/
def run (m : Line σ α) (s : σ) : List (Operation α) → List (Option α) × σ
  | [] => ([], s)
  | .push a :: ops => m.run (m.push s a) ops
  | .pop :: ops =>
    let (a?, next) := m.pop s
    let (results, last) := m.run next ops
    (a? :: results, last)

/-- A relation between the states of two lines that the operations keep, while the same values are
popped. -/
structure Simulates (m : Line σ α) (m' : Line τ α) (R : σ → τ → Prop) : Prop where
  empty : R m.empty m'.empty
  push : ∀ {s t}, R s t → ∀ a, R (m.push s a) (m'.push t a)
  pop : ∀ {s t}, R s t → (m.pop s).1 = (m'.pop t).1 ∧ R (m.pop s).2 (m'.pop t).2

namespace Simulates

variable {m : Line σ α} {m' : Line τ α} {R : σ → τ → Prop} {s : σ} {t : τ}

theorem fill (h : m.Simulates m' R) (as : List α) : R (m.fill as) (m'.fill as) := by
  have hfoldl : ∀ {s : σ} {t : τ}, R s t → R (as.foldl m.push s) (as.foldl m'.push t) := by
    induction as with
    | nil => exact fun hst => hst
    | cons a as ih => exact fun hst => ih (h.push hst a)
  exact hfoldl h.empty

theorem run (h : m.Simulates m' R) (hst : R s t) (ops : List (Operation α)) :
    (m.run s ops).1 = (m'.run t ops).1 ∧ R (m.run s ops).2 (m'.run t ops).2 := by
  induction ops generalizing s t with
  | nil => exact ⟨rfl, hst⟩
  | cons op ops ih =>
    cases op with
    | push a => exact ih (h.push hst a)
    | pop =>
      obtain ⟨hsame, hnext⟩ := h.pop hst
      obtain ⟨hresults, hlast⟩ := ih hnext
      exact ⟨List.cons_eq_cons.mpr ⟨hsame, hresults⟩, hlast⟩

end Simulates

/-- A plain list, to which a value is added at the end unless it is there. -/
def plain (α : Type) [DecidableEq α] : Line (List α) α where
  empty := []
  push values a := if a ∈ values then values else values ++ [a]
  pop values := (values.head?, values.tail)

section

variable [DecidableEq α] {values : List α} {a : α}

theorem fill_plain (as : List α) : (plain α).fill as = as.eraseDups := by
  induction as using List.reverseRecOn with
  | nil => rfl
  | append_singleton as a ih =>
    rw [fill] at ih
    rw [fill, List.foldl_append, ih, eraseDups_concat]
    exact if_congr List.mem_eraseDups rfl rfl

/-- A value that is not in the line comes into it by a push only. -/
theorem not_mem_run_plain (ha : a ∉ values) (ops : List (Operation α)) (hops : .push a ∉ ops) :
    a ∉ ((plain α).run values ops).2 := by
  induction ops generalizing values with
  | nil => exact ha
  | cons op ops ih =>
    rw [List.mem_cons, not_or] at hops
    obtain ⟨hop, hrest⟩ := hops
    cases op with
    | push b =>
      -- only `a` itself could put `a` into the line
      have hab : a ≠ b := fun h => hop (h ▸ rfl)
      refine ih ?_ hrest
      dsimp only [plain]
      split
      · exact ha
      · simp [ha, hab]
    | pop => exact ih (fun h => ha (List.mem_of_mem_tail h)) hrest

theorem nodup_run_plain (hv : values.Nodup) (ops : List (Operation α)) :
    ((plain α).run values ops).2.Nodup := by
  induction ops generalizing values with
  | nil => exact hv
  | cons op ops ih =>
    cases op with
    | push b =>
      refine ih ?_
      dsimp only [plain]
      split
      · exact hv
      · next hb => exact hv.append (List.nodup_singleton b) (List.disjoint_singleton.mpr hb)
    | pop => exact ih (hv.sublist (List.tail_sublist values))

/-- What a line with a set has in common with a plain list, to which the same has been done. -/
structure Agrees (m : Line σ α) (values waiting : σ → List α) (run : List (Option α) × σ)
    (plainRun : List (Option α) × List α) : Prop where
  results : run.1 = plainRun.1
  values_eq : values run.2 = plainRun.2
  nodup : (values run.2).Nodup
  /-- The set has what is in the line, and nothing else. -/
  perm : (waiting run.2).Perm (values run.2)
  /-- The next value gets to the end of the line when it is pushed again, whatever else has been
  done since it was popped. -/
  again : ∀ a, (m.pop run.2).1 = some a → ∀ later, .push a ∉ later →
    values (m.push (m.run (m.pop run.2).2 later).2 a) =
      values (m.run (m.pop run.2).2 later).2 ++ [a]

theorem Simulates.agrees {m : Line σ α} {f g : σ → List α} {R : σ → List α → Prop}
    (h : m.Simulates (plain α) R) (hf : ∀ {s l}, R s l → f s = l)
    (hg : ∀ {s l}, R s l → (g s).Perm l) (as : List α) (ops : List (Operation α)) :
    Agrees m f g (m.run (m.fill as) ops) ((plain α).run ((plain α).fill as) ops) := by
  obtain ⟨hresults, hR⟩ := h.run (h.fill as) ops
  have hnodup := nodup_run_plain (fill_plain as ▸ nodup_eraseDups as) ops
  constructor
  case results => exact hresults
  case values_eq => exact hf hR
  case nodup => exact hf hR ▸ hnodup
  case perm => exact hf hR ▸ hg hR
  case again =>
    intro a hpop later hlater
    obtain ⟨hhead, hnext⟩ := h.pop hR
    generalize ((plain α).run ((plain α).fill as) ops).2 = l at *
    have hcons : l = a :: l.tail := (List.cons_head?_tail (hhead.symm.trans hpop)).symm
    -- in a line without repetitions, what is popped is not there any more
    have hout : a ∉ l.tail := by
      rw [hcons] at hnodup
      exact (List.nodup_cons.mp hnodup).1
    have hstill := not_mem_run_plain hout later hlater
    obtain ⟨-, hlast⟩ := h.run hnext later
    have hpush := hf (h.push hlast a)
    rw [hpush, hf hlast]
    exact if_neg hstill

end

end Line

namespace Queue

variable {α : Type} [Ord α]

/-- The operations of queues. -/
def line (α : Type) [Ord α] : Line (Queue α) α where
  empty := ∅
  push := push
  pop q :=
    match q.pop? with
    | some (a, r) => (some a, r)
    | none => (none, q)

variable [TransOrd α] [LawfulEqOrd α]

theorem WellFormed.waiting_perm {q : Queue α} (hq : q.WellFormed) :
    q.waiting.toList.Perm q.toList := by
  rw [List.perm_ext_iff_of_nodup ?_ hq.nodup]
  · intro a
    rw [TreeSet.mem_toList, ← hq.waiting_iff a]
    rfl
  · refine q.waiting.distinct_toList.imp fun h hab => h ?_
    exact LawfulEqOrd.compare_eq_iff_eq.mpr hab

/-- A queue goes along with the list of its values. -/
theorem simulates_plain [DecidableEq α] :
    (line α).Simulates (Line.plain α) fun q values => q.WellFormed ∧ q.toList = values where
  empty := ⟨wellFormed_empty, rfl⟩
  push := by
    rintro q values ⟨hq, rfl⟩ a
    refine ⟨hq.push a, (toList_push q a).trans ?_⟩
    exact if_congr (hq.waiting_iff a) rfl rfl
  pop := by
    rintro q values ⟨hq, rfl⟩
    dsimp only [line, Line.plain]
    cases hpop : q.pop? with
    | none =>
      have hempty := pop?_eq_none.mp hpop
      rw [hempty]
      exact ⟨rfl, hq, rfl⟩
    | some next =>
      obtain ⟨a, r⟩ := next
      rw [toList_eq_cons_of_pop? hpop]
      exact ⟨rfl, hq.pop? hpop, rfl⟩

end Queue

/-- Takes a value out of an array. The last value takes its place. -/
def swapRemove {α : Type} [DecidableEq α] (a : α) : List α → List α
  | [] => []
  | b :: bs =>
    if b = a then
      match bs.getLast? with
      | some last => last :: bs.dropLast
      | none => []
    else b :: swapRemove a bs

/-- A queue whose set of values is an array, in any order. -/
structure ArrayQueue (α : Type) where
  values : List α := []
  waiting : List α := []

section

variable {α : Type} [DecidableEq α]

theorem swapRemove_perm (a : α) (as : List α) : (swapRemove a as).Perm (as.erase a) := by
  induction as with
  | nil => exact List.Perm.refl _
  | cons b bs ih =>
    rw [swapRemove]
    by_cases hb : b = a
    · rw [if_pos hb, hb, List.erase_cons_head]
      cases hlast : bs.getLast? with
      | none => rw [List.getLast?_eq_none_iff.mp hlast]
      | some last =>
        -- the last value comes first now, which is a matter of order only
        have hbs := List.dropLast_append_getLast? last hlast
        exact (List.perm_append_singleton last _).symm.trans (List.Perm.of_eq hbs)
    · rw [if_neg hb, List.erase_cons_tail (by simpa using hb)]
      exact ih.cons b

namespace ArrayQueue

/-- The operations of queues with arrays. -/
def line (α : Type) [DecidableEq α] : Line (ArrayQueue α) α where
  empty := {}
  push q a :=
    if a ∈ q.waiting then q
    else { values := q.values ++ [a], waiting := q.waiting ++ [a] }
  pop q :=
    match q.values with
    | [] => (none, q)
    | a :: values => (some a, { values, waiting := swapRemove a q.waiting })

/-- The array keeps up with the line, though not with its order. -/
theorem simulates_plain :
    (line α).Simulates (Line.plain α) fun q values =>
      q.waiting.Perm q.values ∧ q.values = values where
  empty := ⟨List.Perm.refl _, rfl⟩
  push := by
    rintro q values ⟨hq, rfl⟩ a
    dsimp only [line, Line.plain]
    by_cases ha : a ∈ q.values
    · rw [if_pos (hq.mem_iff.mpr ha), if_pos ha]
      exact ⟨hq, rfl⟩
    · rw [if_neg (fun h => ha (hq.mem_iff.mp h)), if_neg ha]
      exact ⟨hq.append_right [a], rfl⟩
  pop := by
    rintro q values ⟨hq, rfl⟩
    dsimp only [line, Line.plain]
    cases hvalues : q.values with
    | nil => exact ⟨rfl, hq, hvalues⟩
    | cons a values =>
      -- the value is in the array once, so that erasing its first occurrence leaves the others
      have herase := hq.erase a
      rw [hvalues, List.erase_cons_head] at herase
      exact ⟨rfl, (swapRemove_perm a q.waiting).trans herase, rfl⟩

end ArrayQueue

end

/-- A queue gives what a plain list would give in its place. So does a queue with an array. -/
theorem queue_refines_list {α : Type} [Ord α] [TransOrd α] [LawfulEqOrd α] [DecidableEq α]
    (as : List α) (ops : List (Operation α)) :
    let plainRun := (Line.plain α).run ((Line.plain α).fill as) ops
    (Queue.line α).Agrees Queue.toList (·.waiting.toList)
        ((Queue.line α).run (.ofList as) ops) plainRun ∧
      (ArrayQueue.line α).Agrees ArrayQueue.values ArrayQueue.waiting
        ((ArrayQueue.line α).run ((ArrayQueue.line α).fill as) ops) plainRun := by
  constructor
  · refine Queue.simulates_plain.agrees (fun h => h.2) ?_ as ops
    rintro q _ ⟨hq, rfl⟩
    exact hq.waiting_perm
  · refine ArrayQueue.simulates_plain.agrees (fun h => h.2) ?_ as ops
    rintro q _ ⟨hq, rfl⟩
    exact hq

/-- A letter that waits is not let in again, and one that has left is. -/
theorem letters_take_turns :
    let ops : List (Operation String) := [.push "a", .pop, .push "b", .pop, .push "b", .pop, .pop]
    let results := [some "b", some "a", some "b", none]
    ((Queue.line String).run (.ofList ["b", "a", "b"]) ops).1 = results ∧
      ((ArrayQueue.line String).run ((ArrayQueue.line String).fill ["b", "a", "b"]) ops).1 =
        results := by
  intro ops results
  have h := queue_refines_list ["b", "a", "b"] ops
  exact ⟨h.1.results.trans (by decide), h.2.results.trans (by decide)⟩

end Reformat
