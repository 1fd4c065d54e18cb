import Reformat.Proofs.Bounds
import Reformat.Proofs.Drafts
import Reformat.Proofs.Moves
import Reformat.Proofs.States

/-! The construction of an automaton with a worklist that hands out the numbers of states one by
one. It goes along with the construction that has the kernels in one numbering, step by step, so
that its list empties and each kernel is taken from it once. -/

namespace Reformat

namespace Association

variable {κ ν α : Type} [DecidableEq κ] {key : κ} {value : ν} {pairs : List (κ × ν)}

theorem get?_eq_none : get? key pairs = none ↔ key ∉ pairs.map (·.1) := by
  induction pairs with
  | nil => simp [get?]
  | cons pair pairs ih =>
    obtain ⟨k, v⟩ := pair
    rw [get?, List.map_cons, List.mem_cons]
    split
    · next hk => simp [hk]
    · next hk => rw [ih, not_or, and_iff_right (Ne.symm hk)]

/-- A new key comes last. -/
theorem put_of_not_mem (h : key ∉ pairs.map (·.1)) :
    put key value pairs = pairs ++ [(key, value)] := by
  induction pairs with
  | nil => rfl
  | cons pair pairs ih =>
    obtain ⟨k, v⟩ := pair
    rw [List.map_cons, List.mem_cons, not_or] at h
    rw [put, if_neg (Ne.symm h.1), ih h.2, List.cons_append]

theorem foldl_put (k : α → κ) (v : α → ν) (as : List α)
    (h : (pairs.map (·.1) ++ as.map k).Nodup) :
    as.foldl (fun pairs a => put (k a) (v a) pairs) pairs =
      pairs ++ as.map fun a => (k a, v a) := by
  induction as generalizing pairs with
  | nil => simp
  | cons a as ih =>
    have hnew : k a ∉ pairs.map (·.1) := by
      intro hmem
      rw [List.map_cons, List.nodup_append] at h
      exact h.2.2 _ hmem _ List.mem_cons_self rfl
    rw [List.foldl_cons, put_of_not_mem hnew, ih, List.append_assoc]
    · rfl
    · rw [List.map_append, List.append_assoc]
      exact h

theorem get?_zipIdx {α : Type} [Ord α] [DecidableEq α] (m : Numbering α) (a : α) :
    get? a m.toList.zipIdx = m.number? a := by
  cases hnumber : m.number? a with
  | none =>
    rw [get?_eq_none, List.zipIdx_map_fst]
    exact Numbering.number?_eq_none.mp hnumber
  | some i =>
    cases hget : get? a m.toList.zipIdx with
    | none =>
      rw [get?_eq_none, List.zipIdx_map_fst, ← Numbering.number?_eq_none, hnumber] at hget
      simp at hget
    | some j =>
      have hj := List.mk_mem_zipIdx_iff_getElem?.mp (mem_of_get? hget)
      rw [Numbering.toList, Array.getElem?_toList, ← Numbering.number?_eq_some, hnumber] at hj
      exact hj.symm

end Association

theorem Numbering.zipIdx_insert {α : Type} [Ord α] [Std.TransOrd α] [Std.LawfulEqOrd α]
    {m : Numbering α} {a : α} (h : m.number? a = none) :
    (m.insert a).toList.zipIdx = m.toList.zipIdx ++ [(a, m.size)] := by
  rw [toList, values_insert h, Array.toList_push, List.zipIdx_append]
  simp [toList, size]

theorem Machine.reaches_of_mem_visited {σ ρ : Type} {m : Machine σ ρ} {s t : σ}
    (h : t ∈ m.visited s) : Step.Reaches m.step s t := by
  fun_induction visited m s with
  | case1 s u hstep ih =>
    rcases List.mem_cons.mp h with rfl | h
    · exact .refl
    · exact .head hstep (ih h)
  | case2 s r hstep =>
    obtain rfl := List.mem_singleton.mp h
    exact .refl

/-- What a map on states and a map on results exchange with steps, they exchange with complete
runs. -/
theorem Step.IsRun.map {σ τ ρ π : Type} {step : σ → Step σ ρ} {step' : τ → Step τ π} {f : σ → τ}
    {k : ρ → π} (hstep : ∀ s, step' (f s) = (step s).map f k) {s : σ} {states : List σ} {r : ρ}
    (h : IsRun step s states r) : IsRun step' (f s) (states.map f) (k r) where
  first := by rw [List.head?_map, h.first, Option.map_some]
  chain := by
    rw [List.isChain_map]
    apply h.chain.imp
    intro a b hab
    rw [hstep, hab]
    rfl
  last := by
    obtain ⟨a, ha, hdone⟩ := h.last
    refine ⟨f a, by rw [List.getLast?_map, ha, Option.map_some], ?_⟩
    rw [hstep, hdone]
    rfl

/-- The construction of an automaton at some step: the kernels with their numbers, the numbered
kernels that wait for their states, the states by their numbers, and the number that comes next. -/
structure Worklist where
  numbers : List (List Item × StateId)
  pending : List (StateId × List Item)
  states : List (StateId × AutomatonState)
  nextId : StateId

namespace Worklist

/-- Only the initial kernel waits. -/
def initial : Worklist where
  numbers := [(Augmented.initialKernel, 0)]
  pending := [(0, Augmented.initialKernel)]
  states := []
  nextId := 1

/-- The number of a kernel. A new kernel gets the next number and waits for its state. -/
def number (w : Worklist) (kernel : List Item) : StateId × Worklist :=
  match Association.get? kernel w.numbers with
  | some id => (id, w)
  | none =>
    (w.nextId, { w with
      numbers := Association.put kernel w.nextId w.numbers
      pending := w.pending ++ [(w.nextId, kernel)]
      nextId := w.nextId + 1 })

/-- Adds the transitions to the kernels of groups. -/
def connect (w : Worklist) (transitions : List (Symbol × StateId)) :
    List ItemGroup → List (Symbol × StateId) × Worklist
  | [] => (transitions, w)
  | group :: groups =>
    let (next, w) := w.number group.kernel
    w.connect (Association.put group.symbol next transitions) groups

/-- Makes the state of the kernel that has waited longest. -/
def step (g : Augmented) (w : Worklist) : Step Worklist (List (StateId × AutomatonState)) :=
  match w.pending with
  | [] => .done w.states
  | (current, kernel) :: pending =>
    let items := g.closure kernel
    let (transitions, w) := { w with pending }.connect [] (ItemGroup.ofItems items)
    let state := { kernel, transitions, reduces := ItemGroup.reduces items }
    .next { w with states := Association.put current state w.states }

/-- A worklist has the kernels of a numbering, and so many of them were taken from it. -/
structure Tracks (w : Worklist) (kernels : Numbering (List Item)) (taken : Nat) : Prop where
  numbers : w.numbers = kernels.toList.zipIdx
  pending : w.pending = (kernels.toList.zipIdx.drop taken).map Prod.swap
  nextId : w.nextId = kernels.size
  taken_le : taken ≤ kernels.size

namespace Tracks

variable {w : Worklist} {kernels : Numbering (List Item)} {taken : Nat}

/-- Both give a kernel the same number. -/
theorem number (h : w.Tracks kernels taken) (kernel : List Item) :
    (kernels.insert kernel).number? kernel = some (w.number kernel).1 ∧
    (w.number kernel).2.Tracks (kernels.insert kernel) taken ∧
    (w.number kernel).2.states = w.states := by
  have hget : Association.get? kernel w.numbers = kernels.number? kernel := by
    rw [h.numbers, Association.get?_zipIdx]
  unfold Worklist.number
  cases hnumber : kernels.number? kernel with
  | some id =>
    -- a known kernel changes neither of the two
    have hsame : kernels.insert kernel = kernels := by
      rw [Numbering.insert, dif_pos (Option.isSome_of_eq_some hnumber)]
    rw [hget, hnumber, hsame]
    exact ⟨hnumber, h, rfl⟩
  | none =>
    have hvalues := Numbering.values_insert hnumber
    have hzip := Numbering.zipIdx_insert hnumber
    have hsize : (kernels.insert kernel).size = kernels.size + 1 := by
      rw [Numbering.size, hvalues, Array.size_push]
      rfl
    have hlength : taken ≤ kernels.toList.zipIdx.length := by
      rw [List.length_zipIdx]
      exact h.taken_le
    have hnew : kernel ∉ kernels.toList.zipIdx.map (·.1) := by
      rw [List.zipIdx_map_fst]
      exact Numbering.number?_eq_none.mp hnumber
    rw [hget, hnumber]
    refine ⟨?_, ⟨?_, ?_, ?_, ?_⟩, rfl⟩
    · rw [Numbering.number?_eq_some, hvalues, h.nextId]
      exact Array.getElem?_push_size
    · change Association.put kernel w.nextId w.numbers = _
      rw [hzip, h.nextId, h.numbers, Association.put_of_not_mem hnew]
    · change w.pending ++ [(w.nextId, kernel)] = _
      rw [hzip, List.drop_append_of_le_length hlength, List.map_append, h.pending, h.nextId]
      rfl
    · rw [hsize]
      exact congrArg (· + 1) h.nextId
    · rw [hsize]
      exact Nat.le_succ_of_le h.taken_le

/-- Both give the kernels of groups the same numbers. -/
theorem connect (h : w.Tracks kernels taken) (transitions : List (Symbol × StateId))
    (groups : List ItemGroup) :
    (w.connect transitions groups).1 =
      groups.foldl (fun transitions group => Association.put group.symbol
        (((Frontier.discover groups kernels).number? group.kernel).getD 0) transitions)
        transitions ∧
    (w.connect transitions groups).2.Tracks (Frontier.discover groups kernels) taken ∧
    (w.connect transitions groups).2.states = w.states := by
  induction groups generalizing w kernels transitions with
  | nil => exact ⟨rfl, h, rfl⟩
  | cons group groups ih =>
    obtain ⟨hnumber, htracks, hstates⟩ := h.number group.kernel
    obtain ⟨htransitions, htracks', hstates'⟩ :=
      ih htracks (Association.put group.symbol (w.number group.kernel).1 transitions)
    -- the kernel keeps its number when those of the other groups get theirs
    have hkept : (Frontier.discover (group :: groups) kernels).number? group.kernel =
        some (w.number group.kernel).1 := by
      apply Numbering.number?_eq_some.mpr
      exact Frontier.getElem?_discover (Numbering.number?_eq_some.mp hnumber) groups
    refine ⟨?_, htracks', hstates'.trans hstates⟩
    rw [List.foldl_cons, hkept]
    exact htransitions

end Tracks

/-- The worklist where the kernels and states of a construction have got numbers. -/
def ofFrontier {g : Augmented} (s : Frontier g) : Worklist where
  numbers := s.kernels.toList.zipIdx
  pending := (s.kernels.toList.zipIdx.drop s.states.size).map Prod.swap
  states := s.states.toList.zipIdx.map Prod.swap
  nextId := s.kernels.size

theorem map_fst_numbered {α : Type} (as : List α) :
    (as.zipIdx.map Prod.swap).map (·.1) = List.range as.length := by
  rw [List.map_map, List.range_eq_range', ← List.zipIdx_map_snd 0 as]
  rfl

theorem Tracks.eq_ofFrontier {g : Augmented} {w : Worklist} {s : Frontier g}
    (h : w.Tracks s.kernels s.states.size)
    (hstates : w.states = s.states.toList.zipIdx.map Prod.swap) : w = ofFrontier s := by
  obtain ⟨numbers, pending, states, nextId⟩ := w
  obtain ⟨rfl, rfl, rfl, -⟩ := h
  obtain rfl : states = _ := hstates
  rfl

variable {g : Augmented}

theorem pending_eq_nil {s : Frontier g} (h : s.kernels.values[s.states.size]? = none) :
    (ofFrontier s).pending = [] := by
  rw [ofFrontier, List.map_eq_nil_iff, List.drop_eq_nil_iff, List.length_zipIdx]
  exact Array.getElem?_eq_none_iff.mp h

theorem pending_eq_cons {s : Frontier g} {kernel : List Item}
    (h : s.kernels.values[s.states.size]? = some kernel) :
    (ofFrontier s).pending = (s.states.size, kernel) ::
      (s.kernels.toList.zipIdx.drop (s.states.size + 1)).map Prod.swap := by
  obtain ⟨hlt, hget⟩ := Array.getElem?_eq_some_iff.mp h
  have hlt' : s.states.size < s.kernels.toList.zipIdx.length := by
    rw [List.length_zipIdx]
    exact hlt
  rw [ofFrontier, List.drop_eq_getElem_cons hlt', List.map_cons]
  simp [Numbering.toList, hget]

/-- A step of one construction is a step of the other one. -/
theorem step_ofFrontier (s : Frontier g) : (ofFrontier s).step g =
    (Frontier.step s).map ofFrontier fun a => a.states.toList.zipIdx.map Prod.swap := by
  unfold Frontier.step
  split
  · next hnone =>
    rw [step, pending_eq_nil hnone]
    rfl
  · next kernel hkernel =>
    have hlt := (Array.getElem?_eq_some_iff.mp hkernel).1
    have htracks : { ofFrontier s with
        pending := (s.kernels.toList.zipIdx.drop (s.states.size + 1)).map Prod.swap }.Tracks
          s.kernels (s.states.size + 1) := ⟨rfl, rfl, rfl, hlt⟩
    obtain ⟨htransitions, htracks', hstates⟩ :=
      htracks.connect [] (ItemGroup.ofItems (g.closure kernel))
    -- each group has its own symbol, so that no transition replaces another one
    have hnodup : (([] : List (Symbol × StateId)).map (·.1) ++
        (ItemGroup.ofItems (g.closure kernel)).map (·.symbol)).Nodup :=
      ItemGroup.nodup_symbols_ofItems _
    rw [Association.foldl_put _ _ _ hnodup, List.nil_append] at htransitions
    have hsize : (s.states.push (Frontier.stateOf (Frontier.discover
        (ItemGroup.ofItems (g.closure kernel)) s.kernels) kernel (g.closure kernel))).size =
          s.states.size + 1 := Array.size_push _
    rw [step, pending_eq_cons hkernel]
    refine congrArg Step.next (Tracks.eq_ofFrontier ?_ ?_)
    · rw [hsize]
      exact ⟨htracks'.numbers, htracks'.pending, htracks'.nextId, htracks'.taken_le⟩
    · dsimp only
      rw [htransitions, hstates]
      -- the number of the new state is the next one
      have hnew : s.states.size ∉ (ofFrontier s).states.map (·.1) := by
        rw [ofFrontier, map_fst_numbered, Array.length_toList]
        exact List.not_mem_range_self
      rw [Association.put_of_not_mem hnew]
      simp only [ofFrontier, Array.toList_push, List.zipIdx_append, List.map_append]
      rw [Nat.zero_add, Array.length_toList]
      rfl

/-- The run of the worklist is that of the other construction. -/
theorem isRun_visited (g : Augmented) : Step.IsRun (step g) initial
    (((Frontier.machine g).visited (.initial g)).map ofFrontier)
    (g.automaton.states.toList.zipIdx.map Prod.swap) :=
  ((Frontier.machine g).isRun_visited (.initial g)).map step_ofFrontier

/-- The kernels that the steps of a run take from the list, with their numbers. -/
def taken (run : List Worklist) : List (StateId × List Item) := run.filterMap (·.pending.head?)

theorem taken_cons (w : Worklist) (run : List Worklist) :
    taken (w :: run) = w.pending.head?.toList ++ taken run := by
  rw [taken, List.filterMap_cons]
  cases w.pending.head? <;> rfl

/-- The kernels that are taken from the list are those of the states that are made, in the same
order. -/
theorem taken_visited (s : Frontier g) : ∃ more,
    ((Frontier.machine g).run s).states.toList = s.states.toList ++ more ∧
    taken (((Frontier.machine g).visited s).map ofFrontier) =
      (more.zipIdx s.states.size).map (fun (state, id) => (id, state.kernel)) ∧
    ((Frontier.machine g).visited s).length = more.length + 1 := by
  fun_induction Machine.visited (Frontier.machine g) s with
  | case1 s t hstep ih =>
    obtain ⟨more, hstates, htaken, hlength⟩ := ih
    obtain ⟨kernel, hkernel, -, hpush⟩ := Frontier.step_next hstep
    have hpending : (ofFrontier s).pending.head? = some (s.states.size, kernel) := by
      rw [pending_eq_cons hkernel]
      rfl
    rw [hpush, Array.toList_push, List.append_assoc] at hstates
    rw [hpush, Array.size_push] at htaken
    refine ⟨Frontier.stateOf t.kernels kernel (g.closure kernel) :: more, ?_, ?_, ?_⟩
    · rw [Machine.run_of_next hstep]
      exact hstates
    · rw [List.map_cons, taken_cons, hpending, htaken]
      rfl
    · rw [List.length_cons, hlength, List.length_cons]
  | case2 s a hstep =>
    obtain ⟨hnone, hstates⟩ := Frontier.step_done hstep
    have hpending : (ofFrontier s).pending.head? = none := by
      rw [pending_eq_nil hnone]
      rfl
    refine ⟨[], ?_, ?_, rfl⟩
    · rw [Machine.run_of_done hstep, hstates, List.append_nil]
    · rw [List.map_singleton, taken_cons, hpending]
      rfl

/-- A kernel that has a number gets its state. -/
theorem exists_state_of_number {s : Frontier g} (hs : s.Invariant) {kernel : List Item}
    {q : StateId} (hkernel : s.kernels.values[q]? = some kernel) :
    ∃ state, ((Frontier.machine g).run s).states[q]? = some state ∧ state.kernel = kernel := by
  refine Machine.run_induction (m := Frontier.machine g)
    (fun s => s.Invariant ∧ s.kernels.values[q]? = some kernel)
    (fun a => ∃ state, a.states[q]? = some state ∧ state.kernel = kernel) ?_ ?_ s ⟨hs, hkernel⟩
  · rintro s t ⟨hs, hkernel⟩ hstep
    obtain ⟨_, -, hkernels, -⟩ := Frontier.step_next hstep
    rw [hkernels]
    exact ⟨hs.step hstep, Frontier.getElem?_discover hkernel _⟩
  · rintro s a ⟨hs, hkernel⟩ hstep
    obtain ⟨hnone, hstates⟩ := Frontier.step_done hstep
    have hlt := (Array.getElem?_eq_some_iff.mp hkernel).1
    have hle := Array.getElem?_eq_none_iff.mp hnone
    have hstate := Array.getElem?_eq_getElem (Nat.lt_of_lt_of_le hlt hle)
    have hmade := hs.made q _ hstate
    rw [hstates]
    exact ⟨_, hstate, Option.some.inj (hmade.kernel.symm.trans hkernel)⟩

theorem step_eq_done {w : Worklist} {states : List (StateId × AutomatonState)}
    (h : w.step g = .done states) : w.pending = [] ∧ w.states = states := by
  unfold step at h
  split at h
  · next hpending => exact ⟨hpending, Step.done.inj h⟩
  · simp at h

/-- A complete run of the construction. Nothing waits at its end, and no kernel was taken from the
list twice. -/
structure Exhausts (g : Augmented) (run : List Worklist)
    (states : List (StateId × AutomatonState)) : Prop where
  isRun : Step.IsRun (step g) initial run states
  empty : ∃ w, run.getLast? = some w ∧ w.pending = [] ∧ w.states = states
  /-- The taken kernels are those of the states, in the order in which the states are made. -/
  taken_eq : taken run = states.map fun (id, state) => (id, state.kernel)
  /-- Whatever got a number or waited was taken. -/
  all : ∀ w ∈ run, ∀ kernel id, (kernel, id) ∈ w.numbers ∨ (id, kernel) ∈ w.pending →
    (id, kernel) ∈ taken run
  nodup : ((taken run).map (·.2)).Nodup
  length_eq : run.length = states.length + 1
  length_le : states.length ≤ Nat.pow 2 g.items.length

end Worklist

namespace Augmented

variable {g : Augmented} {kernel : List Item} {i : Item}

theorem nodup_kernels (g : Augmented) : (g.automaton.states.toList.map (·.kernel)).Nodup := by
  rw [List.nodup_iff_pairwise_ne, List.pairwise_iff_getElem]
  intro p q hp hq hpq heq
  rw [List.length_map] at hp hq
  rw [List.getElem_map, List.getElem_map] at heq
  have hs : g.automaton.states[p]? = some g.automaton.states[p] := Array.getElem?_eq_getElem hp
  have ht : g.automaton.states[q]? = some g.automaton.states[q] := Array.getElem?_eq_getElem hq
  exact Nat.ne_of_lt hpq (eq_of_kernel_eq hs ht heq)

theorem isKernel_of_mem {s : AutomatonState} (hs : s ∈ g.automaton.states) :
    g.IsKernel s.kernel := by
  obtain ⟨q, hq⟩ := Array.mem_iff_getElem?.mp hs
  obtain ⟨kernels, hc⟩ := Frontier.exists_complete g
  exact (hc.made q s hq).proper

/-- An item has its dot in its rule, which has no more elements than 16 bits can count. -/
def Fits (g : Augmented) (i : Item) : Prop :=
  ∃ rule, g.rule? i.rule = some rule ∧ i.dot ≤ rule.arity ∧ rule.arity < UInt16.size

/-- The items that are made where the state of a kernel is made: those of the kernel itself, those
that are found or wait while the closure is made, and those whose dots are moved. To move a dot does
not overflow. -/
structure StaysInRange (g : Augmented) (kernel : List Item) : Prop where
  own : ∀ i ∈ kernel, g.Fits i
  known : ∀ s, Step.Reaches (Closing.step g) { queue := .ofList kernel } s →
    ∀ i, s.Knows i → g.Fits i
  moved : ∀ group ∈ ItemGroup.ofItems (g.closure kernel), ∀ t ∈ group.items,
    g.Fits t.item ∧ g.Fits t.item.advance ∧
      (UInt16.ofNat t.item.dot + 1).toNat = t.item.advance.dot

theorem InClosure.mem_items (hkernel : g.IsKernel kernel) (h : g.InClosure kernel i) :
    i ∈ g.items := by
  cases h with
  | kernel hi => exact hkernel.subset hi
  | alternative _ _ hid =>
    obtain ⟨rule, hrule, -⟩ := rule?_of_mem_alternatives hid
    exact Augmented.mem_items.mpr ⟨rule, hrule, Nat.zero_le _⟩

theorem toNat_succ {n : Nat} (h : n + 1 < UInt16.size) : (UInt16.ofNat n + 1).toNat = n + 1 := by
  rw [UInt16.toNat_add, UInt16.toNat_ofNat', Nat.mod_add_mod]
  exact Nat.mod_eq_of_lt h

theorem staysInRange (hrules : ∀ id rule, g.rule? id = some rule → rule.arity < UInt16.size)
    (hkernel : g.IsKernel kernel) : g.StaysInRange kernel := by
  have hfits : ∀ i ∈ g.items, g.Fits i := by
    intro i hi
    obtain ⟨rule, hrule, hdot⟩ := mem_items.mp hi
    exact ⟨rule, hrule, hdot, hrules _ _ hrule⟩
  refine ⟨fun i hi => hfits i (hkernel.subset hi), ?_, ?_⟩
  · intro s hreaches i hi
    have hinvariant : s.Invariant g kernel :=
      hreaches.preserves (fun _ _ hs hstep => hs.step hstep) Closing.invariant_initial
    exact hfits i ((hinvariant.sound i hi).mem_items hkernel)
  · intro group hgroup t ht
    obtain ⟨hmem, hnext⟩ := ItemGroup.mem_of_mem_ofItems hgroup ht
    obtain ⟨hclosure, htitle⟩ := mem_closure_iff.mp hmem
    -- the moved dot is within the rule too, and this bounds the sum
    have hadvance := hfits _ (advance_mem_items (htitle.symm.trans hnext))
    have hlt : t.item.dot + 1 < UInt16.size := by
      obtain ⟨rule, -, hdot, harity⟩ := hadvance
      exact Nat.lt_of_le_of_lt hdot harity
    exact ⟨hfits _ (hclosure.mem_items hkernel), hadvance, toNat_succ hlt⟩

end Augmented

namespace Worklist

/-- The construction ends for every grammar. -/
theorem exhausts (g : Augmented) : Exhausts g
    (((Frontier.machine g).visited (.initial g)).map ofFrontier)
    (g.automaton.states.toList.zipIdx.map Prod.swap) := by
  have hrun := isRun_visited g
  obtain ⟨more, hstates, htaken, hlength⟩ := taken_visited (Frontier.initial g)
  obtain rfl : g.automaton.states.toList = more := hstates
  have htaken' : taken (((Frontier.machine g).visited (.initial g)).map ofFrontier) =
      (g.automaton.states.toList.zipIdx.map Prod.swap).map
        fun (id, state) => (id, state.kernel) := by
    rw [htaken, List.map_map]
    rfl
  refine ⟨hrun, ?_, htaken', ?_, ?_, ?_, ?_⟩
  · obtain ⟨w, hw, hdone⟩ := hrun.last
    exact ⟨w, hw, step_eq_done hdone⟩
  · intro w hw kernel id hnumber
    obtain ⟨s, hs, rfl⟩ := List.mem_map.mp hw
    -- what waits has a number
    have hmem : (kernel, id) ∈ s.kernels.toList.zipIdx := by
      rcases hnumber with hnumber | hpending
      · exact hnumber
      · obtain ⟨entry, hentry, heq⟩ := List.mem_map.mp hpending
        rw [← Prod.swap_swap entry, heq] at hentry
        exact List.mem_of_mem_drop hentry
    have hkernel : s.kernels.values[id]? = some kernel := by
      rw [← Array.getElem?_toList]
      exact List.mk_mem_zipIdx_iff_getElem?.mp hmem
    have hreaches := Machine.reaches_of_mem_visited hs
    have hinvariant : s.Invariant :=
      hreaches.preserves (fun _ _ hs hstep => hs.step hstep) (Frontier.invariant_initial g)
    -- the kernel has a state in the end, and these are the states whose kernels were taken
    obtain ⟨state, hstate, rfl⟩ := exists_state_of_number hinvariant hkernel
    rw [← Machine.run_of_reaches hreaches] at hstate
    rw [htaken, List.mem_map]
    refine ⟨(state, id), ?_, rfl⟩
    rw [← Array.getElem?_toList] at hstate
    exact List.mk_mem_zipIdx_iff_getElem?.mpr hstate
  · have hkernels : (g.automaton.states.toList.zipIdx.map fun p => p.1.kernel) =
        g.automaton.states.toList.map (·.kernel) := by
      rw [← List.zipIdx_map_fst 0 g.automaton.states.toList, List.map_map, List.zipIdx_map_fst]
      rfl
    rw [htaken, List.map_map]
    exact hkernels ▸ g.nodup_kernels
  · rw [List.length_map, hlength, List.length_map, List.length_zipIdx]
  · have hle := Augmented.length_kernels_le g.nodup_kernels fun k hk => by
      obtain ⟨s, hs, rfl⟩ := List.mem_map.mp hk
      exact Augmented.isKernel_of_mem (Array.mem_toList_iff.mp hs)
    rw [List.length_map] at hle
    rwa [List.length_map, List.length_zipIdx]

end Worklist

/-- For whatever grammar was built, over whatever alphabet, and whatever it is to start with, the
construction of the automaton ends, takes each kernel from its list exactly once, and has all dots
within their rules and within 16 bits. -/
theorem construction_ends (alphabet : Alphabet) (calls : List Draft.Call) (start : String) :
    ∃ run states,
      Worklist.Exhausts ⟨(Draft.Filling.ofCalls alphabet calls).draft.grammar, start⟩ run states ∧
      ∀ entry ∈ Worklist.taken run, Augmented.StaysInRange
        ⟨(Draft.Filling.ofCalls alphabet calls).draft.grammar, start⟩ entry.2 := by
  have hagrees := Draft.Filling.agrees_ofCalls alphabet calls
  generalize (Draft.Filling.ofCalls alphabet calls).draft = draft at hagrees
  generalize (Draft.Filling.ofCalls alphabet calls).added = added at hagrees
  -- a dot is at most the number of elements, which was checked when the rule was added
  have hrules : ∀ id rule, Augmented.rule? ⟨draft.grammar, start⟩ id = some rule →
      rule.arity < UInt16.size := by
    intro id rule hrule
    rw [Augmented.rule?] at hrule
    split at hrule
    · obtain rfl := Option.some.inj hrule
      change 1 < UInt16.size
      decide
    · have hmem := Array.mem_toList_iff.mpr (Grammar.mem_rules_of_rule? hrule)
      rw [hagrees.grammar_rules] at hmem
      exact Nat.lt_succ_of_le (hagrees.proper rule hmem).size
  have hexhausts := Worklist.exhausts ⟨draft.grammar, start⟩
  refine ⟨_, _, hexhausts, fun entry hentry => Augmented.staysInRange hrules ?_⟩
  rw [hexhausts.taken_eq, List.map_map] at hentry
  obtain ⟨⟨state, id⟩, hmem, rfl⟩ := List.mem_map.mp hentry
  exact Augmented.isKernel_of_mem (Array.mem_toList_iff.mp (List.fst_mem_of_mem_zipIdx hmem))

end Reformat
