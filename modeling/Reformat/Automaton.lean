import Reformat.Kernel

/-!
The shift-reduce automaton of an augmented grammar. Its states are the distinct kernels that are
reached from the accepting rule; each kernel is treated once, so the construction ends.
-/

namespace Reformat

open Std

abbrev StateId := Nat

/-- States are shown with at least three digits. -/
def stateText (id : StateId) : String :=
  let digits := toString id
  "S#" ++ "".pushn '0' (3 - digits.length) ++ digits

/-- A state: its kernel, the states that symbols lead to, and the rules that may be reduced. -/
structure AutomatonState where
  kernel : List Item
  transitions : List (Symbol × StateId)
  reduces : List RuleId
  deriving DecidableEq

namespace AutomatonState

/-- The states that terminals lead to. -/
def shifts (s : AutomatonState) : List (String × StateId) :=
  s.transitions.filterMap fun (symbol, next) =>
    match symbol with
    | .terminal pattern => some (pattern, next)
    | .nonterminal _ => none

/-- The states that nonterminals lead to. -/
def gotos (s : AutomatonState) : List (String × StateId) :=
  s.transitions.filterMap fun (symbol, next) =>
    match symbol with
    | .terminal _ => none
    | .nonterminal name => some (name, next)

/-- A titled list of lines; nothing if there are none. -/
def listing (title : String) (lines : List String) : String :=
  if lines.isEmpty then "" else s!"## {title}:\n" ++ String.join (lines.map fun l => s!"- {l}\n")

def text (g : Augmented) (s : AutomatonState) : String :=
  "## kernels:\n" ++ String.join (s.kernel.map fun item => s!"- {g.itemText item}\n") ++
    listing "shifts" (s.shifts.map fun (pattern, next) => s!"/{pattern}/ => {stateText next}") ++
    listing "gotos" (s.gotos.map fun (name, next) => s!"{name} => {stateText next}") ++
    listing "reduces" (s.reduces.map fun id => ((g.rule? id).map (·.text)).getD "")

end AutomatonState

/-- The states by their numbers; state 0 is the initial one. -/
structure Automaton where
  states : Array AutomatonState
  deriving DecidableEq

def Automaton.text (g : Augmented) (a : Automaton) : String :=
  "\n".intercalate <| a.states.toList.zipIdx.map fun (state, id) =>
    s!"#### State {stateText id}\n{state.text g}"

/-- An automaton in the making: all kernels found so far, and the states of the first of them. -/
structure Frontier (g : Augmented) where
  kernels : Numbering (List Item)
  states : Array AutomatonState
  proper : ∀ k ∈ kernels.toList, g.IsKernel k

namespace Frontier

variable {g : Augmented}

/-- Numbers the kernels of groups of items. -/
def discover (groups : List ItemGroup) (kernels : Numbering (List Item)) :
    Numbering (List Item) :=
  groups.foldl (fun kernels group => kernels.insert group.kernel) kernels

theorem mem_discover {groups : List ItemGroup} {kernels : Numbering (List Item)} {k : List Item}
    (h : k ∈ (discover groups kernels).toList) :
    k ∈ kernels.toList ∨ ∃ group ∈ groups, k = group.kernel := by
  induction groups generalizing kernels with
  | nil => exact .inl h
  | cons group groups ih =>
    rcases ih h with h | ⟨group', hmem, rfl⟩
    · rw [Numbering.toList_insert] at h
      split at h
      · exact .inl h
      · rcases List.mem_append.1 h with h | h
        · exact .inl h
        · exact .inr ⟨group, List.mem_cons_self, List.mem_singleton.1 h⟩
    · exact .inr ⟨group', List.mem_cons_of_mem _ hmem, rfl⟩

/-- The state of a kernel, where all kernels that it leads to are numbered. -/
def stateOf (kernels : Numbering (List Item)) (kernel : List Item) (items : List TitledItem) :
    AutomatonState where
  kernel
  transitions := (ItemGroup.ofItems items).map fun group =>
    (group.symbol, (kernels.number? group.kernel).getD 0)
  reduces := ItemGroup.reduces items

/-- Makes the state of the next kernel. -/
def step (s : Frontier g) : Step (Frontier g) Automaton :=
  match s.kernels.values[s.states.size]? with
  | none => .done ⟨s.states⟩
  | some kernel =>
    let items := g.closure kernel
    let kernels := discover (ItemGroup.ofItems items) s.kernels
    .next {
      kernels
      states := s.states.push (stateOf kernels kernel items)
      proper := fun k hk => by
        rcases mem_discover hk with h | ⟨group, hgroup, rfl⟩
        · exact s.proper k h
        · exact g.isKernel_of_group hgroup }

/-- The machine that makes all states. -/
def machine (g : Augmented) : Machine (Frontier g) Automaton where
  step := step
  weight s := Nat.pow 2 g.items.length - s.states.size
  lighter := by
    intro s t h
    unfold step at h
    split at h
    · simp at h
    · next kernel hkernel =>
      obtain rfl := Step.next.inj h
      have h1 := (Array.getElem?_eq_some_iff.1 hkernel).1
      have h2 := Augmented.length_kernels_le s.kernels.nodup_toList s.proper
      simp only [Numbering.toList, Array.length_toList] at h2
      simp only [Array.size_push]
      omega

/-- Only the initial kernel is found. -/
def initial (g : Augmented) : Frontier g where
  kernels := Numbering.insert ∅ Augmented.initialKernel
  states := #[]
  proper := fun k hk => by
    obtain rfl : k = Augmented.initialKernel := by
      simpa [Numbering.toList_insert, Numbering.contains_iff] using hk
    exact g.isKernel_initial

end Frontier

/-- The automaton of an augmented grammar; its states are numbered in the order in which they are
found. -/
def Augmented.automaton (g : Augmented) : Automaton := (Frontier.machine g).run (.initial g)

end Reformat
