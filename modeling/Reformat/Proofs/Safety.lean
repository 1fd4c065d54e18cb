import Reformat.Pattern.Engine
import Reformat.Proofs.Derivations
import Reformat.Proofs.References
import Reformat.Proofs.Segments

/-! Attempts with any table, made for a grammar or not: their stacks are paths of the table, and
what a move uses is there. -/

namespace Reformat

theorem Text.IsBoundary.le {text : List Char} {k : Nat} (h : IsBoundary text k) :
    k ≤ byteLength text := by
  obtain ⟨rest, hrest⟩ := h
  obtain ⟨u, rfl, rfl⟩ := eq_append_of_dropBytes? hrest
  rw [byteLength_append]
  exact Nat.le_add_right _ _

/-- A frame leads to a state: in the state below it, its terminal is shifted to there, or its name
has a goto to there. -/
inductive ParseTable.Leads (t : ParseTable) : Frame → StateId → Prop
  | shift {below next : StateId} {text : String} {terminal : TerminalId} {u : Terminal}
      (hu : t.terminals[terminal]? = some u)
      (haction : (t.row below).action? terminal = some (.shift next)) :
      Leads t ⟨below, .terminal u.pattern, text⟩ next
  | goto {below next : StateId} {text name : String}
      (hgoto : (t.row below).goto? name = some next) :
      Leads t ⟨below, .nonterminal name, text⟩ next

theorem ParseTable.Leads.lt {t : ParseTable} {frame : Frame} {q : StateId} (h : t.Leads frame q) :
    q < t.numStates := by
  cases h with
  | shift _ haction => exact lt_of_shift haction
  | goto hgoto => exact lt_of_goto? hgoto

namespace Attempt

/-- The stack of an attempt is a path of the table: the lowest frame was pushed in the initial
state, and every frame leads to the state that the next one was pushed in, the topmost to the
current state. The attempt is between two characters of the input, and not before its start. -/
structure Placed (t : ParseTable) (input : String) (start : Nat) (a : Attempt) : Prop where
  bottom : a.path.getLast? = some 0
  leads : ∀ q frame, (q, frame) ∈ a.path.zip a.stack → t.Leads frame q
  states : ∀ q ∈ a.path, q < t.numStates
  rest : Text.dropBytes? a.offset input.toList = some a.rest
  start_le : start ≤ a.offset
  le_length : a.offset ≤ Text.byteLength input.toList

/-- What the next move uses is there. A shift reads a terminal of the table up to the end of a
character and goes to a state of the table. A reduction is one of the table; it fails where it asks
for more frames than there are, and else looks for its goto in a state of the table. -/
structure Provided (t : ParseTable) (input : String) (a : Attempt) : Prop where
  shift : ∀ terminal next n, t.move? a.state a.rest = some (.shift terminal next n) →
    terminal < t.terminals.size ∧ next < t.numStates ∧
      Text.IsBoundary input.toList (a.offset + Text.byteLength (a.rest.take n))
  reduce : ∀ id, t.move? a.state a.rest = some (.reduce id) → id < t.reductions.size
  underflow : ∀ id, a.stack.length < (t.reduction id).arity →
    a.reduce t id = .done (.error (.internal (.stackUnderflow (t.reduction id).name)))
  exposed : ∀ id, (t.reduction id).arity ≤ a.stack.length →
    ∃ p, a.path[(t.reduction id).arity]? = some p ∧ p < t.numStates

variable {t : ParseTable} {input : String} {k : Nat} {rest : List Char} {a b : Attempt}

theorem reduce_of_underflow {id : ReductionId} (h : a.stack.length < (t.reduction id).arity) :
    a.reduce t id = .done (.error (.internal (.stackUnderflow (t.reduction id).name))) := by
  simp only [reduce, takeFrames?_eq, if_neg (Nat.not_le.mpr h)]

namespace Placed

theorem initial (t : ParseTable) (hrest : Text.dropBytes? k input.toList = some rest) :
    (Attempt.initial t rest k).Placed t input k where
  bottom := rfl
  leads := by simp [Attempt.initial]
  states := by
    intro q hq
    obtain rfl : q = 0 := List.mem_singleton.mp hq
    exact t.numStates_pos
  rest := hrest
  start_le := Nat.le_refl k
  le_length := Text.IsBoundary.le ⟨rest, hrest⟩

/-- One more frame goes on top of what is left of the stack. -/
theorem push (h : a.Placed t input k) {n : Nat} {frame : Frame}
    (hp : a.path[n]? = some frame.state) (hleads : t.Leads frame b.state)
    (hstack : b.stack = frame :: a.stack.drop n)
    (hrest : Text.dropBytes? b.offset input.toList = some b.rest) (hle : a.offset ≤ b.offset) :
    b.Placed t input k := by
  -- the states from the one below the frame on are the end of the old path
  have hpath : b.path = b.state :: a.path.drop n := by
    rw [drop_path hp, path, hstack, List.map_cons]
  have hlt := (List.getElem?_eq_some_iff.mp hp).1
  refine ⟨?_, ?_, ?_, hrest, Nat.le_trans h.start_le hle, Text.IsBoundary.le ⟨_, hrest⟩⟩
  · rw [hpath, List.getLast?_cons, List.getLast?_drop, if_neg (Nat.not_le.mpr hlt), h.bottom]
    rfl
  · intro q other hmem
    rw [hpath, hstack, List.zip_cons_cons, List.mem_cons] at hmem
    rcases hmem with heq | hmem
    · obtain ⟨rfl, rfl⟩ := Prod.mk.inj heq
      exact hleads
    · rw [List.zip, ← List.drop_zipWith] at hmem
      exact h.leads q other (List.mem_of_mem_drop hmem)
  · intro q hq
    rw [hpath, List.mem_cons] at hq
    rcases hq with rfl | hq
    · exact hleads.lt
    · exact h.states q (List.mem_of_mem_drop hq)

/-- Every step keeps the stack a path of the table. -/
theorem next (h : a.Placed t input k) (hstep : a.step t = .next b) : b.Placed t input k := by
  rcases freeStep_cases (freeStep_of_step hstep) with ⟨terminal, next, n, hm, rfl⟩ |
    ⟨id, -, hreduce⟩
  · obtain ⟨-, -, haction, -⟩ := ParseTable.action?_of_move? hm
    have hrest := h.rest
    rw [← List.take_append_drop n a.rest] at hrest
    refine h.push (n := 0) rfl ?_ rfl (Text.dropBytes?_add hrest) (Nat.le_add_right _ _)
    have hu := Array.getElem?_eq_getElem (ParseTable.lt_of_action? haction)
    rw [ParseTable.pattern_eq hu]
    exact .shift hu haction
  · obtain ⟨-, p, text, next, hp, -, hgoto, rfl⟩ := next_of_reduce_cases hreduce
    exact h.push hp (.goto hgoto) rfl h.rest (Nat.le_refl _)

theorem of_reaches (hrest : Text.dropBytes? k input.toList = some rest)
    (h : Step.Reaches (step t) (.initial t rest k) a) : a.Placed t input k :=
  h.preserves (fun _ _ hplaced hstep => hplaced.next hstep) (initial t hrest)

theorem provided (h : a.Placed t input k) : a.Provided t input where
  shift terminal next n hm := by
    obtain ⟨-, -, haction, -⟩ := ParseTable.action?_of_move? hm
    have hrest := h.rest
    rw [← List.take_append_drop n a.rest] at hrest
    exact ⟨ParseTable.lt_of_action? haction, ParseTable.lt_of_shift haction,
      _, Text.dropBytes?_add hrest⟩
  reduce id hm := ParseTable.lt_of_reduce hm
  underflow id hlt := reduce_of_underflow hlt
  exposed id hle := by
    obtain ⟨p, hp⟩ := exists_path hle
    exact ⟨p, hp, h.states p (List.mem_of_getElem? hp)⟩

end Placed

namespace Consumes

variable {tokens : List (String × List Char)}

/-- No token is empty, and an attempt has gone forward by the tokens that it consumed. -/
theorem offset_eq (h : a.Consumes t tokens b) : (∀ token ∈ tokens, token.2 ≠ []) ∧
    b.offset = a.offset + Text.byteLength (tokens.flatMap (·.2)) := by
  induction h with
  | refl => exact ⟨by simp, rfl⟩
  | step _ hstep ih =>
    obtain ⟨hne, hoffset⟩ := ih
    rcases freeStep_cases (freeStep_of_step hstep) with ⟨terminal, next, n, hm, rfl⟩ |
      ⟨id, hm, hreduce⟩
    · -- a shift consumes one token more
      rw [token?, hm]
      have hlength := length_of_shift hm
      refine ⟨List.forall_mem_append.mpr ⟨hne, List.forall_mem_singleton.mpr ?_⟩, ?_⟩
      · apply List.ne_nil_of_length_pos
        rw [List.length_take]
        omega
      · rw [Option.toList_some, List.flatMap_append, List.flatMap_singleton, Text.byteLength_append,
          ← Nat.add_assoc, ← hoffset]
        rfl
    · obtain ⟨-, p, text, next, -, -, -, rfl⟩ := next_of_reduce_cases hreduce
      rw [token?, hm, Option.toList_none, List.append_nil]
      exact ⟨hne, hoffset⟩

/-- An attempt is where it began if and only if it has consumed nothing. -/
theorem offset_eq_iff (h : a.Consumes t tokens b) : a.offset = b.offset ↔ tokens = [] := by
  obtain ⟨hne, hoffset⟩ := h.offset_eq
  constructor
  · intro heq
    have hempty : tokens.flatMap (·.2) = [] := Text.byteLength_eq_zero.mp (by omega)
    rw [List.eq_nil_iff_forall_not_mem]
    intro token htoken
    exact hne token htoken (List.flatMap_eq_nil_iff.mp hempty token htoken)
  · rintro rfl
    exact hoffset.symm

end Consumes

end Attempt

namespace ParseTable

variable {t : ParseTable} {input : String} {k offset : Nat} {found : Match}

/-- A match is what an attempt accepted that consumed some tokens. -/
theorem exists_consumes_of_ok (h : t.parseAt input k = .ok found) : ∃ rest tokens a id parse,
    Text.dropBytes? k input.toList = some rest ∧
    (Attempt.initial t rest k).Consumes t tokens a ∧
    t.move? a.state a.rest = some (.reduce id) ∧ a.reduce t id = .done (.ok parse) ∧
    found = ⟨k, a.offset, parse.output⟩ := by
  obtain ⟨rest, parse, hrest, hattempt, rfl⟩ := parseAt_eq_ok h
  obtain ⟨a, hreaches, ⟨-, hstalled⟩ | ⟨-, herror⟩ | ⟨id, hm, hdone⟩⟩ := t.attempt_cases rest k
  · simp [hattempt] at hstalled
  · simp [hattempt] at herror
  · obtain ⟨tokens, hconsumes⟩ := Attempt.Consumes.exists_of_reaches hreaches
    rw [hattempt] at hdone
    rw [(Attempt.stop_of_reduce hdone).1]
    exact ⟨rest, tokens, a, id, parse, hrest, hconsumes, hm, hdone, rfl⟩

/-- Where an attempt fails for the text and not for the table, it has come to the byte that is
reported. -/
theorem exists_reaches_of_error {rest : List Char}
    (hrest : Text.dropBytes? k input.toList = some rest)
    (h : t.parseAt input k = .error (.syntaxError offset) ∨
      t.parseAt input k = .error (.stalled offset)) :
    ∃ a, Step.Reaches (Attempt.step t) (.initial t rest k) a ∧ a.offset = offset := by
  have hattempt : t.attempt rest k = .error (.syntaxError offset) ∨
      t.attempt rest k = .error (.stalled offset) := by
    rw [parseAt, hrest] at h
    cases hresult : t.attempt rest k with
    | ok parse => simp [hresult, Except.map] at h
    | error e => simpa [hresult, Except.map] using h
  rcases hattempt with hsyntax | hstalled
  · obtain ⟨a, hreaches, -, hoffset⟩ := exists_of_syntaxError hsyntax
    exact ⟨a, hreaches, hoffset⟩
  · obtain ⟨a, hreaches, ⟨-, hresult⟩ | ⟨-, hresult⟩ | ⟨id, -, hdone⟩⟩ := t.attempt_cases rest k
    · rw [hstalled] at hresult
      exact ⟨a, hreaches, (AttemptError.stalled.inj (Except.error.inj hresult)).symm⟩
    · simp [hstalled] at hresult
    · -- a reduction is accepted, leads on, or is inconsistent
      rw [hstalled] at hdone
      have hsound : ∀ e, a.reduce t id ≠ .done (.error (.internal e)) := by simp [hdone]
      obtain ⟨p, text, -, -, ⟨-, hok⟩ | ⟨-, next, -, hnext⟩⟩ := Attempt.reduce_cases hsound
      · simp [hdone] at hok
      · simp [hdone] at hnext

theorem parseAt_of_not_isBoundary (h : ¬ Text.IsBoundary input.toList k) :
    t.parseAt input k = .error (.syntaxError k) := by
  have hnone : Text.dropBytes? k input.toList = none := by
    rw [Option.eq_none_iff_forall_ne_some]
    exact fun rest hrest => h ⟨rest, hrest⟩
  rw [parseAt, hnone]

end ParseTable

/-- With any table, an attempt uses only what is there: its states, terminals and reductions are
those of the table, it takes no more frames than there are, its stack is a path of the table from
the initial state, and it reads the input from character to character. A match begins where it was
asked for and is empty just if nothing was shifted; errors in the text are reported between two
characters that the attempt has come to, or at its start if that is inside a character or past the
end. -/
theorem execution_safe (t : ParseTable) (input : String) (k : Nat) :
    (¬ Text.IsBoundary input.toList k → t.parseAt input k = .error (.syntaxError k)) ∧
    (∀ rest a, Text.dropBytes? k input.toList = some rest →
      Step.Reaches (Attempt.step t) (.initial t rest k) a →
        a.Placed t input k ∧ a.Provided t input) ∧
    (∀ found, t.parseAt input k = .ok found → found.start = k ∧ k ≤ found.stop ∧
      Text.IsBoundary input.toList k ∧ Text.IsBoundary input.toList found.stop ∧
      ∃ rest tokens a id parse, Text.dropBytes? k input.toList = some rest ∧
        (Attempt.initial t rest k).Consumes t tokens a ∧
        t.move? a.state a.rest = some (.reduce id) ∧ a.reduce t id = .done (.ok parse) ∧
        found = ⟨k, a.offset, parse.output⟩ ∧ (found.isEmpty = true ↔ tokens = [])) ∧
    ∀ offset, Text.IsBoundary input.toList k →
      (t.parseAt input k = .error (.syntaxError offset) ∨
        t.parseAt input k = .error (.stalled offset)) →
      Text.IsBoundary input.toList offset ∧ k ≤ offset ∧
        offset ≤ Text.byteLength input.toList := by
  refine ⟨ParseTable.parseAt_of_not_isBoundary, ?_, ?_, ?_⟩
  · intro rest a hrest hreaches
    have hplaced := Attempt.Placed.of_reaches hrest hreaches
    exact ⟨hplaced, hplaced.provided⟩
  · intro found hfound
    -- the parse was made by a step of an attempt that is in its place
    obtain ⟨rest, tokens, a, id, parse, hrest, hconsumes, hm, hdone, rfl⟩ :=
      ParseTable.exists_consumes_of_ok hfound
    have hplaced := Attempt.Placed.of_reaches hrest hconsumes.reaches
    refine ⟨rfl, hplaced.start_le, ⟨rest, hrest⟩, ⟨a.rest, hplaced.rest⟩, rest, tokens, a, id,
      parse, hrest, hconsumes, hm, hdone, rfl, ?_⟩
    rw [Match.isEmpty, decide_eq_true_iff]
    exact hconsumes.offset_eq_iff
  · rintro offset ⟨rest, hrest⟩ herror
    obtain ⟨a, hreaches, rfl⟩ := ParseTable.exists_reaches_of_error hrest herror
    have hplaced := Attempt.Placed.of_reaches hrest hreaches
    exact ⟨⟨a.rest, hplaced.rest⟩, hplaced.start_le, hplaced.le_length⟩

/-- A table for no grammar: after an `x` it asks for two parts where there is one. -/
def handmadeTable : Except DefinitionError ParseTable :=
  ParseTable.assemble "E" (Terminal.ofPattern? Pattern.engine "x").toArray
    #[.accept, ⟨"E", 0, []⟩, ⟨"P", 2, []⟩] #[
    { actions := [(0, .shift 1)], gotos := [("E", 2)], otherwise := some 1 },
    { otherwise := some 2 },
    { otherwise := some 0 }]

theorem handmade_execution_safe : ∃ t, handmadeTable = .ok t ∧
    t.parseAt "xé" 0 = .error (.internal (.stackUnderflow "P")) ∧
    t.parseAt "xé" 2 = .error (.syntaxError 2) ∧ t.parseAt "xé" 1 = .ok ⟨1, 1, ""⟩ ∧
    Text.IsBoundary "xé".toList 1 ∧
    (∀ a, Step.Reaches (Attempt.step t) (.initial t "xé".toList 0) a →
      a.Placed t "xé" 0 ∧ a.Provided t "xé") ∧
    ∃ rest tokens a id parse, Text.dropBytes? 1 "xé".toList = some rest ∧
      (Attempt.initial t rest 1).Consumes t tokens a ∧
      t.move? a.state a.rest = some (.reduce id) ∧ a.reduce t id = .done (.ok parse) ∧
      ⟨1, 1, ""⟩ = Match.mk 1 a.offset parse.output ∧
      ((Match.mk 1 1 "").isEmpty = true ↔ tokens = []) := by
  obtain ⟨t, ht, hcheck⟩ := Except.exists_ok (x := handmadeTable)
    (p := fun t => t.parseAt "xé" 0 = .error (.internal (.stackUnderflow "P")) ∧
      t.parseAt "xé" 2 = .error (.syntaxError 2) ∧ t.parseAt "xé" 1 = .ok ⟨1, 1, ""⟩)
    (by decide +kernel)
  obtain ⟨hinternal, hsyntax, hmatch⟩ := of_decide_eq_true hcheck
  obtain ⟨-, -, hboundary, -, hconsumes⟩ := (execution_safe t "xé" 1).2.2.1 _ hmatch
  refine ⟨t, ht, hinternal, hsyntax, hmatch, hboundary, fun a hreaches => ?_, hconsumes⟩
  exact (execution_safe t "xé" 0).2.1 _ a rfl hreaches

end Reformat
