import Reformat.Proofs.References

/-! The check of a table, one reference after the other. It passes the tables all of whose
references are valid, and stops at the first one that is not: the states come in their order, and in
each of them first the actions, then the gotos, then the reduction without a terminal. -/

namespace Reformat

namespace Except

variable {ε α β : Type} {as : List α} {e : ε}

theorem seq_eq_ok {x y : Except ε Unit} :
    (x >>= fun _ => y) = .ok () ↔ x = .ok () ∧ y = .ok () := by
  rw [bind_eq_ok, Unique.exists_iff]

theorem seq_eq_error {x y : Except ε Unit} :
    (x >>= fun _ => y) = .error e ↔ x = .error e ∨ x = .ok () ∧ y = .error e := by
  rw [bind_eq_error, Unique.exists_iff]

theorem exists_map_eq_ok {x : Except ε α} {f : α → β} :
    (∃ b, x.map f = .ok b) ↔ ∃ a, x = .ok a := by
  simp only [map_eq_ok]
  exact ⟨fun ⟨_, a, h, _⟩ => ⟨a, h⟩, fun ⟨a, h⟩ => ⟨f a, a, h, rfl⟩⟩

theorem map_injective {f : α → β} (hf : f.Injective) :
    (Except.map f : Except ε α → Except ε β).Injective := by
  intro x y h
  cases y with
  | error e => exact map_eq_error.mp h
  | ok b =>
    obtain ⟨a, rfl, hab⟩ := map_eq_ok.mp h
    rw [hf hab]

theorem forM_eq_ok {f : α → Except ε Unit} : forM as f = .ok () ↔ ∀ a ∈ as, f a = .ok () := by
  induction as with
  | nil => exact ⟨fun _ a ha => absurd ha List.not_mem_nil, fun _ => rfl⟩
  | cons a as ih => rw [List.forM_cons, seq_eq_ok, ih, List.forall_mem_cons]

/-- A loop fails with the first of its steps that does. -/
theorem forM_eq_error {f : α → Except ε Unit} :
    forM as f = .error e ↔ ∃ before a after, as = before ++ a :: after ∧
      (∀ b ∈ before, f b = .ok ()) ∧ f a = .error e := by
  induction as with
  | nil =>
    constructor
    · intro h
      exact nomatch h
    · rintro ⟨before, a, after, hsplit, -⟩
      exact absurd hsplit.symm (List.append_ne_nil_of_right_ne_nil _ (List.cons_ne_nil a after))
  | cons a as ih =>
    rw [List.forM_cons, seq_eq_error, ih]
    constructor
    · rintro (ha | ⟨ha, before, b, after, rfl, hbefore, hb⟩)
      · exact ⟨[], a, as, rfl, fun b hb => absurd hb List.not_mem_nil, ha⟩
      · exact ⟨a :: before, b, after, rfl, List.forall_mem_cons.mpr ⟨ha, hbefore⟩, hb⟩
    · rintro ⟨before, b, after, hsplit, hbefore, hb⟩
      -- either the first step fails itself, or it is among those that pass
      cases before with
      | nil =>
        obtain ⟨rfl, rfl⟩ := List.cons.inj hsplit
        exact .inl hb
      | cons c before =>
        obtain ⟨rfl, rfl⟩ := List.cons.inj hsplit
        obtain ⟨ha, hbefore⟩ := List.forall_mem_cons.mp hbefore
        exact .inr ⟨ha, before, b, after, rfl, hbefore, hb⟩

/-- In a loop with numbers, the number of a step is how many come before it. -/
theorem forM_zipIdx_eq_error {f : α × Nat → Except ε Unit} :
    forM as.zipIdx f = .error e ↔ ∃ before a after, as = before ++ a :: after ∧
      (∀ x ∈ before.zipIdx, f x = .ok ()) ∧ f (a, before.length) = .error e := by
  rw [forM_eq_error]
  constructor
  · rintro ⟨_, x, _, hsplit, hbefore, hx⟩
    obtain ⟨before, rest, rfl, rfl, hrest⟩ := List.zipIdx_eq_append_iff.mp hsplit
    obtain ⟨a, after, rfl, rfl, -⟩ := List.zipIdx_eq_cons_iff.mp hrest.symm
    rw [Nat.zero_add] at hx
    exact ⟨before, a, after, rfl, hbefore, hx⟩
  · rintro ⟨before, a, after, rfl, hbefore, ha⟩
    refine ⟨before.zipIdx, (a, before.length), after.zipIdx (before.length + 1), ?_, hbefore, ha⟩
    rw [List.zipIdx_append, List.zipIdx_cons, Nat.zero_add]

theorem forM_congr {f g : α → Except ε Unit} (h : ∀ a ∈ as, f a = g a) :
    forM as f = forM as g := by
  induction as with
  | nil => rfl
  | cons a as ih =>
    obtain ⟨ha, has⟩ := List.forall_mem_cons.mp h
    rw [List.forM_cons, List.forM_cons, ha, ih has]

theorem forM_flatMap (f : β → Except ε Unit) (g : α → List β) :
    forM (as.flatMap g) f = forM as fun a => forM (g a) f := by
  induction as with
  | nil => rfl
  | cons a as ih => rw [List.flatMap_cons, List.forM_append, List.forM_cons, ih]

theorem forM_toList (f : α → Except ε Unit) (a? : Option α) :
    forM a?.toList f = forM a? f := by
  cases a? with
  | none => rfl
  | some a =>
    rw [Option.toList_some, List.forM_cons, List.forM_nil, bind_pure_unit, Option.forM_some]

/-- Fails unless something holds. -/
def require (p : Prop) [Decidable p] (e : ε) : Except ε Unit := if p then .ok () else .error e

theorem require_eq_ok {p : Prop} [Decidable p] : require p e = .ok () ↔ p := by
  rw [require]
  split
  · next h => exact iff_of_true rfl h
  · next h => exact iff_of_false nofun h

theorem require_eq_error {p : Prop} [Decidable p] {e' : ε} :
    require p e = .error e' ↔ ¬ p ∧ e' = e := by
  rw [require]
  split
  · next h => exact iff_of_false nofun fun h' => h'.1 h
  · next h => simp only [h, Except.error.injEq, not_false_eq_true, true_and, eq_comm]

/-- Fails with the first of some errors, if there is one. -/
def ofErrors : List ε → Except ε Unit
  | [] => .ok ()
  | e :: _ => .error e

theorem ofErrors_eq_ok {es : List ε} : ofErrors es = .ok () ↔ es = [] := by
  cases es with
  | nil => exact iff_of_true rfl rfl
  | cons e es => exact iff_of_false nofun nofun

theorem ofErrors_ite (p : Prop) [Decidable p] (e : ε) :
    ofErrors (if p then [] else [e]) = require p e :=
  apply_ite ..

theorem ofErrors_append (es es' : List ε) :
    ofErrors (es ++ es') = (ofErrors es >>= fun _ => ofErrors es') := by
  cases es with
  | nil => rfl
  | cons e es => rfl

theorem ofErrors_flatMap (f : α → List ε) :
    ofErrors (as.flatMap f) = forM as fun a => ofErrors (f a) := by
  induction as with
  | nil => rfl
  | cons a as ih => rw [List.flatMap_cons, ofErrors_append, List.forM_cons, ih]

end Except

theorem forall_mem_zipIdx {α : Type} {p : α → Prop} {as : List α} :
    (∀ x ∈ as.zipIdx, p x.1) ↔ ∀ a ∈ as, p a := by
  rw [← List.forall_mem_map, List.zipIdx_map_fst]

/-- The number of the state in some place, in 32 bits. -/
def StateId.ofIndex (i : Nat) : StateId := (UInt32.ofNat i).toNat

theorem StateId.ofIndex_of_lt {i : Nat} (h : i < UInt32.size) : ofIndex i = i := by
  rw [ofIndex, UInt32.toNat_ofNat', Nat.mod_eq_of_lt h]

/-- What a row can refer to. -/
inductive Reference where
  | terminal (id : TerminalId)
  | state (id : StateId)
  | reduction (id : ReductionId)

namespace Reference

def IsValid (e : Extent) : Reference → Prop
  | terminal id => id < e.terminals
  | state id => id < e.states
  | reduction id => id < e.reductions

instance {e : Extent} : DecidablePred (IsValid e)
  | terminal id => Nat.decLt id e.terminals
  | state id => Nat.decLt id e.states
  | reduction id => Nat.decLt id e.reductions

/-- The error for a reference of a state that leads nowhere. -/
def toError (source : StateId) : Reference → DefinitionError
  | terminal id => .unknownTerminal source id
  | state id => .unknownState source id
  | reduction id => .unknownReduction source id

def check (e : Extent) (source : StateId) (r : Reference) : Except DefinitionError Unit :=
  Except.require (r.IsValid e) (r.toError source)

end Reference

/-- Where an action leads. -/
def Action.target : Action → Reference
  | .shift next => .state next
  | .reduce id => .reduction id

namespace Row

variable {e : Extent} {source : StateId} {row : Row} {error : DefinitionError}

/-- All that a row refers to: its actions, each terminal before its target, then the gotos, and last
the reduction without a terminal. -/
def references (row : Row) : List Reference :=
  row.actions.flatMap (fun x => [.terminal x.1, x.2.target]) ++
    row.gotos.map (fun x => .state x.2) ++ row.otherwise.toList.map .reduction

/-- Looks at what a row refers to, and stops at the first reference that is not valid. -/
def check (e : Extent) (source : StateId) (row : Row) : Except DefinitionError Unit := do
  forM row.actions fun x => do
    (Reference.terminal x.1).check e source
    x.2.target.check e source
  forM row.gotos fun x => (Reference.state x.2).check e source
  forM row.otherwise fun id => (Reference.reduction id).check e source

theorem check_eq (e : Extent) (source : StateId) (row : Row) :
    row.check e source = forM row.references (Reference.check e source) := by
  have hpair (r r' : Reference) : forM [r, r'] (Reference.check e source) =
      (r.check e source >>= fun _ => r'.check e source) := by
    rw [List.forM_cons, List.forM_cons, List.forM_nil, bind_pure_unit]
  rw [references, List.forM_append, List.forM_append, Except.forM_flatMap, List.forM_map,
    List.forM_map, Except.forM_toList, bind_assoc]
  simp only [hpair]
  rfl

theorem within_iff : row.Within e ↔ ∀ r ∈ row.references, r.IsValid e := by
  simp only [references, List.forall_mem_append, List.forall_mem_flatMap, List.forall_mem_map,
    List.mem_pair, forall_eq_or_imp, forall_eq, Option.mem_toList]
  -- only the target of an action needs to be looked at by cases
  constructor
  · intro h
    refine ⟨⟨fun x hx => ⟨h.terminal x.1 x.2 hx, ?_⟩, fun x => h.goto x.1 x.2⟩, h.otherwise⟩
    obtain ⟨id, action⟩ := x
    cases action with
    | shift next => exact h.shift id next hx
    | reduce rule => exact h.reduce id rule hx
  · rintro ⟨⟨hactions, hgotos⟩, hotherwise⟩
    exact {
      terminal := fun id action hx => (hactions (id, action) hx).1
      shift := fun id next hx => (hactions (id, .shift next) hx).2
      reduce := fun id rule hx => (hactions (id, .reduce rule) hx).2
      goto := fun name next hx => hgotos (name, next) hx
      otherwise := hotherwise }

theorem check_eq_ok : row.check e source = .ok () ↔ row.Within e := by
  simp only [check_eq, Except.forM_eq_ok, Reference.check, Except.require_eq_ok, within_iff]

theorem check_eq_error : row.check e source = .error error ↔ ∃ before r after,
    row.references = before ++ r :: after ∧ (∀ r' ∈ before, r'.IsValid e) ∧ ¬ r.IsValid e ∧
      error = r.toError source := by
  simp only [check_eq, Except.forM_eq_error, Reference.check, Except.require_eq_ok,
    Except.require_eq_error]

/-- The check goes through the errors of a row in their order. -/
theorem ofErrors_rowErrors (e : Extent) (source : StateId) (row : Row) :
    Except.ofErrors (e.rowErrors source row) = row.check e source := by
  have hterminal (id : TerminalId) : Except.ofErrors (e.terminalErrors source id) =
      (Reference.terminal id).check e source := Except.ofErrors_ite ..
  have hstate (next : StateId) : Except.ofErrors (e.stateErrors source next) =
      (Reference.state next).check e source := Except.ofErrors_ite ..
  have hreduction (id : ReductionId) : Except.ofErrors (e.reductionErrors source id) =
      (Reference.reduction id).check e source := Except.ofErrors_ite ..
  have haction (action : Action) : Except.ofErrors (e.actionErrors source action) =
      action.target.check e source := by
    cases action with
    | shift next => exact hstate next
    | reduce id => exact hreduction id
  rw [Extent.rowErrors, Except.ofErrors_append, Except.ofErrors_append, Except.ofErrors_flatMap,
    Except.ofErrors_flatMap, Except.ofErrors_flatMap, bind_assoc]
  simp only [Except.ofErrors_append, hterminal, haction, hstate, hreduction]
  rw [Except.forM_toList]
  rfl

end Row

/-- What the references between the parts of a table can lead to. -/
def Extent.ofParts (terminals : Array Terminal) (reductions : Array Reduction) (rows : Array Row) :
    Extent :=
  ⟨terminals.size, reductions.size, rows.size⟩

section

variable (number : Nat → StateId) (terminals : Array Terminal) (reductions : Array Reduction)
  (rows : Array Row)

/-- Parts that a table can be put together from. -/
structure IsWellFormed : Prop where
  rows_ne : rows ≠ #[]
  accept : ∃ accept, reductions[0]? = some accept ∧ accept.arity = 1
  within : ∀ row ∈ rows, row.Within (.ofParts terminals reductions rows)

/-- What is wrong with the parts of a table and comes before all else that is. -/
inductive FirstViolation : DefinitionError → Prop
  | emptyStates (h : rows = #[]) : FirstViolation .emptyStates
  | missingAccept (hrows : rows ≠ #[])
      (h : ∀ accept, reductions[0]? = some accept → accept.arity ≠ 1) :
      FirstViolation .missingAccept
  | reference (hrows : rows ≠ #[])
      (haccept : ∃ accept, reductions[0]? = some accept ∧ accept.arity = 1)
      {earlier later : List Row} {row : Row} (hsplit : rows.toList = earlier ++ row :: later)
      (hearlier : ∀ row' ∈ earlier, row'.Within (.ofParts terminals reductions rows))
      {before after : List Reference} {r : Reference}
      (hreferences : row.references = before ++ r :: after)
      (hbefore : ∀ r' ∈ before, r'.IsValid (.ofParts terminals reductions rows))
      (h : ¬ r.IsValid (.ofParts terminals reductions rows)) :
      FirstViolation (r.toError (number earlier.length))

end

namespace ParseTable

variable {number : Nat → StateId} {terminals : Array Terminal} {reductions : Array Reduction}
  {rows : Array Row} {error : DefinitionError}

def checkStates (rows : Array Row) : Except DefinitionError Unit :=
  Except.require (¬ rows.isEmpty) .emptyStates

/-- The first reduction has to be the accepting one. -/
def checkAccept (reductions : Array Reduction) : Except DefinitionError Unit :=
  match reductions[0]? with
  | none => .error .missingAccept
  | some accept => Except.require (accept.arity = 1) .missingAccept

/-- Looks at one state after the other. -/
def checkRows (number : Nat → StateId) (e : Extent) (rows : Array Row) :
    Except DefinitionError Unit :=
  forM rows.toList.zipIdx fun x => x.1.check e (number x.2)

/-- Looks at the parts of a table, and stops at the first thing that is wrong with them. -/
def check (number : Nat → StateId) (terminals : Array Terminal) (reductions : Array Reduction)
    (rows : Array Row) : Except DefinitionError Unit := do
  checkStates rows
  checkAccept reductions
  checkRows number (.ofParts terminals reductions rows) rows

theorem checkStates_eq_ok : checkStates rows = .ok () ↔ rows ≠ #[] := by
  rw [checkStates, Except.require_eq_ok, Array.isEmpty_iff]

theorem checkStates_eq_error :
    checkStates rows = .error error ↔ rows = #[] ∧ error = .emptyStates := by
  rw [checkStates, Except.require_eq_error, not_not, Array.isEmpty_iff]

theorem checkAccept_eq_ok : checkAccept reductions = .ok () ↔
    ∃ accept, reductions[0]? = some accept ∧ accept.arity = 1 := by
  rw [checkAccept]
  cases reductions[0]? with
  | none => simp
  | some accept => simp [Except.require_eq_ok]

theorem checkAccept_eq_error : checkAccept reductions = .error error ↔
    (∀ accept, reductions[0]? = some accept → accept.arity ≠ 1) ∧ error = .missingAccept := by
  rw [checkAccept]
  cases reductions[0]? with
  | none => simp [eq_comm]
  | some accept => simp [Except.require_eq_error]

theorem checkRows_eq_ok {e : Extent} :
    checkRows number e rows = .ok () ↔ ∀ row ∈ rows, row.Within e := by
  rw [checkRows, Except.forM_eq_ok]
  simp only [Row.check_eq_ok, forall_mem_zipIdx, Array.mem_toList_iff]

theorem checkRows_eq_error {e : Extent} : checkRows number e rows = .error error ↔
    ∃ earlier row later, rows.toList = earlier ++ row :: later ∧
      (∀ row' ∈ earlier, row'.Within e) ∧ row.check e (number earlier.length) = .error error := by
  rw [checkRows, Except.forM_zipIdx_eq_error]
  simp only [Row.check_eq_ok, forall_mem_zipIdx]

theorem check_eq_ok : check number terminals reductions rows = .ok () ↔
    IsWellFormed terminals reductions rows := by
  rw [check, Except.seq_eq_ok, Except.seq_eq_ok, checkStates_eq_ok, checkAccept_eq_ok,
    checkRows_eq_ok]
  exact ⟨fun ⟨hrows, haccept, hwithin⟩ => ⟨hrows, haccept, hwithin⟩,
    fun h => ⟨h.rows_ne, h.accept, h.within⟩⟩

theorem check_eq_error : check number terminals reductions rows = .error error ↔
    FirstViolation number terminals reductions rows error := by
  rw [check, Except.seq_eq_error, Except.seq_eq_error, checkStates_eq_ok, checkStates_eq_error,
    checkAccept_eq_ok, checkAccept_eq_error, checkRows_eq_error]
  -- one case for each of the three checks, the ones before it passed
  constructor
  · rintro (⟨hrows, rfl⟩ | ⟨hrows, ⟨haccept, rfl⟩ | ⟨haccept, earlier, row, later, hsplit, hearlier,
      hrow⟩⟩)
    · exact .emptyStates hrows
    · exact .missingAccept hrows haccept
    · obtain ⟨before, r, after, hreferences, hbefore, hr, rfl⟩ := Row.check_eq_error.mp hrow
      exact .reference hrows haccept hsplit hearlier hreferences hbefore hr
  · intro h
    cases h with
    | emptyStates hrows => exact .inl ⟨hrows, rfl⟩
    | missingAccept hrows haccept => exact .inr ⟨hrows, .inl ⟨haccept, rfl⟩⟩
    | reference hrows haccept hsplit hearlier hreferences hbefore hr =>
      refine .inr ⟨hrows, .inr ⟨haccept, _, _, _, hsplit, hearlier, ?_⟩⟩
      exact Row.check_eq_error.mpr ⟨_, _, _, hreferences, hbefore, hr, rfl⟩

theorem check_ofIndex (h : rows.size ≤ UInt32.size) :
    check StateId.ofIndex terminals reductions rows = check id terminals reductions rows := by
  have hrows (e : Extent) : checkRows StateId.ofIndex e rows = checkRows id e rows := by
    apply Except.forM_congr
    intro x hx
    have hlt : x.2 < rows.size := by
      simpa using List.snd_lt_of_mem_zipIdx hx
    rw [StateId.ofIndex_of_lt (Nat.lt_of_lt_of_le hlt h), id]
  rw [check, check, hrows]

/-- The check goes through all errors in their order. -/
theorem ofErrors_definitionErrors (terminals : Array Terminal) (reductions : Array Reduction)
    (rows : Array Row) : Except.ofErrors (definitionErrors terminals reductions rows) =
      check id terminals reductions rows := by
  have hstates : Except.ofErrors (if rows.isEmpty then [.emptyStates] else []) =
      checkStates rows := by
    rw [checkStates, ← Except.ofErrors_ite, ite_not]
  have haccept : Except.ofErrors
      (if reductions[0]?.any (·.arity = 1) then [] else [.missingAccept]) =
        checkAccept reductions := by
    rw [Except.ofErrors_ite, checkAccept]
    cases reductions[0]? with
    | none => rfl
    | some accept => simp
  rw [definitionErrors, Except.ofErrors_append, Except.ofErrors_append, Except.ofErrors_flatMap,
    hstates, haccept, bind_assoc, check, checkRows]
  simp only [Row.ofErrors_rowErrors]
  rfl

theorem definitionErrors_eq_nil_iff : definitionErrors terminals reductions rows = [] ↔
    IsWellFormed terminals reductions rows := by
  rw [← Except.ofErrors_eq_ok, ofErrors_definitionErrors, check_eq_ok]

/-- Puts a table together once its parts have passed the check. -/
def build (number : Nat → StateId) (startSymbol : String) (terminals : Array Terminal)
    (reductions : Array Reduction) (rows : Array Row) : Except DefinitionError ParseTable :=
  match h : check number terminals reductions rows with
  | .ok () => .ok ⟨startSymbol, terminals, reductions, rows,
    definitionErrors_eq_nil_iff.mpr (check_eq_ok.mp h)⟩
  | .error error => .error error

/-- All that a table holds. -/
def parts (t : ParseTable) : String × Array Terminal × Array Reduction × Array Row :=
  (t.startSymbol, t.terminals, t.reductions, t.rows)

theorem parts_injective : parts.Injective := by
  rintro ⟨_, _, _, _, _⟩ ⟨_, _, _, _, _⟩ h
  cases h
  rfl

theorem map_parts_build (number : Nat → StateId) (startSymbol : String)
    (terminals : Array Terminal) (reductions : Array Reduction) (rows : Array Row) :
    (build number startSymbol terminals reductions rows).map parts =
      (check number terminals reductions rows).map
        fun _ => (startSymbol, terminals, reductions, rows) := by
  unfold build
  split
  · next hcheck => simp only [hcheck, Except.map, parts]
  · next error hcheck => simp only [hcheck, Except.map]

theorem map_parts_assemble (startSymbol : String) (terminals : Array Terminal)
    (reductions : Array Reduction) (rows : Array Row) :
    (assemble startSymbol terminals reductions rows).map parts =
      (Except.ofErrors (definitionErrors terminals reductions rows)).map
        fun _ => (startSymbol, terminals, reductions, rows) := by
  unfold assemble
  split
  · next hnil => simp only [hnil, Except.ofErrors, Except.map, parts]
  · next error errors hcons => simp only [hcons, Except.ofErrors, Except.map]

/-- How a table is made of its parts, whatever its states are called. -/
structure Validates (startSymbol : String) (terminals : Array Terminal)
    (reductions : Array Reduction) (rows : Array Row) : Prop where
  ok_iff : ∀ number, (∃ t, build number startSymbol terminals reductions rows = .ok t) ↔
    IsWellFormed terminals reductions rows
  error_iff : ∀ number error, build number startSymbol terminals reductions rows = .error error ↔
    FirstViolation number terminals reductions rows error
  unchanged : ∀ number t, build number startSymbol terminals reductions rows = .ok t →
    t.parts = (startSymbol, terminals, reductions, rows)
  assemble_eq : assemble startSymbol terminals reductions rows =
    build id startSymbol terminals reductions rows
  /-- Numbers with 32 bits are enough for that many states. -/
  ofIndex_eq : rows.size ≤ UInt32.size →
    build StateId.ofIndex startSymbol terminals reductions rows =
      build id startSymbol terminals reductions rows

end ParseTable

/-- A table is made of its parts if and only if all of their references are valid, and holds them
unchanged; if not, the error is the first violation. -/
theorem validation_exact (startSymbol : String) (terminals : Array Terminal)
    (reductions : Array Reduction) (rows : Array Row) :
    ParseTable.Validates startSymbol terminals reductions rows := by
  have hbuild (number : Nat → StateId) :=
    ParseTable.map_parts_build number startSymbol terminals reductions rows
  constructor
  case ok_iff =>
    intro number
    rw [← Except.exists_map_eq_ok (f := ParseTable.parts), hbuild, Except.exists_map_eq_ok]
    exact ⟨fun ⟨_, h⟩ => ParseTable.check_eq_ok.mp h, fun h => ⟨_, ParseTable.check_eq_ok.mpr h⟩⟩
  case error_iff =>
    intro number error
    rw [← Except.map_eq_error, hbuild, Except.map_eq_error, ParseTable.check_eq_error]
  case unchanged =>
    intro number t ht
    have hparts := hbuild number
    rw [ht] at hparts
    obtain ⟨_, -, hparts⟩ := Except.map_eq_ok.mp hparts.symm
    exact hparts.symm
  -- two tables are equal if they have the same parts
  case assemble_eq =>
    apply Except.map_injective ParseTable.parts_injective
    rw [hbuild, ParseTable.map_parts_assemble, ParseTable.ofErrors_definitionErrors]
  case ofIndex_eq =>
    intro hsize
    apply Except.map_injective ParseTable.parts_injective
    rw [hbuild, hbuild, ParseTable.check_ofIndex hsize]

/-- The goto of the first state comes before the actions of the second. -/
example : ParseTable.check StateId.ofIndex #[] #[.accept]
    #[{ gotos := [("S", 1), ("E", 2)] }, { actions := [(0, .shift 7)] }] =
      .error (.unknownState 0 2) := by
  decide +kernel

/-- The terminal of an action comes before the state that it leads to. -/
example : ParseTable.check StateId.ofIndex #[] #[.accept]
    #[{ gotos := [("S", 1)] }, { actions := [(0, .shift 7)] }] =
      .error (.unknownTerminal 1 0) := by
  decide +kernel

end Reformat
