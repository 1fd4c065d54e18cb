import Reformat.Pattern.Engine
import Reformat.Proofs.Consistency
import Reformat.Proofs.Shapes

/-! Templates never influence matching. Attempts with tables of grammars of the same shape go
through the same states, and only the texts on their stacks differ, so that scans find the same
segments. -/

namespace Reformat

/-- Matches of the same stretch of the input. -/
def Match.SameSpan (m m' : Match) : Prop := m.start = m'.start ∧ m.stop = m'.stop

/-- Segments of the same stretch, both matched by the table with the same place, or both passed
over. -/
inductive Segment.SameSpan : Segment → Segment → Prop
  | matched (place : Nat) {m m' : Match} (h : m.SameSpan m') :
      SameSpan (.matched place m) (.matched place m')
  | unmatched (start stop : Nat) : SameSpan (.unmatched start stop) (.unmatched start stop)

/-- A character that is passed over goes to segments of the same stretch. -/
theorem Segment.SameSpan.pass (offset : Nat) (c : Char) {segments segments' : List Segment}
    (h : List.Forall₂ SameSpan segments segments') :
    List.Forall₂ SameSpan (Scan.pass offset c segments) (Scan.pass offset c segments') := by
  cases h with
  | nil => exact .cons (.unmatched _ _) .nil
  | cons hfirst hothers =>
    cases hfirst with
    | matched place hspan => exact .cons (.unmatched _ _) (.cons (.matched place hspan) hothers)
    | unmatched start stop => exact .cons (.unmatched _ _) hothers

/-- Parses that end at the same place. -/
def Parse.SameStop (p p' : Parse) : Prop := p.stop = p'.stop ∧ p.rest = p'.rest

/-- Attempts that differ in nothing but the symbols and the texts on their stacks. -/
structure Attempt.SameCourse (a a' : Attempt) : Prop where
  path : a.path = a'.path
  rest : a.rest = a'.rest
  offset : a.offset = a'.offset
  idle : a.idle = a'.idle
  limit : a.limit = a'.limit

namespace Attempt.SameCourse

variable {a a' : Attempt} (h : a.SameCourse a')

include h

theorem state : a.state = a'.state := (List.cons.inj h.path).1

theorem length_stack : a.stack.length = a'.stack.length := by
  have hlength := congrArg List.length h.path
  rw [length_path, length_path] at hlength
  omega

end Attempt.SameCourse

namespace ParseTable.SameMoves

variable {t t' : ParseTable} (h : t.SameMoves t')

include h

theorem row (q : StateId) : t.row q = t'.row q := by
  rw [ParseTable.row, ParseTable.row, h.rows]

theorem numStates : t.numStates = t'.numStates := by
  rw [ParseTable.numStates, ParseTable.numStates, h.rows]

theorem move? (q : StateId) (text : List Char) : t.move? q text = t'.move? q text := by
  have hfirst : ∀ wanted, t.firstMatch? (t.row q) text wanted =
      t'.firstMatch? (t'.row q) text wanted := by
    intro wanted
    rw [h.row, ParseTable.firstMatch?, ParseTable.firstMatch?, ParseTable.numbered,
      ParseTable.numbered, h.terminals]
  simp only [ParseTable.move?, ParseTable.nextAction?, hfirst]
  rw [h.row]

theorem shift {a a' : Attempt} (ha : a.SameCourse a') (terminal : TerminalId) (next : StateId)
    (n : Nat) : (a.shift t terminal next n).SameCourse (a'.shift t' terminal next n) where
  path := congrArg (next :: ·) ha.path
  rest := congrArg (List.drop n) ha.rest
  offset := by
    rw [Attempt.shift, Attempt.shift, ha.rest, ha.offset]
  idle := rfl
  limit := by
    rw [Attempt.shift, Attempt.shift, Attempt.idleLimit, Attempt.idleLimit, h.numStates,
      ha.length_stack]

end ParseTable.SameMoves

/-- Tables that the same start symbol has in two grammars of the same shape. -/
structure TablesOf (engine : Engine) (g g' : Grammar) (start : String) (t t' : ParseTable) : Prop
    where
  left : TableOf engine ⟨g, start⟩ t
  right : TableOf engine ⟨g', start⟩ t'
  shape : g.SameShape g'
  moves : t.SameMoves t'

namespace TablesOf

variable {engine : Engine} {g g' : Grammar} {start : String} {t t' : ParseTable}
  (h : TablesOf engine g g' start t t') {a a' : Attempt}

include h

/-- A reduction takes the same number of parts and goes on to the same state. Both templates have a
text, and nothing depends on it. -/
theorem reduce (ha : a.SameCourse a') (hf : Follows ⟨g, start⟩ a.stack a.state)
    (hf' : Follows ⟨g', start⟩ a'.stack a'.state) {id : ReductionId}
    (hm : t.move? a.state a.rest = some (.reduce id)) :
    (∃ b b', a.reduce t id = .next b ∧ a'.reduce t' id = .next b' ∧ b.SameCourse b') ∨
    ∃ parse parse', a.reduce t id = .done (.ok parse) ∧ a'.reduce t' id = .done (.ok parse') ∧
      parse.SameStop parse' := by
  have hm' : t'.move? a'.state a'.rest = some (.reduce id) := by
    rw [← h.moves.move?, ← ha.state, ← ha.rest]
    exact hm
  -- in both grammars it is the accepting rule, or in both it is a rule of theirs
  rcases h.left.reduce_cases hf hm with ⟨rfl, frame, -, -, hdone⟩ |
    ⟨hid, rule, p, text, next, hrule, hp, -, -, -, hgoto, hnext⟩
  · rcases h.right.reduce_cases hf' hm' with ⟨-, frame', -, -, hdone'⟩ | ⟨hid, -⟩
    · exact Or.inr ⟨_, _, hdone, hdone', ha.offset, ha.rest⟩
    · exact absurd rfl hid
  · rcases h.right.reduce_cases hf' hm' with ⟨hzero, -⟩ |
      ⟨-, rule', p', text', next', hrule', hp', -, -, -, hgoto', hnext'⟩
    · exact absurd hzero hid
    · have hshape : rule.shape = rule'.shape := by
        have hshapes := h.shape.rule? id
        rw [hrule, hrule'] at hshapes
        exact Option.some.inj hshapes
      have hname : rule.name = rule'.name := congrArg Prod.fst hshape
      have harity : rule.arity = rule'.arity := Rule.arity_eq_of_shape hshape
      obtain rfl : p = p' := by
        rw [ha.path, harity] at hp
        exact Option.some.inj (hp.symm.trans hp')
      obtain rfl : next = next' := by
        rw [h.shape.automaton, hname] at hgoto
        exact Option.some.inj (hgoto.symm.trans hgoto')
      -- what is left of the paths begins in the state below the parts
      have hbelow : (a.stack.drop rule.arity).map (·.state) =
          (a'.stack.drop rule'.arity).map (·.state) := by
        have hdrop := Attempt.drop_path hp
        have hdrop' := Attempt.drop_path hp'
        rw [ha.path] at hdrop
        rw [← harity] at hdrop' ⊢
        exact (List.cons.inj (hdrop.symm.trans hdrop')).2
      refine Or.inl ⟨_, _, hnext, hnext', ?_, ha.rest, ha.offset, congrArg (· + 1) ha.idle,
        ha.limit⟩
      rw [Attempt.path, Attempt.path, List.map_cons, List.map_cons, hbelow]

theorem step (ha : a.SameCourse a') (hf : Follows ⟨g, start⟩ a.stack a.state)
    (hf' : Follows ⟨g', start⟩ a'.stack a'.state) :
    (∃ b b', a.step t = .next b ∧ a'.step t' = .next b' ∧ b.SameCourse b') ∨
    ∃ r r', a.step t = .done r ∧ a'.step t' = .done r' ∧ Except.Alike Parse.SameStop r r' := by
  have hmove : t'.move? a'.state a'.rest = t.move? a.state a.rest := by
    rw [← h.moves.move?, ← ha.state, ← ha.rest]
  -- the moves are the same; only reductions have to do with templates
  by_cases hreduce : ∃ id, t.move? a.state a.rest = some (.reduce id)
  · obtain ⟨id, hm⟩ := hreduce
    rw [Attempt.step_of_reduce hm, Attempt.step_of_reduce (hmove.trans hm), ha.limit, ha.idle]
    split
    · refine Or.inr ⟨_, _, rfl, rfl, ?_⟩
      rw [ha.offset]
      exact .error _
    · rcases h.reduce ha hf hf' hm with hnext | ⟨parse, parse', hdone, hdone', hstop⟩
      · exact Or.inl hnext
      · exact Or.inr ⟨_, _, hdone, hdone', .ok hstop⟩
  · have hno : ∀ id, t.move? a.state a.rest ≠ some (.reduce id) := not_exists.mp hreduce
    rw [Attempt.step_eq_freeStep hno, Attempt.step_eq_freeStep (by rw [hmove]; exact hno),
      Attempt.freeStep, Attempt.freeStep, hmove]
    cases hm : t.move? a.state a.rest with
    | none =>
      refine Or.inr ⟨_, _, rfl, rfl, ?_⟩
      rw [ha.offset]
      exact .error _
    | some move =>
      cases move with
      | shift terminal next n => exact Or.inl ⟨_, _, rfl, rfl, h.moves.shift ha terminal next n⟩
      | reduce id => exact absurd hm (hno id)

/-- Attempts at the same text take the same course. -/
theorem attempt (rest : List Char) (offset : Nat) :
    Except.Alike Parse.SameStop (t.attempt rest offset) (t'.attempt rest offset) := by
  refine Machine.run_related (m := Attempt.machine t) (n := Attempt.machine t')
    (fun a a' => a.SameCourse a' ∧ Follows ⟨g, start⟩ a.stack a.state ∧
      Follows ⟨g', start⟩ a'.stack a'.state) (Except.Alike Parse.SameStop) ?_
    ⟨⟨rfl, rfl, rfl, rfl, ?_⟩, .initial, .initial⟩
  · -- the stacks have to spell paths, or else a reduction could fail for one of the tables
    rintro a a' ⟨ha, hf, hf'⟩
    rcases h.step ha hf hf' with ⟨b, b', hstep, hstep', hb⟩ | hdone
    · exact Or.inl ⟨b, b', hstep, hstep', hb,
        h.left.follows_next hf (Attempt.freeStep_of_step hstep),
        h.right.follows_next hf' (Attempt.freeStep_of_step hstep')⟩
    · exact Or.inr hdone
  · rw [Attempt.initial, Attempt.initial, Attempt.idleLimit, Attempt.idleLimit, h.moves.numStates]

theorem parseAt (input : String) (k : Nat) :
    Except.Alike Match.SameSpan (t.parseAt input k) (t'.parseAt input k) := by
  rw [ParseTable.parseAt, ParseTable.parseAt]
  cases Text.dropBytes? k input.toList with
  | none => exact .error _
  | some rest => exact (h.attempt rest k).map fun _ _ _ _ hstop => ⟨rfl, hstop.1⟩

end TablesOf

/-- Tables that parse the same stretches, and have the same name in messages. -/
structure ParseTable.SameParses (t t' : ParseTable) : Prop where
  startSymbol : t.startSymbol = t'.startSymbol
  attempt : ∀ rest offset, Except.Alike Parse.SameStop (t.attempt rest offset)
    (t'.attempt rest offset)

/-- Lists of tables of which the first, the second and so on parse the same stretches. -/
abbrev SameTables : List ParseTable → List ParseTable → Prop :=
  List.Forall₂ ParseTable.SameParses

namespace SameTables

variable {tables tables' : List ParseTable} (h : SameTables tables tables')

include h

theorem firstParse? (rest : List Char) (offset place : Nat) :
    Except.Alike (Option.Rel fun x y : Nat × Parse => x.1 = y.1 ∧ x.2.SameStop y.2)
      (Reformat.firstParse? rest offset place tables)
      (Reformat.firstParse? rest offset place tables') := by
  induction h generalizing place with
  | nil => exact .ok .none
  | @cons t t' tables tables' ht _ ih =>
    rw [Reformat.firstParse?, Reformat.firstParse?]
    have hattempt := ht.attempt rest offset
    generalize t.attempt rest offset = r at hattempt ⊢
    generalize t'.attempt rest offset = r' at hattempt ⊢
    -- tables that fail are passed over in both lists, unless the failure is internal
    cases hattempt with
    | error e =>
      cases e with
      | internal error =>
        dsimp only
        rw [ht.startSymbol]
        exact .error _
      | syntaxError k => exact ih (place + 1)
      | stalled k => exact ih (place + 1)
    | @ok parse parse' hstop =>
      dsimp only
      rw [hstop.2]
      split
      · exact .ok (.some ⟨rfl, hstop⟩)
      · exact ih (place + 1)

/-- Scans of the same document split it in the same way. -/
theorem scan (config : ScanConfig) (input : String) :
    Except.Alike (List.Forall₂ Segment.SameSpan) (Reformat.scan tables config input)
      (Reformat.scan tables' config input) := by
  refine Machine.run_related (m := Scan.machine tables config input)
    (n := Scan.machine tables' config input)
    (fun s s' => s.rest = s'.rest ∧ s.offset = s'.offset ∧
      List.Forall₂ Segment.SameSpan s.segments s'.segments)
    (Except.Alike (List.Forall₂ Segment.SameSpan)) ?_ ⟨rfl, rfl, .nil⟩
  rintro s s' ⟨hrest, hoffset, hsegments⟩
  simp only [Scan.machine, Scan.step]
  rw [← hrest, ← hoffset]
  cases s.rest with
  | nil => exact Or.inr ⟨_, _, rfl, rfl, .ok (List.rel_reverse hsegments)⟩
  | cons c rest =>
    have hfirst := h.firstParse? (c :: rest) s.offset 0
    generalize Reformat.firstParse? (c :: rest) s.offset 0 tables = r at hfirst ⊢
    generalize Reformat.firstParse? (c :: rest) s.offset 0 tables' = r' at hfirst ⊢
    cases hfirst with
    | error e => exact Or.inr ⟨_, _, rfl, rfl, .error e⟩
    | ok hfound =>
      cases hfound with
      | none =>
        dsimp only
        split
        · exact Or.inl ⟨_, _, rfl, rfl, rfl, rfl, Segment.SameSpan.pass s.offset c hsegments⟩
        · exact Or.inr ⟨_, _, rfl, rfl, .error _⟩
      | @some x y hfound =>
        obtain ⟨place, parse⟩ := x
        obtain ⟨place', parse'⟩ := y
        obtain ⟨rfl, hstop, hleft⟩ := hfound
        exact Or.inl ⟨_, _, rfl, rfl, hleft, hstop, .cons (.matched place ⟨rfl, hstop⟩) hsegments⟩

end SameTables

namespace Grammar.SameShape

variable {engine : Engine} {g g' : Grammar} (h : g.SameShape g')
  (herrors : (g.analyze engine).errors = []) (herrors' : (g'.analyze engine).errors = [])

include h herrors herrors'

theorem tablesOf (start : String) : Except.Alike (TablesOf engine g g' start)
    (g.generate (g.analyze engine) start) (g'.generate (g'.analyze engine) start) :=
  (h.generate herrors herrors' start).mono fun _ _ ht ht' hmoves =>
    ⟨tableOf_of_generate ht, tableOf_of_generate ht', h, hmoves⟩

theorem formatterFor (starts : List String) : Except.Alike
    (fun f f' => SameTables f.tables f'.tables ∧ f.config = f'.config)
    (g.formatterFor engine starts) (g'.formatterFor engine starts) := by
  rw [formatterFor_eq herrors, formatterFor_eq herrors']
  split
  · exact .error _
  · have htables : Except.Alike SameTables (starts.mapM (g.generate (g.analyze engine)))
        (starts.mapM (g'.generate (g'.analyze engine))) := by
      apply Except.Alike.mapM
      intro start _
      exact (h.tablesOf herrors herrors' start).mono fun _ _ _ _ ht =>
        ⟨ht.moves.startSymbol, ht.attempt⟩
    apply (htables.mapError CompileError.table).map
    intro tables tables' _ _ hsame
    exact ⟨hsame, congrArg (fun mode => ({ searchMode := mode } : ScanConfig)) h.searchMode⟩

end Grammar.SameShape

/-- Templates never influence matching. For grammars without errors whose rules have the same names
and symbols there are tables and formatters for the same start symbols; the tables parse the same
stretches of every input, or fail with the same error, and the formatters split every document into
the same segments, or are stuck at the same place. -/
theorem templates_never_influence_matching {engine : Engine} {g g' : Grammar}
    (h : g.SameShape g') (herrors : (g.analyze engine).errors = [])
    (herrors' : (g'.analyze engine).errors = []) :
    (∀ start, Except.Alike
      (fun t t' => ∀ (input : String) (k : Nat),
        Except.Alike Match.SameSpan (t.parseAt input k) (t'.parseAt input k) ∧
        ∀ error, t.parseAt input k ≠ .error (.internal error))
      (g.generate (g.analyze engine) start) (g'.generate (g'.analyze engine) start)) ∧
    ∀ starts, Except.Alike
      (fun f f' => f.config = f'.config ∧ ∀ (config : ScanConfig) (input : String),
        Except.Alike (List.Forall₂ Segment.SameSpan) ({ f with config }.scan input)
          ({ f' with config }.scan input) ∧
        ∀ symbol error, { f with config }.scan input ≠ .error (.internal symbol error))
      (g.formatterFor engine starts) (g'.formatterFor engine starts) := by
  constructor
  · intro start
    refine (h.tablesOf herrors herrors' start).mono fun t t' _ _ ht input k => ?_
    exact ⟨ht.parseAt input k, ht.left.parseAt_ne_internal input k⟩
  · intro starts
    refine (h.formatterFor herrors herrors' starts).mono fun f f' hf _ hsame => ?_
    have hconsistent := consistent_of_formatter (Or.inr ⟨starts, hf⟩)
    exact ⟨hsame.2, fun config input =>
      ⟨hsame.1.scan config input, hconsistent.scan_ne_internal config input⟩⟩

/-- Round brackets are made square by one grammar, and stay as they are with the other. -/
theorem brackets_matched_like_keptBrackets : ∃ t t' f f' m m' segments segments',
    Grammar.brackets.generate (Grammar.brackets.analyze Pattern.engine) "S" = .ok t ∧
    Grammar.keptBrackets.generate (Grammar.keptBrackets.analyze Pattern.engine) "S" = .ok t' ∧
    Grammar.brackets.formatterFor Pattern.engine ["S"] = .ok f ∧
    Grammar.keptBrackets.formatterFor Pattern.engine ["S"] = .ok f' ∧
    t.parseAt "é(x)!" 2 = .ok m ∧ t'.parseAt "é(x)!" 2 = .ok m' ∧ m.SameSpan m' ∧
    m.output = "[x]" ∧ m'.output = "(x)" ∧
    { f with config := { searchMode := true } }.scan "é(x)x" = .ok segments ∧
    { f' with config := { searchMode := true } }.scan "é(x)x" = .ok segments' ∧
    List.Forall₂ Segment.SameSpan segments segments' := by
  have hshape : Grammar.brackets.SameShape Grammar.keptBrackets := ⟨by decide, rfl⟩
  have herrors : (Grammar.brackets.analyze Pattern.engine).errors = [] := by decide +kernel
  have herrors' : (Grammar.keptBrackets.analyze Pattern.engine).errors = [] := by decide +kernel
  obtain ⟨t, ht, hparse⟩ := Except.exists_ok
    (x := Grammar.brackets.generate (Grammar.brackets.analyze Pattern.engine) "S")
    (p := fun t => t.parseAt "é(x)!" 2 = .ok ⟨2, 5, "[x]"⟩) (by decide +kernel)
  obtain ⟨t', ht', hparse'⟩ := Except.exists_ok
    (x := Grammar.keptBrackets.generate (Grammar.keptBrackets.analyze Pattern.engine) "S")
    (p := fun t => t.parseAt "é(x)!" 2 = .ok ⟨2, 5, "(x)"⟩) (by decide +kernel)
  obtain ⟨f, hf, hscan⟩ := Except.exists_ok
    (x := Grammar.brackets.formatterFor Pattern.engine ["S"])
    (p := fun f => ({ f with config := { searchMode := true } }.scan "é(x)x").toOption.isSome)
    (by decide +kernel)
  obtain ⟨f', hf', hscan'⟩ := Except.exists_ok
    (x := Grammar.keptBrackets.formatterFor Pattern.engine ["S"])
    (p := fun f => ({ f with config := { searchMode := true } }.scan "é(x)x").toOption.isSome)
    (by decide +kernel)
  obtain ⟨segments, hsegments, -⟩ := Except.exists_ok
    (x := { f with config := { searchMode := true } }.scan "é(x)x") (p := fun _ => true)
    (by simpa using hscan)
  obtain ⟨segments', hsegments', -⟩ := Except.exists_ok
    (x := { f' with config := { searchMode := true } }.scan "é(x)x") (p := fun _ => true)
    (by simpa using hscan')
  obtain ⟨htables, hformatters⟩ := templates_never_influence_matching hshape herrors herrors'
  have htable := htables "S"
  rw [ht, ht'] at htable
  have hspan := (htable.of_ok "é(x)!" 2).1
  rw [of_decide_eq_true hparse, of_decide_eq_true hparse'] at hspan
  have hformatter := hformatters ["S"]
  rw [hf, hf'] at hformatter
  have hsplit := (hformatter.of_ok.2 { searchMode := true } "é(x)x").1
  rw [hsegments, hsegments'] at hsplit
  exact ⟨t, t', f, f', _, _, segments, segments', ht, ht', hf, hf', of_decide_eq_true hparse,
    of_decide_eq_true hparse', hspan.of_ok, rfl, rfl, hsegments, hsegments', hsplit.of_ok⟩

end Reformat
