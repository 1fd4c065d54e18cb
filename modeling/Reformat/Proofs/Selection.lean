import Reformat.Pattern.Engine
import Reformat.Proofs.Choices
import Reformat.Proofs.Transitions

/-! The action that a table chooses. One pass over the terminals, which leaves out whatever can no
longer matter, chooses as if all of them were matched first: the first that can be shifted, or else
the first that asks for a reduction. -/

namespace Reformat

theorem Terminal.matchBytes?_eq_some {u : Terminal} {text : List Char} {n : Nat} :
    u.matchBytes? text = some n ↔ u.matcher.find? text = some n ∧ 0 < n := by
  rw [matchBytes?, Option.filter_eq_some_iff, decide_eq_true_eq]

/-- What is found in a numbered list is found at the first place where there is something. -/
theorem first_of_findSome?_zipIdx {α β : Type} {f : α × Nat → Option β} {as : List α} {b : β}
    (h : as.zipIdx.findSome? f = some b) : ∃ i a, as[i]? = some a ∧ f (a, i) = some b ∧
      ∀ j < i, ∀ c, as[j]? = some c → f (c, j) = none := by
  obtain ⟨_, x, _, hsplit, hb, hnone⟩ := List.findSome?_eq_some_iff.mp h
  obtain ⟨before, rest, rfl, rfl, hrest⟩ := List.zipIdx_eq_append_iff.mp hsplit
  obtain ⟨a, after, rfl, rfl, -⟩ := List.zipIdx_eq_cons_iff.mp hrest.symm
  rw [Nat.zero_add] at hb
  refine ⟨before.length, a, ?_, hb, ?_⟩
  · rw [List.getElem?_append_right (Nat.le_refl _), Nat.sub_self, List.getElem?_cons_zero]
  · intro j hj c hc
    rw [List.getElem?_append_left hj] at hc
    exact hnone (c, j) (List.mk_mem_zipIdx_iff_getElem?.mpr hc)

/-- In lists with the same values under the same keys, in any order, the same is looked up. -/
theorem Association.get?_perm {κ ν : Type} [DecidableEq κ] {pairs pairs' : List (κ × ν)}
    (hperm : pairs'.Perm pairs) (hnodup : (pairs.map (·.1)).Nodup) (key : κ) :
    get? key pairs' = get? key pairs := by
  have hnodup' : (pairs'.map (·.1)).Nodup := ((hperm.map _).nodup_iff).mpr hnodup
  apply Option.ext
  intro value
  constructor
  · intro h
    exact get?_of_mem hnodup (hperm.mem_iff.mp (mem_of_get? h))
  · intro h
    exact get?_of_mem hnodup' (hperm.mem_iff.mpr (mem_of_get? h))

/-- What a terminal with a number has to offer: its action, if that is wanted and the terminal
matches. -/
def Row.offer? (row : Row) (length? : Terminal → Option Nat) (wanted : Action → Bool)
    (x : Terminal × TerminalId) : Option (TerminalId × Action × Nat) :=
  match row.action? x.2 with
  | none => none
  | some action => if wanted action then (length? x.1).map fun n => (x.2, action, n) else none

/-- Goes through terminals with their numbers. The first shift ends the pass; after the first
reduction, which is kept, terminals that ask for another one are not matched any more. -/
def Row.select? (row : Row) (length? : Terminal → Option Nat) :
    List (Terminal × TerminalId) → Option (TerminalId × Action × Nat) →
      Option (TerminalId × Action × Nat)
  | [], reduction => reduction
  | (terminal, id) :: rest, reduction =>
    match row.action? id with
    | none => row.select? length? rest reduction
    | some action =>
      if reduction.isSome && action.isReduce then row.select? length? rest reduction
      else
        match length? terminal with
        | none => row.select? length? rest reduction
        | some n =>
          match action with
          | .shift _ => some (id, action, n)
          | .reduce _ => row.select? length? rest (some (id, action, n))

/-- The pass finds the first shift, or else what was kept before, or else the first reduction. -/
theorem Row.select?_eq (row : Row) (length? : Terminal → Option Nat)
    (us : List (Terminal × TerminalId)) (reduction : Option (TerminalId × Action × Nat)) :
    row.select? length? us reduction = (us.findSome? (row.offer? length? Action.isShift)).or
      (reduction.or (us.findSome? (row.offer? length? Action.isReduce))) := by
  induction us generalizing reduction with
  | nil => simp [select?]
  | cons x us ih =>
    obtain ⟨terminal, id⟩ := x
    rw [select?, List.findSome?_cons, List.findSome?_cons, offer?, offer?]
    cases row.action? id with
    | none => exact ih reduction
    | some action =>
      cases action with
      | shift next =>
        -- a shift is matched in any case
        cases length? terminal with
        | none => simpa using ih reduction
        | some n => simp
      | reduce rule =>
        cases reduction with
        | some kept => simpa using ih (some kept)
        | none =>
          cases length? terminal with
          | none => simpa using ih none
          | some n => simpa using ih (some (id, .reduce rule, n))

theorem Row.offer?_eq_some {row : Row} {length? : Terminal → Option Nat} {wanted : Action → Bool}
    {u : Terminal} {id id' : TerminalId} {action : Action} {n : Nat} :
    row.offer? length? wanted (u, id) = some (id', action, n) ↔
      id' = id ∧ row.action? id = some action ∧ wanted action = true ∧ length? u = some n := by
  rw [offer?]
  dsimp only
  cases row.action? id with
  | none => simp
  | some action' =>
    constructor
    · intro h
      obtain ⟨hwanted, h⟩ := Option.ite_none_right_eq_some.mp h
      obtain ⟨k, hk, heq⟩ := Option.map_eq_some_iff.mp h
      obtain ⟨hid, heq⟩ := Prod.mk.inj heq
      obtain ⟨rfl, rfl⟩ := Prod.mk.inj heq
      exact ⟨hid.symm, rfl, hwanted, hk⟩
    · rintro ⟨rfl, haction, hwanted, hn⟩
      obtain rfl := Option.some.inj haction
      simp [hwanted, hn]

theorem Row.map_offer? (row : Row) (length? : Terminal → Option Nat) (wanted : Action → Bool)
    (f : Nat → Nat) (x : Terminal × TerminalId) :
    (row.offer? length? wanted x).map (fun (id, action, n) => (id, action, f n)) =
      row.offer? (fun u => (length? u).map f) wanted x := by
  rw [offer?, offer?]
  cases row.action? x.2 with
  | none => rfl
  | some action =>
    dsimp only
    split
    · rw [Option.map_map, Option.map_map]
      rfl
    · rfl

namespace ParseTable

variable {t t' : ParseTable} {q : StateId} {text : List Char} {wanted : Action → Bool}
  {id id' : TerminalId} {action action' : Action} {n n' : Nat}

/-- The action for a text in one pass, with the number of bytes that match. -/
def select? (t : ParseTable) (q : StateId) (text : List Char) :
    Option (TerminalId × Action × Nat) :=
  (t.row q).select? (·.matchBytes? text) t.numbered none

/-- How many bytes of a text each of the terminals matches. -/
def matchAll (t : ParseTable) (text : List Char) : List (TerminalId × Option Nat) :=
  t.terminals.toList.zipIdx.map fun (terminal, id) => (id, terminal.matchBytes? text)

/-- The choice from a list of all terminals. -/
def choose? (t : ParseTable) (q : StateId) (results : List (TerminalId × Option Nat)) :
    Option (TerminalId × Action × Nat) :=
  let found := results.filterMap fun (id, n?) =>
    ((t.row q).action? id).bind fun action => n?.map fun n => (id, action, n)
  (found.find? (·.2.1.isShift)).or (found.find? (·.2.1.isReduce))

/-- A terminal has an action in a state, and its matcher finds some of the text, `n` bytes. -/
def Offers (t : ParseTable) (q : StateId) (text : List Char) (id : TerminalId) (action : Action)
    (n : Nat) : Prop :=
  ∃ u, t.terminals[id]? = some u ∧ (t.row q).action? id = some action ∧
    u.matcher.find? text = some n ∧ 0 < n

/-- The first terminal with an action that is wanted. -/
def first? (t : ParseTable) (q : StateId) (text : List Char) (wanted : Action → Bool) :
    Option (TerminalId × Action × Nat) :=
  t.terminals.toList.zipIdx.findSome? ((t.row q).offer? (·.matchBytes? text) wanted)

theorem select?_eq (h : t.terminals.size ≤ UInt16.size) (q : StateId) (text : List Char) :
    t.select? q text = (t.first? q text Action.isShift).or (t.first? q text Action.isReduce) := by
  rw [select?, Row.select?_eq, numbered_eq h, Option.none_or]
  rfl

theorem Offers.unique (h : t.Offers q text id action n) (h' : t.Offers q text id action' n') :
    action = action' ∧ n = n' := by
  obtain ⟨u, hu, haction, hn, -⟩ := h
  obtain ⟨u', hu', haction', hn', -⟩ := h'
  obtain rfl := Option.some.inj (hu.symm.trans hu')
  exact ⟨Option.some.inj (haction.symm.trans haction'), Option.some.inj (hn.symm.trans hn')⟩

theorem exists_offer?_iff : (∃ u, t.terminals[id]? = some u ∧
    (t.row q).offer? (·.matchBytes? text) wanted (u, id) = some (id, action, n)) ↔
      t.Offers q text id action n ∧ wanted action = true := by
  simp only [Row.offer?_eq_some, Terminal.matchBytes?_eq_some, true_and]
  constructor
  · rintro ⟨u, hu, haction, hwanted, hn⟩
    exact ⟨⟨u, hu, haction, hn⟩, hwanted⟩
  · rintro ⟨⟨u, hu, haction, hn⟩, hwanted⟩
    exact ⟨u, hu, haction, hwanted, hn⟩

theorem first?_eq_none : t.first? q text wanted = none ↔
    ∀ id action n, t.Offers q text id action n → wanted action = false := by
  rw [first?, List.findSome?_eq_none_iff]
  constructor
  · intro h id action n hoffers
    by_contra hwanted
    rw [Bool.not_eq_false] at hwanted
    obtain ⟨u, hu, hoffer⟩ := exists_offer?_iff.mpr ⟨hoffers, hwanted⟩
    have hmem : (u, id) ∈ t.terminals.toList.zipIdx := by
      rw [List.mk_mem_zipIdx_iff_getElem?, Array.getElem?_toList]
      exact hu
    rw [h _ hmem] at hoffer
    exact nomatch hoffer
  · rintro h ⟨u, i⟩ hmem
    rw [List.mk_mem_zipIdx_iff_getElem?, Array.getElem?_toList] at hmem
    rw [Option.eq_none_iff_forall_ne_some]
    rintro ⟨id, action, n⟩ hoffer
    obtain rfl := (Row.offer?_eq_some.mp hoffer).1
    obtain ⟨hoffers, hwanted⟩ := exists_offer?_iff.mp ⟨u, hmem, hoffer⟩
    rw [h _ _ _ hoffers] at hwanted
    exact nomatch hwanted

/-- What is found is what no terminal before it has to offer. -/
theorem first?_eq_some : t.first? q text wanted = some (id, action, n) ↔
    t.Offers q text id action n ∧ wanted action = true ∧
      ∀ id' action' n', t.Offers q text id' action' n' → wanted action' = true → id ≤ id' := by
  have hfirst : ∀ {id action n}, t.first? q text wanted = some (id, action, n) →
      t.Offers q text id action n ∧ wanted action = true ∧
        ∀ id' action' n', t.Offers q text id' action' n' → wanted action' = true → id ≤ id' := by
    intro id action n h
    obtain ⟨i, u, hu, hoffer, hbefore⟩ := first_of_findSome?_zipIdx h
    obtain rfl := (Row.offer?_eq_some.mp hoffer).1
    rw [Array.getElem?_toList] at hu
    obtain ⟨hoffers, hwanted⟩ := exists_offer?_iff.mp ⟨u, hu, hoffer⟩
    refine ⟨hoffers, hwanted, ?_⟩
    intro id' action' n' hoffers' hwanted'
    by_contra hlt
    obtain ⟨u', hu', hoffer'⟩ := exists_offer?_iff.mpr ⟨hoffers', hwanted'⟩
    rw [← Array.getElem?_toList] at hu'
    rw [hbefore id' (Nat.lt_of_not_le hlt) u' hu'] at hoffer'
    exact nomatch hoffer'
  refine ⟨hfirst, ?_⟩
  rintro ⟨hoffers, hwanted, hleast⟩
  -- something is found, and each of the two comes first
  cases hfound : t.first? q text wanted with
  | none =>
    rw [first?_eq_none.mp hfound _ _ _ hoffers] at hwanted
    exact nomatch hwanted
  | some found =>
    obtain ⟨id', action', n'⟩ := found
    obtain ⟨hoffers', hwanted', hleast'⟩ := hfirst hfound
    obtain rfl : id' = id := Nat.le_antisymm (hleast' _ _ _ hoffers hwanted)
      (hleast _ _ _ hoffers' hwanted')
    obtain ⟨rfl, rfl⟩ := hoffers.unique hoffers'
    rfl

theorem first?_eq_none_of {make : Nat → Action}
    (hwanted : ∀ action, wanted action = true ↔ ∃ k, make k = action) :
    t.first? q text wanted = none ↔ ∀ id k n, ¬ t.Offers q text id (make k) n := by
  simp only [first?_eq_none, ← Bool.not_eq_true, hwanted, not_exists]
  constructor
  · intro h id k n hoffers
    exact h id _ n hoffers k rfl
  · rintro h id action n hoffers k rfl
    exact h id k n hoffers

/-- Of the actions that `make` makes, the one on the first terminal with any is found. -/
theorem first?_eq_some_of {make : Nat → Action}
    (hwanted : ∀ action, wanted action = true ↔ ∃ k, make k = action) :
    t.first? q text wanted = some (id, action, n) ↔ (∃ k, make k = action) ∧
      t.Offers q text id action n ∧ ∀ id' k n', t.Offers q text id' (make k) n' → id ≤ id' := by
  rw [first?_eq_some, hwanted, and_left_comm]
  refine and_congr_right fun _ => and_congr_right fun _ => ?_
  constructor
  · intro h id' k n' hoffers
    exact h id' _ n' hoffers ((hwanted _).mpr ⟨k, rfl⟩)
  · intro h id' action' n' hoffers haction
    obtain ⟨k, rfl⟩ := (hwanted action').mp haction
    exact h id' k n' hoffers

/-- The choice is the same after all terminals have been matched. -/
theorem choose?_matchAll (t : ParseTable) (q : StateId) (text : List Char) :
    t.choose? q (t.matchAll text) =
      (t.first? q text Action.isShift).or (t.first? q text Action.isReduce) := by
  have hfind (wanted : Action → Bool) : ((t.matchAll text).filterMap fun (id, n?) =>
      ((t.row q).action? id).bind fun action => n?.map fun n => (id, action, n)).find?
        (fun found => wanted found.2.1) = t.first? q text wanted := by
    rw [List.find?_eq_findSome?_guard, findSome?_filterMap, matchAll, List.findSome?_map, first?]
    congr 1
    funext ⟨u, id⟩
    rw [Function.comp_apply, Row.offer?]
    dsimp only
    cases (t.row q).action? id with
    | none => rfl
    | some action =>
      cases u.matchBytes? text with
      | none => simp
      | some n => by_cases hwanted : wanted action = true <;> simp [Option.guard, hwanted]
  rw [choose?, hfind, hfind]

/-- An attempt goes by the same choice, with characters in place of bytes. -/
theorem map_nextAction? (h : t.terminals.size ≤ UInt16.size) (q : StateId) (text : List Char) :
    (t.nextAction? q text).map (fun (id, action, n) =>
        (id, action, Text.byteLength (text.take n))) =
      (t.first? q text Action.isShift).or (t.first? q text Action.isReduce) := by
  have hfirst (wanted : Action → Bool) : (t.firstMatch? (t.row q) text wanted).map
      (fun (id, action, n) => (id, action, Text.byteLength (text.take n))) =
        t.first? q text wanted := by
    change (t.numbered.findSome? ((t.row q).offer? (·.matchLength? text) wanted)).map _ = _
    rw [numbered_eq h, List.map_findSome?, first?]
    congr 1
    funext x
    simp only [Terminal.matchBytes?_eq_map]
    exact (t.row q).map_offer? (·.matchLength? text) wanted
      (fun n => Text.byteLength (text.take n)) x
  rw [nextAction?_eq, Option.map_or, hfirst, hfirst]

/-- How a table chooses the action for a text in a state. -/
structure Selects (t : ParseTable) (q : StateId) (text : List Char) : Prop where
  shift_iff : ∀ id next n, t.select? q text = some (id, .shift next, n) ↔
    t.Offers q text id (.shift next) n ∧
      ∀ id' next' n', t.Offers q text id' (.shift next') n' → id ≤ id'
  reduce_iff : ∀ id rule n, t.select? q text = some (id, .reduce rule, n) ↔
    t.Offers q text id (.reduce rule) n ∧
      (∀ id' next n', ¬ t.Offers q text id' (.shift next) n') ∧
      ∀ id' rule' n', t.Offers q text id' (.reduce rule') n' → id ≤ id'
  none_iff : t.select? q text = none ↔ ∀ id action n, ¬ t.Offers q text id action n
  /-- All terminals may be matched first. -/
  choose?_eq : t.choose? q (t.matchAll text) = t.select? q text
  /-- The actions of the state may have come in any other order. -/
  any_order : ∀ t' : ParseTable, t'.terminals = t.terminals →
    ((t.row q).actions.map (·.1)).Nodup → (t'.row q).actions.Perm (t.row q).actions →
      t'.select? q text = t.select? q text
  nextAction?_eq : (t.nextAction? q text).map (fun (id, action, n) =>
    (id, action, Text.byteLength (text.take n))) = t.select? q text

end ParseTable

/-- In a table whose terminals can be numbered in 16 bits, the first terminal that matches and can
be shifted is chosen, and where there is none the first that matches and asks for a reduction. -/
theorem selection_exact (t : ParseTable) (h : t.terminals.size ≤ UInt16.size) (q : StateId)
    (text : List Char) : t.Selects q text := by
  have hselect := ParseTable.select?_eq h q text
  have hshift (action : Action) : action.isShift = true ↔ ∃ next, .shift next = action := by
    cases action <;> simp [Action.isShift]
  have hreduce (action : Action) : action.isReduce = true ↔ ∃ rule, .reduce rule = action := by
    cases action <;> simp [Action.isReduce]
  constructor
  case shift_iff =>
    intro id next n
    rw [hselect, Option.or_eq_some_iff, ParseTable.first?_eq_some_of hshift,
      ParseTable.first?_eq_some_of hreduce]
    simp
  case reduce_iff =>
    intro id rule n
    rw [hselect, Option.or_eq_some_iff, ParseTable.first?_eq_some_of hshift,
      ParseTable.first?_eq_some_of hreduce, ParseTable.first?_eq_none_of hshift]
    simp [and_left_comm]
  case none_iff =>
    rw [hselect, Option.or_eq_none_iff, ParseTable.first?_eq_none_of hshift,
      ParseTable.first?_eq_none_of hreduce]
    constructor
    · rintro ⟨hshifts, hreduces⟩ id action n
      cases action with
      | shift next => exact hshifts id next n
      | reduce rule => exact hreduces id rule n
    · intro hnone
      exact ⟨fun id next => hnone id (.shift next), fun id rule => hnone id (.reduce rule)⟩
  case choose?_eq => rw [hselect, ParseTable.choose?_matchAll]
  case any_order =>
    intro t' hterminals hnodup hperm
    -- the actions come in by what is looked up only
    have hfirst (wanted : Action → Bool) :
        t'.first? q text wanted = t.first? q text wanted := by
      rw [ParseTable.first?, ParseTable.first?, hterminals]
      congr 1
      funext x
      have haction : (t'.row q).action? x.2 = (t.row q).action? x.2 :=
        Association.get?_perm hperm hnodup x.2
      rw [Row.offer?, Row.offer?, haction]
    have h' : t'.terminals.size ≤ UInt16.size := by rwa [hterminals]
    rw [hselect, ParseTable.select?_eq h', hfirst, hfirst]
  case nextAction?_eq => rw [hselect, ParseTable.map_nextAction? h]

/-- A table with a reduction on a terminal that comes before one to be shifted. -/
def contestedTable : Except DefinitionError ParseTable :=
  ParseTable.assemble "S" (["é", "é+", "x*"].filterMap (Terminal.ofPattern? Pattern.engine)).toArray
    #[.accept, ⟨"E", 0, []⟩] #[
    { actions := [(2, .shift 0), (0, .reduce 1), (1, .shift 1)] },
    { actions := [(2, .shift 0), (1, .reduce 0), (0, .reduce 1)] }]

theorem contested_selection : ∃ t, contestedTable = .ok t ∧ t.terminals.size ≤ UInt16.size ∧
    t.select? 0 "ééx".toList = some (1, .shift 1, 4) ∧
    t.select? 1 "ééx".toList = some (0, .reduce 1, 2) ∧ t.select? 1 "!".toList = none ∧
    (∀ id' next' n', t.Offers 0 "ééx".toList id' (.shift next') n' → 1 ≤ id') ∧
    (∀ id' next n', ¬ t.Offers 1 "ééx".toList id' (.shift next) n') ∧
    ∀ id action n, ¬ t.Offers 1 "!".toList id action n := by
  obtain ⟨t, ht, hcheck⟩ := Except.exists_ok (x := contestedTable)
    (p := fun t => t.terminals.size ≤ UInt16.size ∧
      t.select? 0 "ééx".toList = some (1, .shift 1, 4) ∧
      t.select? 1 "ééx".toList = some (0, .reduce 1, 2) ∧ t.select? 1 "!".toList = none)
    (by decide +kernel)
  obtain ⟨hsize, hshift, hreduce, hnone⟩ := of_decide_eq_true hcheck
  exact ⟨t, ht, hsize, hshift, hreduce, hnone,
    (((selection_exact t hsize 0 _).shift_iff _ _ _).mp hshift).2,
    (((selection_exact t hsize 1 _).reduce_iff _ _ _).mp hreduce).2.1,
    (selection_exact t hsize 1 _).none_iff.mp hnone⟩

end Reformat
