import Mathlib.Order.Bounds.Defs
import Reformat.Association
import Reformat.Proofs.Drafts

/-! Calls that fail. A rule is added in steps, with checks before and among the changes. The checks
come in a fixed order, and a call that fails has not changed anything, so that all later calls go on
as if it had not been made. -/

namespace Reformat

namespace Association

variable {κ ν : Type} [DecidableEq κ]

/-- A value replaces the one that its key has, or comes last with a new key. -/
theorem put_map (key : κ) (value : ν) (f : κ → ν) {keys : List κ} (h : keys.Nodup) :
    put key value (keys.map fun k => (k, f k)) =
      (if key ∈ keys then keys else keys ++ [key]).map
        fun k => (k, if k = key then value else f k) := by
  induction keys with
  | nil => simp [put]
  | cons k keys ih =>
    obtain ⟨hk, hkeys⟩ := List.nodup_cons.mp h
    rw [List.map_cons, put]
    by_cases hkey : k = key
    · -- the key does not come again, so that no later value changes
      subst hkey
      rw [if_pos rfl, if_pos List.mem_cons_self, List.map_cons, if_pos rfl]
      have hrest : ∀ k' ∈ keys, (k', f k') = (k', if k' = k then value else f k') := by
        intro k' hk'
        rw [if_neg fun heq : k' = k => hk (heq ▸ hk')]
      rw [List.map_congr_left hrest]
    · rw [if_neg hkey, ih hkeys]
      by_cases hmem : key ∈ keys
      · rw [if_pos hmem, if_pos (List.mem_cons_of_mem k hmem), List.map_cons, if_neg hkey]
      · have hcons : key ∉ k :: keys := by
          rw [List.mem_cons, not_or]
          exact ⟨Ne.symm hkey, hmem⟩
        rw [if_neg hmem, if_neg hcons, List.cons_append, List.map_cons, if_neg hkey]

end Association

/-- One list of the table gets the number at its end; a new name comes last. -/
theorem NameTable.WellFormed.toList_add {t : NameTable} (ht : t.WellFormed) (name : String)
    (id : RuleId) :
    (t.add name id).toList = Association.put name (t.get name ++ [id]) t.toList := by
  have hget : ∀ n, (t.add name id).get n = if n = name then t.get name ++ [id] else t.get n := by
    intro n
    rw [get_add ht]
    split
    · next hn => rw [hn]
    · rfl
  rw [ht.add.toList_eq, ht.toList_eq, Association.put_map _ _ _ t.names.nodup_toList, names_add,
    Numbering.toList_insert]
  simp only [hget, Numbering.contains_iff]

/-- The number after another one, where 16 bits can hold it. -/
def RuleId.succ? (id : RuleId) : Option RuleId :=
  if id + 1 < UInt16.size then some (id + 1) else none

variable {alphabet : Alphabet}

namespace Draft

/-- Fails where a condition does not hold. -/
def require (condition : Bool) (error : GrammarError) : EStateM GrammarError Draft Unit :=
  if condition then pure () else throw error

/-- Fails if something is wrong with an element by itself. -/
def checkElement (alphabet : Alphabet) (e : Element) : EStateM GrammarError Draft Unit :=
  match elementError? alphabet e with
  | some error => throw error
  | none => pure ()

/-- Takes the next number, and lets the count go on. -/
def takeId : EStateM GrammarError Draft RuleId := do
  let d ← get
  match RuleId.succ? d.nextId with
  | none => throw .tooManyRules
  | some next =>
    set { d with nextId := next }
    return d.nextId

/-- Adds a rule step by step. What has been changed stays changed if a later step fails. -/
def ruleAt (alphabet : Alphabet) (rule : Rule) : EStateM GrammarError Draft RuleId := do
  require (alphabet.isIdentifier rule.name) (.invalidName rule.position rule.name)
  require (rule.elements.size ≤ maxElements) (.ruleTooLong rule.position rule.name)
  rule.elements.toList.forM (checkElement alphabet)
  require (!(← get).hasDuplicate rule) (.duplicateRule rule.position rule.name)
  let id ← takeId
  modify fun d => { d with rules := d.rules.insert id ⟨id, rule⟩ }
  modify fun d => { d with table := d.table.add rule.name id }
  return id

section

variable {ε σ α β : Type} {x : EStateM ε σ α} {f : α → EStateM ε σ β} {s t : σ}

theorem bind_of_ok {a : α} (h : x s = .ok a t) : (x >>= f) s = f a t := by
  simp only [bind, EStateM.bind, h]

theorem bind_of_error {e : ε} (h : x s = .error e t) : (x >>= f) s = .error e t := by
  simp only [bind, EStateM.bind, h]

end

variable {d d' : Draft} {added : List Rule} {rule : Rule} {id : RuleId} {error : GrammarError}

theorem get_eq (d : Draft) : (get : EStateM GrammarError Draft Draft) d = .ok d d := rfl

theorem require_of_true {condition : Bool} (h : condition = true) :
    require condition error d = .ok () d := by
  rw [require, if_pos h]
  rfl

theorem require_of_false {condition : Bool} (h : condition = false) :
    require condition error d = .error error d := by
  rw [require, if_neg (by simp [h])]
  rfl

theorem forM_checkElement (es : List Element) (d : Draft) :
    (es.forM (checkElement alphabet) : EStateM GrammarError Draft Unit) d =
      match es.findSome? (elementError? alphabet) with
      | some error => .error error d
      | none => .ok () d := by
  induction es with
  | nil => rfl
  | cons e es ih =>
    have hstep : ((e :: es).forM (checkElement alphabet) : EStateM GrammarError Draft Unit) =
      checkElement alphabet e >>= fun _ => es.forM (checkElement alphabet) := rfl
    rw [hstep, List.findSome?_cons]
    cases he : elementError? alphabet e with
    | some error =>
      have hcheck : checkElement alphabet e d = .error error d := by rw [checkElement, he]; rfl
      exact bind_of_error hcheck
    | none =>
      have hcheck : checkElement alphabet e d = .ok () d := by rw [checkElement, he]; rfl
      rw [bind_of_ok hcheck]
      exact ih

theorem takeId_of_le (h : d.nextId ≤ maxRules) :
    takeId d = .ok d.nextId { d with nextId := d.nextId + 1 } := by
  have hlt : d.nextId + 1 < UInt16.size := Nat.lt_succ_of_le (Nat.succ_le_succ h)
  have hsucc : RuleId.succ? d.nextId = some (d.nextId + 1) := if_pos hlt
  rw [takeId, bind_of_ok (get_eq d), hsucc]
  rfl

theorem takeId_of_lt (h : maxRules < d.nextId) : takeId d = .error .tooManyRules d := by
  have hsucc : RuleId.succ? d.nextId = none := if_neg (Nat.not_lt_of_le (Nat.succ_le_succ h))
  rw [takeId, bind_of_ok (get_eq d), hsucc]
  rfl

/-- The steps come to the same as adding the rule at once. -/
theorem ruleAt_eq (d : Draft) (rule : Rule) : ruleAt alphabet rule d =
    match d.addRule alphabet rule with
    | .error error => .error error d
    | .ok (id, draft) => .ok id draft := by
  unfold ruleAt addRule refusal?
  -- check by check: the first that fails ends the call, before anything is set
  cases hname : alphabet.isIdentifier rule.name with
  | false => exact bind_of_error (require_of_false rfl)
  | true =>
    rw [bind_of_ok (require_of_true rfl)]
    by_cases hsize : rule.elements.size ≤ maxElements
    case neg =>
      rw [bind_of_error (require_of_false (decide_eq_false hsize))]
      simp [Nat.lt_of_not_le hsize]
    rw [bind_of_ok (require_of_true (decide_eq_true hsize))]
    have helements : (rule.elements.toList.forM (checkElement alphabet)) d = _ :=
      forM_checkElement rule.elements.toList d
    rw [← Array.findSome?_toList]
    cases hsome : rule.elements.toList.findSome? (elementError? alphabet) with
    | some error =>
      rw [hsome] at helements
      rw [bind_of_error helements]
      simp [Nat.not_lt.mpr hsize]
    | none =>
      rw [hsome] at helements
      rw [bind_of_ok helements, bind_of_ok (get_eq d)]
      cases hduplicate : d.hasDuplicate rule with
      | true =>
        rw [bind_of_error (require_of_false (rfl : (!true) = false))]
        simp [Nat.not_lt.mpr hsize]
      | false =>
        rw [bind_of_ok (require_of_true (rfl : (!false) = true))]
        by_cases hid : d.nextId ≤ maxRules
        · rw [bind_of_ok (takeId_of_le hid)]
          simp [Nat.not_lt.mpr hsize, Nat.not_lt.mpr hid]
          rfl
        · rw [bind_of_error (takeId_of_lt (Nat.lt_of_not_le hid))]
          simp [Nat.not_lt.mpr hsize, Nat.lt_of_not_le hid]

/-- The first reason to refuse a rule, in the order in which they are looked for. -/
inductive Refuses (alphabet : Alphabet) (d : Draft) (rule : Rule) : GrammarError → Prop
  | name (hname : alphabet.isIdentifier rule.name = false) :
      Refuses alphabet d rule (.invalidName rule.position rule.name)
  | size (hname : alphabet.isIdentifier rule.name = true)
      (hsize : maxElements < rule.elements.size) :
      Refuses alphabet d rule (.ruleTooLong rule.position rule.name)
  /-- The leftmost name among the elements that is none. -/
  | element {before after : List Element} {e : Element} {name : String}
      (hname : alphabet.isIdentifier rule.name = true) (hsize : rule.elements.size ≤ maxElements)
      (helements : rule.elements.toList = before ++ e :: after)
      (hbefore : ∀ e ∈ before, ∀ name, e.symbol = .nonterminal name →
        alphabet.isIdentifier name = true)
      (hsymbol : e.symbol = .nonterminal name) (hinvalid : alphabet.isIdentifier name = false) :
      Refuses alphabet d rule (.invalidName e.position name)
  /-- A rule that differs from another one in its template or positions only. -/
  | duplicate {entry : RuleId × Declared} (hproper : rule.IsProper alphabet)
      (hentry : entry ∈ d.rules.toList) (hname : entry.2.rule.name = rule.name)
      (hsymbols : entry.2.rule.symbols = rule.symbols) :
      Refuses alphabet d rule (.duplicateRule rule.position rule.name)
  | full (hproper : rule.IsProper alphabet)
      (hnew : ∀ entry ∈ d.rules.toList, entry.2.rule.name = rule.name →
        entry.2.rule.symbols ≠ rule.symbols)
      (hsize : d.rules.size = maxRules) :
      Refuses alphabet d rule .tooManyRules

theorem elementError?_eq_some {e : Element} : elementError? alphabet e = some error ↔ ∃ name,
    e.symbol = .nonterminal name ∧ alphabet.isIdentifier name = false ∧
      error = .invalidName e.position name := by
  unfold elementError?
  cases e.symbol with
  | terminal pattern => simp
  | nonterminal name =>
    cases hname : alphabet.isIdentifier name with
    | true => simp [hname]
    | false => simp [hname, eq_comm (a := error)]

namespace Agrees

theorem hasDuplicate_iff (h : d.Agrees alphabet added) : d.hasDuplicate rule = true ↔
    ∃ entry ∈ d.rules.toList, entry.2.rule.name = rule.name ∧
      entry.2.rule.symbols = rule.symbols := by
  simp only [Draft.hasDuplicate_iff, h.mem_table_get_iff, RuleTable.get?_eq_some]
  constructor
  · rintro ⟨id, ⟨declared, hmem, hname⟩, declared', hmem', hsymbols⟩
    have hsame : declared = declared' := Option.some.inj
      ((RuleTable.get?_eq_some.mpr hmem).symm.trans (RuleTable.get?_eq_some.mpr hmem'))
    exact ⟨_, hmem, hname, hsame ▸ hsymbols⟩
  · rintro ⟨⟨id, declared⟩, hmem, hname, hsymbols⟩
    exact ⟨id, ⟨declared, hmem, hname⟩, declared, hmem, hsymbols⟩

theorem size_rules (h : d.Agrees alphabet added) : d.rules.size = added.length := by
  have hlength := congrArg List.length h.ids
  rwa [RuleTable.map_fst_toList, List.length_range', Numbering.toList, Array.length_toList,
    ← Numbering.size, d.rules.size_eq] at hlength

theorem maxRules_lt_nextId_iff (h : d.Agrees alphabet added) :
    maxRules < d.nextId ↔ d.rules.size = maxRules := by
  have hle := h.length_le
  rw [h.nextId, h.size_rules]
  omega

theorem refuses (h : d.Agrees alphabet added) (hrefusal : d.refusal? alphabet rule = some error) :
    d.Refuses alphabet rule error := by
  -- the checks one by one, each with what those before it have passed
  unfold refusal? at hrefusal
  split at hrefusal
  · next hname =>
    obtain rfl := Option.some.inj hrefusal
    exact .name (by simpa using hname)
  next hname =>
  have hname : alphabet.isIdentifier rule.name = true := by simpa using hname
  split at hrefusal
  · next hsize =>
    obtain rfl := Option.some.inj hrefusal
    exact .size hname hsize
  next hsize =>
  have hsize : rule.elements.size ≤ maxElements := Nat.le_of_not_lt hsize
  split at hrefusal
  · next helements =>
    obtain rfl := Option.some.inj hrefusal
    rw [← Array.findSome?_toList] at helements
    obtain ⟨before, e, after, hsplit, he, hbefore⟩ := List.findSome?_eq_some_iff.mp helements
    obtain ⟨name, hsymbol, hinvalid, rfl⟩ := elementError?_eq_some.mp he
    exact .element hname hsize hsplit (fun e he => elementError?_eq_none.mp (hbefore e he))
      hsymbol hinvalid
  next helements =>
  have hproper : rule.IsProper alphabet := isProper_iff.mpr ⟨hname, hsize, helements⟩
  split at hrefusal
  · next hduplicate =>
    obtain rfl := Option.some.inj hrefusal
    obtain ⟨entry, hentry, hname, hsymbols⟩ := h.hasDuplicate_iff.mp hduplicate
    exact .duplicate hproper hentry hname hsymbols
  next hduplicate =>
  rw [h.hasDuplicate_iff] at hduplicate
  split at hrefusal
  · next hid =>
    obtain rfl := Option.some.inj hrefusal
    exact .full hproper (fun entry hentry hname hsymbols =>
      hduplicate ⟨entry, hentry, hname, hsymbols⟩) (h.maxRules_lt_nextId_iff.mp hid)
  · exact nomatch hrefusal

theorem refusal?_eq (h : d.Agrees alphabet added) (hrefuses : d.Refuses alphabet rule error) :
    d.refusal? alphabet rule = some error := by
  cases hrefuses with
  | name hname => simp [refusal?, hname]
  | size hname hsize => simp [refusal?, hname, hsize]
  | @element before after e name hname hsize helements hbefore hsymbol hinvalid =>
    have he : elementError? alphabet e = some (.invalidName e.position name) :=
      elementError?_eq_some.mpr ⟨name, hsymbol, hinvalid, rfl⟩
    have hfirst : rule.elements.findSome? (elementError? alphabet) =
        some (.invalidName e.position name) := by
      rw [← Array.findSome?_toList, List.findSome?_eq_some_iff]
      exact ⟨before, e, after, helements, he,
        fun e he => elementError?_eq_none.mpr (hbefore e he)⟩
    simp [refusal?, hname, Nat.not_lt.mpr hsize, hfirst]
  | @duplicate entry hproper hentry hsame hsymbols =>
    obtain ⟨hname, hsize, helements⟩ := isProper_iff.mp hproper
    have hduplicate := h.hasDuplicate_iff.mpr ⟨entry, hentry, hsame, hsymbols⟩
    simp [refusal?, hname, Nat.not_lt.mpr hsize, helements, hduplicate]
  | full hproper hnew hfull =>
    obtain ⟨hname, hsize, helements⟩ := isProper_iff.mp hproper
    have hduplicate : d.hasDuplicate rule = false := by
      rw [← Bool.not_eq_true, h.hasDuplicate_iff]
      rintro ⟨entry, hentry, hsame, hsymbols⟩
      exact hnew entry hentry hsame hsymbols
    have hid := h.maxRules_lt_nextId_iff.mpr hfull
    simp [refusal?, hname, Nat.not_lt.mpr hsize, helements, hduplicate, hid]

theorem refusal?_eq_some (h : d.Agrees alphabet added) :
    d.refusal? alphabet rule = some error ↔ d.Refuses alphabet rule error :=
  ⟨h.refuses, h.refusal?_eq⟩

end Agrees

/-- A rule is added at the end, with the number after the highest one, and nothing else changes. -/
structure Appends (d : Draft) (rule : Rule) (id : RuleId) (d' : Draft) : Prop where
  eq_succ : ∃ highest, IsGreatest {n | n = 0 ∨ n ∈ d.rules.toList.map (·.1)} highest ∧
    id = highest + 1
  rules : d'.rules.toList = d.rules.toList ++ [(id, ⟨id, rule⟩)]
  /-- The number is added to the list of the rule's name; a new name comes last. -/
  table : d'.table.toList = Association.put rule.name (d.table.get rule.name ++ [id]) d.table.toList
  searchMode : d'.searchMode = d.searchMode
  nextId : d'.nextId = id + 1

theorem Agrees.appends_push (h : d.Agrees alphabet added) (rule : Rule) :
    d.Appends rule d.nextId (d.push rule) where
  eq_succ := by
    refine ⟨added.length, ⟨?_, ?_⟩, h.nextId⟩
    · cases hlength : added.length with
      | zero => exact .inl rfl
      | succ n =>
        refine .inr ?_
        rw [h.ids, List.mem_range'_1]
        omega
    · rintro id (rfl | hid)
      · exact Nat.zero_le _
      · rw [h.ids, List.mem_range'_1, Nat.add_comm] at hid
        exact Nat.le_of_lt_succ hid.2
  rules := by
    refine RuleTable.toList_insert ?_
    rw [h.ids, h.nextId, List.mem_range'_1]
    omega
  table := by
    have hwell : d.table.WellFormed := h.table ▸ NameTable.wellFormed_ofRules added
    exact hwell.toList_add rule.name d.nextId
  searchMode := rfl
  nextId := rfl

/-- Makes a call; only one that adds a rule has an answer. -/
def Call.perform (alphabet : Alphabet) : Call → EStateM GrammarError Draft (Option RuleId)
  | .ruleAt rule => some <$> Draft.ruleAt alphabet rule
  | .rule name elements template => some <$> Draft.ruleAt alphabet { name, elements, template }
  | .searchMode enabled => do
    modify (·.setSearchMode enabled)
    return none

/-- The answers to calls, one after the other, and the draft that they leave. A call that fails is
followed by the next one all the same. -/
def performAll (alphabet : Alphabet) :
    List Call → Draft → List (Except GrammarError (Option RuleId)) × Draft
  | [], d => ([], d)
  | call :: later, d =>
    match call.perform alphabet d with
    | .ok id d' => (.ok id :: (performAll alphabet later d').1, (performAll alphabet later d').2)
    | .error error d' =>
      (.error error :: (performAll alphabet later d').1, (performAll alphabet later d').2)

/-- What adding a rule to a draft may do. -/
structure AddsAtomically (alphabet : Alphabet) (d : Draft) (rule : Rule) : Prop where
  /-- The rules that it is compared with are there. -/
  compared : ∀ id ∈ d.table.get rule.name, ∃ other, d.rules.get? id = some other
  /-- It fails for the first reason there is, and then nothing has changed. -/
  error_iff : ∀ error d', ruleAt alphabet rule d = .error error d' ↔
    d.Refuses alphabet rule error ∧ d' = d
  /-- Later calls go on as if one that fails had not been made. -/
  no_trace : ∀ error, d.Refuses alphabet rule error → ∀ later,
    performAll alphabet (.ruleAt rule :: later) d =
      (.error error :: (performAll alphabet later d).1, (performAll alphabet later d).2)
  appends : (¬ ∃ error, d.Refuses alphabet rule error) →
    ∃ id d', ruleAt alphabet rule d = .ok id d' ∧ d.Appends rule id d'
  /-- Adding the rule at once comes to the same. -/
  addRule_eq : d.addRule alphabet rule =
    match ruleAt alphabet rule d with
    | .ok id d' => .ok (id, d')
    | .error error _ => .error error

theorem ruleAt_of_refused (h : d.refusal? alphabet rule = some error) :
    ruleAt alphabet rule d = .error error d := by
  rw [ruleAt_eq, addRule, h]

theorem ruleAt_of_accepted (h : d.refusal? alphabet rule = none) :
    ruleAt alphabet rule d = .ok d.nextId (d.push rule) := by
  rw [ruleAt_eq, addRule, h]

namespace Agrees

theorem addsAtomically (h : d.Agrees alphabet added) (rule : Rule) :
    d.AddsAtomically alphabet rule := by
  have hrefuses : ∀ error, d.Refuses alphabet rule error →
      ruleAt alphabet rule d = .error error d :=
    fun error hrefuses => ruleAt_of_refused (h.refusal?_eq_some.mpr hrefuses)
  constructor
  case compared =>
    intro id hid
    obtain ⟨other, hother, -⟩ := h.mem_table_get_iff.mp hid
    exact ⟨other, hother⟩
  case error_iff =>
    intro error d'
    constructor
    · intro hruleAt
      cases hrefusal : d.refusal? alphabet rule with
      | none =>
        rw [ruleAt_of_accepted hrefusal] at hruleAt
        exact nomatch hruleAt
      | some first =>
        rw [ruleAt_of_refused hrefusal] at hruleAt
        obtain ⟨rfl, rfl⟩ := EStateM.Result.error.inj hruleAt
        exact ⟨h.refusal?_eq_some.mp hrefusal, rfl⟩
    · rintro ⟨herror, rfl⟩
      exact hrefuses error herror
  case no_trace =>
    intro error herror later
    -- the draft is as before, so that the calls that follow cannot tell
    have hperform : (Call.ruleAt rule).perform alphabet d = .error error d := by
      simp only [Call.perform, Functor.map, EStateM.map, hrefuses error herror]
    rw [performAll, hperform]
  case appends =>
    intro hnone
    have hrefusal : d.refusal? alphabet rule = none :=
      Option.eq_none_iff_forall_ne_some.mpr fun error hsome =>
        hnone ⟨error, h.refusal?_eq_some.mp hsome⟩
    exact ⟨_, _, ruleAt_of_accepted hrefusal, h.appends_push rule⟩
  case addRule_eq =>
    rw [ruleAt_eq]
    cases d.addRule alphabet rule <;> rfl

/-- Whether a call fails or not, it leaves a draft of some rules. -/
theorem perform (h : d.Agrees alphabet added) (call : Call) :
    (∃ id d', call.perform alphabet d = .ok id d' ∧ ∃ added', d'.Agrees alphabet added') ∨
      ∃ error, call.perform alphabet d = .error error d := by
  have hruleAt : ∀ rule, (∃ id d', (some <$> ruleAt alphabet rule) d = .ok id d' ∧
      ∃ added', d'.Agrees alphabet added') ∨
        ∃ error, (some <$> ruleAt alphabet rule) d = .error error d := by
    intro rule
    cases hrefusal : d.refusal? alphabet rule with
    | none =>
      refine .inl ⟨some d.nextId, d.push rule, ?_, _, h.push hrefusal⟩
      simp only [Functor.map, EStateM.map, ruleAt_of_accepted hrefusal]
    | some error =>
      refine .inr ⟨error, ?_⟩
      simp only [Functor.map, EStateM.map, ruleAt_of_refused hrefusal]
  cases call with
  | ruleAt rule => exact hruleAt rule
  | rule name elements template => exact hruleAt _
  | searchMode enabled => exact .inl ⟨none, _, rfl, _, h.setSearchMode enabled⟩

theorem performAll (h : d.Agrees alphabet added) (calls : List Call) :
    ∃ added', (Draft.performAll alphabet calls d).2.Agrees alphabet added' := by
  -- the draft that the first call leaves is where the others begin
  induction calls generalizing d added with
  | nil => exact ⟨added, h⟩
  | cons call later ih =>
    rw [Draft.performAll]
    obtain ⟨id, d', hperform, added', h'⟩ | ⟨error, hperform⟩ := h.perform call
    · rw [hperform]
      exact ih h'
    · rw [hperform]
      exact ih h

end Agrees

end Draft

/-- After whatever calls, a rule is either refused for the first reason there is, which leaves no
trace in the draft nor in what is answered later, or added at the end. -/
theorem calls_add_atomically (alphabet : Alphabet) (calls : List Draft.Call) (rule : Rule) :
    (Draft.performAll alphabet calls .empty).2.AddsAtomically alphabet rule := by
  have hempty : Draft.empty.Agrees alphabet [] := Draft.agrees_empty
  obtain ⟨added, h⟩ := hempty.performAll calls
  exact h.addsAtomically rule

-- neither a name that is none nor a second rule with the same elements takes a number
example : (Draft.performAll Unicode.alphabet [.rule "S" #[] [], .rule "1" #[] [],
    .rule "S" #[] [.literal "x"], .searchMode true, .rule "E" #[] []] .empty).1 =
    [.ok (some 1), .error (.invalidName {} "1"), .error (.duplicateRule {} "S"), .ok none,
      .ok (some 2)] := by
  decide +kernel

end Reformat
