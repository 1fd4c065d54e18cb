import Mathlib.Data.List.Nodup
import Reformat.Draft
import Reformat.Proofs.Alternatives
import Reformat.Unicode.Identifier

/-! Whatever is called on a draft, and whatever of it is refused: the rules that were added have the
numbers from 1, in the order in which they came, and the table lists these numbers by name. -/

namespace Reformat

namespace RuleTable

variable {t : RuleTable} {id : RuleId} {declared : Declared}

theorem map_fst_toList (t : RuleTable) : t.toList.map (·.1) = t.ids.toList :=
  List.map_fst_zip (Nat.le_of_eq t.size_eq)

theorem get?_eq_some : t.get? id = some declared ↔ (id, declared) ∈ t.toList := by
  rw [get?, Option.bind_eq_some_iff, toList, List.mem_iff_getElem?]
  simp only [Numbering.number?_eq_some, List.getElem?_zip_eq_some, Numbering.toList,
    Array.getElem?_toList]

theorem toList_insert (hid : id ∉ t.toList.map (·.1)) :
    (t.insert id declared).toList = t.toList ++ [(id, declared)] := by
  rw [map_fst_toList] at hid
  have hnone : t.ids.number? id = none := Numbering.number?_eq_none.mpr hid
  unfold insert
  split
  · next i hi => simp [hnone] at hi
  · rw [toList, Numbering.toList, Numbering.values_insert hnone, Array.toList_push,
      Array.toList_push, List.zip_append t.size_eq]
    rfl

end RuleTable

variable {alphabet : Alphabet}

/-- What is asked of a rule by itself. -/
structure Rule.IsProper (alphabet : Alphabet) (rule : Rule) : Prop where
  name : alphabet.isIdentifier rule.name = true
  size : rule.elements.size ≤ Draft.maxElements
  symbols : ∀ name, .nonterminal name ∈ rule.symbols → alphabet.isIdentifier name = true

/-- No name in a proper rule is the one that is kept for accepting rules. -/
theorem Rule.IsProper.not_accept {rule : Rule} (h : rule.IsProper alphabet) :
    rule.name ≠ "$accept" ∧ .nonterminal "$accept" ∉ rule.symbols := by
  have haccept := alphabet.isIdentifier_accept
  refine ⟨fun hname => ?_, fun hsymbol => ?_⟩
  · simp [← hname, h.name] at haccept
  · simp [h.symbols _ hsymbol] at haccept

namespace Draft

variable {d : Draft} {added : List Rule} {rule : Rule} {id : RuleId}

theorem elementError?_eq_none {e : Element} : elementError? alphabet e = none ↔
    ∀ name, e.symbol = .nonterminal name → alphabet.isIdentifier name = true := by
  unfold elementError?
  cases e.symbol with
  | terminal pattern => simp
  | nonterminal name => simp

theorem isProper_iff : rule.IsProper alphabet ↔ alphabet.isIdentifier rule.name = true ∧
    rule.elements.size ≤ maxElements ∧ rule.elements.findSome? (elementError? alphabet) = none := by
  have hsymbols : rule.elements.findSome? (elementError? alphabet) = none ↔
      ∀ name, .nonterminal name ∈ rule.symbols → alphabet.isIdentifier name = true := by
    rw [Array.findSome?_eq_none_iff]
    simp only [elementError?_eq_none, Rule.symbols, List.mem_map, Array.mem_toList_iff]
    exact ⟨fun h name ⟨e, he, hname⟩ => h e he name hname,
      fun h e he name hname => h name ⟨e, he, hname⟩⟩
  rw [hsymbols]
  exact ⟨fun h => ⟨h.name, h.size, h.symbols⟩, fun ⟨hname, hsize, h⟩ => ⟨hname, hsize, h⟩⟩

theorem hasDuplicate_iff : d.hasDuplicate rule = true ↔ ∃ id ∈ d.table.get rule.name,
    ∃ declared, d.rules.get? id = some declared ∧ declared.rule.symbols = rule.symbols := by
  have hsize : ∀ other : Rule, other.symbols = rule.symbols →
      other.elements.size = rule.elements.size := by
    intro other hsymbols
    simpa [Rule.symbols] using congrArg List.length hsymbols
  rw [hasDuplicate, List.any_eq_true]
  refine exists_congr fun id => and_congr_right fun _ => ?_
  cases d.rules.get? id with
  | none => simp
  | some declared => simpa using hsize declared.rule

theorem refusal?_eq_none : d.refusal? alphabet rule = none ↔
    rule.IsProper alphabet ∧ d.hasDuplicate rule = false ∧ d.nextId ≤ maxRules := by
  rw [isProper_iff, refusal?]
  by_cases hname : alphabet.isIdentifier rule.name = true
  · by_cases hsize : rule.elements.size ≤ maxElements
    · cases rule.elements.findSome? (elementError? alphabet) with
      | some error => simp [hname, Nat.not_lt.mpr hsize]
      | none => cases d.hasDuplicate rule <;> simp [hname, hsize, Nat.not_lt.mpr hsize]
    · simp [hname, hsize, Nat.lt_of_not_le hsize]
  · simp [hname]

/-- The rules of a draft, its table and its next number are those of the rules `added`, each of
which could be added after the ones before it. -/
structure Agrees (alphabet : Alphabet) (d : Draft) (added : List Rule) : Prop where
  rules : d.rules.toList = (added.zipIdx 1).map fun (rule, id) => (id, ⟨id, rule⟩)
  table : d.table = .ofRules added.toArray
  nextId : d.nextId = added.length + 1
  length_le : added.length ≤ maxRules
  proper : ∀ rule ∈ added, rule.IsProper alphabet
  distinct : added.Pairwise fun r s => r.name = s.name → r.symbols ≠ s.symbols

theorem agrees_empty : empty.Agrees alphabet [] where
  rules := rfl
  table := rfl
  nextId := rfl
  length_le := Nat.zero_le _
  proper := by simp
  distinct := List.Pairwise.nil

namespace Agrees

theorem ids (h : d.Agrees alphabet added) :
    d.rules.toList.map (·.1) = List.range' 1 added.length := by
  rw [h.rules, List.map_map]
  exact List.zipIdx_map_snd 1 added

theorem get?_eq_some (h : d.Agrees alphabet added) {declared : Declared} :
    d.rules.get? id = some declared ↔ declared.id = id ∧ (declared.rule, id) ∈ added.zipIdx 1 := by
  rw [RuleTable.get?_eq_some, h.rules, List.mem_map]
  constructor
  · rintro ⟨⟨rule, number⟩, hmem, heq⟩
    obtain ⟨rfl, rfl⟩ := Prod.mk.inj heq
    exact ⟨rfl, hmem⟩
  · rintro ⟨rfl, hmem⟩
    exact ⟨_, hmem, rfl⟩

theorem exists_get?_of_mem (h : d.Agrees alphabet added) (hrule : rule ∈ added) :
    ∃ id, d.rules.get? id = some ⟨id, rule⟩ := by
  rw [← List.zipIdx_map_fst 1 added] at hrule
  obtain ⟨⟨rule, id⟩, hmem, rfl⟩ := List.mem_map.mp hrule
  exact ⟨id, h.get?_eq_some.mpr ⟨rfl, hmem⟩⟩

/-- Under a name are the numbers of the rules with that name. -/
theorem mem_table_get_iff (h : d.Agrees alphabet added) {name : String} : id ∈ d.table.get name ↔
    ∃ declared, d.rules.get? id = some declared ∧ declared.rule.name = name := by
  simp only [h.table, NameTable.mem_get_ofRules, h.get?_eq_some]
  constructor
  · rintro ⟨rule, hmem, hname⟩
    exact ⟨⟨id, rule⟩, ⟨rfl, hmem⟩, hname⟩
  · rintro ⟨declared, ⟨-, hmem⟩, hname⟩
    exact ⟨declared.rule, hmem, hname⟩

theorem hasDuplicate_eq_false (h : d.Agrees alphabet added) : d.hasDuplicate rule = false ↔
    ∀ other ∈ added, other.name = rule.name → other.symbols ≠ rule.symbols := by
  rw [← Bool.not_eq_true, hasDuplicate_iff]
  constructor
  · intro hnone other hother hname hsymbols
    obtain ⟨id, hid⟩ := h.exists_get?_of_mem hother
    exact hnone ⟨id, h.mem_table_get_iff.mpr ⟨_, hid, hname⟩, _, hid, hsymbols⟩
  · rintro hother ⟨id, hid, declared, hdeclared, hsymbols⟩
    obtain ⟨same, hsame, hname⟩ := h.mem_table_get_iff.mp hid
    obtain rfl : declared = same := Option.some.inj (hdeclared.symm.trans hsame)
    have hmem := List.fst_mem_of_mem_zipIdx (h.get?_eq_some.mp hdeclared).2
    exact hother _ hmem hname hsymbols

/-- A rule is accepted if nothing is wrong with it, none of the rules before it is like it and there
is a number left. -/
theorem refusal?_eq_none (h : d.Agrees alphabet added) :
    d.refusal? alphabet rule = none ↔ rule.IsProper alphabet ∧
      (∀ other ∈ added, other.name = rule.name → other.symbols ≠ rule.symbols) ∧
        added.length < maxRules := by
  rw [Draft.refusal?_eq_none, h.hasDuplicate_eq_false, h.nextId, Nat.succ_le_iff]

/-- A rule that is not refused is added to what is there. -/
theorem push (h : d.Agrees alphabet added) (hrefusal : d.refusal? alphabet rule = none) :
    (d.push rule).Agrees alphabet (added ++ [rule]) := by
  obtain ⟨hproper, hdistinct, hlength⟩ := h.refusal?_eq_none.mp hrefusal
  have hnew : d.nextId ∉ d.rules.toList.map (·.1) := by
    rw [h.ids, h.nextId, List.mem_range'_1]
    omega
  constructor
  case rules =>
    change (d.rules.insert d.nextId ⟨d.nextId, rule⟩).toList = _
    rw [RuleTable.toList_insert hnew, h.rules, h.nextId, List.zipIdx_append, List.map_append,
      Nat.add_comm]
    rfl
  case table =>
    change d.table.add rule.name d.nextId = _
    rw [h.table, h.nextId, NameTable.ofRules_concat]
  case nextId =>
    change d.nextId + 1 = _
    rw [h.nextId, List.length_append]
    rfl
  case length_le =>
    rw [List.length_append, List.length_singleton]
    exact hlength
  case proper =>
    intro r hr
    -- the rules before are proper, and the new one has passed the checks
    rcases List.mem_append.mp hr with hr | hr
    · exact h.proper r hr
    · rwa [List.mem_singleton.mp hr]
  case distinct =>
    rw [List.pairwise_append]
    refine ⟨h.distinct, List.pairwise_singleton _ _, fun r hr s hs => ?_⟩
    rw [List.mem_singleton.mp hs]
    exact hdistinct r hr

theorem setSearchMode (h : d.Agrees alphabet added) (enabled : Bool) :
    (d.setSearchMode enabled).Agrees alphabet added :=
  ⟨h.rules, h.table, h.nextId, h.length_le, h.proper, h.distinct⟩

theorem of_mem_table_toList (h : d.Agrees alphabet added) {entry : String × List RuleId}
    (hentry : entry ∈ d.table.toList) :
    (∃ rule ∈ added, rule.name = entry.1) ∧ d.table.get entry.1 = entry.2 := by
  rw [h.table] at hentry ⊢
  rw [(NameTable.wellFormed_ofRules added).toList_eq, NameTable.names_ofRules] at hentry
  obtain ⟨name, hname, rfl⟩ := List.mem_map.mp hentry
  exact ⟨by simpa using hname, rfl⟩

/-- A number is under the name of its rule, and under no other. -/
theorem nodup_flatMap_get (h : d.Agrees alphabet added) :
    (d.table.names.toList.flatMap d.table.get).Nodup := by
  refine List.nodup_flatMap.mpr ⟨fun name _ => ?_, ?_⟩
  · rw [h.table]
    exact (NameTable.pairwise_get_ofRules _ _).imp Nat.ne_of_lt
  · refine d.table.names.nodup_toList.imp fun {name other} hne id hid hid' => hne ?_
    obtain ⟨declared, hdeclared, rfl⟩ := h.mem_table_get_iff.mp hid
    obtain ⟨declared', hdeclared', rfl⟩ := h.mem_table_get_iff.mp hid'
    rw [Option.some.inj (hdeclared.symm.trans hdeclared')]

theorem flatMap_table_perm (h : d.Agrees alphabet added) :
    (d.table.toList.flatMap (·.2)).Perm (List.range' 1 added.length) := by
  have hlists : d.table.toList.flatMap (·.2) = d.table.names.toList.flatMap d.table.get := by
    rw [h.table, (NameTable.wellFormed_ofRules added).toList_eq, List.flatMap_map]
  rw [hlists, List.perm_ext_iff_of_nodup h.nodup_flatMap_get List.nodup_range', ← h.ids]
  intro id
  rw [List.mem_flatMap, List.mem_map]
  constructor
  · rintro ⟨name, -, hid⟩
    obtain ⟨declared, hdeclared, -⟩ := h.mem_table_get_iff.mp hid
    exact ⟨_, RuleTable.get?_eq_some.mp hdeclared, rfl⟩
  · rintro ⟨⟨id, declared⟩, hmem, rfl⟩
    have hid : id ∈ d.table.get declared.rule.name :=
      h.mem_table_get_iff.mpr ⟨declared, RuleTable.get?_eq_some.mpr hmem, rfl⟩
    refine ⟨declared.rule.name, ?_, hid⟩
    by_contra hname
    rw [NameTable.get_eq_nil hname] at hid
    exact absurd hid List.not_mem_nil

theorem grammar_rules (h : d.Agrees alphabet added) : d.grammar.rules.toList = added := by
  have hdeclared : d.rules.declared.toList = d.rules.toList.map (·.2) :=
    (List.map_snd_zip (Nat.le_of_eq d.rules.size_eq.symm)).symm
  rw [grammar, Array.toList_map, hdeclared, h.rules, List.map_map, List.map_map]
  exact List.zipIdx_map_fst 1 added

end Agrees

/-- A draft records the rules `added`, and nothing else. -/
structure Records (alphabet : Alphabet) (d : Draft) (added : List Rule) : Prop where
  /-- The rules are kept in the order in which they were added, under the numbers from 1. -/
  rules : d.rules.toList = (added.zipIdx 1).map fun (rule, id) => (id, ⟨id, rule⟩)
  ids : d.rules.toList.map (·.1) = List.range' 1 added.length
  order : ∀ entry ∈ d.rules.toList, entry.2.order = entry.1
  length_le : added.length ≤ maxRules
  nextId : d.nextId = added.length + 1
  /-- The table lists each name once, in the order of their first definitions. -/
  names : d.table.toList.map (·.1) = (added.map (·.name)).eraseDups
  ids_ne_nil : ∀ entry ∈ d.table.toList, entry.2 ≠ []
  ascending : ∀ entry ∈ d.table.toList, entry.2.Pairwise (· < ·)
  mem_ids_iff : ∀ entry ∈ d.table.toList, ∀ id, id ∈ entry.2 ↔
    ∃ declared, d.rules.get? id = some declared ∧ declared.rule.name = entry.1
  /-- Each number is in just one of the lists, and only once. -/
  partition : (d.table.toList.flatMap (·.2)).Perm (List.range' 1 added.length)
  proper : ∀ rule ∈ added, rule.IsProper alphabet
  not_accept : ∀ rule ∈ added, rule.name ≠ "$accept" ∧ .nonterminal "$accept" ∉ rule.symbols
  distinct : added.Pairwise fun r s => r.name = s.name → r.symbols ≠ s.symbols
  /-- A grammar is made of the same rules, with the same table. -/
  grammar_rules : d.grammar.rules.toList = added
  grammar_table : d.grammar.table = d.table

theorem Agrees.records (h : d.Agrees alphabet added) : d.Records alphabet added where
  rules := h.rules
  ids := h.ids
  order := by
    intro entry hentry
    rw [h.rules] at hentry
    obtain ⟨⟨rule, id⟩, -, rfl⟩ := List.mem_map.mp hentry
    rfl
  length_le := h.length_le
  nextId := h.nextId
  names := by
    rw [h.table, (NameTable.wellFormed_ofRules added).toList_eq, List.map_map,
      NameTable.names_ofRules]
    exact List.map_id _
  ids_ne_nil := by
    intro entry hentry
    obtain ⟨⟨rule, hrule, hname⟩, hids⟩ := h.of_mem_table_toList hentry
    obtain ⟨id, hid⟩ := h.exists_get?_of_mem hrule
    rw [← hids]
    exact List.ne_nil_of_mem (h.mem_table_get_iff.mpr ⟨_, hid, hname⟩)
  ascending := by
    intro entry hentry
    rw [← (h.of_mem_table_toList hentry).2, h.table]
    exact NameTable.pairwise_get_ofRules _ _
  mem_ids_iff := by
    intro entry hentry id
    rw [← (h.of_mem_table_toList hentry).2]
    exact h.mem_table_get_iff
  partition := h.flatMap_table_perm
  proper := h.proper
  not_accept := fun rule hrule => (h.proper rule hrule).not_accept
  distinct := h.distinct
  grammar_rules := h.grammar_rules
  grammar_table := by
    have hrules : added.toArray = d.grammar.rules := by rw [← h.grammar_rules, Array.toArray_toList]
    rw [d.grammar.table_eq, h.table, hrules]

/-- What may be called on a draft. -/
inductive Call where
  | ruleAt (rule : Rule)
  | rule (name : String) (elements : Array Element) (template : Template)
  | searchMode (enabled : Bool)

/-- A draft with the rules that have been added to it. -/
structure Filling where
  draft : Draft
  added : List Rule

namespace Filling

/-- Adds a rule; a refused one changes nothing. -/
def add (alphabet : Alphabet) (f : Filling) (rule : Rule) : Filling :=
  match f.draft.addRule alphabet rule with
  | .ok (_, draft) => ⟨draft, f.added ++ [rule]⟩
  | .error _ => f

def call (alphabet : Alphabet) (f : Filling) : Call → Filling
  | .ruleAt rule => f.add alphabet rule
  | .rule name elements template => f.add alphabet { name, elements, template }
  | .searchMode enabled => { f with draft := f.draft.setSearchMode enabled }

/-- What calls make of an empty draft. -/
def ofCalls (alphabet : Alphabet) (calls : List Call) : Filling :=
  calls.foldl (call alphabet) ⟨.empty, []⟩

theorem agrees_add {f : Filling} (h : f.draft.Agrees alphabet f.added) (rule : Rule) :
    (f.add alphabet rule).draft.Agrees alphabet (f.add alphabet rule).added := by
  unfold add addRule
  cases hrefusal : f.draft.refusal? alphabet rule with
  | some error => exact h
  | none => exact h.push hrefusal

theorem agrees_call {f : Filling} (h : f.draft.Agrees alphabet f.added) (c : Call) :
    (f.call alphabet c).draft.Agrees alphabet (f.call alphabet c).added := by
  cases c with
  | ruleAt rule => exact agrees_add h rule
  | rule name elements template => exact agrees_add h _
  | searchMode enabled => exact h.setSearchMode enabled

theorem agrees_ofCalls (alphabet : Alphabet) (calls : List Call) :
    (ofCalls alphabet calls).draft.Agrees alphabet (ofCalls alphabet calls).added := by
  induction calls using List.reverseRecOn with
  | nil => exact agrees_empty
  | append_singleton calls c ih =>
    rw [ofCalls, List.foldl_append]
    exact agrees_call ih c

end Filling

end Draft

/-- Whatever is called on an empty draft, and in whatever order rules are added and refused, it
records the rules that were added. This holds for every alphabet. -/
theorem calls_recorded (alphabet : Alphabet) (calls : List Draft.Call) :
    (Draft.Filling.ofCalls alphabet calls).draft.Records alphabet
      (Draft.Filling.ofCalls alphabet calls).added :=
  (Draft.Filling.agrees_ofCalls alphabet calls).records

-- refused rules leave no gap in the numbers
example : (Draft.Filling.ofCalls Unicode.alphabet [.rule "S" #[⟨.nonterminal "E", {}⟩] [],
    .rule "$accept" #[] [], .ruleAt ⟨"S", #[⟨.nonterminal "E", {}⟩], [.literal "x"], {}⟩,
    .searchMode true, .rule "E" #[] [], .rule "S" #[] []]).draft.table.toList =
      [("S", [1, 3]), ("E", [2])] := by
  decide +kernel

end Reformat
