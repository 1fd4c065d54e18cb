import Mathlib.Data.List.Cycle
import Mathlib.Data.Set.Finite.Lattice
import Mathlib.Dynamics.PeriodicPts.Defs
import Reformat.Pattern.Engine
import Reformat.Proofs.BreadthFirst
import Reformat.Proofs.Compilation
import Reformat.Proofs.Renumbering

/-! Where a grammar may start. Whoever goes back from a name to the names that refer to it comes to
a start symbol, or goes around in a circle; so that only a grammar with such a circle, or with no
rules at all, has nothing to start with. -/

namespace Reformat

section

variable {α : Type} {r : α → α → Prop}

/-- A cycle backwards has the relation the other way. -/
theorem chain_reverse {c : Cycle α} : c.reverse.Chain r ↔ c.Chain fun a b => r b a := by
  induction c using Cycle.induction_on with
  | nil => rfl
  | cons a as _ =>
    have hreverse : Cycle.reverse ↑(a :: as) = ((a :: as.reverse : List α) : Cycle α) := by
      rw [Cycle.reverse_coe, List.reverse_cons, Cycle.coe_cons_eq_coe_append]
    have hlist : a :: (as.reverse ++ [a]) = (a :: (as ++ [a])).reverse := by simp
    rw [hreverse, Cycle.chain_coe_cons, Cycle.chain_coe_cons, hlist, List.isChain_reverse]

/-- Where each member of a finite set leads to another one, some of them form a cycle. -/
theorem exists_cycle {S : Set α} (hfinite : S.Finite) {x : α} (hx : x ∈ S)
    (hstep : ∀ a ∈ S, ∃ b ∈ S, b ≠ a ∧ r a b) :
    ∃ c : Cycle α, c.Nodup ∧ c.Nontrivial ∧ c.Chain r ∧ ∀ a ∈ c, a ∈ S := by
  have : Nonempty α := ⟨x⟩
  choose! f hf hne hr using hstep
  have hiterate (n : ℕ) : f^[n] x ∈ S := by
    induction n with
    | zero => exact hx
    | succ n ih =>
      rw [Function.iterate_succ_apply']
      exact hf _ ih
  -- the walk comes back to some `y`, and what lies between is the cycle
  obtain ⟨i, j, hlt, heq⟩ := hfinite.exists_lt_map_eq_of_forall_mem hiterate
  let y := f^[i] x
  have hmem (n : ℕ) : f^[n] y ∈ S := by
    rw [← Function.iterate_add_apply]
    exact hiterate (n + i)
  have hy : y ∈ Function.periodicPts f := by
    refine ⟨j - i, Nat.sub_pos_of_lt hlt, ?_⟩
    change f^[j - i] (f^[i] x) = f^[i] x
    rw [← Function.iterate_add_apply, Nat.sub_add_cancel (Nat.le_of_lt hlt), ← heq]
  refine ⟨Function.periodicOrbit f y, Function.nodup_periodicOrbit, ?_, ?_, ?_⟩
  · exact ⟨f y, y, hne y (hmem 0), Function.iterate_mem_periodicOrbit hy 1,
      Function.self_mem_periodicOrbit hy⟩
  · rw [Function.periodicOrbit_chain' r hy]
    intro n
    rw [Function.iterate_succ_apply']
    exact hr _ (hmem n)
  · intro a ha
    obtain ⟨n, rfl⟩ := (Function.mem_periodicOrbit_iff hy).mp ha
    exact hmem n

/-- Values come in the order of their first places. -/
theorem pairwise_idxOf_eraseDups [DecidableEq α] (as : List α) :
    as.eraseDups.Pairwise fun a b => as.idxOf a < as.idxOf b := by
  induction as using List.reverseRecOn with
  | nil => exact List.Pairwise.nil
  | append_singleton as last ih =>
    -- what is there already keeps its first place
    have hold (a : α) (ha : a ∈ as.eraseDups) : (as ++ [last]).idxOf a = as.idxOf a :=
      List.idxOf_append_of_mem (List.mem_eraseDups.mp ha)
    have hbefore : as.eraseDups.Pairwise fun a b =>
        (as ++ [last]).idxOf a < (as ++ [last]).idxOf b := by
      apply ih.imp_of_mem
      intro a b ha hb hlt
      rwa [hold a ha, hold b hb]
    rw [eraseDups_concat]
    split
    · exact hbefore
    · next hlast =>
      rw [List.pairwise_append]
      refine ⟨hbefore, List.pairwise_singleton _ _, ?_⟩
      intro a ha b hb
      obtain rfl := List.mem_singleton.mp hb
      rw [hold a ha, List.idxOf_append_of_notMem hlast]
      exact Nat.lt_add_right _ (List.idxOf_lt_length_of_mem (List.mem_eraseDups.mp ha))

end

/-- Adds the names that a rule refers to, apart from its own. -/
def Rule.addReferences (names : Numbering String) (rule : Rule) : Numbering String :=
  rule.elements.toList.foldl (fun names e =>
    match e.symbol with
    | .terminal _ => names
    | .nonterminal name => if name = rule.name then names else names.insert name) names

namespace Grammar

variable {g : Grammar} {name : String}

/-- The names that alternatives of other names refer to, collected from rule to rule. -/
def referenced (g : Grammar) : Numbering String := g.rules.toList.foldl Rule.addReferences ∅

/-- An alternative of the first name refers to the second one. -/
def RefersTo (g : Grammar) (a b : String) : Prop :=
  ∃ rule ∈ g.rules, rule.name = a ∧ .nonterminal b ∈ rule.symbols

/-- At least two names, each of which refers to the next one, and the last to the first. -/
structure IsReferenceCycle (g : Grammar) (c : Cycle String) : Prop where
  nodup : c.Nodup
  nontrivial : c.Nontrivial
  chain : c.Chain g.RefersTo

theorem mem_addReferences {rule : Rule} (names : Numbering String) :
    name ∈ (rule.addReferences names).toList ↔
      name ∈ names.toList ∨ .nonterminal name ∈ rule.symbols ∧ rule.name ≠ name := by
  rw [Rule.addReferences, Rule.symbols]
  generalize rule.elements.toList = es
  induction es generalizing names with
  | nil => simp
  | cons e es ih =>
    rw [List.foldl_cons, ih, List.map_cons, List.mem_cons, or_and_right, ← or_assoc]
    refine or_congr_left ?_
    cases e.symbol with
    | terminal pattern => simp
    | nonterminal other =>
      dsimp only
      rw [Symbol.nonterminal.injEq]
      split
      · next hother =>
        -- the rule's own name is passed over
        refine (or_iff_left ?_).symm
        rintro ⟨rfl, hne⟩
        exact hne hother.symm
      · next hother =>
        rw [Numbering.mem_toList_insert, or_comm]
        refine or_congr_right (and_iff_left_of_imp ?_).symm
        rintro rfl
        exact Ne.symm hother

theorem mem_referenced : name ∈ g.referenced.toList ↔
    ∃ rule ∈ g.rules, .nonterminal name ∈ rule.symbols ∧ rule.name ≠ name := by
  have hfold (rules : List Rule) (names : Numbering String) :
      name ∈ (rules.foldl Rule.addReferences names).toList ↔ name ∈ names.toList ∨
        ∃ rule ∈ rules, .nonterminal name ∈ rule.symbols ∧ rule.name ≠ name := by
    induction rules generalizing names with
    | nil => simp
    | cons rule rules ih =>
      rw [List.foldl_cons, ih, mem_addReferences, or_assoc]
      simp only [List.exists_mem_cons_iff]
  rw [referenced, hfold]
  simp

/-- The names that are defined and not collected are the start symbols. -/
theorem startSymbols_eq (g : Grammar) :
    g.startSymbols = g.nonterminals.filter fun name => !g.referenced.contains name := by
  rw [startSymbols]
  apply List.filter_congr
  intro name _
  congr 1
  rw [Bool.eq_iff_iff, Numbering.contains_iff, mem_referenced, Array.any_eq_true']
  refine exists_congr fun rule => and_congr_right fun _ => ?_
  rw [Bool.and_eq_true, Rule.refersTo_iff, decide_eq_true_iff, and_comm]

theorem mem_nonterminals : name ∈ g.nonterminals ↔ ∃ rule ∈ g.rules, rule.name = name := by
  rw [nonterminals_eq, List.mem_eraseDups, List.mem_map]
  simp only [Array.mem_toList_iff]

theorem mem_startSymbols : name ∈ g.startSymbols ↔ (∃ rule ∈ g.rules, rule.name = name) ∧
    ∀ rule ∈ g.rules, .nonterminal name ∈ rule.symbols → rule.name = name := by
  rw [startSymbols_eq, List.mem_filter, mem_nonterminals]
  refine and_congr_right fun _ => ?_
  rw [Bool.not_eq_true', ← Bool.not_eq_true, Numbering.contains_iff, mem_referenced]
  push Not
  rfl

theorem pairwise_startSymbols (g : Grammar) : g.startSymbols.Pairwise fun a b =>
    (g.rules.toList.map (·.name)).idxOf a < (g.rules.toList.map (·.name)).idxOf b :=
  (pairwise_idxOf_eraseDups _).sublist g.startSymbols_sublist

theorem RefersTo.isReachable {a b c : String} (h : g.RefersTo a b) (hc : g.IsReachable b c) :
    g.IsReachable a c := by
  obtain ⟨rule, hrule, rfl, hmem⟩ := h
  induction hc with
  | start => exact .reference hrule .start (Rule.refersTo_iff.mpr hmem)
  | reference hother _ hrefers ih => exact .reference hother ih hrefers

/-- What is not reachable from a start symbol is reachable from a cycle: each name that leads to it
has another one before it. -/
theorem exists_start_or_cycle {rule : Rule} (hrule : rule ∈ g.rules) :
    (∃ start ∈ g.startSymbols, g.IsReachable start rule.name) ∨
      ∃ c, g.IsReferenceCycle c ∧ ∃ name ∈ c, g.IsReachable name rule.name := by
  by_cases hstart : ∃ start ∈ g.startSymbols, g.IsReachable start rule.name
  · exact .inl hstart
  right
  -- all that leads to the rule, from which the walk back does not get out
  let S : Set String := {name | name ∈ g.nonterminals ∧ g.IsReachable name rule.name}
  have hfinite : S.Finite := by
    apply (List.finite_toSet g.nonterminals).subset
    exact fun name hname => hname.1
  have hself : rule.name ∈ S := ⟨mem_nonterminals.mpr ⟨rule, hrule, rfl⟩, .start⟩
  have hback : ∀ a ∈ S, ∃ b ∈ S, b ≠ a ∧ g.RefersTo b a := by
    rintro a ⟨hdefined, hreaches⟩
    have ha : a ∉ g.startSymbols := fun ha => hstart ⟨a, ha, hreaches⟩
    rw [mem_startSymbols, not_and] at ha
    have hreferred := ha (mem_nonterminals.mp hdefined)
    push Not at hreferred
    obtain ⟨other, hother, hmem, hne⟩ := hreferred
    have hrefers : g.RefersTo other.name a := ⟨other, hother, rfl, hmem⟩
    exact ⟨other.name, ⟨mem_nonterminals.mpr ⟨other, hother, rfl⟩, hrefers.isReachable hreaches⟩,
      hne, hrefers⟩
  obtain ⟨c, hnodup, hnontrivial, hchain, hmem⟩ := exists_cycle hfinite hself hback
  obtain ⟨name, other, hne, hname, hother⟩ := id hnontrivial
  -- the walk goes against the references
  refine ⟨c.reverse, ⟨?_, ?_, ?_⟩, name, Cycle.mem_reverse_iff.mpr hname, (hmem name hname).2⟩
  · exact Cycle.nodup_reverse_iff.mpr hnodup
  · exact Cycle.nontrivial_reverse_iff.mpr hnontrivial
  · exact chain_reverse.mpr hchain

theorem startSymbols_of_noStartSymbol {engine : Engine}
    (h : g.formatter engine = .error .noStartSymbol) : g.startSymbols = [] :=
  (formatterWith_eq_noStartSymbol.mp h).2

/-- The start symbols of a grammar, and what they cover. -/
structure StartsCover (g : Grammar) : Prop where
  collected : g.startSymbols = g.nonterminals.filter fun name => !g.referenced.contains name
  mem_iff : ∀ name, name ∈ g.startSymbols ↔ (∃ rule ∈ g.rules, rule.name = name) ∧
    ∀ rule ∈ g.rules, .nonterminal name ∈ rule.symbols → rule.name = name
  /-- They come in the order of their first rules, each once. -/
  order : g.startSymbols.Pairwise fun a b =>
    (g.rules.toList.map (·.name)).idxOf a < (g.rules.toList.map (·.name)).idxOf b
  covered : ∀ rule ∈ g.rules, (∃ start ∈ g.startSymbols, g.IsReachable start rule.name) ∨
    ∃ c, g.IsReferenceCycle c ∧ ∃ name ∈ c, g.IsReachable name rule.name
  ne_nil : g.rules ≠ #[] → (∀ c, ¬ g.IsReferenceCycle c) → g.startSymbols ≠ []
  noStartSymbol : ∀ engine, g.formatter engine = .error .noStartSymbol →
    g.rules = #[] ∨ ∃ c, g.IsReferenceCycle c

end Grammar

/-- Whatever is defined is reachable from a start symbol or from a cycle of references. -/
theorem start_symbols_cover (g : Grammar) : g.StartsCover := by
  have hne : g.rules ≠ #[] → (∀ c, ¬ g.IsReferenceCycle c) → g.startSymbols ≠ [] := by
    intro hrules hcycle
    obtain ⟨rule, hrule⟩ := Array.exists_mem_of_ne_empty _ hrules
    obtain ⟨start, hstart, -⟩ | ⟨c, hc, -⟩ := Grammar.exists_start_or_cycle hrule
    · exact List.ne_nil_of_mem hstart
    · exact absurd hc (hcycle c)
  constructor
  case collected => exact g.startSymbols_eq
  case mem_iff => exact fun name => Grammar.mem_startSymbols
  case order => exact g.pairwise_startSymbols
  case covered => exact fun rule hrule => Grammar.exists_start_or_cycle hrule
  case ne_nil => exact hne
  case noStartSymbol =>
    intro engine hformatter
    by_contra hnot
    push Not at hnot
    exact hne hnot.1 hnot.2 (Grammar.startSymbols_of_noStartSymbol hformatter)

-- references to itself or to what is not defined do not count, those of a cycle do
example : (Grammar.analyze ⟨#[⟨"S", #[⟨.nonterminal "S", {}⟩, ⟨.nonterminal "T", {}⟩], [], {}⟩,
    ⟨"A", #[⟨.nonterminal "B", {}⟩], [], {}⟩, ⟨"B", #[⟨.nonterminal "A", {}⟩], [], {}⟩,
    ⟨"S", #[], [], {}⟩, ⟨"E", #[⟨.nonterminal "B", {}⟩], [], {}⟩], false, _, rfl⟩
      Pattern.engine).startSymbols = ["S", "E"] := by
  decide +kernel

end Reformat
