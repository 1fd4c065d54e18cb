import Mathlib.Data.Prod.Lex
import Mathlib.Order.Bounds.Defs
import Mathlib.Order.MinMax
import Reformat.Pattern.Engine
import Reformat.Proofs.Shapes

/-! What an analysis reports. Each error is listed at its place, in the order of places, and once
only; nothing is reported exactly if nothing is wrong. Whether a pattern is well-formed is left to
any function. -/

namespace Reformat

/-- A rule, and something in it, both counted from 0. Places in earlier rules come first. -/
abbrev Place := Lex (Nat × Nat)

def Place.rule (p : Place) : Nat := (ofLex p).1

def Place.part (p : Place) : Nat := (ofLex p).2

section

variable {α β γ : Type}

/-- A list has all that belongs somewhere, in the order of its places, and nothing else. -/
def InOrder (belongs : Place → β → Prop) (bs : List β) : Prop :=
  ∃ places : List (Place × β), places.Pairwise (·.1 < ·.1) ∧
    (∀ p b, (p, b) ∈ places ↔ belongs p b) ∧ places.map (·.2) = bs

/-- The first elements for which a function has its values. -/
def firsts [DecidableEq γ] (key : β → γ) (bs : List β) : List β :=
  bs.eraseDupsBy (key · == key ·)

theorem eraseDupsBy_loop_concat (same : β → β → Bool) (bs : List β) (b : β) (seen : List β) :
    List.eraseDupsBy.loop same (bs ++ [b]) seen =
      if (List.eraseDupsBy.loop same bs seen).any (same b) then List.eraseDupsBy.loop same bs seen
      else List.eraseDupsBy.loop same bs seen ++ [b] := by
  induction bs generalizing seen with
  | nil =>
    rw [List.nil_append, List.eraseDupsBy.loop, List.eraseDupsBy.loop, List.any_reverse]
    cases seen.any (same b) <;> simp [List.eraseDupsBy.loop]
  | cons c bs ih =>
    rw [List.cons_append, List.eraseDupsBy.loop, List.eraseDupsBy.loop]
    cases seen.any (same c) <;> exact ih _

section

variable [DecidableEq γ]

theorem map_firsts (key : β → γ) (bs : List β) : (firsts key bs).map key = (bs.map key).eraseDups :=
  map_eraseDupsBy key bs

theorem firsts_concat (key : β → γ) (bs : List β) (b : β) : firsts key (bs ++ [b]) =
    if key b ∈ bs.map key then firsts key bs else firsts key bs ++ [b] := by
  have hany : (firsts key bs).any (key b == key ·) = true ↔ key b ∈ bs.map key := by
    rw [← List.mem_eraseDups, ← map_firsts, List.any_eq_true, List.mem_map]
    simp only [beq_iff_eq]
    exact exists_congr fun a => and_congr_right fun _ => eq_comm
  rw [firsts, List.eraseDupsBy, eraseDupsBy_loop_concat]
  exact if_congr hany rfl rfl

theorem firsts_sublist (key : β → γ) (bs : List β) : (firsts key bs).Sublist bs := by
  induction bs using List.reverseRecOn with
  | nil => exact List.Sublist.refl []
  | append_singleton bs b ih =>
    rw [firsts_concat]
    split
    · exact ih.trans (List.sublist_append_left bs [b])
    · exact ih.append (List.Sublist.refl [b])

theorem firsts_map (key : β → γ) (f : α → β) (as : List α) :
    firsts key (as.map f) = (firsts (key ∘ f) as).map f := by
  induction as using List.reverseRecOn with
  | nil => rfl
  | append_singleton as a ih =>
    rw [List.map_append, List.map_singleton, firsts_concat, firsts_concat, List.map_map, ih,
      apply_ite (List.map f), List.map_append, List.map_singleton]
    rfl

/-- What comes first is what no earlier place has. -/
theorem mem_firsts_iff (key : β → γ) {places : List (Place × β)}
    (h : places.Pairwise (·.1 < ·.1)) (x : Place × β) :
    x ∈ firsts (key ∘ Prod.snd) places ↔
      x ∈ places ∧ ∀ y ∈ places, key y.2 = key x.2 → x.1 ≤ y.1 := by
  induction places using List.reverseRecOn with
  | nil => exact (and_iff_left fun y hy => absurd hy List.not_mem_nil).symm
  | append_singleton places last ih =>
    -- the last place is after all others, so that it is a first one with a new key only
    obtain ⟨hplaces, -, hlast⟩ := List.pairwise_append.mp h
    have hlt : ∀ y ∈ places, y.1 < last.1 := fun y hy => hlast y hy last List.mem_cons_self
    have hearlier : (x ∈ places ∧ ∀ y ∈ places ++ [last], key y.2 = key x.2 → x.1 ≤ y.1) ↔
        x ∈ firsts (key ∘ Prod.snd) places := by
      rw [ih hplaces]
      simp only [List.forall_mem_append, List.forall_mem_singleton]
      exact and_congr_right fun hx => and_iff_left fun _ => le_of_lt (hlt x hx)
    have hnew : (∀ y ∈ places ++ [last], key y.2 = key last.2 → last.1 ≤ y.1) ↔
        key last.2 ∉ places.map (key ∘ Prod.snd) := by
      simp only [List.forall_mem_append, List.forall_mem_singleton, List.mem_map, not_exists,
        not_and, le_refl, implies_true, and_true]
      exact forall₂_congr fun y hy =>
        ⟨fun hle heq => not_le_of_gt (hlt y hy) (hle heq), fun hne heq => absurd heq hne⟩
    rw [firsts_concat, List.mem_append, List.mem_singleton, or_and_right, hearlier]
    split
    · next hkey =>
      refine (or_iff_left ?_).symm
      rintro ⟨rfl, hfirst⟩
      exact hnew.mp hfirst hkey
    · next hkey =>
      rw [List.mem_append, List.mem_singleton]
      refine or_congr_right (and_iff_left_of_imp ?_).symm
      rintro rfl
      exact hnew.mpr hkey

end

namespace InOrder

variable {belongs belongs' : Place → β → Prop} {bs : List β}

theorem congr (h : InOrder belongs bs) (hiff : ∀ p b, belongs p b ↔ belongs' p b) :
    InOrder belongs' bs := by
  obtain ⟨places, hpairwise, hmem, hmap⟩ := h
  exact ⟨places, hpairwise, fun p b => (hmem p b).trans (hiff p b), hmap⟩

theorem filterMap (h : InOrder belongs bs) (f : β → Option γ) :
    InOrder (fun p c => ∃ b, belongs p b ∧ f b = some c) (bs.filterMap f) := by
  obtain ⟨places, hpairwise, hmem, rfl⟩ := h
  refine ⟨places.filterMap fun x => (f x.2).map (x.1, ·), ?_, ?_, ?_⟩
  · rw [List.pairwise_filterMap]
    refine hpairwise.imp fun {x y} hlt x' hx y' hy => ?_
    obtain ⟨c, -, rfl⟩ := Option.map_eq_some_iff.mp hx
    obtain ⟨d, -, rfl⟩ := Option.map_eq_some_iff.mp hy
    exact hlt
  · intro p c
    rw [List.mem_filterMap]
    constructor
    · rintro ⟨⟨p', b⟩, hb, heq⟩
      obtain ⟨c', hc', heq⟩ := Option.map_eq_some_iff.mp heq
      obtain ⟨rfl, rfl⟩ := Prod.mk.inj heq
      exact ⟨b, (hmem p' b).mp hb, hc'⟩
    · rintro ⟨b, hb, hc⟩
      exact ⟨(p, b), (hmem p b).mpr hb, by simp [hc]⟩
  · rw [List.map_filterMap, List.filterMap_map]
    congr 1
    funext ⟨p, b⟩
    cases hb : f b <;> simp [hb]

theorem firsts [DecidableEq γ] (h : InOrder belongs bs) (key : β → γ) :
    InOrder (fun p b => belongs p b ∧ ∀ q c, belongs q c → key c = key b → p ≤ q)
      (Reformat.firsts key bs) := by
  obtain ⟨places, hpairwise, hmem, rfl⟩ := h
  refine ⟨Reformat.firsts (key ∘ Prod.snd) places, hpairwise.sublist (firsts_sublist _ _), ?_,
    (firsts_map key Prod.snd places).symm⟩
  intro p b
  rw [mem_firsts_iff key hpairwise]
  simp only [Prod.forall, hmem]

/-- What stands in a list of lists. -/
theorem flatMap (as : List α) (f : α → List β) :
    InOrder (fun p b => ∃ a, as[p.rule]? = some a ∧ (f a)[p.part]? = some b) (as.flatMap f) := by
  have hzipIdx : ∀ {δ : Type} (ds : List δ), ds.zipIdx.Pairwise (·.2 < ·.2) := by
    intro δ ds
    rw [← List.pairwise_map, List.zipIdx_map_snd]
    exact List.pairwise_lt_range'
  -- the places, first by the outer list and then by the inner one
  refine ⟨as.zipIdx.flatMap fun x => (f x.1).zipIdx.map fun y => (toLex (x.2, y.2), y.1),
    ?_, ?_, ?_⟩
  · rw [List.pairwise_flatMap]
    constructor
    · intro x _
      refine List.pairwise_map.mpr ((hzipIdx (f x.1)).imp fun {y z} hlt => ?_)
      exact Prod.Lex.toLex_lt_toLex.mpr (.inr ⟨rfl, hlt⟩)
    · refine (hzipIdx as).imp fun {x y} hlt x' hx y' hy => ?_
      obtain ⟨b, -, rfl⟩ := List.mem_map.mp hx
      obtain ⟨c, -, rfl⟩ := List.mem_map.mp hy
      exact Prod.Lex.toLex_lt_toLex.mpr (.inl hlt)
  · intro p b
    simp only [List.mem_flatMap, List.mem_map, Prod.exists, List.mem_zipIdx_iff_getElem?]
    constructor
    · rintro ⟨a, i, ha, c, j, hc, heq⟩
      obtain ⟨rfl, rfl⟩ := Prod.mk.inj heq
      exact ⟨a, ha, hc⟩
    · rintro ⟨a, ha, hb⟩
      exact ⟨a, p.rule, ha, b, p.part, hb, rfl⟩
  · have hpart : ∀ x : α × Nat, ((f x.1).zipIdx.map fun y => (toLex (x.2, y.2), y.1)).map
        (fun z : Place × β => z.2) = f x.1 := by
      intro x
      rw [List.map_map]
      exact List.zipIdx_map_fst 0 (f x.1)
    rw [List.map_flatMap]
    simp only [hpart]
    rw [← List.flatMap_map (fun x : α × Nat => x.1) f, List.zipIdx_map_fst]

end InOrder

end

/-- A piece mentions a part of a match, at whatever depth. -/
inductive Piece.Mentions (index : Nat) : Piece → Prop
  | capture : Mentions index (.capture index)
  | unit {unit counted : Piece} (h : Mentions index unit) : Mentions index (.repeated unit counted)
  | counted {unit counted : Piece} (h : Mentions index counted) :
      Mentions index (.repeated unit counted)

namespace Piece

variable {piece : Piece} {index n : Nat}

theorem exists_maxCapture?_of_mentions (h : piece.Mentions index) :
    ∃ n, piece.maxCapture? = some n ∧ index ≤ n := by
  have hmax : ∀ a b : Option Nat, ((∃ n, a = some n ∧ index ≤ n) ∨ ∃ n, b = some n ∧ index ≤ n) →
      ∃ n, max a b = some n ∧ index ≤ n := by
    rintro a b (⟨n, rfl, hn⟩ | ⟨n, rfl, hn⟩)
    · cases b with
      | none => exact ⟨n, rfl, hn⟩
      | some m => exact ⟨max n m, rfl, le_max_of_le_left hn⟩
    · cases a with
      | none => exact ⟨n, rfl, hn⟩
      | some m => exact ⟨max m n, rfl, le_max_of_le_right hn⟩
  induction h with
  | capture => exact ⟨index, rfl, le_rfl⟩
  | unit _ ih => exact hmax _ _ (.inl ih)
  | counted _ ih => exact hmax _ _ (.inr ih)

theorem mentions_of_maxCapture? (h : piece.maxCapture? = some n) : piece.Mentions n := by
  induction piece with
  | literal text => exact nomatch h
  | capture index =>
    obtain rfl : index = n := Option.some.inj h
    exact .capture
  | repeated unit counted ihUnit ihCounted =>
    have hmax : ∀ a b : Option Nat, max a b = some n → a = some n ∨ b = some n := by
      rintro (_ | a) (_ | b) hmax
      · exact .inl hmax
      · exact .inr hmax
      · exact .inl hmax
      · have hmax : max a b = n := Option.some.inj hmax
        exact (max_choice a b).imp (fun h => congrArg some (h.symm.trans hmax))
          fun h => congrArg some (h.symm.trans hmax)
    rcases hmax _ _ h with h | h
    · exact .unit (ihUnit h)
    · exact .counted (ihCounted h)

/-- The largest number that is too large is the largest of all. -/
theorem isGreatest_mentions_iff {arity : Nat} :
    IsGreatest {n | piece.Mentions n ∧ arity ≤ n} n ↔ piece.maxCapture? = some n ∧ arity ≤ n := by
  constructor
  · rintro ⟨⟨hn, harity⟩, hle⟩
    obtain ⟨m, hm, hnm⟩ := exists_maxCapture?_of_mentions hn
    have hmn : m ≤ n := hle ⟨mentions_of_maxCapture? hm, le_trans harity hnm⟩
    exact ⟨le_antisymm hnm hmn ▸ hm, harity⟩
  · rintro ⟨hn, harity⟩
    refine ⟨⟨mentions_of_maxCapture? hn, harity⟩, fun index hindex => ?_⟩
    obtain ⟨m, hm, hle⟩ := exists_maxCapture?_of_mentions hindex.1
    rwa [Option.some.inj (hm.symm.trans hn)] at hle

end Piece

namespace Rule

variable {rule : Rule} {piece : Piece} {error : AnalysisError}

/-- What is wrong with a piece of a template. -/
def captureError? (rule : Rule) (piece : Piece) : Option AnalysisError :=
  match piece.maxCapture? with
  | none => none
  | some index =>
    if index < rule.arity then none
    else some (.captureOutOfRange rule.position rule.name index rule.arity)

theorem captureError?_eq_some : rule.captureError? piece = some error ↔
    ∃ index, IsGreatest {n | piece.Mentions n ∧ rule.arity ≤ n} index ∧
      error = .captureOutOfRange rule.position rule.name index rule.arity := by
  simp only [Piece.isGreatest_mentions_iff]
  rw [captureError?]
  cases piece.maxCapture? with
  | none => simp
  | some index => simp [eq_comm (a := error)]

theorem captureError?_eq_none : rule.captureError? piece = none ↔
    ∀ index, piece.Mentions index → index < rule.arity := by
  rw [captureError?]
  constructor
  · intro hnone index hindex
    obtain ⟨n, hn, hle⟩ := Piece.exists_maxCapture?_of_mentions hindex
    have hlt : n < rule.arity := by
      by_contra hge
      simp [hn, hge] at hnone
    exact lt_of_le_of_lt hle hlt
  · intro hrange
    cases hmax : piece.maxCapture? with
    | none => rfl
    | some n => exact if_pos (hrange n (Piece.mentions_of_maxCapture? hmax))

end Rule

/-- The pattern of an element with the position of the element. -/
def Element.pattern? (e : Element) : Option (String × Position) :=
  match e.symbol with
  | .terminal pattern => some (pattern, e.position)
  | .nonterminal _ => none

/-- What an analysis finds apart from the start symbols, if patterns are compiled by any
function. -/
structure Diagnosis (τ : Type) where
  terminals : List (String × τ)
  errors : List AnalysisError

/-- All errors, if there are any. -/
def Diagnosis.check {τ : Type} (d : Diagnosis τ) : Except (List AnalysisError) Unit :=
  if d.errors.isEmpty then .ok () else .error d.errors

/-- The patterns that have been looked at, and the errors so far. -/
structure PatternPass (τ : Type) where
  compiled : List (String × τ)
  invalid : List String
  errors : List AnalysisError

section

variable {τ : Type} (compile : String → Except String τ)

/-- Compiles the pattern of an element, if it has not been looked at before. -/
def PatternPass.step (pass : PatternPass τ) (e : Element) : PatternPass τ :=
  match e.symbol with
  | .nonterminal _ => pass
  | .terminal pattern =>
    if pattern ∈ pass.compiled.map (·.1) ∨ pattern ∈ pass.invalid then pass
    else match compile pattern with
      | .ok t => { pass with compiled := pass.compiled ++ [(pattern, t)] }
      | .error message =>
        { pass with
          invalid := pass.invalid ++ [pattern]
          errors := pass.errors ++ [.invalidPattern e.position pattern message] }

/-- Looks for undefined variables, at patterns and at templates, one after the other. -/
def Grammar.diagnose (g : Grammar) : Diagnosis τ :=
  let pass := g.elements.foldl (PatternPass.step compile) ⟨[], [], g.undefinedVariables⟩
  ⟨pass.compiled, pass.errors ++ g.captureErrors⟩

end

namespace Grammar

variable {τ : Type} {compile : String → Except String τ} {g : Grammar}

/-- An element of a rule. -/
def ElementAt (g : Grammar) (p : Place) (e : Element) : Prop :=
  ∃ rule, g.rules[p.rule]? = some rule ∧ rule.elements[p.part]? = some e

/-- The first of the elements with a pattern. -/
def PatternAt (g : Grammar) (p : Place) (pattern : String) (position : Position) : Prop :=
  g.ElementAt p ⟨.terminal pattern, position⟩ ∧
    ∀ q position, g.ElementAt q ⟨.terminal pattern, position⟩ → p ≤ q

/-- A reference to a name without alternatives. -/
def UndefinedAt (g : Grammar) (p : Place) (error : AnalysisError) : Prop :=
  ∃ name position, g.ElementAt p ⟨.nonterminal name, position⟩ ∧
    (∀ rule ∈ g.rules, rule.name ≠ name) ∧ error = .undefinedVariable position name

/-- A pattern that is not well-formed, where it comes first. -/
def InvalidAt (compile : String → Except String τ) (g : Grammar) (p : Place)
    (error : AnalysisError) : Prop :=
  ∃ pattern position message, g.PatternAt p pattern position ∧ compile pattern = .error message ∧
    error = .invalidPattern position pattern message

/-- A pattern that is well-formed, where it comes first. -/
def TerminalAt (compile : String → Except String τ) (g : Grammar) (p : Place)
    (terminal : String × τ) : Prop :=
  (∃ position, g.PatternAt p terminal.1 position) ∧ compile terminal.1 = .ok terminal.2

/-- A piece of a template that mentions a part which its rule does not have, with the last one of
these. -/
def OutOfRangeAt (g : Grammar) (p : Place) (error : AnalysisError) : Prop :=
  ∃ rule piece index, g.rules[p.rule]? = some rule ∧ rule.template[p.part]? = some piece ∧
    IsGreatest {n | piece.Mentions n ∧ rule.arity ≤ n} index ∧
      error = .captureOutOfRange rule.position rule.name index rule.arity

/-- Nothing is wrong with a grammar. -/
structure IsSound (compile : String → Except String τ) (g : Grammar) : Prop where
  defined : ∀ rule ∈ g.rules, ∀ name, .nonterminal name ∈ rule.symbols →
    ∃ other ∈ g.rules, other.name = name
  compiles : ∀ rule ∈ g.rules, ∀ pattern, .terminal pattern ∈ rule.symbols →
    ∃ t, compile pattern = .ok t
  inRange : ∀ rule ∈ g.rules, ∀ piece ∈ rule.template, ∀ index, piece.Mentions index →
    index < rule.arity

/-- What is found in a grammar is what is there. -/
structure Diagnosed (compile : String → Except String τ) (g : Grammar) (d : Diagnosis τ) : Prop
    where
  errors : ∃ undefined invalid captures, d.errors = undefined ++ invalid ++ captures ∧
    InOrder g.UndefinedAt undefined ∧ InOrder (g.InvalidAt compile) invalid ∧
      InOrder g.OutOfRangeAt captures
  terminals : InOrder (g.TerminalAt compile) d.terminals
  check : d.check = .ok () ∧ g.IsSound compile ∨ d.check = .error d.errors ∧ ¬ g.IsSound compile

theorem isDefined_eq_false {name : String} :
    g.isDefined name = false ↔ ∀ rule ∈ g.rules, rule.name ≠ name := by
  rw [isDefined, Bool.not_eq_false', List.isEmpty_iff, List.eq_nil_iff_forall_not_mem]
  simp only [mem_alternatives_iff]
  constructor
  · intro hnone rule hrule hname
    obtain ⟨id, hid⟩ := exists_rule?_of_mem hrule
    exact hnone id ⟨rule, hid, hname⟩
  · rintro hnone id ⟨rule, hid, hname⟩
    exact hnone rule (mem_rules_of_rule? hid) hname

theorem inOrder_elements (g : Grammar) : InOrder g.ElementAt g.elements := by
  refine (InOrder.flatMap g.rules.toList fun rule => rule.elements.toList).congr fun p e => ?_
  simp only [ElementAt, Array.getElem?_toList]

theorem inOrder_undefinedVariables (g : Grammar) :
    InOrder g.UndefinedAt g.undefinedVariables := by
  refine (g.inOrder_elements.filterMap _).congr fun p error => ?_
  constructor
  · rintro ⟨⟨symbol, position⟩, he, herror⟩
    cases symbol with
    | terminal pattern => exact nomatch herror
    | nonterminal name =>
      obtain ⟨hdefined, herror⟩ := Option.ite_none_left_eq_some.mp herror
      rw [Bool.not_eq_true] at hdefined
      exact ⟨name, position, he, isDefined_eq_false.mp hdefined, (Option.some.inj herror).symm⟩
  · rintro ⟨name, position, he, hnone, rfl⟩
    exact ⟨_, he, if_neg (by simp [isDefined_eq_false.mpr hnone])⟩

theorem patterns_eq (g : Grammar) :
    g.patterns = firsts (·.1) (g.elements.filterMap Element.pattern?) := rfl

/-- The patterns of the grammar are at the places where they come first. -/
theorem inOrder_patterns (g : Grammar) :
    InOrder (fun p pattern => g.PatternAt p pattern.1 pattern.2) g.patterns := by
  have helement : ∀ p (pattern : String × Position),
      (∃ e, g.ElementAt p e ∧ e.pattern? = some pattern) ↔
        g.ElementAt p ⟨.terminal pattern.1, pattern.2⟩ := by
    intro p pattern
    constructor
    · rintro ⟨⟨symbol, position⟩, he, hpattern⟩
      cases symbol with
      | nonterminal name => exact nomatch hpattern
      | terminal text =>
        obtain rfl := Option.some.inj hpattern
        exact he
    · intro he
      exact ⟨_, he, rfl⟩
  rw [patterns_eq]
  refine ((g.inOrder_elements.filterMap Element.pattern?).firsts (·.1)).congr fun p pattern => ?_
  simp only [helement, PatternAt]
  refine and_congr_right fun _ => ⟨fun hfirst q position hq => hfirst q (_, position) hq rfl, ?_⟩
  rintro hfirst q ⟨text, position⟩ hq rfl
  exact hfirst q position hq

theorem captureErrors_eq (g : Grammar) : g.captureErrors =
    g.rules.toList.flatMap fun rule => rule.template.filterMap rule.captureError? := rfl

theorem inOrder_captureErrors (g : Grammar) : InOrder g.OutOfRangeAt g.captureErrors := by
  have herrors : g.captureErrors =
      (g.rules.toList.flatMap fun rule => rule.template.map (rule, ·)).filterMap fun x =>
        x.1.captureError? x.2 := by
    simp only [captureErrors_eq, List.filterMap_flatMap, List.filterMap_map, Function.comp_def]
  rw [herrors]
  refine ((InOrder.flatMap g.rules.toList _).filterMap _).congr fun p error => ?_
  simp only [OutOfRangeAt, Rule.captureError?_eq_some, Array.getElem?_toList, List.getElem?_map,
    Option.map_eq_some_iff]
  constructor
  · rintro ⟨x, ⟨rule, hrule, piece, hpiece, rfl⟩, index, hgreatest, herror⟩
    exact ⟨rule, piece, index, hrule, hpiece, hgreatest, herror⟩
  · rintro ⟨rule, piece, index, hrule, hpiece, hgreatest, herror⟩
    exact ⟨(rule, piece), ⟨rule, hrule, piece, hpiece, rfl⟩, index, hgreatest, herror⟩

end Grammar

namespace PatternPass

variable {τ : Type}

/-- A pattern with what was compiled for it. -/
def terminal? (compile : String → Except String τ) (x : String × Position) :
    Option (String × τ) :=
  (compile x.1).toOption.map (x.1, ·)

/-- What is wrong with a pattern. -/
def error? (compile : String → Except String τ) (x : String × Position) : Option AnalysisError :=
  match compile x.1 with
  | .ok _ => none
  | .error message => some (.invalidPattern x.2 x.1 message)

/-- A pass that has looked at patterns that differ. -/
def ofPatterns (compile : String → Except String τ) (errors : List AnalysisError)
    (patterns : List (String × Position)) : PatternPass τ where
  compiled := patterns.filterMap (terminal? compile)
  invalid := patterns.filterMap fun x => (error? compile x).map fun _ => x.1
  errors := errors ++ patterns.filterMap (error? compile)

section

variable {compile : String → Except String τ} {x : String × Position}

theorem terminal?_eq_some {terminal : String × τ} : terminal? compile x = some terminal ↔
    compile x.1 = .ok terminal.2 ∧ terminal.1 = x.1 := by
  obtain ⟨pattern, t⟩ := terminal
  cases hcompile : compile x.1 <;>
    simp [terminal?, hcompile, Except.toOption, eq_comm, and_comm]

theorem error?_eq_none : error? compile x = none ↔ ∃ t, compile x.1 = .ok t := by
  cases hcompile : compile x.1 <;> simp [error?, hcompile]

theorem error?_eq_some {error : AnalysisError} : error? compile x = some error ↔
    ∃ message, compile x.1 = .error message ∧ error = .invalidPattern x.2 x.1 message := by
  cases hcompile : compile x.1 <;> simp [error?, hcompile, eq_comm]

end

variable (compile : String → Except String τ) (errors : List AnalysisError)

/-- The pass knows the patterns that it has looked at. -/
theorem mem_ofPatterns_iff (patterns : List (String × Position)) (pattern : String) :
    (pattern ∈ (ofPatterns compile errors patterns).compiled.map (·.1) ∨
      pattern ∈ (ofPatterns compile errors patterns).invalid) ↔ pattern ∈ patterns.map (·.1) := by
  simp only [ofPatterns, List.map_filterMap, List.mem_filterMap, List.mem_map]
  rw [← exists_or]
  refine exists_congr fun x => ?_
  rw [← and_or_left]
  refine and_congr_right fun _ => ?_
  cases hcompile : compile x.1 <;> simp [terminal?, error?, hcompile, Except.toOption]

theorem step_ofPatterns (patterns : List (String × Position)) (e : Element) :
    step compile (ofPatterns compile errors patterns) e =
      match e.pattern? with
      | none => ofPatterns compile errors patterns
      | some x =>
        if x.1 ∈ patterns.map (·.1) then ofPatterns compile errors patterns
        else ofPatterns compile errors (patterns ++ [x]) := by
  obtain ⟨symbol, position⟩ := e
  cases symbol with
  | nonterminal name => rfl
  | terminal pattern =>
    simp only [step, Element.pattern?, mem_ofPatterns_iff]
    refine if_congr Iff.rfl rfl ?_
    cases hcompile : compile pattern <;>
      simp [ofPatterns, terminal?, error?, hcompile, Except.toOption]

/-- After some elements, the pass has looked at each of their patterns once. -/
theorem foldl_step (es : List Element) : es.foldl (step compile) ⟨[], [], errors⟩ =
    ofPatterns compile errors (firsts (·.1) (es.filterMap Element.pattern?)) := by
  induction es using List.reverseRecOn with
  | nil =>
    change _ = (⟨[], [], errors ++ []⟩ : PatternPass τ)
    rw [List.append_nil]
    rfl
  | append_singleton es e ih =>
    rw [List.foldl_append, ih, List.foldl_cons, List.foldl_nil, step_ofPatterns,
      List.filterMap_append]
    cases hpattern : e.pattern? with
    | none => simp [hpattern]
    | some x =>
      have hmem : ∀ ps : List (String × Position),
          x.1 ∈ (firsts (·.1) ps).map (·.1) ↔ x.1 ∈ ps.map (·.1) := by
        intro ps
        rw [map_firsts, List.mem_eraseDups]
      simp only [List.filterMap_cons, hpattern, List.filterMap_nil, firsts_concat, hmem]
      split <;> rfl

end PatternPass

namespace Grammar

variable {τ : Type} {compile : String → Except String τ} {g : Grammar}

theorem diagnose_eq (compile : String → Except String τ) (g : Grammar) : g.diagnose compile =
    ⟨g.patterns.filterMap (PatternPass.terminal? compile),
      g.undefinedVariables ++ g.patterns.filterMap (PatternPass.error? compile) ++
        g.captureErrors⟩ := by
  rw [diagnose, PatternPass.foldl_step, ← patterns_eq]
  rfl

/-- With the terminals of an engine, an analysis finds the same. -/
theorem diagnose_compile (engine : Engine) (g : Grammar) : g.diagnose (Terminal.compile engine) =
    ⟨(g.analyze engine).terminals.map fun t => (t.pattern, t), (g.analyze engine).errors⟩ := by
  have hterminals : g.patterns.filterMap (PatternPass.terminal? (Terminal.compile engine)) =
      (g.terminals engine).map fun t => (t.pattern, t) := by
    rw [terminals, List.map_filterMap]
    congr 1
    funext x
    change (Terminal.ofPattern? engine x.1).map (x.1, ·) = _
    cases ht : Terminal.ofPattern? engine x.1 with
    | none => rfl
    | some t => rw [Option.map_some, Option.map_some, Terminal.pattern_of_ofPattern? ht]
  have hinvalid : g.patterns.filterMap (PatternPass.error? (Terminal.compile engine)) =
      g.invalidPatterns engine := by
    rw [invalidPatterns]
    congr 1
    funext ⟨pattern, position⟩
    dsimp only [PatternPass.error?]
    cases Terminal.compile engine pattern <;> rfl
  rw [diagnose_eq, hterminals, hinvalid]
  rfl

theorem undefinedVariables_eq_nil : g.undefinedVariables = [] ↔
    ∀ rule ∈ g.rules, ∀ name, .nonterminal name ∈ rule.symbols →
      ∃ other ∈ g.rules, other.name = name := by
  have hdefined : ∀ name, g.isDefined name = true ↔ ∃ other ∈ g.rules, other.name = name := by
    intro name
    rw [← Bool.not_eq_false, isDefined_eq_false]
    push Not
    rfl
  simp only [← hdefined]
  rw [undefinedVariables, List.filterMap_eq_nil_iff]
  constructor
  · intro hnone rule hrule name hname
    obtain ⟨e, he, hsymbol⟩ := List.mem_map.mp hname
    have herror := hnone e (mem_elements.mpr ⟨rule, hrule, Array.mem_toList_iff.mp he⟩)
    simpa [hsymbol] using herror
  · intro hnames e he
    obtain ⟨rule, hrule, he⟩ := mem_elements.mp he
    cases hsymbol : e.symbol with
    | terminal pattern => rfl
    | nonterminal name =>
      have hname : .nonterminal name ∈ rule.symbols :=
        List.mem_map.mpr ⟨e, Array.mem_toList_iff.mpr he, hsymbol⟩
      exact if_pos (hnames rule hrule name hname)

theorem captureErrors_eq_nil : g.captureErrors = [] ↔
    ∀ rule ∈ g.rules, ∀ piece ∈ rule.template, ∀ index, piece.Mentions index →
      index < rule.arity := by
  simp only [captureErrors_eq, List.flatMap_eq_nil_iff, Array.mem_toList_iff,
    List.filterMap_eq_nil_iff, Rule.captureError?_eq_none]

/-- Nothing is reported exactly if nothing is wrong. -/
theorem errors_diagnose_eq_nil : (g.diagnose compile).errors = [] ↔ g.IsSound compile := by
  have hinvalid : g.patterns.filterMap (PatternPass.error? compile) = [] ↔
      ∀ rule ∈ g.rules, ∀ pattern, .terminal pattern ∈ rule.symbols →
        ∃ t, compile pattern = .ok t := by
    have hpatterns : (∀ x ∈ g.patterns, ∃ t, compile x.1 = .ok t) ↔
        ∀ pattern ∈ g.patterns.map (·.1), ∃ t, compile pattern = .ok t := by
      simp only [List.forall_mem_map]
    rw [List.filterMap_eq_nil_iff]
    simp only [PatternPass.error?_eq_none, hpatterns, mem_patterns_map_fst]
    exact ⟨fun h rule hrule pattern hpattern => h pattern ⟨rule, hrule, hpattern⟩,
      fun h pattern ⟨rule, hrule, hpattern⟩ => h rule hrule pattern hpattern⟩
  rw [diagnose_eq, List.append_eq_nil_iff, List.append_eq_nil_iff, undefinedVariables_eq_nil,
    hinvalid, captureErrors_eq_nil]
  exact ⟨fun ⟨⟨hdefined, hcompiles⟩, hrange⟩ => ⟨hdefined, hcompiles, hrange⟩,
    fun h => ⟨⟨h.defined, h.compiles⟩, h.inRange⟩⟩

theorem diagnosed (compile : String → Except String τ) (g : Grammar) :
    g.Diagnosed compile (g.diagnose compile) := by
  constructor
  case errors =>
    rw [diagnose_eq]
    refine ⟨_, _, _, rfl, g.inOrder_undefinedVariables, ?_, g.inOrder_captureErrors⟩
    refine (g.inOrder_patterns.filterMap _).congr fun p error => ?_
    simp only [Prod.exists, PatternPass.error?_eq_some, InvalidAt, exists_and_left]
  case terminals =>
    rw [diagnose_eq]
    refine (g.inOrder_patterns.filterMap _).congr fun p ⟨pattern, t⟩ => ?_
    constructor
    · rintro ⟨⟨text, position⟩, hpattern, ht⟩
      obtain ⟨ht', rfl⟩ := PatternPass.terminal?_eq_some.mp ht
      exact ⟨⟨position, hpattern⟩, ht'⟩
    · rintro ⟨⟨position, hpattern⟩, ht⟩
      exact ⟨(pattern, position), hpattern, PatternPass.terminal?_eq_some.mpr ⟨ht, rfl⟩⟩
  case check =>
    rw [Diagnosis.check, ← errors_diagnose_eq_nil, ← List.isEmpty_iff]
    cases (g.diagnose compile).errors.isEmpty with
    | true => exact .inl ⟨rfl, rfl⟩
    | false => exact .inr ⟨rfl, Bool.false_ne_true⟩

end Grammar

/-- Whichever patterns can be compiled, the errors and the terminals of an analysis are just those
that there are, in the order of their places. -/
theorem analysis_exact (g : Grammar) :
    (∀ {τ : Type} (compile : String → Except String τ),
      g.Diagnosed compile (g.diagnose compile)) ∧
    ∀ engine : Engine, g.diagnose (Terminal.compile engine) =
        ⟨(g.analyze engine).terminals.map fun t => (t.pattern, t), (g.analyze engine).errors⟩ ∧
      (g.analyze engine).check = (g.diagnose (Terminal.compile engine)).check := by
  refine ⟨fun compile => g.diagnosed compile, fun engine => ⟨g.diagnose_compile engine, ?_⟩⟩
  rw [g.diagnose_compile engine]
  rfl

-- an undefined variable is reported wherever it comes, a pattern once, and of a piece the last part
example : (Grammar.analyze ⟨#[⟨"S", #[⟨.nonterminal "E", {}⟩, ⟨.terminal "(", {}⟩],
      [.repeated (.capture 3) (.capture 2), .capture 1], {}⟩,
    ⟨"S", #[⟨.terminal "(", {}⟩, ⟨.nonterminal "E", {}⟩], [], {}⟩], false, _, rfl⟩
      Pattern.engine).errors =
    [.undefinedVariable {} "E", .undefinedVariable {} "E", .invalidPattern {} "(" "<regex>",
      .captureOutOfRange {} "S" 3 2] := by
  decide +kernel

end Reformat
