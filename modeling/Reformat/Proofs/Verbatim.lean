import Reformat.Pattern.Engine
import Reformat.Proofs.Consistency
import Reformat.Proofs.Moves
import Reformat.Proofs.Soundness

/-! Grammars whose templates put the parts of each rule together as they are: what is parsed stays
the same, and so does every document. -/

namespace Reformat

/-- The template of a rule is all of its parts in order, but for empty literals; it may have no
pieces if there are no two parts that it would put a space between. -/
def Rule.IsVerbatim (r : Rule) : Prop :=
  r.template.filter (· ≠ .literal "") = (List.range r.arity).map .capture ∨
    r.template = [] ∧ r.arity ≤ 1

instance : DecidablePred Rule.IsVerbatim := fun r =>
  inferInstanceAs (Decidable (_ ∨ r.template = [] ∧ r.arity ≤ 1))

namespace Template

/-- The texts of all pieces, one after the other. -/
def joined (template : Template) (captures : List String) : Except TemplateError String :=
  (template.mapM (Piece.render captures)).map String.join

theorem joined_cons (piece : Piece) (template : Template) (captures : List String) :
    joined (piece :: template) captures = (piece.render captures).bind fun text =>
      (joined template captures).map (text ++ ·) := by
  rw [joined, joined, List.mapM_cons]
  cases piece.render captures with
  | error e => rfl
  | ok text =>
    cases template.mapM (Piece.render captures) with
    | error e => rfl
    | ok texts => exact congrArg Except.ok String.join_cons

/-- Empty literals add nothing to a text. -/
theorem joined_filter (template : Template) (captures : List String) :
    joined (template.filter (· ≠ .literal "")) captures = joined template captures := by
  induction template with
  | nil => rfl
  | cons piece template ih =>
    by_cases hpiece : piece = .literal ""
    · rw [List.filter_cons_of_neg (by simpa using hpiece), ih, joined_cons, hpiece, Piece.render]
      cases joined template captures with
      | error e => rfl
      | ok text => exact congrArg Except.ok String.empty_append.symm
    · rw [List.filter_cons_of_pos (by simpa using hpiece), joined_cons, joined_cons, ih]

/-- The captures in order are the captures. -/
theorem mapM_capture (captures : List String) :
    ((List.range captures.length).map Piece.capture).mapM (Piece.render captures) =
      .ok captures := by
  rw [mapM_eq_ok_iff, List.forall₂_map_left_iff, List.forall₂_iff_get]
  refine ⟨List.length_range, fun i hi hi' => ?_⟩
  rw [List.get_eq_getElem, List.get_eq_getElem, List.getElem_range, Piece.render,
    List.getElem?_eq_getElem hi']

end Template

/-- A verbatim template joins its parts. -/
theorem Rule.IsVerbatim.render {rule : Rule} (h : rule.IsVerbatim) {captures : List String}
    (hlength : captures.length = rule.arity) :
    rule.template.render captures = .ok (String.join captures) := by
  rw [Template.render]
  split
  · next hempty =>
    -- without any piece there is at most one part
    have hnil : rule.template = [] := List.isEmpty_iff.mp hempty
    have harity : rule.arity ≤ 1 := by
      rcases h with hpieces | ⟨-, hle⟩
      · rw [hnil, List.filter_nil, eq_comm, List.map_eq_nil_iff, List.range_eq_nil] at hpieces
        omega
      · exact hle
    rcases captures with _ | ⟨text, _ | ⟨other, captures⟩⟩
    · rfl
    · have hjoin : " ".intercalate [text] = String.join [text] := by
        rw [String.intercalate_singleton, String.join_cons, String.join_nil, String.append_empty]
      exact congrArg Except.ok hjoin
    · simp only [List.length_cons] at hlength
      omega
  · next hpieces =>
    rcases h with hcaptures | ⟨hnil, -⟩
    · rw [← Template.joined, ← Template.joined_filter, hcaptures, ← hlength, Template.joined,
        Template.mapM_capture]
      rfl
    · simp [hnil] at hpieces

namespace Tree

variable {g : Grammar} {c : Tree}

theorem length_map_symbol {rule : Rule} {children : List Tree}
    (h : children.map symbol = rule.symbols) : children.length = rule.arity := by
  have hlength := congrArg List.length h
  rw [List.length_map, Rule.symbols, List.length_map, Array.length_toList] at hlength
  exact hlength

theorem join_yields (cs : List Tree) :
    String.join (cs.map fun c => String.ofList c.yield) = String.ofList (yieldOf cs) := by
  induction cs with
  | nil => rfl
  | cons c cs ih =>
    rw [List.map_cons, String.join_cons, ih, ← String.ofList_append, ← yieldOf_singleton,
      ← yieldOf_append, List.singleton_append]

/-- The text that verbatim templates make of a tree is the text that it reads. -/
theorem IsOf.evaluate_eq (h : c.IsOf g) (hverbatim : ∀ rule ∈ g.rules, rule.IsVerbatim) :
    c.evaluate = .ok (String.ofList c.yield) := by
  induction h with
  | leaf pattern text => rw [evaluate, yield, leaves, List.flatMap_singleton]
  | @node rule children hrule hsymbols _ ih =>
    have hchildren : evaluateAll children =
        .ok (children.map fun c => String.ofList c.yield) := by
      apply evaluateAll_eq_ok.mpr
      rw [List.forall₂_map_right_iff, List.forall₂_same]
      exact ih
    have hlength : (children.map fun c => String.ofList c.yield).length = rule.arity := by
      rw [List.length_map, length_map_symbol hsymbols]
    rw [evaluate, hchildren]
    dsimp only
    rw [(hverbatim rule hrule).render hlength, join_yields, yield, leaves, yieldOf]

end Tree

namespace Text

variable {text : List Char} {j k l : Nat}

/-- What lies between two boundaries is cut in two by a boundary between them. -/
theorem slice_append_slice (hj : IsBoundary text j) (hk : IsBoundary text k)
    (hl : IsBoundary text l) (hjk : j ≤ k) (hkl : k ≤ l) :
    slice j k text ++ slice k l text = slice j l text := by
  obtain ⟨before, after, htext, hbefore, hmiddle⟩ := exists_slice hj hk hjk
  obtain ⟨before', after', htext', hbefore', hstop⟩ := exists_slice hk hl hkl
  have hsame : before' = before ++ slice j k text := by
    have hshort : before' <+: text :=
      ⟨slice k l text ++ after', by rw [← List.append_assoc]; exact htext'.symm⟩
    apply eq_of_byteLength_eq hshort ⟨after, htext.symm⟩
    rw [hbefore', hmiddle]
  generalize slice j k text = u at *
  generalize slice k l text = v at *
  subst hsame
  have hwhole : text = before ++ (u ++ v) ++ after' := by
    rw [htext', ← List.append_assoc]
  have hlength : l = byteLength before + byteLength (u ++ v) := by
    rw [← hstop, ← byteLength_append, List.append_assoc]
  rw [hwhole, hlength, ← hbefore, slice_append]

theorem slice_self (text : List Char) : slice 0 0 text = [] := by
  simp [slice, dropBytes?, startingBefore]

theorem isBoundary_zero (text : List Char) : IsBoundary text 0 := ⟨text, by rw [dropBytes?]⟩

theorem slice_byteLength (text : List Char) : slice 0 (byteLength text) text = text := by
  have hslice := slice_append [] text []
  rw [List.nil_append, List.append_nil, byteLength_nil, Nat.zero_add] at hslice
  exact hslice

end Text

namespace TableOf

variable {engine : Engine} {g : Augmented} {t : ParseTable} {input : String} {k : Nat}
  {found : Match}

/-- With a verbatim grammar the output of a match is the piece of the input that was matched. -/
theorem output_eq (h : TableOf engine g t) (hverbatim : ∀ rule ∈ g.grammar.rules, rule.IsVerbatim)
    (hparse : t.parseAt input k = .ok found) :
    found.output = String.ofList (Text.slice found.start found.stop input.toList) := by
  obtain ⟨rest, parse, hrest, hattempt, rfl⟩ := ParseTable.parseAt_eq_ok hparse
  obtain ⟨c, hc, -, htext, hstop, -, houtput⟩ := h.exists_tree hattempt
  obtain ⟨before, hbefore, rfl⟩ := Text.eq_append_of_dropBytes? hrest
  rw [hc.evaluate_eq hverbatim, Except.ok.injEq] at houtput
  dsimp only
  rw [hbefore, htext, hstop, ← List.append_assoc, Text.slice_append, houtput]

end TableOf

/-- Tables with which the output of every match is the piece of the input that was matched. -/
def KeepsMatches (tables : List ParseTable) : Prop :=
  ∀ t ∈ tables, ∀ (input : String) (k : Nat) (found : Match), t.parseAt input k = .ok found →
    found.output = String.ofList (Text.slice found.start found.stop input.toList)

namespace KeepsMatches

variable {tables : List ParseTable} {config : ScanConfig} {input : String}
  {segments : List Segment} {stop : Nat}

/-- Where all that is passed over is kept, segments put the input together again. -/
theorem join_outputs (h : KeepsMatches tables)
    (hkeep : config.searchMode = true → config.keepUnmatched = true)
    (hsplits : Splits tables config input segments stop) :
    String.join (segments.map (·.output config input)) =
      String.ofList (Text.slice 0 stop input.toList) := by
  induction segments using List.reverseRecOn generalizing stop with
  | nil =>
    obtain rfl : 0 = stop := hsplits.tile
    rw [Text.slice_self]
    rfl
  | append_singleton segments s ih =>
    obtain ⟨hbefore, hlt, rfl, ⟨hstart, hstop⟩, -, hfound⟩ := Splits.append_singleton_iff.mp hsplits
    have houtput : s.output config input =
        String.ofList (Text.slice s.start s.stop input.toList) := by
      cases hfound with
      | matched htable hparse _ => exact h _ (List.mem_of_getElem? htable) _ _ _ hparse
      | unmatched hmode _ => rw [Segment.output, if_pos (hkeep hmode)]; rfl
    rw [List.map_append, List.map_singleton, String.join_append, ih hbefore, String.join_cons,
      String.join_nil, String.append_empty, houtput, ← String.ofList_append,
      Text.slice_append_slice (Text.isBoundary_zero _) hstart hstop (Nat.zero_le _)
        (Nat.le_of_lt hlt)]

theorem eq_of_format (h : KeepsMatches tables)
    (hkeep : config.searchMode = true → config.keepUnmatched = true) {output : String}
    (hformat : format tables config input = .ok output) : output = input := by
  have hresult := scanResult_scan tables config input
  rw [format] at hformat
  generalize scan tables config input = r at hresult hformat
  cases hresult with
  | inconsistent _ _ => simp [Except.map] at hformat
  | stuck _ => simp [Except.map] at hformat
  | split hsplits =>
    obtain rfl := Except.ok.inj hformat
    dsimp only
    rw [h.join_outputs hkeep hsplits, Text.slice_byteLength, String.ofList_toList]

end KeepsMatches

theorem keepsMatches_of_formatter {engine : Engine} {g : Grammar} {starts : List String}
    {f : Formatter} (hverbatim : ∀ rule ∈ g.rules, rule.IsVerbatim)
    (h : g.formatterFor engine starts = .ok f) :
    KeepsMatches f.tables := by
  intro t ht input k found hparse
  obtain ⟨start, -, hgenerate⟩ := generate_of_mem_tables h ht
  exact (tableOf_of_generate hgenerate).output_eq hverbatim hparse

/-- A grammar with verbatim templates leaves documents as they are: what is made of a whole document
is that document, and a search that keeps what it passes over succeeds and gives back the
document. -/
theorem format_verbatim {engine : Engine} {g : Grammar} {starts : List String} {f : Formatter}
    (hverbatim : ∀ rule ∈ g.rules, rule.IsVerbatim) (hf : g.formatterFor engine starts = .ok f)
    (input : String) :
    (∀ (config : ScanConfig) (output : String), config.searchMode = false →
      { f with config }.format input = .ok output → output = input) ∧
    { f with config := { searchMode := true, keepUnmatched := true } }.format input =
      .ok input := by
  have hkeeps := keepsMatches_of_formatter hverbatim hf
  constructor
  · intro config output hmode hformat
    refine hkeeps.eq_of_format (fun hsearch => ?_) hformat
    rw [hmode] at hsearch
    simp at hsearch
  · have hconsistent := consistent_of_formatter (Or.inr ⟨starts, hf⟩)
    rcases hconsistent.format_cases { searchMode := true, keepUnmatched := true } input with
      ⟨output, hformat⟩ | ⟨hmode, -⟩
    · obtain rfl := hkeeps.eq_of_format (fun _ => rfl) hformat
      exact hformat
    · simp at hmode

theorem keptBrackets_format_verbatim : ∃ f output,
    Grammar.keptBrackets.formatterFor Pattern.engine ["S"] = .ok f ∧
    (∀ rule ∈ Grammar.keptBrackets.rules, rule.IsVerbatim) ∧
    { f with config := {} }.format "((x))x(x)" = .ok output ∧ output = "((x))x(x)" ∧
    { f with config := { searchMode := true, keepUnmatched := true } }.format "é(x)((" =
      .ok "é(x)((" := by
  have hverbatim : ∀ rule ∈ Grammar.keptBrackets.rules, rule.IsVerbatim := by decide
  obtain ⟨f, hf, hcheck⟩ := Except.exists_ok
    (x := Grammar.keptBrackets.formatterFor Pattern.engine ["S"])
    (p := fun f => ({ f with config := {} }.format "((x))x(x)").toOption.isSome)
    (by decide +kernel)
  obtain ⟨output, houtput, -⟩ := Except.exists_ok
    (x := { f with config := {} }.format "((x))x(x)") (p := fun _ => true)
    (by simpa using hcheck)
  exact ⟨f, output, hf, hverbatim, houtput,
    (format_verbatim hverbatim hf _).1 {} output rfl houtput,
    (format_verbatim hverbatim hf "é(x)((").2⟩

end Reformat
