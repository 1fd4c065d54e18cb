import Reformat.Grammar

/-! Reading templates back. The pieces of a template are told apart by their first characters, and
each of them says where it ends, whatever its texts contain. So the text of a template determines
the template, for all ways to quote texts that hide neither a quote nor a backslash. -/

namespace Reformat

section

variable {α : Type} {p : α → Bool} {word word' u v : List α}

/-- A word ends where its property does. -/
theorem append_inj_of_forall (hword : ∀ a ∈ word, p a = true) (hword' : ∀ a ∈ word', p a = true)
    (hu : ∀ a ∈ u.head?, p a = false) (hv : ∀ a ∈ v.head?, p a = false)
    (h : word ++ u = word' ++ v) : word = word' ∧ u = v := by
  have htake : ∀ {word u : List α}, (∀ a ∈ word, p a = true) → (∀ a ∈ u.head?, p a = false) →
      (word ++ u).takeWhile p = word := by
    intro word u hword hu
    rw [List.takeWhile_append_of_pos hword]
    cases u with
    | nil => rw [List.takeWhile_nil, List.append_nil]
    | cons a u =>
      have ha : ¬ p a = true := by
        rw [hu a rfl]
        exact Bool.false_ne_true
      rw [List.takeWhile_cons_of_neg ha, List.append_nil]
  have hsame : word = word' := by rw [← htake hword hu, h, htake hword' hv]
  subst hsame
  exact ⟨rfl, List.append_cancel_left h⟩

end

section

variable {b m n : Nat} {c : Char}

theorem exists_digitChar (hb : 1 < b) (hc : c ∈ Nat.toDigits b n) : ∃ i, c = Nat.digitChar i := by
  induction n using Nat.strongRecOn with
  | ind n ih =>
    rw [Nat.toDigits_eq_if hb] at hc
    split at hc
    · exact ⟨n, List.mem_singleton.mp hc⟩
    · next hle =>
      rcases List.mem_append.mp hc with hc | hc
      · exact ih (n / b) (Nat.div_lt_self (by omega) hb) hc
      · exact ⟨n % b, List.mem_singleton.mp hc⟩

theorem digitChar_inj {i j : Nat} (hi : i < 16) (hj : j < 16)
    (h : Nat.digitChar i = Nat.digitChar j) : i = j := by
  have hall : ∀ i < 16, ∀ j < 16, Nat.digitChar i = Nat.digitChar j → i = j := by decide
  exact hall i hi j hj h

/-- Numbers are read back from their digits. -/
theorem toDigits_inj (hb : 1 < b) (hb' : b ≤ 16) (h : Nat.toDigits b m = Nat.toDigits b n) :
    m = n := by
  induction m using Nat.strongRecOn generalizing n with
  | ind m ih =>
    rw [Nat.toDigits_eq_if (n := m) hb, Nat.toDigits_eq_if (n := n) hb] at h
    have hmod (k : Nat) : k % b < 16 := Nat.lt_of_lt_of_le (Nat.mod_lt k (by omega)) hb'
    have hlong (k : Nat) (c d : Char) : Nat.toDigits b k ++ [c] ≠ [d] := by
      intro heq
      have hnil := List.append_eq_singleton_iff.mp heq
      simp [Nat.toDigits_ne_nil] at hnil
    split at h
    · next hm =>
      split at h
      · next hn =>
        exact digitChar_inj (by omega) (by omega) (List.singleton_inj.mp h)
      · exact absurd h.symm (hlong _ _ _)
    · next hm =>
      split at h
      · exact absurd h (hlong _ _ _)
      · -- the last digit tells the remainder, the digits before it the quotient
        obtain ⟨hdiv, hlast⟩ := List.append_inj' h rfl
        have hdiv : m / b = n / b := ih (m / b) (Nat.div_lt_self (by omega) hb) hdiv
        have hlast := digitChar_inj (hmod m) (hmod n) (List.singleton_inj.mp hlast)
        rw [← Nat.div_add_mod m b, ← Nat.div_add_mod n b, hdiv, hlast]

end

namespace Quoted

/-- A way to show the characters of a text between quotes: each one as itself, or by an escape that
begins with a backslash and tells the character. Quotes and backslashes have an escape. -/
structure Escapes (escape : Char → List Char) : Prop where
  plain_or_escaped : ∀ c, escape c = [c] ∨ ∃ rest, escape c = '\\' :: rest
  quote : ∃ rest, escape '"' = '\\' :: rest
  backslash : ∃ rest, escape '\\' = '\\' :: rest
  /-- What one character is shown by does not begin what another one is shown by. -/
  eq_of_prefix : ∀ c d, escape c <+: escape d → c = d

/-- A text in quotes, with its characters shown as given. -/
def quoteWith (escape : Char → List Char) (s : String) : String :=
  String.ofList ('"' :: s.toList.flatMap escape ++ ['"'])

theorem quote_eq (s : String) : quote s = quoteWith escape s := rfl

/-- The characters with an escape of one letter. -/
def letters : List (Char × Char) :=
  [('0', '\x00'), ('t', '\t'), ('n', '\n'), ('r', '\r'), ('"', '"'), ('\\', '\\')]

/-- The escape of a character by its number. -/
def hexEscape (c : Char) : List Char :=
  '\\' :: 'u' :: '\x7b' :: (Nat.toDigits 16 c.toNat ++ ['\x7d'])

theorem escape_cases (c : Char) : (escape c = [c] ∧ c ≠ '"' ∧ c ≠ '\\') ∨
    (∃ letter, (letter, c) ∈ letters ∧ escape c = ['\\', letter]) ∨ escape c = hexEscape c := by
  unfold escape
  split
  case h_7 _ _ _ _ _ hquote hbackslash =>
    split
    · exact .inr (.inr rfl)
    · exact .inl ⟨rfl, hquote, hbackslash⟩
  all_goals exact .inr (.inl ⟨_, by decide, rfl⟩)

theorem hexEscape_inj {c d : Char} (h : hexEscape c <+: hexEscape d) : c = d := by
  obtain ⟨rest, h⟩ := h
  simp only [hexEscape, List.cons_append, List.cons.injEq, true_and, List.append_assoc,
    List.nil_append] at h
  have hdigits : ∀ {n : Nat}, ∀ a ∈ Nat.toDigits 16 n, decide (a ≠ '\x7d') = true := by
    intro n a ha
    obtain ⟨i, rfl⟩ := exists_digitChar (by decide) ha
    exact decide_eq_true (Nat.digitChar_ne '\x7d' rfl)
  obtain ⟨hsame, -⟩ := append_inj_of_forall (p := (· ≠ '\x7d')) hdigits hdigits
    (by simp) (by simp) h
  exact Char.toNat_inj.mp (toDigits_inj (by decide) (by decide) hsame)

theorem escapes_escape : Escapes escape where
  plain_or_escaped c := by
    rcases escape_cases c with ⟨h, -⟩ | ⟨letter, -, h⟩ | h
    · exact .inl h
    · exact .inr ⟨_, h⟩
    · exact .inr ⟨_, h⟩
  quote := ⟨_, rfl⟩
  backslash := ⟨_, rfl⟩
  eq_of_prefix c d h := by
    have hletters : ∀ x ∈ letters, ∀ y ∈ letters, x.1 = y.1 → x.2 = y.2 := by decide
    have hu : ∀ x ∈ letters, x.1 ≠ 'u' := by decide
    -- an escape is a backslash with a letter of its own, or with u and a number
    rcases escape_cases c with ⟨hc, -, hbackslash⟩ | ⟨letter, hc, hescape⟩ | hc
    · rcases escape_cases d with ⟨hd, -⟩ | ⟨letter', -, hd⟩ | hd
      · rw [hc, hd, List.cons_prefix_cons] at h
        exact h.1
      · rw [hc, hd, List.cons_prefix_cons] at h
        exact absurd h.1 hbackslash
      · rw [hc, hd, hexEscape, List.cons_prefix_cons] at h
        exact absurd h.1 hbackslash
    · rcases escape_cases d with ⟨hd, -⟩ | ⟨letter', hd, hescape'⟩ | hd
      · rw [hescape, hd] at h
        exact absurd h.length_le (by simp)
      · rw [hescape, hescape', List.cons_prefix_cons, List.cons_prefix_cons] at h
        exact hletters _ hc _ hd h.2.1
      · rw [hescape, hd, hexEscape, List.cons_prefix_cons, List.cons_prefix_cons] at h
        exact absurd h.2.1 (hu _ hc)
    · rcases escape_cases d with ⟨hd, -⟩ | ⟨letter', -, hd⟩ | hd
      · rw [hc, hd] at h
        exact absurd h.length_le (by simp [hexEscape])
      · rw [hc, hd] at h
        exact absurd h.length_le (by simp [hexEscape])
      · rw [hc, hd] at h
        exact hexEscape_inj h

variable {escape : Char → List Char}

theorem Escapes.append_ne_quote (h : Escapes escape) (c : Char) (w u : List Char) :
    escape c ++ w ≠ '"' :: u := by
  intro heq
  rcases h.plain_or_escaped c with hplain | ⟨rest, hescaped⟩
  · -- a quote would be shown as itself
    rw [hplain] at heq
    obtain rfl : c = '"' := (List.cons.inj heq).1
    obtain ⟨rest, hquote⟩ := h.quote
    exact absurd (List.cons.inj (hquote.symm.trans hplain)).1 (by decide)
  · rw [hescaped] at heq
    exact absurd (List.cons.inj heq).1 (by decide)

/-- A quoted text is read up to the quote that ends it. -/
theorem Escapes.flatMap_append_inj (h : Escapes escape) {cs ds u v : List Char}
    (heq : cs.flatMap escape ++ '"' :: u = ds.flatMap escape ++ '"' :: v) : cs = ds ∧ u = v := by
  induction cs generalizing ds with
  | nil =>
    cases ds with
    | nil => exact ⟨rfl, (List.cons.inj heq).2⟩
    | cons d ds =>
      rw [List.flatMap_cons, List.append_assoc] at heq
      exact absurd heq.symm (h.append_ne_quote d _ u)
  | cons c cs ih =>
    rw [List.flatMap_cons, List.append_assoc] at heq
    cases ds with
    | nil => exact absurd heq (h.append_ne_quote c _ v)
    | cons d ds =>
      rw [List.flatMap_cons, List.append_assoc] at heq
      -- of the two characters shown first, one begins with the other
      have hsame : c = d := by
        rcases List.prefix_or_prefix_of_prefix (List.prefix_append (escape c) _) ⟨_, heq.symm⟩
          with hcd | hdc
        · exact h.eq_of_prefix c d hcd
        · exact (h.eq_of_prefix d c hdc).symm
      subst hsame
      obtain ⟨rfl, hrest⟩ := ih (List.append_cancel_left heq)
      exact ⟨rfl, hrest⟩

end Quoted

namespace Piece

variable {escape : Char → List Char}

/-- A piece as it is shown where texts are quoted with the given escapes. -/
def textWith (escape : Char → List Char) : Piece → String
  | literal text => Quoted.quoteWith escape text
  | capture index => s!"${index}"
  | repeated unit counted => s!"len({unit.textWith escape}, {counted.textWith escape})"

theorem text_eq (piece : Piece) : piece.text = piece.textWith Quoted.escape := by
  induction piece with
  | literal text => exact Quoted.quote_eq text
  | capture index => rfl
  | repeated unit counted ihUnit ihCounted => rw [text, textWith, ihUnit, ihCounted]

/-- The characters of a piece as it is shown. -/
def shown (escape : Char → List Char) (piece : Piece) : List Char :=
  (piece.textWith escape).toList

theorem shown_literal (text : String) : (literal text).shown escape =
    '"' :: (text.toList.flatMap escape ++ ['"']) := by
  rw [shown, textWith, Quoted.quoteWith, String.toList_ofList, List.cons_append]

theorem shown_capture (index : Nat) :
    (capture index).shown escape = '$' :: Nat.toDigits 10 index := by
  rw [shown, textWith, String.toList_append, Nat.toString_eq_ofList_toDigits,
    String.toList_ofList]
  rfl

theorem shown_repeated (unit counted : Piece) : (repeated unit counted).shown escape =
    'l' :: 'e' :: 'n' :: '(' ::
      (unit.shown escape ++ ',' :: ' ' :: (counted.shown escape ++ [')'])) := by
  rw [shown, textWith]
  simp only [String.toList_append, List.append_assoc]
  rfl

theorem not_digit_head {c : Char} {cs : List Char} (hc : c.isDigit = false) :
    ∀ a ∈ (c :: cs).head?, a.isDigit = false := by
  intro a ha
  obtain rfl := Option.some.inj ha
  exact hc

/-- A piece is read up to its end, unless a digit comes next, which would belong to a number. -/
theorem shown_append_inj (h : Quoted.Escapes escape) {piece other : Piece} {u v : List Char}
    (hu : ∀ c ∈ u.head?, c.isDigit = false) (hv : ∀ c ∈ v.head?, c.isDigit = false)
    (heq : piece.shown escape ++ u = other.shown escape ++ v) : piece = other ∧ u = v := by
  induction piece generalizing other u v with
  | literal text =>
    cases other with
    | literal text' =>
      simp only [shown_literal, List.cons_append, List.append_assoc, List.nil_append] at heq
      obtain ⟨htext, hrest⟩ := h.flatMap_append_inj (List.cons.inj heq).2
      rw [String.toList_inj] at htext
      exact ⟨congrArg literal htext, hrest⟩
    | capture index => simp [shown_literal, shown_capture] at heq
    | repeated unit counted => simp [shown_literal, shown_repeated] at heq
  | capture index =>
    cases other with
    | literal text => simp [shown_literal, shown_capture] at heq
    | capture index' =>
      rw [shown_capture, shown_capture] at heq
      have hdigits {n : Nat} : ∀ c ∈ Nat.toDigits 10 n, c.isDigit = true :=
        fun c hc => Nat.isDigit_of_mem_toDigits (by decide) (by decide) hc
      obtain ⟨hindex, hrest⟩ :=
        append_inj_of_forall hdigits hdigits hu hv (List.cons.inj heq).2
      exact ⟨congrArg capture (toDigits_inj (by decide) (by decide) hindex), hrest⟩
    | repeated unit counted => simp [shown_capture, shown_repeated] at heq
  | repeated unit counted ihUnit ihCounted =>
    cases other with
    | literal text => simp [shown_literal, shown_repeated] at heq
    | capture index => simp [shown_capture, shown_repeated] at heq
    | repeated unit' counted' =>
      simp only [shown_repeated, List.cons_append, List.append_assoc, List.nil_append,
        List.cons.injEq, true_and] at heq
      -- the comma ends the first operand, the bracket the second
      obtain ⟨rfl, hcounted⟩ := ihUnit (not_digit_head rfl) (not_digit_head rfl) heq
      simp only [List.cons.injEq, true_and] at hcounted
      obtain ⟨rfl, hrest⟩ := ihCounted (not_digit_head rfl) (not_digit_head rfl) hcounted
      exact ⟨rfl, (List.cons.inj hrest).2⟩

end Piece

namespace Template

variable {escape : Char → List Char}

/-- The pieces of a template as they are shown, each of them after a space. -/
def textWith (escape : Char → List Char) (template : Template) : String :=
  String.join (template.map fun piece => " " ++ piece.textWith escape)

theorem toList_textWith (template : Template) : (template.textWith escape).toList =
    template.flatMap fun piece => ' ' :: piece.shown escape := by
  rw [textWith]
  induction template with
  | nil => rfl
  | cons piece template ih =>
    rw [List.map_cons, String.join_cons, String.toList_append, ih, List.flatMap_cons,
      String.toList_append]
    rfl

theorem eq_of_flatMap_shown (h : Quoted.Escapes escape) {template other : Template}
    (heq : (template.flatMap fun piece => ' ' :: piece.shown escape) =
      other.flatMap fun piece => ' ' :: piece.shown escape) : template = other := by
  -- what comes after a piece is nothing, or the space before the next one
  have hnext (template : Template) :
      ∀ c ∈ (template.flatMap fun piece => ' ' :: piece.shown escape).head?,
        c.isDigit = false := by
    cases template with
    | nil => exact fun c hc => nomatch hc
    | cons piece template => exact Piece.not_digit_head rfl
  induction template generalizing other with
  | nil =>
    cases other with
    | nil => rfl
    | cons piece other => exact nomatch heq
  | cons piece template ih =>
    cases other with
    | nil => exact nomatch heq
    | cons piece' other =>
      rw [List.flatMap_cons, List.flatMap_cons, List.cons_append, List.cons_append] at heq
      obtain ⟨rfl, hrest⟩ :=
        Piece.shown_append_inj h (hnext template) (hnext other) (List.cons.inj heq).2
      rw [ih hrest]

theorem textWith_injective (h : Quoted.Escapes escape) :
    Function.Injective (textWith escape) := by
  intro template other heq
  apply eq_of_flatMap_shown h
  rw [← toList_textWith, ← toList_textWith, heq]

end Template

/-- What a rule shows before its template. -/
def Rule.heading (r : Rule) : String :=
  r.name ++ " :=" ++
    if r.elements.isEmpty then " @empty"
    else String.join (r.symbols.map fun symbol => " " ++ symbol.text)

theorem intercalate_space (text : String) (texts : List String) :
    " ".intercalate (text :: texts) = text ++ String.join (texts.map (" " ++ ·)) := by
  induction texts generalizing text with
  | nil => rw [String.intercalate_singleton, List.map_nil, String.join_nil, String.append_empty]
  | cons next texts ih =>
    rw [String.intercalate_cons_cons, ih, List.map_cons, String.join_cons, String.append_assoc,
      String.append_assoc]

/-- A template follows an arrow, each of its pieces after a space. -/
theorem Rule.text_eq (r : Rule) : r.text = r.heading ++
    if r.template.isEmpty then "" else " =>" ++ r.template.textWith Quoted.escape := by
  have hbefore : String.join ((if r.elements.isEmpty then ["@empty"]
      else r.symbols.map (·.text)).map (" " ++ ·)) = if r.elements.isEmpty then " @empty"
        else String.join (r.symbols.map fun symbol => " " ++ symbol.text) := by
    split
    · rfl
    · rw [List.map_map]
      rfl
  have hafter : String.join ((if r.template.isEmpty then []
      else "=>" :: r.template.map (·.text)).map (" " ++ ·)) = if r.template.isEmpty then ""
        else " =>" ++ r.template.textWith Quoted.escape := by
    split
    · rfl
    · rw [List.map_cons, String.join_cons, List.map_map, Template.textWith]
      simp only [← Piece.text_eq]
      rfl
  have hassign : " :=" = " " ++ ":=" := rfl
  rw [text, List.cons_append, List.cons_append, intercalate_space, List.map_cons,
    String.join_cons, List.map_append, String.join_append, hbefore, hafter, heading, hassign]
  simp only [String.append_assoc]

/-- However texts are quoted, as long as each character can be read back, templates that are shown
alike are equal. Rules show their templates in this way. -/
theorem templates_read_uniquely :
    (∀ escape, Quoted.Escapes escape → Function.Injective (Template.textWith escape)) ∧
      Quoted.Escapes Quoted.escape ∧
      ∀ r : Rule, r.text = r.heading ++
        if r.template.isEmpty then "" else " =>" ++ r.template.textWith Quoted.escape :=
  ⟨fun _ => Template.textWith_injective, Quoted.escapes_escape, Rule.text_eq⟩

/-- What a literal contains is not taken for the end of the literal and another piece. -/
theorem lookalikes_shown_apart :
    Template.textWith Quoted.escape [.literal "a\" $1"] ≠
      Template.textWith Quoted.escape [.literal "a", .capture 1] := by
  intro h
  obtain ⟨hinjective, hescapes, -⟩ := templates_read_uniquely
  exact absurd (hinjective _ hescapes h) (by decide)

end Reformat
