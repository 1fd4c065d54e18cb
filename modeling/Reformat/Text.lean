/-!
Texts as lists of characters, measured in the bytes of their UTF-8 encoding.
-/

namespace Reformat.Text

/-- The number of bytes that encode the characters. -/
def byteLength : List Char → Nat
  | [] => 0
  | c :: cs => c.utf8Size + byteLength cs

@[simp] theorem byteLength_nil : byteLength [] = 0 := rfl

@[simp] theorem byteLength_cons (c : Char) (cs : List Char) :
    byteLength (c :: cs) = c.utf8Size + byteLength cs := rfl

@[simp] theorem byteLength_append (u v : List Char) :
    byteLength (u ++ v) = byteLength u + byteLength v := by
  induction u with
  | nil => simp
  | cons c cs ih => simp [ih, Nat.add_assoc]

theorem byteLength_eq_zero {cs : List Char} : byteLength cs = 0 ↔ cs = [] := by
  cases cs with
  | nil => simp
  | cons c cs => simp [Nat.ne_of_gt c.utf8Size_pos]

/-- The text from byte `n` on; none if `n` falls inside a character or past the end. -/
def dropBytes? : Nat → List Char → Option (List Char)
  | 0, cs => some cs
  | _ + 1, [] => none
  | n + 1, c :: cs => if c.utf8Size ≤ n + 1 then dropBytes? (n + 1 - c.utf8Size) cs else none

/-- The characters whose first byte lies before byte `n`. -/
def startingBefore : Nat → List Char → List Char
  | 0, _ => []
  | _ + 1, [] => []
  | n + 1, c :: cs => c :: startingBefore (n + 1 - c.utf8Size) cs

/-- The characters between two character boundaries. -/
def slice (start stop : Nat) (cs : List Char) : List Char :=
  ((dropBytes? start cs).map (startingBefore (stop - start))).getD []

theorem dropBytes?_byteLength_add (u v : List Char) (k : Nat) :
    dropBytes? (byteLength u + k) (u ++ v) = dropBytes? k v := by
  induction u with
  | nil => rw [byteLength_nil, Nat.zero_add, List.nil_append]
  | cons c u ih =>
    have hc := c.utf8Size_pos
    obtain ⟨m, hm⟩ : ∃ m, c.utf8Size + byteLength u + k = m + 1 :=
      ⟨_, (Nat.succ_pred (by omega)).symm⟩
    rw [byteLength_cons, hm, List.cons_append, dropBytes?, if_pos (by omega),
      show m + 1 - c.utf8Size = byteLength u + k by omega, ih]

theorem dropBytes?_byteLength_append (u v : List Char) :
    dropBytes? (byteLength u) (u ++ v) = some v := by
  have hzero := dropBytes?_byteLength_add u v 0
  rwa [Nat.add_zero, dropBytes?] at hzero

theorem eq_append_of_dropBytes? {n : Nat} {cs rest : List Char} (h : dropBytes? n cs = some rest) :
    ∃ u, cs = u ++ rest ∧ byteLength u = n := by
  fun_induction dropBytes? n cs with
  | case1 => exact ⟨[], by simpa using h⟩
  | case2 => simp at h
  | case3 n c cs hc ih =>
    obtain ⟨u, rfl, hu⟩ := ih h
    exact ⟨c :: u, rfl, by simp [hu]; omega⟩
  | case4 => simp at h

theorem startingBefore_byteLength_append (u v : List Char) :
    startingBefore (byteLength u) (u ++ v) = u := by
  induction u with
  | nil => simp [startingBefore]
  | cons c u ih =>
    have hc := c.utf8Size_pos
    obtain ⟨k, hk⟩ : ∃ k, c.utf8Size + byteLength u = k + 1 := ⟨_, (Nat.succ_pred (by omega)).symm⟩
    rw [byteLength_cons, hk, List.cons_append, startingBefore,
      show k + 1 - c.utf8Size = byteLength u by omega, ih]

theorem slice_append (u v w : List Char) :
    slice (byteLength u) (byteLength u + byteLength v) (u ++ v ++ w) = v := by
  rw [slice, List.append_assoc, dropBytes?_byteLength_append]
  simp [startingBefore_byteLength_append]

end Reformat.Text
