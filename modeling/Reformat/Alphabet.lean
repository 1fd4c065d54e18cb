/-!
Identifiers: an underscore or a character that may start one, then characters that may continue one.
-/

namespace Reformat

/-- Which characters identifiers are made of. -/
structure Alphabet where
  isStart : Char → Bool
  isContinue : Char → Bool
  dollar : isStart '$' = false

/-- Whether a text is an identifier. -/
def Alphabet.isIdentifier (alphabet : Alphabet) (s : String) : Bool :=
  match s.toList with
  | [] => false
  | c :: cs => (c = '_' || alphabet.isStart c) && cs.all alphabet.isContinue

/-- No identifier begins with a dollar sign. -/
theorem Alphabet.isIdentifier_accept (alphabet : Alphabet) :
    alphabet.isIdentifier "$accept" = false := by
  have hlist : "$accept".toList = ['$', 'a', 'c', 'c', 'e', 'p', 't'] := by decide
  simp [isIdentifier, hlist, alphabet.dollar]

end Reformat
