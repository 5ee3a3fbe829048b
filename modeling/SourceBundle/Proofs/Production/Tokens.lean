import SourceBundle.Proofs.Pieces
import SourceBundle.Proofs.Production.Cleanup

/-!
The production profile keeps the tokens of a text: words and other characters that are not spacing
come out in order, none is split and no two words are joined.
-/

namespace SourceBundle.Swift

open Text

/-- Rewriting under the production profile keeps every token of the reduced text. -/
theorem tokens_rewrite (embedded : Bool) (s : List Char) :
    tokens ((ruleSet ⟨embedded, true⟩).rewrite s) = tokens (reduced embedded s) := by
  change tokens ((production embedded).rewrite s) = _
  rw [rewrite_eq]
  exact tokens_respaced (by decide +kernel) (replacements_respaced _)

end SourceBundle.Swift
