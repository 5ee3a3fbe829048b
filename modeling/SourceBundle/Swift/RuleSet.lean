import SourceBundle.Swift.Embedded
import SourceBundle.Swift.Production

/-!
The rule set for Swift sources under each choice of profiles. Comment lines without text go under
every profile.
-/

namespace SourceBundle.Swift

def suffixes : List String := [".swift"]

def ruleSet (profiles : Profiles) : RuleSet where
  separator := ';'
  declaration := if profiles.embedded then some caseDeclaration else none
  removals :=
    (if profiles.embedded then embeddedRemovals else []) ++
      if profiles.production then productionRemovals else []
  replacements := if profiles.production then productionReplacements else []
  emptyComment := .drop emptyCommentLine
  newlineRun := if profiles.production then some newlineRun else none

end SourceBundle.Swift
