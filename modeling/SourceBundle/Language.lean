import SourceBundle.Error
import SourceBundle.Swift.RuleSet

/-!
The languages whose sources can be bundled.
-/

namespace SourceBundle

inductive Language where
  | swift
  deriving DecidableEq, Repr

namespace Language

def identifier : Language → String
  | swift => "swift"

def suffixes : Language → List String
  | swift => Swift.suffixes

def ruleSet : Language → Profiles → RuleSet
  | swift => Swift.ruleSet

/-- Reads an identifier, without regard to case and to the blanks around it. No character beyond
ASCII has a lower case in the identifiers, so the case of ASCII letters decides. -/
def ofText (s : String) : Except Error Language :=
  let name := Text.trimmed s
  if name.isEmpty then .error (.argument .noLanguage)
  else if name.toList.map Char.toLower = "swift".toList then .ok swift
  else .error (.unsupportedLanguage name)

end Language

end SourceBundle
