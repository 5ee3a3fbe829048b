import SourceBundle.Rule
import SourceBundle.Swift.Lexeme

/-!
The embedded profile: imports go, and enum cases with an argument list over several lines are put on
one line.
-/

namespace SourceBundle.Swift

open Pattern

def importQualifiers : List String :=
  ["@_exported", "@_implementationOnly", "@testable", "@preconcurrency", "public", "package",
    "internal", "private", "fileprivate"]

def importKinds : List String :=
  ["typealias", "struct", "class", "enum", "protocol", "let", "var", "func"]

/-- A line that declares an import and holds at most a semicolon and a comment after it. -/
def importLine : Pattern :=
  lineStart ++ gap ++ repeated (anyText importQualifiers ++ someGap) ++
    literal "import" ++ someGap ++ optional (anyText importKinds ++ someGap) ++
    modulePath ++ gap ++ optional (literal ";") ++ gap ++
    optional (literal "//" ++ restOfLine) ++ lineEnd

def isInArguments (c : Char) : Bool := c != '(' && c != ')'

/-- An enum case whose argument list has a newline in it and no parentheses inside. -/
def caseDeclaration : Pattern :=
  lineStart ++ gap ++ optional (literal "indirect" ++ someGap) ++ literal "case" ++ someGap ++
    identifier ++ gap ++ literal "(" ++ all false (fun c => isInArguments c && c != '\n') ++
    newline ++ all false isInArguments ++ literal ")"

def emptyCommentLine : Pattern := lineStart ++ gap ++ literal "//" ++ gap ++ lineEnd

def embeddedRemovals : List Rule := [⟨"import-declaration", drop importLine⟩]

end SourceBundle.Swift
