import SourceBundle.Pattern.Basic
import SourceBundle.Text.Blank

/-!
Pieces of Swift text that the rules are made of: blanks, comments, identifiers, keywords, operators
and attributes.
-/

namespace SourceBundle.Swift

open Pattern

def blanks : Pattern := all false Text.isBlank

def someBlanks : Pattern := all true Text.isBlank

def gap : Pattern := all false Text.isInlineBlank

def someGap : Pattern := all true Text.isInlineBlank

def literal (s : String) : Pattern := text s.toList

def newline : Pattern := text ['\n']

def lineEnd : Pattern := orElse newline textEnd

def restOfLine : Pattern := all false Text.isInline

def isIdentifierStart (c : Char) : Bool := c.isAlpha || c == '_'

def isIdentifierPart (c : Char) : Bool := c.isAlphanum || c == '_'

def identifier : Pattern := one isIdentifierStart ++ all false isIdentifierPart

def modulePath : Pattern :=
  one isIdentifierStart ++ all false fun c => isIdentifierPart c || c == '.'

def arithmeticOperators : List String :=
  ["<<=", ">>=", "+=", "-=", "*=", "/=", "%=", "&=", "|=", "^=", "<<", ">>", "&&", "||", "&", "|",
    "^"]

def equalityOperators : List String := ["===", "!==", "==", "!="]

/-- A parenthesised argument on one line, without parentheses that close inside it. -/
def argument : Pattern := literal "(" ++ all false (fun c => c != ')' && c != '\n') ++ literal ")"

def attributeUse : Pattern :=
  literal "@" ++ anyOf
    [literal "_alwaysEmitIntoClient", literal "_disfavoredOverload", literal "_transparent",
      literal "_unsafeInheritExecutor", literal "_implements" ++ argument,
      literal "_spi" ++ argument, literal "_effects" ++ argument, literal "_optimize" ++ argument,
      literal "_specialize" ++ argument, literal "inline" ++ argument, literal "inlinable",
      literal "usableFromInline", literal "discardableResult", literal "frozen",
      literal "available" ++ argument, literal "MainActor", literal "Sendable",
      literal "preconcurrency", literal "objc", literal "nonobjc", literal "propertyWrapper",
      literal "resultBuilder", literal "dynamicMemberLookup", literal "escaping",
      literal "autoclosure", literal "main"]

end SourceBundle.Swift
