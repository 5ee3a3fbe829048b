import SourceBundle.Rule
import SourceBundle.Swift.Lexeme

/-!
The production profile: comments, blank lines and indentation go, and then the blanks around
operators, braces, keywords and punctuation. Statements that are joined to the line before stand
behind a semicolon. The order of the rules matters, since each sees what the earlier ones left.
-/

namespace SourceBundle.Swift

open Pattern

def productionRemovals : List Rule :=
  [⟨"documentation-comment-lines",
      drop (lineStart ++ gap ++ literal "///" ++ restOfLine ++ lineEnd)⟩,
    ⟨"comment-lines", drop (lineStart ++ gap ++ literal "//" ++ restOfLine ++ lineEnd)⟩,
    ⟨"trailing-comments", drop (someGap ++ literal "//" ++ restOfLine)⟩,
    ⟨"leading-whitespace", drop (lineStart ++ someBlanks)⟩]

def tightOperator (operators : List String) : Pattern :=
  drop someBlanks ++ anyText operators ++ drop someBlanks

def separated : Pattern := drop (someBlanks ++ lineStart) ++ write [';']

def oneSpace : Pattern := drop someBlanks ++ write [' ']

/-- Blanks, for which a space is written, but for the last one that may stand on a line before what
follows; that one is kept. -/
def spaceBeforeBlank : Pattern :=
  drop (one Text.isBlank ++ few Text.isBlank) ++ write [' '] ++ one Text.isInlineBlank

def newlines : Pattern := all false (· == '\n')

def isInCondition (c : Char) : Bool := c != '\n' && c != '\x7b'

def isInResult (c : Char) : Bool := c != '\n' && c != '\x7b' && c != '\x7d'

/-- What follows `guard` up to the last blank before its `else`. The condition ends at the first
`else` that opens the block; where `else` follows at once, a blank stands for the condition. -/
def guardCondition : Pattern :=
  orElse (oneSpace ++ one isInCondition ++ upTo Text.isBlank isInCondition ++ oneSpace)
    (spaceBeforeBlank ++
      drop (orElse (newlines ++ one Text.isInlineBlank) (newline ++ newlines)) ++ write [' '])

def guardReturn : Pattern :=
  literal "guard" ++ guardCondition ++ literal "else" ++ drop blanks ++ literal "\x7b" ++
    drop blanks ++ literal "return"

/-- What is returned, up to the end of the block; a blank that stands alone there is kept. -/
def result : Pattern :=
  orElse (oneSpace ++ one isInResult ++ upTo (fun c => Text.isBlank c || c == '\x7d') isInResult ++
      drop blanks ++ literal "\x7d")
    (spaceBeforeBlank ++ drop newlines ++ literal "\x7d")

def productionReplacements : List Rule :=
  [⟨"assignment-bitwise-shift-operators", tightOperator arithmeticOperators⟩,
    ⟨"equality-operators", tightOperator equalityOperators⟩,
    ⟨"attributes-after-content", separated ++ attributeUse ++ oneSpace⟩,
    ⟨"attributes", attributeUse ++ oneSpace⟩,
    ⟨"open-brace-whitespace", literal "\x7b" ++ drop someBlanks⟩,
    ⟨"close-brace-whitespace", drop someBlanks ++ literal "\x7d"⟩,
    ⟨"guard-else-return", guardReturn ++ drop blanks ++ literal "\x7d"⟩,
    ⟨"guard-else-return-value", guardReturn ++ result⟩,
    ⟨"statement-keywords-after-newline",
      separated ++ anyText ["defer", "switch", "return", "case"] ++ wordEdge⟩,
    ⟨"default-after-newline", separated ++ literal "default" ++ blanks ++ literal ":"⟩,
    ⟨"defer-block", wordEdge ++ literal "defer" ++ drop blanks ++ literal "\x7b"⟩,
    ⟨"return-whitespace", wordEdge ++ literal "return" ++ drop someGap ++ write [' ']⟩,
    ⟨"keyword-whitespace", wordEdge ++ anyText ["switch", "case", "inout"] ++ oneSpace⟩,
    ⟨"colon-whitespace", drop blanks ++ literal ":" ++ drop blanks⟩,
    ⟨"comma-whitespace", literal "," ++ drop someBlanks⟩,
    ⟨"separator-after-open-brace", literal "\x7b" ++ drop (literal ";")⟩,
    ⟨"separator-after-colon", literal ":" ++ drop (literal ";")⟩,
    ⟨"separator-after-closure-in",
      wordEdge ++ literal "in" ++ drop (literal ";") ++ write [' ']⟩]

def newlineRun : Pattern := drop (newline ++ someBlanks) ++ write [';']

end SourceBundle.Swift
