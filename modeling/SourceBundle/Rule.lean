import SourceBundle.Pattern.Basic
import SourceBundle.Text.Lines

/-!
Rule sets. A rule is a named pattern that is applied to a whole text; a rule set fixes which rules a
file goes through and in what order. `RuleSet.rewrite` is the whole rewriting of one file.
-/

namespace SourceBundle

structure Profiles where
  embedded : Bool := false
  production : Bool := false
  deriving DecidableEq, Repr

structure Rule where
  name : String
  pattern : Pattern

def Rule.apply (r : Rule) (s : List Char) : List Char := r.pattern.rewrite s

structure RuleSet where
  separator : Char
  declaration : Option Pattern
  removals : List Rule
  replacements : List Rule
  emptyComment : Pattern
  newlineRun : Option Pattern

namespace RuleSet

def rules (r : RuleSet) : List Rule := r.removals ++ r.replacements

def find? (r : RuleSet) (name : String) : Option Rule := r.rules.find? fun rule => rule.name == name

def oneLine (separator : Char) (declaration : List Char) : List Char :=
  separator :: Text.onOneLine declaration

/-- Puts each declaration found from the cursor on behind the separator and on one line. The text
before the cursor is the rewritten one, so the search after a declaration sees what was put in its
place. -/
def joinFrom (separator : Char) (declaration : Pattern) : List Char → Cursor → Cursor
  | [], c => c
  | _ :: bound, c =>
      match declaration.match? { c with written := [] } with
      | some d =>
          let joined := oneLine separator d.written.reverse
          joinFrom separator declaration bound
            ⟨joined.getLast?, d.rest, joined.reverse ++ c.written⟩
      | none => joinFrom separator declaration bound c.forward

def joinDeclarations (separator : Char) (declaration : Pattern) (s : List Char) : List Char :=
  (joinFrom separator declaration s (.ofText s)).text

def join (r : RuleSet) (s : List Char) : List Char :=
  match r.declaration with
  | none => s
  | some declaration => joinDeclarations r.separator declaration s

def applyAll (rules : List Rule) (s : List Char) : List Char :=
  rules.foldl (fun s rule => rule.apply s) s

def cleanUp (r : RuleSet) (s : List Char) : List Char :=
  let s := r.emptyComment.rewrite s
  match r.newlineRun with
  | none => s
  | some run => run.rewrite s

def rewrite (r : RuleSet) (s : List Char) : List Char :=
  r.cleanUp (applyAll r.replacements (applyAll r.removals (r.join s)))

def trace (rules : List Rule) (s : List Char) : List (String × Option (List Char)) :=
  match rules with
  | [] => []
  | rule :: later =>
      let result := rule.apply s
      (rule.name, if result = s then none else some result) :: trace later result

end RuleSet

end SourceBundle
