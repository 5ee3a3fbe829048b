import SourceBundle.Config
import SourceBundle.Language

/-!
Settings of a run: a request that has been checked, with its paths seen from the project root. The
file system is not looked at.
-/

namespace SourceBundle

structure Settings where
  source : Path
  output : Path
  suffixes : List String
  excluded : List (List String)
  recursive : Bool
  profiles : Profiles
  language : Language
  deriving DecidableEq, Repr

namespace Settings

def exclusionNames : List Path.Part → Except ExclusionFault (List String)
  | [] => .ok []
  | .root :: _ => .error .absolute
  | .up :: _ => .error .goesUp
  | .here :: parts => exclusionNames parts
  | .name s :: parts => (exclusionNames parts).map (s :: ·)

def exclusion (entry : String) : Except Error (List String) :=
  let fault (f : ExclusionFault) : Error := .argument (.exclusion entry f)
  let name := Text.trimmed entry
  if name.isEmpty then .error (fault .empty)
  else match exclusionNames (Path.parts ⟨name⟩) with
    | .error f => .error (fault f)
    | .ok [] => .error (fault .namesNothing)
    | .ok names => .ok names

def insertExclusion (names : List String) : List (List String) → List (List String)
  | [] => [names]
  | first :: later =>
      if names < first then names :: first :: later
      else if names = first then first :: later
      else first :: insertExclusion names later

def exclusions (entries : List String) : Except Error (List (List String)) := do
  let read ← entries.mapM exclusion
  return read.foldl (fun sorted names => insertExclusion names sorted) []

def suffixList (language : Language) (asked : Option (List String)) : Except Error (List String) :=
  match asked with
  | none => .ok language.suffixes
  | some suffixes =>
      let suffixes := suffixes.map Text.trimmed
      if suffixes.any String.isEmpty then .error (.argument .emptySuffix)
      else if suffixes.isEmpty then .error (.argument .noSuffix)
      else .ok suffixes.eraseDups

def outputPath (home : Option String) (asked : String) : Except Error Path :=
  let spelling := Text.trimmed asked
  match spelling.toList.getLast? with
  | none => .error (.argument (.output asked))
  | some last =>
      if last == '/' || last == '\\' then .error (.argument (.output asked))
      else .ok (Path.expandHome home spelling)

def sourcePath (asked : Option String) : Except Error Path :=
  match asked.map Text.trimmed with
  | none => .error (.argument .noSource)
  | some spelling => if spelling.isEmpty then .error (.argument .noSource) else .ok ⟨spelling⟩

/-- Checks a request. Of several faults the first in this order is reported. -/
def ofConfig (home : Option String) (root : Path) (config : Config) : Except Error Settings := do
  let source ← sourcePath config.source
  let language ← Language.ofText config.lang
  let excluded ← exclusions config.exclude
  let suffixes ← suffixList language config.suffixes
  let output ← outputPath home config.output
  return { source := root.join source, output := root.join output, suffixes, excluded,
           recursive := config.recursive, profiles := config.profiles, language }

def accepts (s : Settings) (name : String) : Bool :=
  s.suffixes.any fun suffix => suffix.toList.isSuffixOf name.toList

def excludes (s : Settings) (parts : List Path.Part) : Bool :=
  s.excluded.any fun names => names.map .name == parts

def ruleSet (s : Settings) : RuleSet := s.language.ruleSet s.profiles

end Settings

end SourceBundle
