import SourceBundle.FileTree.Fault
import SourceBundle.Path

/-!
Everything that can stop a run, with its wording.
-/

namespace SourceBundle

inductive ExclusionFault where
  | empty
  | goesUp
  | absolute
  | namesNothing
  deriving DecidableEq, Repr

def ExclusionFault.message : ExclusionFault → String
  | empty => "entry is empty"
  | goesUp => "'..' is not allowed"
  | absolute => "must be relative to the source directory"
  | namesNothing => "entry names no path"

inductive ArgumentFault where
  | noSource
  | noLanguage
  | exclusion (entry : String) (fault : ExclusionFault)
  | emptySuffix
  | noSuffix
  | output (spelling : String)
  deriving DecidableEq, Repr

def ArgumentFault.message : ArgumentFault → String
  | noSource => "Missing source directory argument"
  | noLanguage => "Language identifier (--lang) cannot be empty"
  | exclusion entry fault => s!"Malformed exclusion entry '{entry}': {fault.message}"
  | emptySuffix => "Suffix list contains an empty entry"
  | noSuffix => "Suffix list cannot be empty"
  | output spelling => s!"Malformed output path '{spelling}': expected a file path"

inductive Error where
  /-- A configuration file that was asked for by its path is not there. -/
  | noConfigFile (path : Path)
  /-- A configuration file that was asked for by its name is not in the directory for them. -/
  | noNamedConfig (name : String) (directory : Path)
  | configSyntax (path : Path) (reason : String)
  | argument (fault : ArgumentFault)
  | unsupportedLanguage (name : String)
  | projectRoot (path : Path) (fault : Fault)
  | directoryRead (path : Path) (fault : Fault)
  | fileRead (path : Path) (fault : Fault)
  | fileDecode (path : Path)
  | fileWrite (path : Path) (fault : Fault)
  | directoryCreation (path : Path) (fault : Fault)
  deriving DecidableEq, Repr

namespace Error

def walkFault (path : Path) (fault : Fault) : String :=
  s!"IO error for operation on {path.text}: {fault.message}"

def projectRootFault (path : Path) (fault : Fault) : String :=
  s!"Project root '{path.text}' is not usable: {fault.message}"

def message : Error → String
  | noConfigFile path =>
      s!"Configuration Error: Specified config file not found at path: {path.text}"
  | noNamedConfig name directory =>
      s!"Configuration Error: Specified config file '{name}' not found in default directory: " ++
        directory.text
  | configSyntax path reason =>
      s!"TOML Parsing Error: Error parsing config file '{path.text}': {reason}. " ++
        "Check TOML syntax and structure."
  | argument fault => s!"Invalid Argument: {fault.message}"
  | unsupportedLanguage name => s!"Unsupported Language: '{name}' (supported: swift)"
  | projectRoot path fault => s!"Filesystem Error: {projectRootFault path fault}"
  | directoryRead path fault =>
      s!"Directory Read Error: Path '{path.text}', Error: {walkFault path fault}"
  | fileRead path fault => s!"File Read Error: Path '{path.text}', Error: {fault.message}"
  | fileDecode path => s!"File Decode Error: Path '{path.text}' is not valid UTF-8"
  | fileWrite path fault => s!"File Write Error: Path '{path.text}', Error: {fault.message}"
  | directoryCreation path fault =>
      s!"Directory Creation Error: Path '{path.text}', Error: {fault.message}"

def causes : Error → List String
  | projectRoot path fault => [projectRootFault path fault]
  | directoryRead path fault => [walkFault path fault, fault.message]
  | fileRead _ fault => [fault.message]
  | fileWrite _ fault => [fault.message]
  | directoryCreation _ fault => [fault.message]
  | _ => []

def exitCode : Error → Nat
  | noConfigFile _ => 1
  | noNamedConfig _ _ => 1
  | configSyntax _ _ => 1
  | argument _ => 5
  | unsupportedLanguage _ => 5
  | projectRoot _ _ => 2
  | directoryRead _ _ => 2
  | fileRead _ _ => 2
  | fileDecode _ => 2
  | fileWrite _ _ => 2
  | directoryCreation _ _ => 2

end Error

end SourceBundle
