import SourceBundle.Command.Options
import SourceBundle.Report.Summary

/-!
The program as a function of its arguments, its environment and the file tree. The stages are the
project root, the configuration, the settings and the bundling; the first that fails ends the run.
-/

namespace SourceBundle.Command

inductive Stage where
  | root
  | configuration
  | settings
  | bundling (source : Path)
  | planning (source : Path)
  deriving DecidableEq, Repr

def Stage.failure : Stage → String
  | root => "Failed to determine project root"
  | configuration => "Failed to load configuration"
  | settings => "Invalid consolidation settings"
  | bundling source => s!"Failed to consolidate '{source.text}'"
  | planning source => s!"Failed to plan consolidation of '{source.text}'"

inductive Outcome where
  | stopped (stop : Stop)
  | failed (stage : Stage) (error : Error)
  | planned (files : List RewrittenFile)
  | bundled (root : Path) (receipt : Receipt) (quiet : Bool)
  deriving DecidableEq, Repr

namespace Outcome

def exitCode : Outcome → Nat
  | stopped .misuse => 2
  | stopped _ => 0
  | failed _ error => error.exitCode
  | planned _ => 0
  | bundled _ _ _ => 0

def versionText : String := "consolidate-cli 0.1.0\n"

def usageText : String := "Usage: consolidate [OPTIONS] [SOURCE_DIR]\n"

def stdout : Outcome → String
  | stopped .version => versionText
  | stopped .help => usageText
  | stopped .misuse => ""
  | failed _ _ => ""
  | planned files => Report.plan files
  | bundled root receipt quiet => if quiet then "" else Report.summary root receipt

def failureText (stage : Stage) (error : Error) : String :=
  ": ".intercalate (s!"Error: {stage.failure}" :: error.message :: error.causes) ++ "\n"

def stderr : Outcome → String
  | stopped .misuse => "error: invalid arguments\n\n" ++ usageText
  | stopped _ => ""
  | failed stage error => failureText stage error
  | planned _ => ""
  | bundled _ _ _ => ""

end Outcome

def prepare (env : Environment) (o : Options) (t : FileTree) :
    Except (Stage × Error) (Path × Settings) := do
  let root ← (env.root t o.projectRoot).mapError fun e => (.root, e)
  let config ← (Config.load env t root o.configChoice).mapError fun e => (.configuration, e)
  let settings ←
    (Settings.ofConfig env.home root (o.merge config)).mapError fun e => (.settings, e)
  return (root, settings)

def runWith (env : Environment) (o : Options) (t : FileTree) : FileTree × Outcome :=
  match prepare env o t with
  | .error (stage, error) => (t, .failed stage error)
  | .ok (root, settings) =>
      if o.dryRun then
        match settings.plan t with
        | .error error => (t, .failed (.planning settings.source) error)
        | .ok files => (t, .planned files)
      else
        match settings.run t with
        | (changed, .error error) => (changed, .failed (.bundling settings.source) error)
        | (changed, .ok receipt) => (changed, .bundled root receipt o.quiet)

def run (env : Environment) (arguments : List String) (t : FileTree) : FileTree × Outcome :=
  match Options.read arguments with
  | .error stop => (t, .stopped stop)
  | .ok o => runWith env o t

end SourceBundle.Command
