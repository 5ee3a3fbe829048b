import SourceBundle.Config.Lookup

/-!
The command line. It is read from left to right, and the first argument that settles the matter, for
good or ill, does so.
-/

namespace SourceBundle.Command

structure Options where
  source : Option String := none
  projectRoot : Option String := none
  config : Option String := none
  noConfig : Bool := false
  embedded : Bool := false
  production : Bool := false
  recursive : Bool := false
  exclude : List String := []
  suffixes : List String := []
  lang : Option String := none
  output : Option String := none
  dryRun : Bool := false
  quiet : Bool := false
  verbosity : Nat := 0
  deriving DecidableEq, Repr

inductive Stop where
  | help
  | version
  | misuse
  deriving DecidableEq, Repr

inductive Switch where
  | recursive
  | embedded
  | production
  | quiet
  | dryRun
  | noConfig
  | verbose
  | version
  | help
  deriving DecidableEq, Repr

inductive Setting where
  | projectRoot
  | config
  | exclude
  | suffix
  | lang
  | output
  deriving DecidableEq, Repr

inductive Kind where
  | switch (s : Switch)
  | setting (s : Setting)
  deriving DecidableEq, Repr

def longNames : List (String × Kind) :=
  [("recursive", .switch .recursive), ("embedded", .switch .embedded),
    ("production", .switch .production), ("quiet", .switch .quiet), ("dry-run", .switch .dryRun),
    ("no-config", .switch .noConfig), ("verbose", .switch .verbose),
    ("version", .switch .version), ("help", .switch .help),
    ("project-root", .setting .projectRoot), ("config", .setting .config),
    ("exclude", .setting .exclude), ("suffix", .setting .suffix), ("lang", .setting .lang),
    ("output", .setting .output)]

def shortNames : List (Char × Kind) :=
  [('r', .switch .recursive), ('q', .switch .quiet), ('v', .switch .verbose),
    ('V', .switch .version), ('h', .switch .help), ('o', .setting .output)]

namespace Options

/-- Turns a switch on. Only the one for more messages may be repeated. -/
def turnOn (o : Options) : Switch → Except Stop Options
  | .recursive => if o.recursive then .error .misuse else .ok { o with recursive := true }
  | .embedded => if o.embedded then .error .misuse else .ok { o with embedded := true }
  | .production => if o.production then .error .misuse else .ok { o with production := true }
  | .quiet => if o.quiet then .error .misuse else .ok { o with quiet := true }
  | .dryRun => if o.dryRun then .error .misuse else .ok { o with dryRun := true }
  | .noConfig => if o.noConfig then .error .misuse else .ok { o with noConfig := true }
  | .verbose => .ok { o with verbosity := o.verbosity + 1 }
  | .version => .error .version
  | .help => .error .help

/-- Gives an option its value. Lists grow by the parts between commas; all else is given once. -/
def assign (o : Options) (value : String) : Setting → Except Stop Options
  | .projectRoot =>
      if o.projectRoot.isSome || value.isEmpty then .error .misuse
      else .ok { o with projectRoot := some value }
  | .config => if o.config.isSome then .error .misuse else .ok { o with config := some value }
  | .lang => if o.lang.isSome then .error .misuse else .ok { o with lang := some value }
  | .output => if o.output.isSome then .error .misuse else .ok { o with output := some value }
  | .exclude => .ok { o with exclude := o.exclude ++ Text.cutString ',' value }
  | .suffix => .ok { o with suffixes := o.suffixes ++ Text.cutString ',' value }

def addSource (o : Options) (value : String) : Except Stop Options :=
  if o.source.isSome then .error .misuse else .ok { o with source := some value }

/-- An option may be left waiting for its value, which is then the next argument. -/
abbrev Step := Except Stop (Options × Option Setting)

def readLong (o : Options) (s : List Char) : Step :=
  let name := String.ofList (s.takeWhile (· != '='))
  match longNames.lookup name, s.dropWhile (· != '=') with
  | some (.switch switch), [] => (o.turnOn switch).map fun o => (o, none)
  | some (.setting setting), [] => .ok (o, some setting)
  | some (.setting setting), _ :: value =>
      (o.assign (String.ofList value) setting).map fun o => (o, none)
  | _, _ => .error .misuse

def attached : List Char → String
  | '=' :: value => String.ofList value
  | value => String.ofList value

def readShort (o : Options) : List Char → Step
  | [] => .ok (o, none)
  | c :: later =>
      match shortNames.lookup c with
      | none => .error .misuse
      | some (.switch switch) =>
          match o.turnOn switch with
          | .error stop => .error stop
          | .ok o => o.readShort later
      | some (.setting setting) =>
          if later.isEmpty then .ok (o, some setting)
          else (o.assign (attached later) setting).map fun o => (o, none)

def readSources (o : Options) : List String → Except Stop Options
  | [] => .ok o
  | value :: later =>
      match o.addSource value with
      | .error stop => .error stop
      | .ok o => o.readSources later

def isValue (argument : String) : Bool :=
  argument.toList.head? != some '-' || argument == "-"

def readFrom (o : Options) (waiting : Option Setting) : List String → Except Stop Options
  | [] => if waiting.isSome then .error .misuse else .ok o
  | argument :: later =>
      match waiting with
      | some setting =>
          if isValue argument then
            match o.assign argument setting with
            | .error stop => .error stop
            | .ok o => o.readFrom none later
          else .error .misuse
      | none =>
          if isValue argument then
            match o.addSource argument with
            | .error stop => .error stop
            | .ok o => o.readFrom none later
          else if argument == "--" then o.readSources later
          else
            let step := match argument.toList with
              | '-' :: '-' :: s => o.readLong s
              | s => o.readShort s.tail
            match step with
            | .error stop => .error stop
            | .ok (o, waiting) => o.readFrom waiting later

def read (arguments : List String) : Except Stop Options :=
  match readFrom {} none arguments with
  | .error stop => .error stop
  | .ok o => if o.config.isSome && o.noConfig then .error .misuse else .ok o

def configChoice (o : Options) : ConfigChoice :=
  if o.noConfig then .disabled
  else match o.config with
    | none => .standard
    | some s => .named s

/-- The request of a configuration file with what the command line adds to it. Switches only turn
on, exclusions come on top, and anything else takes the place of what the file says. -/
def merge (o : Options) (c : Config) : Config where
  source := o.source.or c.source
  lang := o.lang.getD c.lang
  output := o.output.getD c.output
  recursive := c.recursive || o.recursive
  suffixes := if o.suffixes.isEmpty then c.suffixes else some o.suffixes
  exclude := c.exclude ++ o.exclude
  profiles :=
    { embedded := c.profiles.embedded || o.embedded
      production := c.profiles.production || o.production }

end Options

end SourceBundle.Command
