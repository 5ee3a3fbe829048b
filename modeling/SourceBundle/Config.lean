import SourceBundle.Rule

/-!
What a run is asked to do, before anything of it is checked. A configuration file and the command
line both speak of these values.
-/

namespace SourceBundle

structure Config where
  source : Option String := none
  lang : String := "swift"
  output : String := "Embedded"
  recursive : Bool := false
  /-- Nothing stands for the suffixes of the language. -/
  suffixes : Option (List String) := none
  exclude : List String := []
  profiles : Profiles := {}
  deriving DecidableEq, Repr

end SourceBundle
