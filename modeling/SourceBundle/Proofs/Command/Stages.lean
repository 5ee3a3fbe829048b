import SourceBundle.Proofs.Command.Errors
import SourceBundle.Proofs.Command.Requests

/-!
The stages of the program. They are gone through in order, the first that fails ends the run, and the kind of its error
alone decides how the program ends.
-/

namespace SourceBundle.Command

variable {env : Environment} {o : Options} {t left : FileTree} {root : Path} {config request : Config} {s : Settings}
variable {stage : Stage} {outcome : Outcome} {e : Error}

structure Prepares (env : Environment) (o : Options) (t : FileTree) (root : Path) (config request : Config)
    (s : Settings) : Prop where
  found : env.root t o.projectRoot = .ok root
  loaded : Config.load env t root o.configChoice = .ok config
  merged : o.Merges config request
  settled : Settings.Resolves env.home root request s

/-- A stage fails, and those before it succeed. The tree is left as it was, but for what the bundling did to it. -/
inductive Stops (env : Environment) (o : Options) (t : FileTree) : FileTree → Stage → Error → Prop where
  | root {e : Error} (failed : env.root t o.projectRoot = .error e) : Stops env o t t .root e
  | configuration {root : Path} {e : Error} (found : env.root t o.projectRoot = .ok root)
      (failed : Config.load env t root o.configChoice = .error e) : Stops env o t t .configuration e
  | settings {root : Path} {config request : Config} {e : Error} (found : env.root t o.projectRoot = .ok root)
      (loaded : Config.load env t root o.configChoice = .ok config) (merged : o.Merges config request)
      (failed : Settings.ofConfig env.home root request = .error e) : Stops env o t t .settings e
  | planning {root : Path} {config request : Config} {s : Settings} {e : Error}
      (prepared : Prepares env o t root config request s) (dry : o.dryRun = true) (failed : s.plan t = .error e) :
      Stops env o t t (.planning s.source) e
  | bundling {root : Path} {config request : Config} {s : Settings} {changed : FileTree} {e : Error}
      (prepared : Prepares env o t root config request s) (wet : o.dryRun = false)
      (failed : s.run t = (changed, .error e)) : Stops env o t changed (.bundling s.source) e

/-- All stages succeed. A dry run shows the planned files and leaves the tree as it was, and any other run leaves the
tree with the bundle. -/
inductive Completes (env : Environment) (o : Options) (t : FileTree) : FileTree → Outcome → Prop where
  | planned {root : Path} {config request : Config} {s : Settings} {files : List RewrittenFile}
      (prepared : Prepares env o t root config request s) (dry : o.dryRun = true) (planned : s.plan t = .ok files) :
      Completes env o t t (.planned files)
  | bundled {root : Path} {config request : Config} {s : Settings} {changed : FileTree} {receipt : Receipt}
      (prepared : Prepares env o t root config request s) (wet : o.dryRun = false)
      (ran : s.run t = (changed, .ok receipt)) : Completes env o t changed (.bundled root receipt o.quiet)

inductive Raises : Stage → Error → Prop where
  | root (path : Path) (fault : Fault) : Raises .root (.projectRoot path fault)
  | configuration {e : Error} (kind : e.OfConfiguration) : Raises .configuration e
  | unread (path : Path) : Raises .configuration (.fileRead path .notText)
  | settings {e : Error} (kind : e.OfArguments) : Raises .settings e
  | planning (source : Path) {e : Error} (kind : e.OfReading) : Raises (.planning source) e
  | reading (source : Path) {e : Error} (kind : e.OfReading) : Raises (.bundling source) e
  | writing (source : Path) {e : Error} (kind : e.OfWriting) : Raises (.bundling source) e

theorem prepare_ok_iff : prepare env o t = .ok (root, s) ↔ ∃ config request, Prepares env o t root config request s := by
  rw [prepare, bind_ok]
  constructor
  · rintro ⟨root', found, rest⟩
    obtain ⟨config, loaded, rest⟩ := bind_ok.1 rest
    obtain ⟨s', settled, rest⟩ := bind_ok.1 rest
    cases rest
    exact ⟨config, o.merge config, mapError_ok.1 found, mapError_ok.1 loaded, o.merge_merges config,
      Settings.ofConfig_ok_iff.1 (mapError_ok.1 settled)⟩
  · rintro ⟨config, request, found, loaded, merged, settled⟩
    rw [← Options.merges_iff.1 merged, ← Settings.ofConfig_ok_iff] at settled
    exact ⟨root, mapError_ok.2 found, bind_ok.2 ⟨config, mapError_ok.2 loaded,
      bind_ok.2 ⟨s, mapError_ok.2 settled, rfl⟩⟩⟩

theorem prepare_error (failed : prepare env o t = .error (stage, e)) : Stops env o t t stage e := by
  rcases bind_error.1 failed with failed | ⟨root, found, failed⟩
  · obtain ⟨cause, failed, same⟩ := mapError_error.1 failed
    cases same
    exact .root failed
  rcases bind_error.1 failed with failed | ⟨config, loaded, failed⟩
  · obtain ⟨cause, failed, same⟩ := mapError_error.1 failed
    cases same
    exact .configuration (mapError_ok.1 found) failed
  rcases bind_error.1 failed with failed | ⟨s, settled, failed⟩
  · obtain ⟨cause, failed, same⟩ := mapError_error.1 failed
    cases same
    exact .settings (mapError_ok.1 found) (mapError_ok.1 loaded) (o.merge_merges config) failed
  cases failed

theorem runWith_prepared (prepared : Prepares env o t root config request s) : runWith env o t =
    if o.dryRun then
      match s.plan t with
      | .error error => (t, .failed (.planning s.source) error)
      | .ok files => (t, .planned files)
    else
      match s.run t with
      | (changed, .error error) => (changed, .failed (.bundling s.source) error)
      | (changed, .ok receipt) => (changed, .bundled root receipt o.quiet) := by
  rewrite [runWith, prepare_ok_iff.2 ⟨config, request, prepared⟩]
  rfl

theorem runWith_unprepared (failed : prepare env o t = .error (stage, e)) : runWith env o t = (t, .failed stage e) := by
  rw [runWith, failed]

theorem runWith_stopped (stops : Stops env o t left stage e) : runWith env o t = (left, .failed stage e) := by
  cases stops with
  | root failed => exact runWith_unprepared (bind_error.2 (.inl (mapError_error.2 ⟨e, failed, rfl⟩)))
  | configuration found failed =>
      exact runWith_unprepared (bind_error.2 (.inr ⟨_, mapError_ok.2 found,
        bind_error.2 (.inl (mapError_error.2 ⟨e, failed, rfl⟩))⟩))
  | settings found loaded merged failed =>
      rw [← Options.merges_iff.1 merged] at failed
      exact runWith_unprepared (bind_error.2 (.inr ⟨_, mapError_ok.2 found, bind_error.2 (.inr ⟨_,
        mapError_ok.2 loaded, bind_error.2 (.inl (mapError_error.2 ⟨e, failed, rfl⟩))⟩)⟩))
  | planning prepared dry failed => rw [runWith_prepared prepared, if_pos dry, failed]
  | bundling prepared wet failed => rw [runWith_prepared prepared, if_neg (by simp [wet]), failed]

theorem runWith_completed (completes : Completes env o t left outcome) : runWith env o t = (left, outcome) := by
  cases completes with
  | planned prepared dry planned => rw [runWith_prepared prepared, if_pos dry, planned]
  | bundled prepared wet ran => rw [runWith_prepared prepared, if_neg (by simp [wet]), ran]

theorem stops_or_completes (env : Environment) (o : Options) (t : FileTree) :
    (∃ left stage e, Stops env o t left stage e) ∨ ∃ left outcome, Completes env o t left outcome := by
  cases prepared : prepare env o t with
  | error failure => exact .inl ⟨t, failure.1, failure.2, prepare_error prepared⟩
  | ok found =>
      obtain ⟨root, s⟩ := found
      obtain ⟨config, request, prepared⟩ := prepare_ok_iff.1 prepared
      cases dry : o.dryRun with
      | true =>
          cases planned : s.plan t with
          | error e => exact .inl ⟨t, _, e, .planning prepared dry planned⟩
          | ok files => exact .inr ⟨t, _, .planned prepared dry planned⟩
      | false =>
          rcases ran : s.run t with ⟨changed, e | receipt⟩
          · exact .inl ⟨changed, _, e, .bundling prepared dry ran⟩
          · exact .inr ⟨changed, _, .bundled prepared dry ran⟩

theorem Completes.exitCode_eq (completes : Completes env o t left outcome) : outcome.exitCode = 0 := by
  cases completes <;> rfl

theorem Stops.raises (stops : Stops env o t left stage e) : Raises stage e := by
  cases stops with
  | root failed =>
      obtain ⟨path, fault, rfl⟩ := env.root_error failed
      exact .root path fault
  | configuration found failed =>
      rcases Config.load_error failed with kind | ⟨path, rfl⟩
      · exact .configuration kind
      · exact .unread path
  | settings found loaded merged failed => exact .settings (Settings.ofConfig_error failed)
  | planning prepared dry failed => exact .planning _ (Settings.plan_error failed)
  | bundling prepared wet failed =>
      rcases Settings.run_error failed with ⟨failed, -⟩ | ⟨-, -, fault, rfl | rfl⟩
      · exact .reading _ (Settings.plan_error failed)
      · exact .writing _ (.directory _ _)
      · exact .writing _ (.file _ _)

theorem Stops.unchanged (stops : Stops env o t left stage e) : left = t ∨
    e.OfWriting ∧ ∃ root config request s, Prepares env o t root config request s ∧ stage = .bundling s.source ∧
      t.MakesDirectories (Buffer.stagingDirectory s.output) left := by
  cases stops with
  | root failed => exact .inl rfl
  | configuration found failed => exact .inl rfl
  | settings found loaded merged failed => exact .inl rfl
  | planning prepared dry failed => exact .inl rfl
  | bundling prepared wet failed =>
      rcases Settings.run_error failed with ⟨-, rfl⟩ | ⟨-, makes, fault, kind⟩
      · exact .inl rfl
      · refine .inr ⟨?_, _, _, _, _, prepared, rfl, makes⟩
        rcases kind with rfl | rfl
        · exact .directory _ _
        · exact .file _ _

theorem failed_iff : runWith env o t = (left, .failed stage e) ↔ Stops env o t left stage e := by
  constructor
  · intro failed
    rcases stops_or_completes env o t with ⟨left', stage', e', stops⟩ | ⟨left', outcome, completes⟩
    · have same := (runWith_stopped stops).symm.trans failed
      cases same
      exact stops
    · have same := (runWith_completed completes).symm.trans failed
      cases same
      cases completes
  · exact runWith_stopped

theorem completed_iff : runWith env o t = (left, outcome) ∧ outcome.exitCode = 0 ↔ Completes env o t left outcome := by
  constructor
  · rintro ⟨ended, code⟩
    rcases stops_or_completes env o t with ⟨left', stage, e, stops⟩ | ⟨left', outcome', completes⟩
    · have same := (runWith_stopped stops).symm.trans ended
      cases same
      exact absurd code e.exitCode_ne_zero
    · have same := (runWith_completed completes).symm.trans ended
      cases same
      exact completes
  · exact fun completes => ⟨runWith_completed completes, completes.exitCode_eq⟩

theorem exitCode_iff {n : Nat} (positive : n ≠ 0) {Kind : Error → Prop} (kind : ∀ e, e.exitCode = n ↔ Kind e) :
    (runWith env o t).2.exitCode = n ↔ ∃ left stage e, Stops env o t left stage e ∧ Kind e := by
  constructor
  · intro code
    rcases stops_or_completes env o t with ⟨left, stage, e, stops⟩ | ⟨left, outcome, completes⟩
    · rw [runWith_stopped stops] at code
      exact ⟨left, stage, e, stops, (kind e).1 code⟩
    · rw [runWith_completed completes] at code
      exact absurd (code.symm.trans completes.exitCode_eq) positive
  · rintro ⟨left, stage, e, stops, here⟩
    rw [runWith_stopped stops]
    exact (kind e).2 here

end SourceBundle.Command
