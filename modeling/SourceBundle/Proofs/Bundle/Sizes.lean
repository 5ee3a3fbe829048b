import SourceBundle.Proofs.ByteSizes
import SourceBundle.Proofs.Bundle.Runs
import SourceBundle.Proofs.Production.Passes

/-!
No pass makes a text longer, so a bundle has no more bytes than its sources have, but for the newline in front of each.
-/

namespace SourceBundle

open Text

theorem Text.byteSize_oneLine {separator : Char} {s : List Char} (small : separator.utf8Size = 1) (broken : '\n' ∈ s) :
    byteSize (RuleSet.oneLine separator s) ≤ byteSize s := by
  have paid := sum_oneLine Char.utf8Size separator broken
  have newline : '\n'.utf8Size = 1 := by decide
  rw [small, newline] at paid
  exact Nat.le_of_add_le_add_left (Nat.add_comm _ 1 ▸ paid)

theorem Text.byteSize_decoded {content : ByteArray} {text : String} (valid : String.fromUTF8? content = some text) :
    byteSize text.toList = content.size := by
  rw [String.fromUTF8?] at valid
  split at valid
  · cases valid
    rw [← utf8ByteSize_ofList, String.ofList_toList]
    rfl
  · cases valid

namespace RuleSet

def passes (r : RuleSet) : List (List Char → List Char) :=
  r.join :: (r.rules.map Rule.apply ++ r.emptyComment.rewrite :: r.newlineRun.toList.map Pattern.rewrite)

theorem rewrite_eq_passes (r : RuleSet) (s : List Char) :
    r.rewrite s = r.passes.foldl (fun s pass => pass s) s := by
  rw [passes, List.foldl_cons, List.foldl_append, List.foldl_map, rules, List.foldl_append, List.foldl_cons]
  rw [rewrite, cleanUp, applyAll, applyAll]
  cases r.newlineRun <;> rfl

/-- Every pattern of the rule set is thrifty, and the separator before a declaration is paid for with a newline in it. -/
structure Thrifty (r : RuleSet) : Prop where
  separator : r.separator.utf8Size = 1
  declaration : ∀ d ∈ r.declaration, d.Thrifty
  broken : ∀ d ∈ r.declaration, ∀ before u after v, d.Reads before u after v → '\n' ∈ v
  rules : ∀ rule ∈ r.rules, rule.pattern.Thrifty
  emptyComment : r.emptyComment.Thrifty
  newlineRun : ∀ run ∈ r.newlineRun, run.Thrifty

variable {r : RuleSet}

namespace Thrifty

theorem byteSize_join (thrifty : r.Thrifty) (s : List Char) : byteSize (r.join s) ≤ byteSize s := by
  rw [join]
  split
  · exact le_rfl
  · rename_i declaration present
    have pays := thrifty.declaration declaration present
    refine (joinDeclarations_joined r.separator (Pattern.advances_of_least pays.takes) s).relates
      (R := fun s out => byteSize out ≤ byteSize s) (fun _ => le_rfl) (fun first second => second.trans first)
      (fun w x y shorter => by simpa using shorter) fun before u after v reads => ?_
    have broken := thrifty.broken declaration present before u after v reads
    simpa using (byteSize_oneLine thrifty.separator broken).trans (pays.byteSize_le reads)

theorem byteSize_pass (thrifty : r.Thrifty) : ∀ pass ∈ r.passes, ∀ s, byteSize (pass s) ≤ byteSize s := by
  simp only [passes, List.forall_mem_cons, List.forall_mem_append, List.forall_mem_map]
  refine ⟨thrifty.byteSize_join, fun rule member => (thrifty.rules rule member).byteSize_rewrite,
    thrifty.emptyComment.byteSize_rewrite, fun run present => ?_⟩
  exact (thrifty.newlineRun run (Option.mem_toList.1 present)).byteSize_rewrite

theorem byteSize_rewrite (thrifty : r.Thrifty) (s : List Char) : byteSize (r.rewrite s) ≤ byteSize s := by
  rw [rewrite_eq_passes]
  have each := thrifty.byteSize_pass
  generalize r.passes = passes at each
  induction passes generalizing s with
  | nil => exact le_rfl
  | cons pass later ih =>
      rw [List.forall_mem_cons] at each
      exact (ih (pass s) each.2).trans (each.1 s)

end Thrifty

end RuleSet

namespace Swift

open Pattern

theorem rules_thrifty (profiles : Profiles) : ∀ rule ∈ (ruleSet profiles).rules, rule.pattern.Thrifty := by
  have every : ∀ rule ∈ embeddedRemovals ++ productionRemovals ++ productionReplacements, rule.pattern.Thrifty := by
    decide +kernel
  intro rule member
  refine every rule ?_
  rcases profiles with ⟨_ | _, _ | _⟩ <;> simp_all [RuleSet.rules, ruleSet]

theorem ruleSet_thrifty (profiles : Profiles) : (ruleSet profiles).Thrifty where
  separator := by
    change ';'.utf8Size = 1
    decide
  declaration d present := by
    obtain ⟨-, rfl⟩ : profiles.embedded = true ∧ caseDeclaration = d := by simpa [ruleSet] using present
    decide +kernel
  broken d present before u after v reads := by
    obtain ⟨-, rfl⟩ : profiles.embedded = true ∧ caseDeclaration = d := by simpa [ruleSet] using present
    obtain ⟨rfl, -, -, -, -, -, -, -, broken⟩ := reads_caseDeclaration reads
    exact broken
  rules := rules_thrifty profiles
  emptyComment := by
    change (drop emptyCommentLine).Thrifty
    decide +kernel
  newlineRun run present := by
    obtain ⟨-, rfl⟩ : profiles.production = true ∧ newlineRun = run := by simpa [ruleSet] using present
    decide +kernel

end Swift

namespace Settings

variable {s : Settings} {t : FileTree} {source : SourceFile} {sources : List SourceFile} {f : RewrittenFile}
  {files : List RewrittenFile}

theorem ruleSet_thrifty (s : Settings) : s.ruleSet.Thrifty := by
  rw [Settings.ruleSet]
  cases s.language with
  | swift => exact Swift.ruleSet_thrifty s.profiles

theorem outputSize_rewritten (made : s.rewritten t source = .ok f) :
    ∃ content, t.read source.path = .ok content ∧ Report.outputSize f ≤ content.size + 1 := by
  obtain ⟨text, decoded, made⟩ := bind_ok.1 made
  cases made
  rw [sourceText] at decoded
  split at decoded
  · cases decoded
  · rename_i content found
    split at decoded
    · cases decoded
    · rename_i text' valid
      cases decoded
      refine ⟨content, found, ?_⟩
      rw [Report.outputSize, utf8ByteSize_ofList, ← byteSize_decoded valid]
      exact Nat.succ_le_succ (s.ruleSet_thrifty.byteSize_rewrite text.toList)

theorem totalOutput_rewritten (made : sources.mapM (s.rewritten t) = .ok files) :
    ∃ contents : List ByteArray, sources.map (fun source => t.read source.path) = contents.map .ok ∧
      Report.totalOutput files ≤ (contents.map ByteArray.size).sum + sources.length := by
  induction sources generalizing files with
  | nil =>
      cases made
      exact ⟨[], rfl, le_rfl⟩
  | cons source sources ih =>
      rw [List.mapM_cons] at made
      obtain ⟨first, here, made⟩ := bind_ok.1 made
      obtain ⟨later, there, made⟩ := bind_ok.1 made
      cases made
      obtain ⟨content, found, small⟩ := outputSize_rewritten here
      obtain ⟨contents, others, bounded⟩ := ih there
      refine ⟨content :: contents, by rw [List.map_cons, List.map_cons, found, others], ?_⟩
      rw [Report.totalOutput_cons, List.map_cons, List.sum_cons, List.length_cons]
      omega

/-- No pass of any rule set makes a text longer, and rewriting is these passes in order. So a run that succeeds has
written no more bytes than the contents of its sources have together, and one for each source. -/
theorem bytesWritten_le :
    (∀ profiles, ∀ pass ∈ (Swift.ruleSet profiles).passes, ∀ text, byteSize (pass text) ≤ byteSize text) ∧
      (∀ profiles text, (Swift.ruleSet profiles).rewrite text =
          (Swift.ruleSet profiles).passes.foldl (fun text pass => pass text) text ∧
        byteSize ((Swift.ruleSet profiles).rewrite text) ≤ byteSize text) ∧
      ∀ (s : Settings) (t changed : FileTree) (receipt : Receipt), s.run t = (changed, .ok receipt) →
        ∃ contents : List ByteArray, receipt.files.map (fun source => t.read source.path) = contents.map .ok ∧
          receipt.bytesWritten ≤ (contents.map ByteArray.size).sum + receipt.files.length := by
  refine ⟨fun profiles => (Swift.ruleSet_thrifty profiles).byteSize_pass, fun profiles text =>
    ⟨RuleSet.rewrite_eq_passes _ text, (Swift.ruleSet_thrifty profiles).byteSize_rewrite text⟩, ?_⟩
  intro s t changed receipt ran
  obtain ⟨files, planned, rfl, -⟩ := run_ok_iff.1 ran
  obtain ⟨sources, -, made⟩ := bind_ok.1 planned
  rw [files_of_mapM made]
  exact totalOutput_rewritten made

def annotated : FileTree where
  entries := ⟨.entry "src" (.directory (.entry "a.swift" (.file "let a = 1\n//\n".toUTF8 0o644) .empty)) .empty,
    by decide⟩

theorem bytesWritten_le_annotated : ∃ contents : List ByteArray,
    ((bundledInto "out").run annotated).2 = .ok ⟨⟨"out"⟩, [⟨⟨"src/a.swift"⟩, ["a.swift"]⟩], 11⟩ ∧
      [annotated.read ⟨"src/a.swift"⟩] = contents.map .ok ∧ 11 ≤ (contents.map ByteArray.size).sum + 1 := by
  have outcome : ((bundledInto "out").run annotated).2 =
      .ok ⟨⟨"out"⟩, [⟨⟨"src/a.swift"⟩, ["a.swift"]⟩], 11⟩ := by decide +kernel
  obtain ⟨contents, found, bounded⟩ := bytesWritten_le.2.2 (bundledInto "out") annotated _ _ (Prod.ext rfl outcome)
  exact ⟨contents, outcome, found, bounded⟩

end Settings

end SourceBundle
