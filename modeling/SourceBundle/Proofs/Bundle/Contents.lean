import SourceBundle.Report.Summary
import SourceBundle.Proofs.Collect.Request

/-!
What a bundle holds. The loop that fills the buffer and the list that a dry run shows come to the same files, the same
bytes and the same error.
-/

namespace SourceBundle

def bundleText (files : List RewrittenFile) : String := String.join (files.map fun f => "\n" ++ f.content)

variable {files : List RewrittenFile} {f : RewrittenFile}

@[simp] theorem bundleText_nil : bundleText [] = "" := rfl

theorem bundleText_cons (f : RewrittenFile) (files : List RewrittenFile) :
    bundleText (f :: files) = "\n" ++ f.content ++ bundleText files := by
  rw [bundleText, List.map_cons, String.join_cons, ← bundleText]

namespace Report

theorem totalOutput_cons (f : RewrittenFile) (files : List RewrittenFile) :
    totalOutput (f :: files) = outputSize f + totalOutput files := by
  have shift : ∀ (files : List RewrittenFile) (n : Nat),
      files.foldl (fun n f => n + outputSize f) n = n + totalOutput files := by
    intro files
    induction files with
    | nil => intro n; rfl
    | cons f files ih =>
        intro n
        rw [totalOutput, List.foldl_cons, List.foldl_cons, ih, ih]
        omega
  rw [totalOutput, List.foldl_cons, shift]
  omega

theorem size_bundleText (files : List RewrittenFile) : (bundleText files).utf8ByteSize = totalOutput files := by
  induction files with
  | nil => rfl
  | cons f files ih =>
      have separator : "\n".utf8ByteSize = 1 := by decide
      rw [bundleText_cons, String.utf8ByteSize_append, String.utf8ByteSize_append, ih, totalOutput_cons, outputSize,
        separator]
      omega

end Report

namespace Buffer

def holding (files : List RewrittenFile) : Buffer := ⟨(bundleText files).toUTF8, files.length⟩

theorem append_bytes (b : Buffer) (content : String) :
    (b.append content).bytes = b.bytes ++ ("\n" ++ content).toUTF8 := by
  have pushed : b.bytes.push separator = b.bytes ++ "\n".toUTF8 := by
    apply ByteArray.ext
    rw [ByteArray.data_push, ByteArray.data_append]
    have newline : "\n".toUTF8.data = #[separator] := by decide
    rw [newline, Array.push_eq_append]
  rw [append, pushed]
  simp only [String.toUTF8, String.toByteArray_append, ByteArray.append_assoc]

end Buffer

namespace Settings

variable {s : Settings} {t : FileTree}

theorem file_of_rewritten {source : SourceFile} (made : s.rewritten t source = .ok f) : f.file = source := by
  obtain ⟨text, -, made⟩ := bind_ok.1 made
  cases made
  rfl

theorem files_of_mapM {sources : List SourceFile} (made : sources.mapM (s.rewritten t) = .ok files) :
    files.map (·.file) = sources := by
  induction sources generalizing files with
  | nil =>
      cases made
      rfl
  | cons source sources ih =>
      rw [List.mapM_cons] at made
      obtain ⟨first, here, made⟩ := bind_ok.1 made
      obtain ⟨later, there, made⟩ := bind_ok.1 made
      cases made
      rw [List.map_cons, file_of_rewritten here, ih there]

/-- Filling the buffer stops where listing the rewritten files stops, and else adds the text of them all. -/
theorem fill_eq (sources : List SourceFile) (b : Buffer) :
    s.fill t sources b = (sources.mapM (s.rewritten t)).map fun files =>
      ⟨b.bytes ++ (bundleText files).toUTF8, b.files + files.length⟩ := by
  induction sources generalizing b with
  | nil =>
      rw [fill, List.mapM_nil]
      simp [pure, Except.pure, Except.map]
  | cons source sources ih =>
      rw [fill, List.mapM_cons]
      cases here : s.rewritten t source with
      | error e => rfl
      | ok first =>
          simp only [ih, bind, Except.bind]
          cases there : sources.mapM (s.rewritten t) with
          | error e => rfl
          | ok later =>
              have bytes : (b.append first.content).bytes ++ (bundleText later).toUTF8 =
                  b.bytes ++ (bundleText (first :: later)).toUTF8 := by
                rw [Buffer.append_bytes, bundleText_cons]
                simp only [String.toUTF8, String.toByteArray_append, ByteArray.append_assoc]
              have count : (b.append first.content).files + later.length = b.files + (first :: later).length := by
                change b.files + 1 + later.length = b.files + (later.length + 1)
                omega
              simp only [Except.map, pure, Except.pure, bytes, count]

theorem runBy_eq (s : Settings) (write : Buffer → FileTree → Path → FileTree × Except Error Nat) (t : FileTree) :
    s.runBy write t = match s.plan t with
      | .error e => (t, .error e)
      | .ok files =>
          match write (.holding files) t s.output with
          | (changed, .error e) => (changed, .error e)
          | (changed, .ok size) => (changed, .ok ⟨s.output, files.map (·.file), size⟩) := by
  rw [runBy, plan]
  cases collected : s.collect t with
  | error e => rfl
  | ok sources =>
      simp only [fill_eq, bind, Except.bind]
      cases made : sources.mapM (s.rewritten t) with
      | error e => rfl
      | ok files =>
          have filled : Buffer.mk (Buffer.bytes {} ++ (bundleText files).toUTF8) (Buffer.files {} + files.length) =
              .holding files := by
            simp [Buffer.holding]
          rcases written : write (.holding files) t s.output with ⟨changed, e | size⟩
          · simp only [Except.map, filled, written]
          · simp only [Except.map, filled, written, files_of_mapM made]

theorem run_eq (s : Settings) (t : FileTree) :
    s.run t = match s.plan t with
      | .error e => (t, .error e)
      | .ok files =>
          match (Buffer.holding files).write t s.output with
          | (changed, .error e) => (changed, .error e)
          | (changed, .ok size) => (changed, .ok ⟨s.output, files.map (·.file), size⟩) :=
  s.runBy_eq Buffer.write t

end Settings

end SourceBundle
