import SourceBundle.Bundle
import SourceBundle.Report.Size
import SourceBundle.Report.Table

/-!
What a run and a dry run tell about their outcome.
-/

namespace SourceBundle.Report

def summary (root : Path) (r : Receipt) : String :=
  s!"✅ Consolidated {r.files.length} file(s) into {(r.output.relativeTo root).text} " ++
    s!"({size r.bytesWritten})\n" ++
    if r.files.isEmpty then "(No files matched; the output is empty)\n" else ""

/-- The size that a file takes in the bundle, the separator before it included. -/
def outputSize (f : RewrittenFile) : Nat := f.content.utf8ByteSize + 1

def totalSource (files : List RewrittenFile) : Nat := files.foldl (fun n f => n + f.sourceSize) 0

def totalOutput (files : List RewrittenFile) : Nat := files.foldl (fun n f => n + outputSize f) 0

def planHeading : Row := [{ text := "Path" }, { text := "Source" }, { text := "Rewritten" }]

def planRow (f : RewrittenFile) : Row :=
  [{ text := f.file.relative.text }, { text := size f.sourceSize, alignment := .right },
    { text := size (outputSize f), alignment := .right }]

/-- A total under the table: what it is, in a column of its own, and its value. -/
def total (label value : String) : String :=
  label ++ "".pushn ' ' (21 - label.length) ++ value ++ "\n"

def plan (files : List RewrittenFile) : String :=
  "\n Planned Consolidation \n" ++
    if files.isEmpty then "\n(No files matched)\n\n"
    else
      table planHeading (files.map planRow) ++ "\n" ++
        total "Total Files:" (toString files.length) ++
        total "Source Size:" (size (totalSource files)) ++
        total "Output Size:" (size (totalOutput files)) ++ "\n"

end SourceBundle.Report
