import SourceBundle.Text.Lines
import SourceBundle.Text.LineWidth

/-!
Tables with a frame. Every column is as wide as its widest line, and a cell may have several lines.
-/

namespace SourceBundle.Report

inductive Alignment where
  | left
  | right
  deriving DecidableEq, Repr

structure Cell where
  text : String
  alignment : Alignment := .left
  deriving DecidableEq, Repr

abbrev Row := List Cell

namespace Cell

def lines (c : Cell) : List String := Text.cutString '\n' c.text

def width (c : Cell) : Nat := (c.lines.map Text.width).foldl max 0

end Cell

def fill (columns : Nat) (alignment : Alignment) (line : String) : String :=
  let gap := "".pushn ' ' (columns - Text.width line)
  match alignment with
  | .left => " " ++ line ++ gap ++ " "
  | .right => " " ++ gap ++ line ++ " "

def columnWidths (rows : List Row) (columns : Nat) : List Nat :=
  (List.range columns).map fun i =>
    (rows.map fun row => (row[i]?.map Cell.width).getD 0).foldl max 0

def rule (left line cross right : String) (widths : List Nat) : String :=
  left ++ cross.intercalate (widths.map fun w => String.join (List.replicate (w + 2) line)) ++ right

def rowLines (widths : List Nat) (row : Row) : List String :=
  let height := (row.map fun c => c.lines.length).foldl max 0
  (List.range height).map fun i =>
    "│" ++ "┆".intercalate ((row.zip widths).map fun (c, w) =>
      fill w c.alignment (c.lines[i]?.getD "")) ++ "│"

def table (heading : Row) (rows : List Row) : String :=
  let widths := columnWidths (heading :: rows) heading.length
  let body := (rows.map (rowLines widths)).intersperse [rule "├" "╌" "┼" "┤" widths]
  "\n".intercalate <|
    rule "┌" "─" "┬" "┐" widths :: rowLines widths heading ++
      rule "╞" "═" "╪" "╡" widths :: body.flatten ++ [rule "└" "─" "┴" "┘" widths]

end SourceBundle.Report
