import JavaThrows.Text.Split
import JavaThrows.Unicode.CharClass
import JavaThrows.Unicode.ColumnWidth

set_option autoImplicit false

/-!
# Tables in box characters

A table has a header and rows of cells. Each column is as wide as its widest line, and a cell can
have several lines.
-/

namespace JavaThrows

/-- How many columns a character takes on a display of fixed width. -/
def Unicode.columnWidth (c : Char) : Nat :=
  if inRanges zeroWidthRanges c.toNat then 0 else if inRanges wideRanges c.toNat then 2 else 1

namespace Table

abbrev Cell := List (List Char)

def lineWidth : List Char → Nat
  | [] => 0
  | c :: cs => Unicode.columnWidth c + lineWidth cs

/-- The lines of a cell. -/
def cellOf (text : String) : Cell :=
  Text.splitOn '\n' text.toList

def cellWidth (cell : Cell) : Nat :=
  (cell.map lineWidth).foldl max 0

/-- The width of every column of a table, given its rows. -/
def widths : List (List Cell) → List Nat
  | [] => []
  | row :: rows =>
    let others := widths rows
    let own := row.map cellWidth
    if others.isEmpty then own else List.zipWith max own others

/-- A line between rows: its ends, the character over a column and the one between columns. -/
def rule (left fill cross right : Char) (columns : List Nat) : String :=
  String.ofList
    (left :: List.intercalate [cross] (columns.map fun w => List.replicate (w + 2) fill) ++ [right])

/-- A line of a cell, filled up to the width of its column. -/
def padded (width : Nat) (line : List Char) : List Char :=
  ' ' :: line ++ List.replicate (width - lineWidth line + 1) ' '

/-- The lines of a row. -/
def rowLines (columns : List Nat) (row : List Cell) : List String :=
  (List.range ((row.map List.length).foldl max 0)).map fun i =>
    let pieces := List.zipWith (fun width cell => padded width ((cell[i]?).getD [])) columns row
    String.ofList ('│' :: List.intercalate ['┆'] pieces ++ ['│'])

/-- The rows of a table with a line between each two. -/
def bodyLines (columns : List Nat) : List (List Cell) → List String
  | [] => []
  | [row] => rowLines columns row
  | row :: rows =>
    rowLines columns row ++ [rule '├' '╌' '┼' '┤' columns] ++ bodyLines columns rows

/-- A table; the last line has no line end. -/
def render (header : List String) (rows : List (List String)) : String :=
  let header := header.map cellOf
  let rows := rows.map fun row => row.map cellOf
  let columns := widths (header :: rows)
  let lines := [rule '┌' '─' '┬' '┐' columns] ++ rowLines columns header ++
    [rule '╞' '═' '╪' '╡' columns] ++ bodyLines columns rows ++
    [rule '└' '─' '┴' '┘' columns]
  String.intercalate "\n" lines

end Table
end JavaThrows
