import TableLineage.Text.Case
import TableLineage.Text.Width

/-! Tables drawn with box lines. Columns are as wide as their widest line, a row is
as high as its highest cell, and headings are in upper case. -/
namespace TableLineage

structure Table where
  headings : List String
  rows : List (List String)
  numeric : List Bool
  deriving Repr

namespace Table

/-- Writes over a line: a return goes back to its start, and what follows replaces what
stands there. -/
def overwrite (done : List Char) (at' : Nat) : List Char → List Char
  | [] => done
  | '\r' :: r => overwrite done 0 r
  | c :: r => overwrite (done.take at' ++ c :: done.drop (at' + 1)) (at' + 1) r

def joinReturns : List Char → List Char
  | '\r' :: '\n' :: r => '\n' :: joinReturns r
  | c :: r => c :: joinReturns r
  | [] => []

def linesOf : List Char → List (List Char)
  | [] => [[]]
  | c :: r =>
    if c = '\n' then [] :: linesOf r
    else
      match linesOf r with
      | l :: ls => (c :: l) :: ls
      | [] => [[c]]

def cellLines (s : String) : List (List Char) :=
  let spread := s.toList.flatMap fun c => if c = '\t' then [' ', ' ', ' ', ' '] else [c]
  (linesOf (joinReturns spread)).map fun l => if l.contains '\r' then overwrite [] 0 l else l

def cellWidth (lines : List (List Char)) : Nat := Text.longestLine (List.intercalate ['\n'] lines)

def widths (cells : List (List (List (List Char)))) (columns : Nat) : List Nat :=
  (List.range columns).map fun i => (cells.map fun row => ((row[i]?).map cellWidth).getD 0).foldl max 0

def blanks (n : Nat) : List Char := List.replicate n ' '

def padded (right : Bool) (width : Nat) (line : List Char) : List Char :=
  let gap := blanks (width - Text.width line)
  if right then gap ++ line else line ++ gap

def rule (left mid right : Char) (widths : List Nat) : List Char :=
  left :: (List.intercalate [mid] (widths.map fun w => List.replicate (w + 2) '─')) ++ [right, '\n']

/-- One line of a row: the `k`-th line of each cell. -/
def rowLine (numeric : List Bool) (widths : List Nat) (row : List (List (List Char))) (k : Nat) : List Char :=
  let cell (i w : Nat) : List Char :=
    let line := ((row[i]?).bind fun ls => ls[k]?).getD []
    ' ' :: padded ((numeric[i]?).getD false) w line ++ [' ']
  '│' :: (List.intercalate ['│'] (widths.zipIdx.map fun (w, i) => cell i w)) ++ ['│', '\n']

def rowLines (numeric : List Bool) (widths : List Nat) (row : List (List (List Char))) : List Char :=
  let height := (row.map List.length).foldl max 1
  (List.range height).flatMap (rowLine numeric widths row)

def render (t : Table) : String :=
  let heading := t.headings.map fun h => cellLines (Text.upperWord h)
  let body := t.rows.map fun row => row.map cellLines
  let ws := widths (heading :: body) t.headings.length
  String.ofList (rule '┌' '┬' '┐' ws ++ rowLines t.numeric ws heading ++ rule '├' '┼' '┤' ws ++
    body.flatMap (rowLines t.numeric ws) ++ rule '└' '┴' '┘' ws)

end Table
end TableLineage
