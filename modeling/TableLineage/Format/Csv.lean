/-! A record of values with commas between them. A value in double quotes may hold commas,
line ends and, written twice, quotes. -/
namespace TableLineage

inductive CsvFault where
  | nothing
  | bareQuote (start line column : Nat)
  | openQuote (start line column : Nat)
  deriving DecidableEq, Repr

namespace CsvFault

def place (start line column : Nat) : String :=
  (if start = line then "" else "record on line " ++ toString start ++ "; ") ++
    "parse error on line " ++ toString line ++ ", column " ++ toString column ++ ": "

def message : CsvFault → String
  | .nothing => "EOF"
  | .bareQuote start line column => place start line column ++ "bare \x22 in non-quoted-field"
  | .openQuote start line column => place start line column ++ "extraneous or missing \x22 in quoted-field"

end CsvFault

namespace Csv

def byteSize (cs : List Char) : Nat := cs.foldr (fun c n => c.utf8Size + n) 0

/-- The lines of a text, each with its end, which is always one character. -/
def linesFrom (line : List Char) : List Char → List (List Char)
  | [] => if line.isEmpty then [] else [if line.getLast? = some '\r' then line.dropLast else line]
  | '\r' :: '\n' :: r => (line ++ ['\n']) :: linesFrom [] r
  | '\n' :: r => (line ++ ['\n']) :: linesFrom [] r
  | c :: r => linesFrom (line ++ [c]) r

/-- Where reading stands: the line the record began on, the line and the column reached,
and the lines that follow. -/
structure Place where
  start : Nat
  line : Nat
  column : Nat
  more : List (List Char)

def isLineEnd (cs : List Char) : Bool := cs.isEmpty || cs = ['\n']

mutual

def valuesFrom (fuel : Nat) (p : Place) (line : List Char) : Except CsvFault (List String) :=
  match fuel with
  | 0 => .ok []
  | fuel + 1 =>
    if line.head? = some '\x22' then quotedFrom fuel { p with column := p.column + 1 } [] (line.drop 1)
    else
      let value := line.takeWhile (· ≠ ',')
      let rest := line.drop value.length
      let value := if rest.isEmpty && value.getLast? = some '\n' then value.dropLast else value
      if value.contains '\x22' then
        .error (.bareQuote p.start p.line (p.column + byteSize (value.takeWhile (· ≠ '\x22'))))
      else if rest.isEmpty then .ok [String.ofList value]
      else
        (valuesFrom fuel { p with column := p.column + byteSize value + 1 } (rest.drop 1)).map (String.ofList value :: ·)

/-- The rest of a quoted value, of which `done` has been read, and the values after it. It may
go on in the next line, unless there is nothing in that. -/
def quotedFrom (fuel : Nat) (p : Place) (done line : List Char) : Except CsvFault (List String) :=
  match fuel with
  | 0 => .ok []
  | fuel + 1 =>
    let before := line.takeWhile (· ≠ '\x22')
    let rest := line.drop before.length
    if rest.isEmpty then
      match p.more with
      | (c :: next) :: more =>
        quotedFrom fuel { p with line := p.line + 1, column := 1, more := more } (done ++ line) (c :: next)
      | _ => .error (.openQuote p.start p.line (p.column + byteSize line))
    else
      let done := done ++ before
      let column := p.column + byteSize before + 1
      match rest.drop 1 with
      | '\x22' :: r => quotedFrom fuel { p with column := column + 1 } (done ++ ['\x22']) r
      | ',' :: r => (valuesFrom fuel { p with column := column + 1 } r).map (String.ofList done :: ·)
      | r => if isLineEnd r then .ok [String.ofList done] else .error (.openQuote p.start p.line (column - 1))

end

def record (text : String) : Except CsvFault (List String) :=
  let lines := linesFrom [] text.toList
  let empty := (lines.takeWhile isLineEnd).length
  match lines.drop empty with
  | [] => .error .nothing
  | line :: more => valuesFrom (2 * text.length + 2) ⟨empty + 1, empty + 1, 1, more⟩ line

end Csv
end TableLineage
