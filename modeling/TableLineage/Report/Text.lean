import TableLineage.Format.Table
import TableLineage.Report.Entry

/-! Reports to be read: each entry with its sinks, what feeds them, and what is read. -/
namespace TableLineage.Report

/-- A text as it stands in a line: a tab is four blanks, and where a text has several
lines, all are made as long as the longest. -/
def laidOut (s : String) : String :=
  let spread := s.toList.flatMap fun c => if c = '\t' then [' ', ' ', ' ', ' '] else [c]
  let lines := Table.linesOf (Table.joinReturns spread)
  let longest := (lines.map Text.width).foldl max 0
  "\n".intercalate (lines.map fun l => String.ofList (Table.padded false longest l))

def rangeText (r : TextRange) : String := s!"{r.start.line}:{r.start.column}-{r.stop.line}:{r.stop.column}"

def placeText (e : Entry) : String :=
  let parts := e.sourceName?.toList ++ (e.range?.map rangeText).toList
  if parts.isEmpty then "" else "  (" ++ " ".intercalate parts ++ ")"

def namesText (names : List String) : String :=
  if names.isEmpty then "-" else ", ".intercalate (names.map laidOut)

/-- The line of a sink; `longest` is the size of the longest sink. -/
def sinkLine (longest : Nat) (s : Sink) : String :=
  "  " ++ laidOut s.target ++ String.ofList (Table.blanks (longest - s.target.utf8ByteSize)) ++ " <- " ++
    namesText s.sources ++ "\n"

def entryText (e : Entry) (number : Nat) : String :=
  let longest := (e.sinks.map (·.target.utf8ByteSize)).foldl max 0
  let sinks := if e.sinks.isEmpty then "  (no tables written)\n" else String.join (e.sinks.map (sinkLine longest))
  s!"Statement {number}" ++ placeText e ++ "\n" ++ sinks ++ "  reads: " ++ namesText e.sources ++ "\n"

def text (r : Report) : String := "\n".intercalate ((r.entries.zipIdx 1).map fun (e, k) => entryText e k)

end TableLineage.Report
