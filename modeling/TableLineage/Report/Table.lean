import TableLineage.Format.Table
import TableLineage.Report.Entry

/-! Reports as a table: a row for each sink, and for an entry without sinks a row with
what it reads. -/
namespace TableLineage.Report

def listed (names : List String) : String := ", ".intercalate names

def entryRows (e : Entry) (number : Nat) : List (List String) :=
  if e.sinks.isEmpty then [[toString number, "", listed e.sources]]
  else e.sinks.map fun s => [toString number, s.target, listed s.sources]

def table (r : Report) : String :=
  Table.render ⟨["#", "Target", "Sources"], (r.entries.zipIdx 1).flatMap fun (e, k) => entryRows e k,
    [true, false, false]⟩

end TableLineage.Report
