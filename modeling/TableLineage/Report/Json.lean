import TableLineage.Format.JsonValue
import TableLineage.Report.Entry

/-! Reports in JSON: for each entry the tables that are written, the tables that feed
them, and where the entry comes from. -/
namespace TableLineage.Report

def tableObject (name : String) : JsonValue := .obj [("name", .str name)]

def pointObject (p : TextPoint) : JsonValue :=
  .obj [("line", .int p.line), ("positionInLine", .int p.column)]

def rangeValue : Option TextRange → JsonValue
  | none => .null
  | some r => .obj [("start", pointObject r.start), ("stop", pointObject r.stop)]

def Entry.inputs (e : Entry) : Names := .ofList (e.sinks.flatMap (·.sources))

def Entry.toJson (e : Entry) : JsonValue :=
  .obj [("outputs", .arr (e.sinks.map fun s => tableObject s.target)),
    ("inputs", .arr (e.inputs.toList.map tableObject)), ("sourcePosition", rangeValue e.range?)]

def toJson (r : Report) : JsonValue := .obj [("lineage", .arr (r.entries.map Entry.toJson))]

def json (r : Report) : String := r.toJson.document

end TableLineage.Report
