import TableLineage.Format.YamlValue
import TableLineage.Report.Entry

/-! Reports in YAML: for each entry the sinks with the tables that feed them, all
tables that are read, and where the entry comes from. -/
namespace TableLineage.Report

def tableMap (name : String) : YamlValue := .map [("name", .str name)]

def tableList (names : List String) : YamlValue := .list (names.map tableMap)

def sinkMap (s : Sink) : YamlValue := .map [("target", tableMap s.target), ("sources", tableList s.sources)]

def pointMap (p : TextPoint) : YamlValue := .map [("line", .int p.line), ("positionInLine", .int p.column)]

def rangeMap (r : TextRange) : YamlValue := .map [("start", pointMap r.start), ("stop", pointMap r.stop)]

def orNull {α : Type} (f : α → YamlValue) (x : Option α) : YamlValue := (x.map f).getD .null

def contextMap (c : Context) : YamlValue :=
  .map [("sourceName", orNull .str c.sourceName), ("positionInSource", orNull rangeMap c.range)]

def entryMap (e : Entry) : YamlValue :=
  .map [("lineage", .list (e.sinks.map sinkMap)), ("sources", tableList e.sources),
    ("context", orNull contextMap e.context)]

def yaml (r : Report) : String := YamlValue.document [("statements", .list (r.entries.map entryMap))]

end TableLineage.Report
