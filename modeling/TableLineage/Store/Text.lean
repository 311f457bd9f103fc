import TableLineage.Format.JsonReader
import TableLineage.Store.Tables

/-! The text of a store, as it stands in a file: a line that says what it is, and one
with the rows of all tables. -/
namespace TableLineage.Store.Tables

def heading : String := "table lineage store 1\n"

/-! ### Writing -/

def nameValue : Option String → JsonValue
  | some s => .str s
  | none => .null

def numberValue : Option Int → JsonValue
  | some n => .int n
  | none => .null

def value (t : Tables) : JsonValue :=
  .obj [
    ("runs", .arr (t.runs.map fun r => .arr [.str r.id, .str r.sourceName, .int r.createdAt.nanos])),
    ("records", .arr (t.records.map fun r =>
      .arr [.int r.key, .str r.runId, .int r.number, nameValue r.sourceName, numberValue r.startLine,
        numberValue r.startColumn, numberValue r.stopLine, numberValue r.stopColumn])),
    ("sinks", .arr (t.sinks.map fun r => .arr [.int r.record, .str r.sink])),
    ("sources", .arr (t.sources.map fun r => .arr [.int r.record, .str r.source])),
    ("edges", .arr (t.edges.map fun r => .arr [.int r.record, .str r.sink, .str r.source])),
    ("lastKey", .int t.lastKey)]

def text (t : Tables) : String := heading ++ t.value.line

/-! ### Reading -/

def int? : JsonValue → Option Int
  | .num literal => literal.toInt?
  | _ => none

def nat? (v : JsonValue) : Option Nat := (int? v).map Int.toNat

def runRow? : JsonValue → Option RunRow
  | .arr [.str id, .str source, created] => (int? created).map fun n => ⟨id, source, ⟨n⟩⟩
  | _ => none

def name? : JsonValue → Option (Option String)
  | .null => some none
  | .str s => some (some s)
  | _ => none

def number? : JsonValue → Option (Option Int)
  | .null => some none
  | v => (int? v).map some

def recordRow? : JsonValue → Option RecordRow
  | .arr [key, .str runId, number, name, startLine, startColumn, stopLine, stopColumn] => do
    return ⟨← nat? key, runId, ← nat? number, ← name? name, ← number? startLine, ← number? startColumn,
      ← number? stopLine, ← number? stopColumn⟩
  | _ => none

def sinkRow? : JsonValue → Option SinkRow
  | .arr [key, .str sink] => (nat? key).map fun k => ⟨k, sink⟩
  | _ => none

def sourceRow? : JsonValue → Option SourceRow
  | .arr [key, .str source] => (nat? key).map fun k => ⟨k, source⟩
  | _ => none

def edgeRow? : JsonValue → Option EdgeRow
  | .arr [key, .str sink, .str source] => (nat? key).map fun k => ⟨k, sink, source⟩
  | _ => none

def rows? {α : Type} (row? : JsonValue → Option α) : JsonValue → Option (List α)
  | .arr items => items.mapM row?
  | _ => none

def ofValue? : JsonValue → Option Tables
  | .obj [("runs", runs), ("records", records), ("sinks", sinks), ("sources", sources), ("edges", edges),
      ("lastKey", lastKey)] => do
    return ⟨← rows? runRow? runs, ← rows? recordRow? records, ← rows? sinkRow? sinks, ← rows? sourceRow? sources,
      ← rows? edgeRow? edges, ← nat? lastKey⟩
  | _ => none

def ofText? (s : String) : Option Tables :=
  if s.startsWith heading then
    match JsonValue.first (String.ofList (s.toList.drop heading.length)) with
    | .ok v => ofValue? v
    | .error _ => none
  else none

end TableLineage.Store.Tables
