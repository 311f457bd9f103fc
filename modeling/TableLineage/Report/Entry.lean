import TableLineage.Lineage.Record

/-! What a report holds: an entry for each record, with its tables listed. -/
namespace TableLineage

namespace Report

structure Sink where
  target : String
  sources : List String
  deriving DecidableEq, Repr

structure Entry where
  sinks : List Sink
  sources : List String
  context : Option Context
  deriving DecidableEq, Repr

namespace Entry

def sourceName? (e : Entry) : Option String := e.context.bind (·.sourceName)

def range? (e : Entry) : Option TextRange := e.context.bind (·.range)

def ofRecord (r : Record) : Entry :=
  ⟨r.sinks.entries.map fun (target, sources) => ⟨target, sources.toList⟩, r.sources.toList, r.context⟩

end Entry
end Report

structure Report where
  entries : List Report.Entry
  deriving DecidableEq, Repr

def Report.ofRecords (records : List Record) : Report := ⟨records.map Entry.ofRecord⟩

end TableLineage
