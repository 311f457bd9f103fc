import TableLineage.Instant
import TableLineage.Lineage.Record

/-! Saved runs as tables of rows: runs, their records, and for each record its sinks, its
sources and the pairs of a sink and a table that feeds it. Rows keep the order in which
they were put in. -/
namespace TableLineage

structure Run where
  id : String
  sourceName : String
  createdAt : Instant
  records : Nat
  deriving DecidableEq, Repr

structure SavedEdge where
  runId : String
  sink : String
  source : String
  deriving DecidableEq, Repr

namespace Store

structure RunRow where
  id : String
  sourceName : String
  createdAt : Instant
  deriving DecidableEq, Repr

structure RecordRow where
  key : Nat
  runId : String
  number : Nat
  sourceName : Option String
  startLine : Option Int
  startColumn : Option Int
  stopLine : Option Int
  stopColumn : Option Int
  deriving DecidableEq, Repr

/-- The range in the columns of a row. It is there if both of its lines are. -/
def RecordRow.range? (r : RecordRow) : Option TextRange :=
  match r.startLine, r.stopLine with
  | some start, some stop => some ⟨⟨start, r.startColumn.getD 0⟩, ⟨stop, r.stopColumn.getD 0⟩⟩
  | _, _ => none

structure SinkRow where
  record : Nat
  sink : String
  deriving DecidableEq, Repr

structure SourceRow where
  record : Nat
  source : String
  deriving DecidableEq, Repr

structure EdgeRow where
  record : Nat
  sink : String
  source : String
  deriving DecidableEq, Repr

structure Tables where
  runs : List RunRow
  records : List RecordRow
  sinks : List SinkRow
  sources : List SourceRow
  edges : List EdgeRow
  /-- The last key given to a record; keys are never given twice. -/
  lastKey : Nat
  deriving DecidableEq, Repr

namespace Tables

def empty : Tables := ⟨[], [], [], [], [], 0⟩

/-! ### Changes -/

def rowOf (key : Nat) (runId : String) (number : Nat) (r : Record) : RecordRow where
  key := key
  runId := runId
  number := number
  sourceName := r.context.bind (·.sourceName)
  startLine := r.range?.map (·.start.line)
  startColumn := r.range?.map (·.start.column)
  stopLine := r.range?.map (·.stop.line)
  stopColumn := r.range?.map (·.stop.column)

def insertRecord (runId : String) (t : Tables) (r : Record) (number : Nat) : Tables :=
  let key := t.lastKey + 1
  { t with
    records := t.records ++ [rowOf key runId number r]
    sinks := t.sinks ++ r.sinks.keys.map fun sink => ⟨key, sink⟩
    sources := t.sources ++ r.sources.toList.map fun source => ⟨key, source⟩
    edges := t.edges ++ r.sinks.entries.flatMap fun e => e.2.toList.map fun source => ⟨key, e.1, source⟩
    lastKey := key }

def insertRun (t : Tables) (run : RunRow) (records : List Record) : Tables :=
  records.zipIdx.foldl (fun t e => t.insertRecord run.id e.1 e.2) { t with runs := t.runs ++ [run] }

def deleteRun (t : Tables) (id : String) : Tables :=
  let gone := (t.records.filter fun r => r.runId == id).map (·.key)
  { t with
    runs := t.runs.filter fun r => r.id != id
    records := t.records.filter fun r => r.runId != id
    sinks := t.sinks.filter fun r => !gone.contains r.record
    sources := t.sources.filter fun r => !gone.contains r.record
    edges := t.edges.filter fun r => !gone.contains r.record }

/-! ### Questions -/

def recordsOf (t : Tables) (id : String) : List RecordRow := t.records.filter fun r => r.runId == id

def runOf (t : Tables) (r : RunRow) : Run := ⟨r.id, r.sourceName, r.createdAt, (t.recordsOf r.id).length⟩

/-- Whether a run stands before another: the newer first, and of two made at the same
time the one with the lesser id. -/
def standsBefore (a b : Run) : Bool :=
  if a.createdAt.nanos = b.createdAt.nanos then !(b.id < a.id) else b.createdAt.nanos < a.createdAt.nanos

def runList (t : Tables) : List Run := (t.runs.map t.runOf).mergeSort standsBefore

def run? (t : Tables) (id : String) : Option Run := (t.runs.find? fun r => r.id == id).map t.runOf

/-- The sinks of a record, first without and then with what feeds them. -/
def sinksOf (t : Tables) (key : Nat) : KeyMap Names :=
  let bare := (t.sinks.filter fun r => r.record == key).foldl (fun m r => m.insert r.sink Names.empty) KeyMap.empty
  (t.edges.filter fun r => r.record == key).foldl
    (fun m r => m.insertWith Names.union r.sink (.single r.source)) bare

def sourcesOf (t : Tables) (key : Nat) : Names :=
  Names.ofList ((t.sources.filter fun r => r.record == key).map (·.source))

/-- A record has a context only if its source or its place is known. -/
def contextOf (r : RecordRow) : Option Context :=
  if r.sourceName.isNone && r.range?.isNone then none else some ⟨r.sourceName, r.range?⟩

def recordOf (t : Tables) (r : RecordRow) : Record := ⟨t.sinksOf r.key, t.sourcesOf r.key, contextOf r⟩

def load (t : Tables) (id : String) : List Record :=
  ((t.recordsOf id).mergeSort fun a b => a.number ≤ b.number).map t.recordOf

def firstOfEach (seen : List String) : List Run → List Run
  | [] => []
  | r :: rs =>
    if seen.contains r.sourceName then firstOfEach seen rs
    else r :: firstOfEach (r.sourceName :: seen) rs

def latest (t : Tables) : List Record := (firstOfEach [] t.runList).flatMap fun r => t.load r.id

structure FoundEdge where
  createdAt : Instant
  number : Nat
  edge : SavedEdge
  deriving DecidableEq, Repr

/-- Whether an edge stands before another: by the age of the run, the newest first, then
by the place of the record, the sink and the source. -/
def FoundEdge.standsBefore (a b : FoundEdge) : Bool :=
  if a.createdAt.nanos ≠ b.createdAt.nanos then b.createdAt.nanos < a.createdAt.nanos
  else if a.number ≠ b.number then a.number < b.number
  else if a.edge.sink ≠ b.edge.sink then a.edge.sink < b.edge.sink
  else !(b.edge.source < a.edge.source)

def found? (t : Tables) (e : EdgeRow) : Option FoundEdge := do
  let record ← t.records.find? fun r => r.key == e.record
  let run ← t.runs.find? fun r => r.id == record.runId
  return ⟨run.createdAt, record.number, ⟨run.id, e.sink, e.source⟩⟩

def edgesOf (t : Tables) (table : String) : List SavedEdge :=
  let touching := t.edges.filter fun e => e.sink == table || e.source == table
  ((touching.filterMap t.found?).mergeSort FoundEdge.standsBefore).map (·.edge)

end Tables
end Store
end TableLineage
