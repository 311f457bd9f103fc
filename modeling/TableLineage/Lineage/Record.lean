import TableLineage.KeyMap
import TableLineage.Position

/-! Lineage records: which tables each written table is fed from, and which
tables are read at all. -/
namespace TableLineage

/-- A point of a source text. Lines count from one, columns from zero. -/
structure TextPoint where
  line : Int
  column : Int
  deriving DecidableEq, Repr

def TextPoint.compare (p q : TextPoint) : Ordering :=
  if p.line < q.line then .lt
  else if q.line < p.line then .gt
  else if p.column < q.column then .lt
  else if q.column < p.column then .gt
  else .eq

/-- A range of a source text; `stop` is just past its last character. -/
structure TextRange where
  start : TextPoint
  stop : TextPoint
  deriving DecidableEq, Repr

namespace TextRange

/-- The range of a span; a span that is not valid has none. -/
def ofSpan? (s : Span) : Option TextRange :=
  if s.isValid then
    some ⟨⟨s.start.line, (s.start.column : Int) - 1⟩, ⟨s.stop.line, (s.stop.column : Int) - 1⟩⟩
  else none

def cover (a b : TextRange) : TextRange :=
  ⟨if b.start.compare a.start = .lt then b.start else a.start,
   if b.stop.compare a.stop = .gt then b.stop else a.stop⟩

def cover? : Option TextRange → Option TextRange → Option TextRange
  | some a, some b => some (a.cover b)
  | a, none => a
  | none, b => b

end TextRange

structure Context where
  sourceName : Option String
  range : Option TextRange
  deriving DecidableEq, Repr

structure Record where
  sinks : KeyMap Names
  sources : Names
  context : Option Context

namespace Record

def empty : Record := ⟨.empty, .empty, none⟩

instance : Inhabited Record := ⟨empty⟩

def writing (sink : String) (sources : Names) : Record := ⟨.single sink sources, sources, none⟩

def reading (sources : Names) : Record := ⟨.empty, sources, none⟩

def isEmpty (r : Record) : Bool := r.sinks.isEmpty && r.sources.isEmpty

def withContext (r : Record) (c : Context) : Record := { r with context := some c }

def range? (r : Record) : Option TextRange := r.context.bind (·.range)

/-- The record with the name of its source; its range is kept. -/
def withSourceName (r : Record) (name : String) : Record := r.withContext ⟨some name, r.range?⟩

def mergeSinks (a b : KeyMap Names) : KeyMap Names := a.mergeWith Names.union b

def merge (a b : Record) : Record := ⟨mergeSinks a.sinks b.sinks, a.sources.union b.sources, a.context⟩

def mergeOnlySinks (a b : Record) : Record := ⟨mergeSinks a.sinks b.sinks, a.sources, a.context⟩

/-- The record with every source that `tables` knows replaced by the tables it stands
for, in one step. The context is dropped. -/
def resolve (r : Record) (tables : KeyMap Names) : Record :=
  ⟨r.sinks.map (·.resolve tables), r.sources.resolve tables, none⟩

end Record
end TableLineage
