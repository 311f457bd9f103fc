import TableLineage.Lineage.Record

/-! Graphs of tables. An edge goes from a table that is read to a table written from it. Both of them
list it, each in the order in which its edges came. A table that is written from itself is marked and
has no edge for it. -/
namespace TableLineage

structure TableNode where
  reads : Nat
  writes : Nat
  children : List String
  parents : List String
  feedsItself : Bool

namespace TableNode

def blank : TableNode := ⟨0, 0, [], [], false⟩

/-- Puts a name at the end of a row that does not have it yet. -/
def listed (row : List String) (name : String) : List String := if row.contains name then row else row ++ [name]

def addChild (name : String) (t : TableNode) : TableNode := { t with children := listed t.children name }

def addParent (name : String) (t : TableNode) : TableNode := { t with parents := listed t.parents name }

/-- The table with the counts of another. -/
def countedAs (other t : TableNode) : TableNode := { t with reads := other.reads, writes := other.writes }

end TableNode

structure Graph where
  tables : KeyMap TableNode

namespace Graph

def empty : Graph := ⟨.empty⟩

instance : Inhabited Graph := ⟨empty⟩

/-- Changes a table, which is made first if there is none of that name. -/
def update (g : Graph) (name : String) (f : TableNode → TableNode) : Graph :=
  ⟨g.tables.insertWith (fun old _ => f old) name (f .blank)⟩

def addNode (g : Graph) (name : String) : Graph := g.update name id

def mark (g : Graph) (name : String) : Graph := g.update name fun t => { t with feedsItself := true }

def addEdge (g : Graph) (source sink : String) : Graph :=
  if source = sink then g.mark source
  else (g.update source (·.addChild sink)).update sink (·.addParent source)

def addRead (g : Graph) (name : String) : Graph := g.update name fun t => { t with reads := t.reads + 1 }

def addWrite (g : Graph) (name : String) : Graph := g.update name fun t => { t with writes := t.writes + 1 }

def addSink (g : Graph) (sink : String × Names) : Graph :=
  sink.2.toList.foldl (fun g source => g.addEdge source sink.1) (g.addWrite sink.1)

def addRecord (g : Graph) (r : Record) : Graph :=
  r.sinks.entries.foldl addSink (r.sources.toList.foldl addRead g)

def addRecords (g : Graph) (records : List Record) : Graph := records.foldl addRecord g

def ofRecords (records : List Record) : Graph := empty.addRecords records

def node? (g : Graph) (name : String) : Option TableNode := g.tables.get? name

/-- The table of a name, which says nothing if there is none. -/
def nodeAt (g : Graph) (name : String) : TableNode := (g.node? name).getD .blank

def names (g : Graph) : List String := g.tables.keys

def nodeCount (g : Graph) : Nat := g.tables.size

def edgeCount (g : Graph) : Nat := g.tables.entries.foldr (fun e n => e.2.children.length + n) 0

def childList (g : Graph) (name : String) : List String := (g.nodeAt name).children

def parentList (g : Graph) (name : String) : List String := (g.nodeAt name).parents

def children (g : Graph) (name : String) : Names := .ofList (g.childList name)

def parents (g : Graph) (name : String) : Names := .ofList (g.parentList name)

def selfReferences (g : Graph) : List String := (g.tables.filterEntries fun _ t => t.feedsItself).keys

def roots (g : Graph) : List String := g.names.filter fun n => (g.parentList n).isEmpty

def leaves (g : Graph) : List String := g.names.filter fun n => (g.childList n).isEmpty

/-- Takes a table over from another graph, without its edges, if there is one of that name. -/
def copyTable (whole part : Graph) (name : String) : Graph :=
  match whole.node? name with
  | some t => part.update name t.countedAs
  | none => part

def nodesOnly (g : Graph) (names : List String) : Graph := names.foldl g.copyTable empty

/-- Takes the edges of a table over, those to tables that are kept, and its mark. -/
def copyEdges (whole kept part : Graph) (name : String) : Graph :=
  let linked := ((whole.childList name).filter kept.tables.contains).foldl (fun part child => part.addEdge name child)
    part
  if (whole.nodeAt name).feedsItself then linked.mark name else linked

/-- The named tables with the edges between them, which are taken over as the tables stand in a row. -/
def partAlong (g : Graph) (names row : List String) : Graph :=
  row.foldl (g.copyEdges (g.nodesOnly names)) (g.nodesOnly names)

def subgraph (g : Graph) (names : List String) : Graph := g.partAlong names (g.nodesOnly names).names

end Graph
end TableLineage
