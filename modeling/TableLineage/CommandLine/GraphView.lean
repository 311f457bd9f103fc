import TableLineage.CommandLine.Inputs
import TableLineage.CommandLine.OpenStore
import TableLineage.Format.JsonValue
import TableLineage.Graph.Order
import TableLineage.Graph.Reach

/-! The graph of tables as it is shown: all tables level by level, or what one table is
built from and what is built from it. -/
namespace TableLineage.CommandLine.GraphView

def namesValue (names : List String) : JsonValue := .arr (names.map .str)

def optional (key : String) (items : List JsonValue) : List (String × JsonValue) :=
  if items.isEmpty then [] else [(key, .arr items)]

/-! ### The whole graph -/

def edgeValues (g : Graph) : List JsonValue :=
  g.names.flatMap fun source =>
    (g.children source).toList.map fun sink => .obj [("source", .str source), ("sink", .str sink)]

def graphValue (g : Graph) : JsonValue :=
  let levels := match g.levels with
    | .ok levels => levels
    | .error _ => []
  .obj (optional "levels" (levels.map namesValue) ++ optional "cycle" ((g.cycle?.map (·.path)).getD [] |>.map .str) ++
    [("edges", .arr (edgeValues g)), ("selfReferences", namesValue g.selfReferences)])

def parentsText (g : Graph) (name : String) : String := ", ".intercalate (g.parents name).toList

def levelTable (g : Graph) (levels : List (List String)) : Table :=
  { headings := ["Level", "Table", "Built from"]
    rows := levels.zipIdx.flatMap fun (names, k) => names.map fun n => [toString k, n, parentsText g n]
    numeric := [true, false, false] }

def plainTable (g : Graph) : Table :=
  { headings := ["Table", "Built from"]
    rows := g.names.map fun n => [n, parentsText g n]
    numeric := [false, false] }

def show' (g : Graph) (asJson : Bool) : Action Unit := do
  if asJson then Action.print (graphValue g).document
  else
    Action.print s!"Tables ({g.nodeCount} tables, {g.edgeCount} edges)\n"
    match g.levels with
    | .ok levels => Action.print (levelTable g levels).render
    | .error cycle =>
      Action.printError ("cycle detected: " ++ " -> ".intercalate cycle.path ++ "\n\n")
      Action.print (plainTable g).render
    if !g.selfReferences.isEmpty then
      Action.print (Report.laidOut ("self-referencing: " ++ ", ".intercalate g.selfReferences) ++ "\n")

/-! ### One table -/

structure Reach where
  table : String
  depth : Int
  above : List String
  below : List String

def Reach.of (g : Graph) (table : String) (depth : Int) (up down : Bool) : Reach :=
  ⟨table, depth, if up then g.upstream table depth else [], if down then g.downstream table depth else []⟩

def Reach.value (r : Reach) : JsonValue :=
  .obj ([("table", .str r.table), ("depth", .int r.depth)] ++ optional "upstream" (r.above.map .str) ++
    optional "downstream" (r.below.map .str))

def Reach.rows (r : Reach) : Table :=
  { headings := ["Direction", "Table"]
    rows := (r.above.map fun n => ["upstream", n]) ++ r.below.map fun n => ["downstream", n]
    numeric := [false, false] }

def Reach.show' (r : Reach) (asJson : Bool) : Action Unit := do
  if asJson then Action.print r.value.document
  else
    Action.print ("Lineage for: " ++ Report.laidOut r.table ++ "\n\n" ++ r.rows.render ++
      s!"{r.above.length} upstream, {r.below.length} downstream\n")

/-! ### The command -/

def records (c : Config) (inputs : List String) : Action (List Record) := do
  if inputs.isEmpty then
    let s ← OpenStore.require c
    Action.demand .store s.store.latest
  else
    let found ← extractInputs { c with splitStatements := true } (← readInputs inputs)
    return found.flatten

def run (c : Config) (w : Words) : Action Unit := do
  let depth := w.number "depth"
  if depth < 0 then throw (.negativeDepth depth)
  let g := Graph.ofRecords (← records c (w.list "input"))
  let asJson := w.switch "json" false
  match w.arguments.head?.getD "" with
  | "" => show' g asJson
  | table =>
    if (g.node? table).isNone then throw (.unknownTable table)
    (Reach.of g table depth (w.switch "upstream" true) (w.switch "downstream" true)).show' asJson

end TableLineage.CommandLine.GraphView
