import TableLineage.Statement.Reading.Query

/-! Reading statements, and the reading of whole trees. -/
namespace TableLineage.Opened

def nameOf (o : Opened) (t : Tree) (construct : String) : Outcome String := do
  return o.mode.qualifiedName (← t.need .qualifiedName construct)

def insertTarget (o : Opened) : Outcome InsertTarget := do
  let t ← o.tree.need .insertTarget "insert statement"
  let name ← o.nameOf t "insert target"
  let aliasName := if t.has (.keyword .AS) then ((t.children.getLast?.map fun c => o.mode.name c.token).getD "") else ""
  return ⟨t.span, name, aliasName, o.mode.columnList o.tree⟩

/-- The rows of `DEFAULT VALUES`: none are written out. -/
def defaultRows (span : Span) : Query := .query span .none (.values span .nil) .none .none .none

def insert (o : Opened) : Outcome Statement := do
  let withs ← o.optional .withClause .withs
  let target ← o.insertTarget
  match o.tree.leaf? (.keyword .DEFAULT) with
  | some mark =>
    return .insert o.tree.span withs target (defaultRows (mark.span.cover o.tree.last.span)) true
  | none =>
    let query ← (← o.need .selectStmt "insert statement").read .query
    return .insert o.tree.span withs target query false

def delete (o : Opened) : Outcome Statement := do
  let withs ← o.optional .withClause .withs
  let t ← o.tree.need .deleteTarget "delete statement"
  let name ← o.nameOf t "delete target"
  let others ← o.manyOf .deleteUsing .sourceItem
  let filter ← o.optional .whereClause .expr
  return .delete o.tree.span withs ⟨t.span, name, o.mode.aliasName t⟩ others filter

def isTemporary (o : Opened) : Bool := o.has .TEMP || o.has .TEMPORARY

def attributes (o : Opened) : String := ((o.tree.child? .tableAttributes).map Tree.text).getD ""

def createTableAs (o : Opened) : Outcome Statement := do
  let name ← o.nameOf o.tree "create table as"
  let query ← (← o.need .selectStmt "create table as").read .query
  return .createTableAs o.tree.span name o.isTemporary (o.has .IF) (o.mode.columnList o.tree) o.attributes query

def createView (o : Opened) : Outcome Statement := do
  let name ← o.nameOf o.tree "create view"
  let query ← (← o.need .selectStmt "create view").read .query
  let options := " ".intercalate ((o.tree.childrenOf .viewOptions).map Tree.text)
  return .createView o.tree.span name (o.has .REPLACE) (o.has .MATERIALIZED) (o.mode.columnList o.tree) options query

def createTable (o : Opened) : Outcome Statement := do
  let name ← o.nameOf o.tree "create table"
  let definitions ← o.tree.need .columnDefinitions "create table"
  return .createTable o.tree.span name o.isTemporary (o.has .IF) definitions.text o.attributes

def alterRename (o : Opened) : Outcome Statement :=
  match o.tree.children.getLast? with
  | none => .error .noChild
  | some c => do
    let name ← o.nameOf o.tree "alter table"
    if !c.isLeaf || c.is (.keyword .TO) then o.fail "alter table" (.missing "new table name")
    else return .alterRename o.tree.span name (o.mode.name c.token)

def dropKind? (o : Opened) : Option DropKind :=
  if o.has .MATERIALIZED then some .materializedView
  else if o.has .VIEW then some .view
  else if o.has .TABLE then some .table
  else none

def drop (o : Opened) : Outcome Statement :=
  match o.dropKind? with
  | none => o.fail "drop statement" (.missing "object kind")
  | some kind =>
    let behavior := if o.has .CASCADE then some .cascade else if o.has .RESTRICT then some .restrict else none
    let names := (o.tree.childrenOf .qualifiedName).map o.mode.qualifiedName
    .ok (.drop o.tree.span kind names (o.has .IF) behavior)

def statement (o : Opened) : Outcome Statement :=
  match o.tree.rule? with
  | some .selectStmt => do return .select (← o.query)
  | some .insertStmt => o.insert
  | some .deleteStmt => o.delete
  | some .createTableAsStmt => o.createTableAs
  | some .createViewStmt => o.createView
  | some .createTableStmt => o.createTable
  | some .alterRenameStmt => o.alterRename
  | some .dropStmt => o.drop
  | _ => o.fail "statement" (.unexpectedRule o.tree.ruleName)

def read (o : Opened) : (c : Category) → Outcome (Phrase c)
  | .statement => o.statement
  | .query => o.query
  | .withs => o.withs
  | .cte => o.cte
  | .body => o.body
  | .target => o.target
  | .sort => o.sort
  | .sortItem => o.sortItem
  | .windowDef => o.windowDef
  | .window => o.window
  | .overClause => o.overClause
  | .sources => o.sources
  | .sourceItem => o.sourceItem
  | .join => o.join
  | .condition => o.condition
  | .expr => o.readExpr
  | .when => o.whenClause
  | .many .expr => o.readExprs
  | .many .target => readEach (·.read .target) o.nodes
  | .many .windowDef => readEach (·.read .windowDef) (o.kidsOf .windowDefinition)
  | .many .sourceItem => readEach (·.read .sourceItem) (o.kidsOf .tableRef)
  | .maybe .sort => o.optional .sortClause .sort
  | _ => .error .noChild

end TableLineage.Opened

namespace TableLineage

mutual

def Tree.read (m : ReadMode) : Tree → (c : Category) → Outcome (Phrase c)
  | .leaf t => Opened.read ⟨m, .leaf t, []⟩
  | .node r f l x cs => Opened.read ⟨m, .node r f l x cs, openAll m cs⟩

def openAll (m : ReadMode) : List Tree → List Kid
  | [] => []
  | t :: ts => ⟨t, t.read m⟩ :: openAll m ts

end

theorem openAll_eq_map (m : ReadMode) (ts : List Tree) : openAll m ts = ts.map fun t => ⟨t, t.read m⟩ := by
  induction ts with
  | nil => rfl
  | cons t ts ih => simp [openAll, ih]

end TableLineage
