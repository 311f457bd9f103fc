import TableLineage.Statement.Reading.Primary

/-! Reading queries, their clauses and their sources. -/
namespace TableLineage.Opened

/-! ### Order and windows -/

def sortItem (o : Opened) : Outcome (Phrase .sortItem) := do
  let e ← o.firstExpr "sort item"
  let order := if o.has .ASC then some .ascending else if o.has .DESC then some .descending else none
  let nulls := if o.has .FIRST then some .first else if o.has .LAST then some .last else none
  return .sortItem o.tree.span e order nulls

def sort (o : Opened) : Outcome (Phrase .sort) :=
  match o.tree.rule? with
  | some .withinGroup => do (← o.need .sortClause "within group").read .sort
  | _ => do return .sort o.tree.span (← readEach (·.read .sortItem) (o.kidsOf .sortBy))

def window (o : Opened) : Outcome (Phrase .window) := do
  let name := match o.tree.children with
    | _ :: c :: _ => if c.isLeaf && !c.is .rparen then o.mode.name c.token else ""
    | _ => ""
  let partitionBy ← match o.kid? .partitionClause with
    | some k => k.read (.many .expr)
    | none => .ok .nil
  let orderBy ← o.optional .sortClause .sort
  let frame := (o.tree.child? .frameClause).map fun f => ⟨f.span, f.text⟩
  return .window o.tree.span name partitionBy orderBy frame

def windowDef (o : Opened) : Outcome (Phrase .windowDef) :=
  match o.kids with
  | [] => .error .noChild
  | k :: _ => do
    let spec ← o.need .windowSpec "window definition"
    return .windowDef o.tree.span (o.mode.name k.tree.token) (← spec.read .window)

def overClause (o : Opened) : Outcome (Phrase .overClause) :=
  match o.kid? .windowSpec with
  | some k => do return .overWindow (← k.read .window)
  | none =>
    match o.kids.getLast? with
    | some k => .ok (.overName o.tree.span (o.mode.name k.tree.token))
    | none => .error .noChild

/-! ### Sources -/

/-- The source at the head of a reference, `primary`, with the alias that follows it. -/
def source (o : Opened) (primary : Kid) : Outcome (Phrase .source) :=
  let span := match o.tree.child? .aliasClause with
    | some a => primary.tree.span.cover a.span
    | none => primary.tree.span
  let aliasName := o.mode.aliasName o.tree
  match primary.tree.rule? with
  | some .relationExpr => do
    let name ← primary.tree.need .qualifiedName "relation"
    return .table ⟨span, o.mode.qualifiedName name, aliasName⟩
  | some .selectWithParens => do return .subquery span (← primary.read .query) aliasName
  | some .nestedTableRef => do return .parens span (← primary.read .sourceItem) aliasName
  | _ => primary.tree.fail "from item" (.unexpectedRule primary.tree.ruleName)

def joins : List Kid → Outcome (Phrase (.many .join))
  | [] => .ok .nil
  | k :: ks =>
    match k.tree.rule? with
    | some .aliasClause => joins ks
    | some .crossJoin | some .naturalJoin | some .qualifiedJoin => do
      let j ← k.read .join
      let js ← joins ks
      return .cons j js
    | _ => k.tree.fail "join" (.unexpectedRule k.tree.ruleName)

def sourceItem (o : Opened) : Outcome (Phrase .sourceItem) :=
  match o.tree.rule? with
  | some .nestedTableRef => do (← o.need .tableRef "parenthesized join").read .sourceItem
  | _ =>
    match o.nodes with
    | [] => o.fail "from item" (.missing "table reference")
    | primary :: rest => do
      let s ← o.source primary
      let js ← joins rest
      return .sourceItem o.tree.span s js

def joinType? : Kind → Option JoinType
  | .keyword .INNER => some .inner
  | .keyword .LEFT => some .left
  | .keyword .RIGHT => some .right
  | .keyword .FULL => some .full
  | _ => none

/-- The type of a join and whether it was said to be an outer one. -/
def joinType (t : Tree) : Outcome (Option JoinType × Bool) :=
  match t.child? .joinType with
  | none => .ok (none, false)
  | some jt =>
    match jt.children with
    | [] => .error .noChild
    | c :: _ =>
      match joinType? c.token.kind with
      | none => jt.fail "join type" (.unknown "join type" jt.text)
      | some type => .ok (some type, jt.has (.keyword .OUTER))

def condition (o : Opened) : Outcome (Phrase .condition) :=
  match o.tree.rule? with
  | some .joinUsing =>
    .ok (.joinUsing o.tree.span (((o.tree.child? .nameList).map o.mode.nameList).getD []))
  | _ => do return .joinOn o.tree.span (← o.firstExpr "join condition")

def join (o : Opened) : Outcome (Phrase .join) := do
  let joined ← (← o.need .tableRef "join").read .sourceItem
  if o.tree.hasRule .crossJoin then return .crossJoin o.tree.span joined
  else
    let natural := o.tree.hasRule .naturalJoin
    let (type, outer) ← joinType o.tree
    match (o.kid? .joinOn).or (o.kid? .joinUsing) with
    | some k => return .qualifiedJoin o.tree.span type outer natural joined (.some (← k.read .condition))
    | none =>
      if natural then return .qualifiedJoin o.tree.span type outer natural joined .none
      else o.fail "join" (.missing "join condition")

def sources (o : Opened) : Outcome (Phrase .sources) := do
  return .sources o.tree.span (← readEach (·.read .sourceItem) (o.kidsOf .tableRef))

/-! ### Select clauses -/

def setOp? : Kind → Option SetOp
  | .keyword .UNION => some .union
  | .keyword .EXCEPT | .keyword .MINUS => some .except
  | .keyword .INTERSECT => some .intersect
  | _ => none

def combine (op : Tree) (left right : Phrase .body) : Outcome (Phrase .body) :=
  match op.children with
  | [] => .error .noChild
  | c :: _ =>
    match setOp? c.token.kind with
    | none => op.fail "set operator" (.unknown "operator" c.token.raw)
    | some code =>
      let modifier := if op.has (.keyword .ALL) then some .all
        else if op.has (.keyword .DISTINCT) then some .distinct else none
      .ok (.combine (left.span.cover right.span) code modifier left right)

/-- Folds bodies and the set operators between them to the left. -/
def foldBodies (o : Opened) (operand : Kid → Outcome (Phrase .body)) :
    List Kid → Option (Phrase .body) → Option Tree → Outcome (Phrase .body)
  | [], some left, _ => .ok left
  | [], none, _ => o.fail "set operation" (.missing "operand")
  | k :: ks, left, op =>
    if k.tree.hasRule .setOperator then foldBodies o operand ks left (some k.tree)
    else do
      let right ← operand k
      match left, op with
      | none, _ => foldBodies o operand ks (some right) op
      | some _, none => o.fail "set operation" (.missing "set operator")
      | some left, some op => do
        let both ← combine op left right
        foldBodies o operand ks (some both) none

def unionOperand (k : Kid) : Outcome (Phrase .body) :=
  if k.tree.hasRule .simpleSelectIntersect then k.read .body
  else k.tree.fail "set operation" (.unexpectedRule k.tree.ruleName)

def intersectOperand (k : Kid) : Outcome (Phrase .body) :=
  match k.tree.rule? with
  | some .simpleSelect | some .valuesClause | some .selectWithParens => k.read .body
  | _ => k.tree.fail "select clause" (.unexpectedRule k.tree.ruleName)

def into (o : Opened) : Outcome (Option Into) :=
  match o.tree.child? .intoClause with
  | none => .ok none
  | some t => do
    let name ← t.need .qualifiedName "into clause"
    return some ⟨t.span, o.mode.qualifiedName name, t.has (.keyword .TEMP) || t.has (.keyword .TEMPORARY)⟩

/-- The phrases of the child from the rule `r`, none without it. -/
def manyOf (o : Opened) (r : Rule) (c : Category) : Outcome (Phrase (.many c)) :=
  match o.kid? r with
  | some k => k.read (.many c)
  | none => .ok .nil

def core (o : Opened) : Outcome (Phrase .body) := do
  let distinct := o.has .DISTINCT
  let distinctOn ← if distinct && o.has .ON then o.listed else .ok .nil
  let top ← o.optional .topClause .expr
  let targets ← (← o.need .targetList "select").read (.many .target)
  let into ← o.into
  let sources ← o.optional .fromClause .sources
  let filter ← o.optional .whereClause .expr
  let groupBy ← o.manyOf .groupClause .expr
  let having ← o.optional .havingClause .expr
  let qualify ← o.optional .qualifyClause .expr
  let windows ← o.manyOf .windowClause .windowDef
  return .core o.tree.span distinct distinctOn top targets into sources filter groupBy having qualify windows

def target (o : Opened) : Outcome (Phrase .target) :=
  match o.tree.rule? with
  | some .targetStar =>
    let names := o.tree.children.filter fun c => !c.is .dot && !c.is .star
    .ok (.star o.tree.span (names.map fun c => o.mode.name c.token))
  | some .targetLabel =>
    match o.tree.children.getLast? with
    | none => .error .noChild
    | some c => do
      let e ← o.firstExpr "target"
      return .labelled o.tree.span e (if c.isLeaf && !c.is (.keyword .AS) then o.mode.name c.token else "")
  | _ => o.fail "target" (.unexpectedRule o.tree.ruleName)

def values (o : Opened) : Outcome (Phrase .body) := do
  return .values o.tree.span (← readEach (·.read (.many .expr)) (o.kidsOf .valuesRow))

def parenthesized (o : Opened) : Outcome Query :=
  match o.kid? .selectWithParens with
  | some inner => inner.read .query
  | none => do (← o.need .selectStmt "parenthesized query").read .query

def body (o : Opened) : Outcome (Phrase .body) :=
  match o.tree.rule? with
  | some .selectClause => o.foldBodies unionOperand o.nodes none none
  | some .simpleSelectIntersect => o.foldBodies intersectOperand o.nodes none none
  | some .valuesClause => o.values
  | some .selectWithParens => do return .nested o.tree.span (← o.parenthesized)
  | _ => o.core

/-! ### Queries -/

def cte (o : Opened) : Outcome (Phrase .cte) :=
  match o.kids with
  | [] => o.fail "common table expression" (.missing "name")
  | k :: _ =>
    if !k.tree.isLeaf then o.fail "common table expression" (.missing "name")
    else do
      let inner ← o.need .selectWithParens "common table expression"
      return .cte o.tree.span (o.mode.name k.tree.token) (o.mode.columnList o.tree) (← inner.read .query)

def withs (o : Opened) : Outcome (Phrase .withs) := do
  return .withs o.tree.span (o.has .RECURSIVE) (← readEach (·.read .cte) (o.kidsOf .commonTableExpr))

/-- The limit of a query; `LIMIT ALL` is none. -/
def limit (o : Opened) : Outcome (Phrase (.maybe .expr)) :=
  match o.kid? .limitClause with
  | some k => if k.tree.has (.keyword .ALL) then .ok .none else do return .some (← k.read .expr)
  | none => .ok .none

def query (o : Opened) : Outcome Query :=
  match o.tree.rule? with
  | some .selectWithParens => o.parenthesized
  | _ => do
    let withs ← o.optional .withClause .withs
    let body ← (← o.need .selectClause "select statement").read .body
    let orderBy ← o.optional .sortClause .sort
    let limit ← o.limit
    let offset ← o.optional .offsetClause .expr
    return .query o.tree.span withs body orderBy limit offset

end TableLineage.Opened
