import TableLineage.Statement.Phrase

/-! Outlines: a statement as a tree of its parts in the order they are walked,
whatever their categories. Walking is a function of the outline alone. -/
namespace TableLineage

inductive PartKind where
  | selectStmt | withClause | cte | insertStmt | insertTarget | deleteStmt | createTableAsStmt
  | createViewStmt | createTableStmt | alterRenameStmt | dropStmt
  | coreSelect | intoClause | combineSelect | valuesClause | nestedSelect
  | starTarget | exprTarget | sortClause | sortBy | windowDef
  | fromClause | fromElement | tableRef | subQuery | namedFrom
  | crossJoin | qualifiedJoin | joinOn | joinUsing
  | binaryExpr | unaryExpr | betweenExpr | inExpr | inValues | inSelect | likeExpr | quantifiedExpr
  | collateExpr | castExpr | existsExpr | selectExpr | columnRef | constant | rowExpr | caseExpr | whenClause
  | funcCall | commonFuncCall | overWindowName | windowSpec | frameClause
  deriving DecidableEq, Repr

def PartKind.name : PartKind → String
  | .selectStmt => "SelectStmt"
  | .withClause => "WithClause"
  | .cte => "CTE"
  | .insertStmt => "InsertStmt"
  | .insertTarget => "InsertTarget"
  | .deleteStmt => "DeleteStmt"
  | .createTableAsStmt => "CreateTableAsStmt"
  | .createViewStmt => "CreateViewStmt"
  | .createTableStmt => "CreateTableStmt"
  | .alterRenameStmt => "AlterRenameStmt"
  | .dropStmt => "DropStmt"
  | .coreSelect => "CoreSelect"
  | .intoClause => "IntoClause"
  | .combineSelect => "CombineSelect"
  | .valuesClause => "ValuesClause"
  | .nestedSelect => "NestedSelect"
  | .starTarget => "StarTarget"
  | .exprTarget => "ExprTarget"
  | .sortClause => "SortClause"
  | .sortBy => "SortBy"
  | .windowDef => "WindowDef"
  | .fromClause => "From"
  | .fromElement => "FromElement"
  | .tableRef => "TableRef"
  | .subQuery => "SubQuery"
  | .namedFrom => "NamedFrom"
  | .crossJoin => "CrossJoin"
  | .qualifiedJoin => "QualifiedJoin"
  | .joinOn => "JoinOn"
  | .joinUsing => "JoinUsing"
  | .binaryExpr => "BinaryExpr"
  | .unaryExpr => "UnaryExpr"
  | .betweenExpr => "BetweenExpr"
  | .inExpr => "InExpr"
  | .inValues => "InValues"
  | .inSelect => "InSelect"
  | .likeExpr => "LikeExpr"
  | .quantifiedExpr => "QuantifiedExpr"
  | .collateExpr => "CollateExpr"
  | .castExpr => "CastExpr"
  | .existsExpr => "ExistsExpr"
  | .selectExpr => "SelectExpr"
  | .columnRef => "ColumnRef"
  | .constant => "Constant"
  | .rowExpr => "RowExpr"
  | .caseExpr => "CaseExpr"
  | .whenClause => "WhenClause"
  | .funcCall => "FuncCall"
  | .commonFuncCall => "CommonFuncCall"
  | .overWindowName => "OverWindowName"
  | .windowSpec => "WindowSpec"
  | .frameClause => "FrameClause"

/-- What an outline keeps of a part. -/
structure Mark where
  kind : PartKind
  span : Span
  name : String
  aliasName : String
  deriving DecidableEq, Repr

def Mark.plain (kind : PartKind) (span : Span) : Mark := ⟨kind, span, "", ""⟩

inductive Outline where
  | node (mark : Mark) (children : List Outline)
  deriving Repr

def TableRef.outline (t : TableRef) : Outline := .node ⟨.tableRef, t.span, t.name, t.aliasName⟩ []

namespace Phrase

/-- The outlines of the parts at the top of a phrase. -/
def outline {c : Category} : Phrase c → List Outline
  | .none | .nil | .hole => []
  | .some x => x.outline
  | .cons x xs => x.outline ++ xs.outline
  | .select q => q.outline
  | .insert s w t q _ =>
    [.node (.plain .insertStmt s) (w.outline ++ .node (.plain .insertTarget t.span) [] :: q.outline)]
  | .delete s w t us f => [.node (.plain .deleteStmt s) (w.outline ++ t.outline :: (us.outline ++ f.outline))]
  | .createTableAs s _ _ _ _ _ q => [.node (.plain .createTableAsStmt s) q.outline]
  | .createView s _ _ _ _ _ q => [.node (.plain .createViewStmt s) q.outline]
  | .createTable s .. => [.node (.plain .createTableStmt s) []]
  | .alterRename s .. => [.node (.plain .alterRenameStmt s) []]
  | .drop s .. => [.node (.plain .dropStmt s) []]
  | .query s w b o l f =>
    [.node (.plain .selectStmt s) (w.outline ++ b.outline ++ o.outline ++ l.outline ++ f.outline)]
  | .withs s _ ts => [.node (.plain .withClause s) ts.outline]
  | .cte s _ _ q => [.node (.plain .cte s) q.outline]
  | .core s _ on top ts into src f g h q ws =>
    [.node (.plain .coreSelect s)
      (on.outline ++ top.outline ++ ts.outline ++
        (into.toList.map fun i => .node (.plain .intoClause i.span) []) ++
        src.outline ++ f.outline ++ g.outline ++ h.outline ++ q.outline ++ ws.outline)]
  | .combine s _ _ l r => [.node (.plain .combineSelect s) (l.outline ++ r.outline)]
  | .values s rows => [.node (.plain .valuesClause s) rows.outline]
  | .nested s q => [.node (.plain .nestedSelect s) q.outline]
  | .star s _ => [.node (.plain .starTarget s) []]
  | .labelled s e _ => [.node (.plain .exprTarget s) e.outline]
  | .sort s items => [.node (.plain .sortClause s) items.outline]
  | .sortItem s e _ _ => [.node (.plain .sortBy s) e.outline]
  | .windowDef s _ w => [.node (.plain .windowDef s) w.outline]
  | .window s _ p o f =>
    [.node (.plain .windowSpec s)
      (p.outline ++ o.outline ++ f.toList.map fun f => .node (.plain .frameClause f.span) [])]
  | .overName s _ => [.node (.plain .overWindowName s) []]
  | .overWindow w => w.outline
  | .sources s items => [.node (.plain .fromClause s) items.outline]
  | .sourceItem s src js => [.node (.plain .fromElement s) (src.outline ++ js.outline)]
  | .table t => [t.outline]
  | .subquery s q a => [.node ⟨.subQuery, s, "", a⟩ q.outline]
  | .parens s i a => [.node ⟨.namedFrom, s, "", a⟩ i.outline]
  | .crossJoin s t => [.node (.plain .crossJoin s) t.outline]
  | .qualifiedJoin s _ _ _ t k => [.node (.plain .qualifiedJoin s) (t.outline ++ k.outline)]
  | .joinOn s e => [.node (.plain .joinOn s) e.outline]
  | .joinUsing s _ => [.node (.plain .joinUsing s) []]
  | .binary s l _ r => [.node (.plain .binaryExpr s) (l.outline ++ r.outline)]
  | .unary s _ e => [.node (.plain .unaryExpr s) e.outline]
  | .between s t l u _ _ => [.node (.plain .betweenExpr s) (t.outline ++ l.outline ++ u.outline)]
  | .within s t src _ => [.node (.plain .inExpr s) (t.outline ++ src.outline)]
  | .inValues s xs => [.node (.plain .inValues s) xs.outline]
  | .inQuery s q => [.node (.plain .inSelect s) q.outline]
  | .like s t p _ _ e => [.node (.plain .likeExpr s) (t.outline ++ p.outline ++ e.outline)]
  | .quantifiedQuery s _ q => [.node (.plain .quantifiedExpr s) q.outline]
  | .quantifiedExpr s _ e => [.node (.plain .quantifiedExpr s) e.outline]
  | .collate s e _ => [.node (.plain .collateExpr s) e.outline]
  | .cast s e _ => [.node (.plain .castExpr s) e.outline]
  | .nonempty s q => [.node (.plain .existsExpr s) q.outline]
  | .scalar s q _ xs => [.node (.plain .selectExpr s) (q.outline ++ xs.outline)]
  | .column s _ _ xs => [.node (.plain .columnRef s) xs.outline]
  | .constant s .. => [.node (.plain .constant s) []]
  | .row s xs => [.node (.plain .rowExpr s) xs.outline]
  | .choice s x ws e => [.node (.plain .caseExpr s) (x.outline ++ ws.outline ++ e.outline)]
  | .when s c r => [.node (.plain .whenClause s) (c.outline ++ r.outline)]
  | .call s n xs _ _ _ _ o g f v =>
    [.node ⟨.funcCall, s, n, ""⟩ (xs.outline ++ o.outline ++ g.outline ++ f.outline ++ v.outline)]
  | .special s _ xs => [.node (.plain .commonFuncCall s) xs.outline]

end Phrase

inductive Event where
  | enter (m : Mark)
  | leave
  deriving DecidableEq, Repr

namespace Outline

def mark : Outline → Mark
  | .node m _ => m

def children : Outline → List Outline
  | .node _ cs => cs

mutual

/-- The walk through an outline. A part that `prune` picks is entered only: what is
below it and the step out of it are left out. -/
def events (prune : Mark → Bool) : Outline → List Event
  | .node m cs => if prune m then [.enter m] else .enter m :: (eventsAll prune cs ++ [.leave])

def eventsAll (prune : Mark → Bool) : List Outline → List Event
  | [] => []
  | o :: os => events prune o ++ eventsAll prune os

end

mutual

/-- The parts met on a walk that turns back at each part that `prune` picks. -/
def visits (prune : Mark → Bool) : Outline → List Mark
  | .node m cs => if prune m then [] else m :: visitsAll prune cs

def visitsAll (prune : Mark → Bool) : List Outline → List Mark
  | [] => []
  | o :: os => visits prune o ++ visitsAll prune os

end

end Outline

/-- The kinds of parts that a listing of reads and calls is interested in. -/
def PartKind.isListed : PartKind → Bool
  | .selectStmt | .tableRef | .subQuery | .columnRef | .funcCall | .existsExpr | .inSelect | .selectExpr => true
  | _ => false

end TableLineage
