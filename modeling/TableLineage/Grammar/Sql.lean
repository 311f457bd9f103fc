import TableLineage.Grammar.Part

/-! The grammar of the dialect, one production for each symbol. Expressions have
one level for each strength of operator, and every level has a node of its own,
so a bare column is wrapped once for each level. -/
namespace TableLineage.Grammar

inductive Symbol where
  | script | statement | statementBody | otherStmt
  | insertRest | deleteRest
  | createStmt | createHead | createTableAs | createTable | createView | alterRename | dropStmt
  | qualifiedName | nameList | columnList
  | query | queryRest | parenQuery | withClause | cte
  | selectClause | intersectTerm | selectPrimary | simpleSelect | setOperator
  | topClause | targetList | target | intoClause | valuesClause | valuesRow
  | whereClause | groupClause | groupItem | havingClause | qualifyClause
  | windowClause | windowDefinition | sortClause | sortBy | limitClause | offsetClause
  | fromClause | tableRef | tablePrimary | tableSource | nestedTable | aliasPart | join | joinType
  | orExpr | andExpr | betweenExpr | inExpr | inSource | inList | notExpr | isNullExpr | isExpr
  | compareExpr | quantifier | likeExpr | qualOpExpr | prefixOpExpr | qualOp
  | addExpr | mulExpr | caretExpr | signExpr | timeZoneExpr | collateExpr | castExpr
  | anyName | typename | exprList
  | primary | constant | parenPrimary | selectExpr | rowOrParen | indirection | columnRef
  | caseExpr | whenClause | castFunc | extractFunc | positionFunc | plainFunc
  | funcCall | funcArgs | nullTreatment | overClause | windowSpec | typedConstant
  deriving DecidableEq, Repr

namespace Symbol

open Grammar.Part (all opt tok key name two)
open Look (is next keyAt isKey nextKey isAny isAnyKey dotLabel statementEnd)

abbrev Production := Part Symbol

def commaList (item : Symbol) : Production :=
  .seq (.call item) (.loop (is .comma) (.seq .take (.call item)))

/-- Operands of one level with the operators between them. -/
def folding (operand : Symbol) (operators : List Kind) : Production :=
  .seq (.call operand) (.loop (isAny operators) (.seq .take (.call operand)))

def optKey (ks : List Keyword) : Production := opt (isAnyKey ks) .take

def negatable (ks : List Keyword) : Look :=
  .either (isAnyKey ks) (.both (isKey .NOT) (.ahead 1 (.anyOf (ks.map .keyword))))

def parens (p : Production) : Production := all [tok .lparen, p, tok .rparen]

def joinWords : List Keyword := [.CROSS, .NATURAL, .JOIN, .INNER, .LEFT, .RIGHT, .FULL]

def viewAhead : Look :=
  .either (.either (keyAt 1 .VIEW) (.both (keyAt 1 .MATERIALIZED) (keyAt 2 .VIEW)))
    (.both (.both (keyAt 1 .OR) (keyAt 2 .REPLACE))
      (.either (keyAt 3 .VIEW) (.both (keyAt 3 .MATERIALIZED) (keyAt 4 .VIEW))))

def tempAt (n : Nat) : Look := .ahead n (.anyOf [.keyword .TEMP, .keyword .TEMPORARY])

def tableAhead : Look :=
  .either (.either (keyAt 1 .TABLE) (.both (tempAt 1) (keyAt 2 .TABLE)))
    (.both (keyAt 1 .LOCAL) (.either (keyAt 2 .TABLE) (.both (tempAt 2) (keyAt 3 .TABLE))))

def bareFunctions : List String :=
  ["current_date", "current_time", "current_timestamp", "current_user", "localtime", "localtimestamp",
   "session_user", "sysdate", "user"]

def typeWords : List String := ["precision", "varying"]

def argumentMarks : List Kind :=
  [.comma, .keyword .FROM, .keyword .FOR, .keyword .BOTH, .keyword .LEADING, .keyword .TRAILING]

def qualOpAhead : Look := .either (is .op) (.both (isKey .OPERATOR) (next .lparen))

def comparisons : List Kind := [.eq, .ne, .lt, .gt, .le, .ge]

/-- A query in parentheses, or else `p` from the same place. -/
def queryOr (p : Production) : Production := .branch .query (.attempt (.call .parenQuery) p) p

def production : Symbol → Production
  -- Statements
  | .script =>
    .node .root (all
      [.loop (is .semicolon) .take,
       .loop (.not (is .eof)) (all
         [.call .statement, .branch statementEnd .done (.fail .unexpected), .loop (is .semicolon) .take])])
  | .statement => .node .stmt (.call .statementBody)
  | .statementBody =>
    .branch (isKey .WITH)
      (.seq (.call .withClause)
        (.branch (isKey .INSERT) (.wrap .insertStmt (.call .insertRest))
        (.branch (isKey .DELETE) (.wrap .deleteStmt (.call .deleteRest))
          (.wrap .selectStmt (.call .queryRest)))))
    (.branch (isAny [.keyword .SELECT, .keyword .VALUES, .lparen]) (.call .query)
    (.branch (isKey .INSERT) (.node .insertStmt (.call .insertRest))
    (.branch (isKey .DELETE) (.node .deleteStmt (.call .deleteRest))
    (.branch (isKey .CREATE) (.call .createStmt)
    (.branch (isKey .ALTER) (.attempt (.call .alterRename) (.call .otherStmt))
    (.branch (isKey .DROP) (.attempt (.call .dropStmt) (.call .otherStmt))
      (.call .otherStmt)))))))
  | .otherStmt => .node .otherStmt (.swallow none)
  | .insertRest => all
      [key .INSERT, key .INTO,
       .node .insertTarget (.seq (.call .qualifiedName) (opt (isKey .AS) (.seq .take name))),
       opt (.both (is .lparen) (.not .query)) (.call .columnList),
       .branch (.both (isKey .DEFAULT) (nextKey .VALUES)) two (.call .query)]
  | .deleteRest => all
      [key .DELETE, optKey [.FROM],
       .node .deleteTarget (.seq (.call .qualifiedName) (.call .aliasPart)),
       opt (isKey .USING) (.node .deleteUsing (.seq .take (commaList .tableRef))),
       opt (isKey .WHERE) (.call .whereClause)]
  | .createStmt =>
    .branch viewAhead (.call .createView)
    (.branch (.not tableAhead) (.call .otherStmt)
    (.branch (.outside (.keyword .AS)) (.call .createTableAs)
    (.branch (.outside .lparen) (.call .createTable) (.call .otherStmt))))
  | .createHead => all
      [key .CREATE, optKey [.LOCAL], optKey [.TEMP, .TEMPORARY], key .TABLE,
       opt (isKey .IF) (all [.take, key .NOT, key .EXISTS]), .call .qualifiedName]
  | .createTableAs =>
    .node .createTableAsStmt (all
      [.call .createHead, opt (is .lparen) (.call .columnList),
       .branch (isKey .AS) .done (.node .tableAttributes (.swallow (some (.keyword .AS)))),
       key .AS, .call .query])
  | .createTable =>
    .node .createTableStmt (all
      [.call .createHead, .node .columnDefinitions (parens (.swallow none)),
       .branch statementEnd .done (.node .tableAttributes (.swallow none))])
  | .createView =>
    .node .createViewStmt (all
      [key .CREATE, opt (isKey .OR) (.seq .take (key .REPLACE)), optKey [.MATERIALIZED], key .VIEW,
       .call .qualifiedName, opt (is .lparen) (.call .columnList),
       .branch (isKey .AS) .done (.node .viewOptions (.swallow (some (.keyword .AS)))),
       key .AS, .call .query,
       opt (.both (isKey .WITH) (nextKey .NO)) (.node .viewOptions (.swallow none))])
  | .alterRename =>
    .node .alterRenameStmt (all
      [key .ALTER, key .TABLE, .call .qualifiedName, key .RENAME, key .TO, name,
       .branch statementEnd .done (.fail .unexpected)])
  | .dropStmt =>
    .node .dropStmt (all
      [key .DROP,
       .branch (isAnyKey [.TABLE, .VIEW]) .take
         (.branch (isKey .MATERIALIZED) (.seq .take (key .VIEW)) (.fail .unexpected)),
       opt (isKey .IF) (.seq .take (key .EXISTS)),
       commaList .qualifiedName, optKey [.CASCADE, .RESTRICT]])
  -- Names
  | .qualifiedName => .node .qualifiedName (.seq name (.loop dotLabel two))
  | .nameList => .node .nameList (.seq name (.loop (is .comma) (.seq .take name)))
  | .columnList => .node .columnList (parens (.call .nameList))
  -- Queries
  | .query => .node .selectStmt (.seq (opt (isKey .WITH) (.call .withClause)) (.call .queryRest))
  | .queryRest => all
      [.call .selectClause, opt (isKey .ORDER) (.call .sortClause),
       .branch (isKey .LIMIT)
         (.seq (.call .limitClause) (opt (isKey .OFFSET) (.call .offsetClause)))
         (opt (isKey .OFFSET) (.seq (.call .offsetClause) (opt (isKey .LIMIT) (.call .limitClause))))]
  | .parenQuery =>
    .node .selectWithParens (parens
      (.branch (is .lparen)
        (.attempt (.seq (.call .parenQuery) (.branch (is .rparen) .done (.fail .unexpected))) (.call .query))
        (.call .query)))
  | .withClause => .node .withClause (all [key .WITH, optKey [.RECURSIVE], commaList .cte])
  | .cte =>
    .node .commonTableExpr (all
      [name, opt (is .lparen) (.call .columnList), key .AS, .call .parenQuery])
  | .selectClause =>
    .node .selectClause (.seq (.call .intersectTerm)
      (.loop (isAnyKey [.UNION, .EXCEPT, .MINUS]) (.seq (.call .setOperator) (.call .intersectTerm))))
  | .intersectTerm =>
    .node .simpleSelectIntersect (.seq (.call .selectPrimary)
      (.loop (isKey .INTERSECT) (.seq (.call .setOperator) (.call .selectPrimary))))
  | .setOperator => .node .setOperator (.seq .take (optKey [.ALL, .DISTINCT]))
  | .selectPrimary =>
    .branch (isKey .SELECT) (.call .simpleSelect)
    (.branch (isKey .VALUES) (.call .valuesClause)
    (.branch (is .lparen) (.call .parenQuery) (.fail .noQuery)))
  | .simpleSelect =>
    let distinct : Production :=
      .branch (isKey .ALL) .take
        (opt (isKey .DISTINCT) (.seq .take (opt (isKey .ON) (.seq .take (parens (.call .exprList))))))
    .node .simpleSelect (all
      [key .SELECT,
       .branch (isKey .TOP) (.seq (.call .topClause) distinct) (.seq distinct (opt (isKey .TOP) (.call .topClause))),
       .call .targetList,
       opt (isKey .INTO) (.call .intoClause),
       opt (isKey .FROM) (.call .fromClause),
       opt (isKey .WHERE) (.call .whereClause),
       opt (isKey .GROUP) (.call .groupClause),
       opt (isKey .HAVING) (.call .havingClause),
       opt (isKey .QUALIFY) (.call .qualifyClause),
       opt (isKey .WINDOW) (.call .windowClause)])
  | .topClause => .node .topClause (.seq (key .TOP) (.branch (is .lparen) (.call .orExpr) (tok .number)))
  | .targetList => .node .targetList (commaList .target)
  | .target =>
    .branch (.either (is .star) .star)
      (.node .targetStar (.seq (.loop (.not (is .star)) .take) .take))
      (.node .targetLabel (.seq (.call .orExpr)
        (.branch (isKey .AS) (.seq .take (.need .label .noName)) (opt (.ahead 0 .name) .take))))
  | .intoClause =>
    .node .intoClause (all [key .INTO, optKey [.TEMP, .TEMPORARY], optKey [.TABLE], .call .qualifiedName])
  | .valuesClause => .node .valuesClause (.seq (key .VALUES) (commaList .valuesRow))
  | .valuesRow => .node .valuesRow (parens (.call .exprList))
  | .whereClause => .node .whereClause (.seq (key .WHERE) (.call .orExpr))
  | .groupClause =>
    .node .groupClause (all [key .GROUP, key .BY, optKey [.ALL, .DISTINCT], commaList .groupItem])
  | .groupItem => .seq
      (opt (.both (.ahead 0 (.word "grouping")) (.ahead 1 (.word "sets"))) two)
      (.branch (.both (is .lparen) (next .rparen)) two (.call .orExpr))
  | .havingClause => .node .havingClause (.seq .take (.call .orExpr))
  | .qualifyClause => .node .qualifyClause (.seq .take (.call .orExpr))
  | .windowClause => .node .windowClause (.seq (key .WINDOW) (commaList .windowDefinition))
  | .windowDefinition => .node .windowDefinition (all [name, key .AS, .call .windowSpec])
  | .sortClause => .node .sortClause (all [key .ORDER, key .BY, commaList .sortBy])
  | .sortBy =>
    .node .sortBy (all
      [.call .orExpr, optKey [.ASC, .DESC],
       opt (isKey .NULLS) (.seq .take (.branch (isKey .FIRST) .take (key .LAST)))])
  | .limitClause => .node .limitClause (.seq (key .LIMIT) (.branch (isKey .ALL) .take (.call .orExpr)))
  | .offsetClause =>
    .node .offsetClause (all
      [key .OFFSET, .call .orExpr, opt (.either (.ahead 0 (.word "row")) (isKey .ROWS)) .take])
  -- From
  | .fromClause => .node .fromClause (.seq (key .FROM) (commaList .tableRef))
  | .tableRef => .node .tableRef (.seq (.call .tableSource) (.loop (isAnyKey joinWords) (.call .join)))
  | .tablePrimary => .node .tableRef (.call .tableSource)
  | .tableSource => .seq
      (.branch (is .lparen) (queryOr (.call .nestedTable)) (.node .relationExpr (.call .qualifiedName)))
      (.call .aliasPart)
  | .nestedTable => .node .nestedTableRef (parens (.call .tableRef))
  | .aliasPart =>
    opt (.either (isKey .AS) (.ahead 0 .name))
      (.node .aliasClause (all [optKey [.AS], name, opt (is .lparen) (.call .columnList)]))
  | .join =>
    .branch (isKey .CROSS) (.node .crossJoin (all [.take, key .JOIN, .call .tablePrimary]))
    (.branch (isKey .NATURAL)
      (.node .naturalJoin (all [.take, .call .joinType, key .JOIN, .call .tablePrimary]))
      (.node .qualifiedJoin (all
        [.call .joinType, key .JOIN, .call .tablePrimary,
         .branch (isKey .ON) (.node .joinOn (.seq .take (.call .orExpr)))
         (.branch (isKey .USING) (.node .joinUsing (.seq .take (parens (.call .nameList))))
           (.fail (.expected "ON or USING")))])))
  | .joinType =>
    .branch (isKey .INNER) (.node .joinType .take)
      (opt (isAnyKey [.LEFT, .RIGHT, .FULL]) (.node .joinType (.seq .take (optKey [.OUTER]))))
  -- Levels of expressions
  | .orExpr => .node .aExprOr (folding .andExpr [.keyword .OR])
  | .andExpr => .node .aExprAnd (folding .betweenExpr [.keyword .AND])
  | .betweenExpr =>
    .node .aExprBetween (.seq (.call .inExpr)
      (opt (negatable [.BETWEEN]) (all
        [optKey [.NOT], .take, optKey [.SYMMETRIC], .call .inExpr, key .AND, .call .inExpr])))
  | .inExpr =>
    .node .aExprIn (.seq (.call .notExpr)
      (opt (negatable [.IN]) (all [optKey [.NOT], .take, .call .inSource])))
  | .inSource => .branch (is .lparen) (queryOr (.call .inList)) (.fail (.expected "("))
  | .inList => .node .inList (parens (.call .exprList))
  | .notExpr => .node .aExprUnaryNot (.branch (isKey .NOT) (.seq .take (.call .notExpr)) (.call .isNullExpr))
  | .isNullExpr => .node .aExprIsNull (.seq (.call .isExpr) (.loop (isAnyKey [.ISNULL, .NOTNULL]) .take))
  | .isExpr =>
    .node .aExprIsNot (.seq (.call .compareExpr)
      (.loop (isKey .IS) (all
        [.take, optKey [.NOT],
         .branch (isAnyKey [.NULL, .TRUE, .FALSE, .UNKNOWN]) .take
         (.branch (isKey .DISTINCT) (all [.take, key .FROM, .call .compareExpr])
           (.fail (.expected "NULL, TRUE, FALSE, UNKNOWN or DISTINCT FROM")))])))
  | .compareExpr =>
    .node .aExprCompare (.seq (.call .likeExpr)
      (opt (isAny comparisons) (.seq .take
        (.branch (.both (isAnyKey [.ANY, .ALL, .SOME]) (next .lparen)) (.call .quantifier) (.call .likeExpr)))))
  | .quantifier => .node .subqueryQuantifier (.seq .take (queryOr (parens (.call .orExpr))))
  | .likeExpr =>
    let pattern : Production :=
      .seq (.call .qualOpExpr) (opt (isKey .ESCAPE) (.seq .take (.call .qualOpExpr)))
    .node .aExprLike (.seq (.call .qualOpExpr)
      (.branch (negatable [.LIKE, .ILIKE]) (all [optKey [.NOT], .take, pattern])
        (opt (negatable [.SIMILAR]) (all [optKey [.NOT], .take, key .TO, pattern]))))
  | .qualOpExpr =>
    .node .aExprQualOp (.seq (.call .prefixOpExpr)
      (.loop qualOpAhead (.seq (.call .qualOp) (.call .prefixOpExpr))))
  | .prefixOpExpr => .node .aExprUnaryQualOp (.seq (opt qualOpAhead (.call .qualOp)) (.call .addExpr))
  | .qualOp =>
    .node .qualOp (.branch (is .op) .take (all
      [key .OPERATOR, tok .lparen, .loop (.both (.ahead 0 .label) (next .dot)) two,
       .need .sign (.expected "operator"), tok .rparen]))
  | .addExpr => .node .aExprAdd (folding .mulExpr [.plus, .minus])
  | .mulExpr => .node .aExprMul (folding .caretExpr [.star, .slash, .percent])
  | .caretExpr => .node .aExprCaret (folding .signExpr [.caret])
  | .signExpr =>
    .node .aExprUnarySign (.branch (isAny [.plus, .minus]) (.seq .take (.call .signExpr)) (.call .timeZoneExpr))
  | .timeZoneExpr =>
    .node .aExprAtTimeZone (.seq (.call .collateExpr)
      (.loop (.both (isKey .AT) (nextKey .TIME)) (all [two, key .ZONE, .call .collateExpr])))
  | .collateExpr =>
    .node .aExprCollate (.seq (.call .castExpr) (opt (isKey .COLLATE) (.seq .take (.call .anyName))))
  | .castExpr =>
    .node .aExprTypecast (.seq (.call .primary) (.loop (is .typecast) (.seq .take (.call .typename))))
  -- Parts of expressions
  | .anyName =>
    .node .anyName (.branch (is .string) .take
      (.seq (.need .label (.expected "name")) (.loop dotLabel two)))
  | .typename =>
    .node .typename (all
      [.need .label (.expected "type name"), .loop dotLabel two,
       .loop (.ahead 0 (.amongWords typeWords)) .take,
       opt (is .lparen) (parens (.call .exprList)),
       opt (.both (.either (isKey .WITH) (.ahead 0 (.word "without"))) (nextKey .TIME)) (.seq two (key .ZONE)),
       .loop (.both (is .lbracket) (next .rbracket)) two])
  | .exprList => .node .exprList (commaList .orExpr)
  -- Primary expressions
  | .primary =>
    .branch (isAny [.number, .string, .keyword .TRUE, .keyword .FALSE, .keyword .NULL, .keyword .DEFAULT])
      (.call .constant)
    (.branch (is .param) (.node .param .take)
    (.branch (isKey .CASE) (.call .caseExpr)
    (.branch (isKey .CAST) (.call .castFunc)
    (.branch (is .lparen) (.call .parenPrimary)
    (.branch (.both (isKey .EXISTS) (next .lparen)) (.node .existsExpr (.seq .take (.call .parenQuery)))
    (.branch (.both (isKey .EXTRACT) (next .lparen)) (.call .extractFunc)
    (.branch (.both (isKey .POSITION) (next .lparen)) (.call .positionFunc)
    (.branch (.both (isAnyKey [.SUBSTRING, .TRIM]) (next .lparen)) (.call .plainFunc)
    (.branch (.both (.ahead 0 (.amongWords bareFunctions)) (.not (next .lparen))) (.node .commonFuncCall .take)
    (.branch .funcCall (.call .funcCall)
    (.branch (.both (.ahead 0 .bareName) (next .string)) (.call .typedConstant)
    (.branch (.ahead 0 .name) (.call .columnRef)
      (.fail .noExpression)))))))))))))
  | .constant => .node .constant .take
  | .parenPrimary => .branch .query (.attempt (.call .selectExpr) (.call .rowOrParen)) (.call .rowOrParen)
  | .selectExpr =>
    .node .selectExpr (.seq (.call .parenQuery) (opt (isAny [.dot, .lbracket]) (.call .indirection)))
  | .rowOrParen =>
    .group (all
      [tok .lparen, .call .orExpr,
       .branch (is .comma)
         (.wrap .implicitRow (.seq (.loop (is .comma) (.seq .take (.call .orExpr))) (tok .rparen)))
         (.wrap .parenExpr (tok .rparen))])
  | .indirection =>
    .node .indirection (.loop (.either dotLabel (is .lbracket))
      (.branch (is .lbracket)
        (all [.take, .call .orExpr, opt (is .colon) (.seq .take (.call .orExpr)), tok .rbracket])
        two))
  | .columnRef =>
    .node .columnRef (all
      [.take, .loop (.either dotLabel (is .lbracket)) (.branch (is .lbracket) (.call .indirection) two),
       opt (.both (is .dot) (next .star)) two])
  | .caseExpr =>
    .node .caseExpr (all
      [key .CASE, .branch (isKey .WHEN) .done (.call .orExpr),
       .branch (isKey .WHEN) (.loop (isKey .WHEN) (.call .whenClause)) (.fail (.expected "WHEN")),
       opt (isKey .ELSE) (.node .elseClause (.seq .take (.call .orExpr))),
       key .END])
  | .whenClause => .node .whenClause (all [.take, .call .orExpr, key .THEN, .call .orExpr])
  | .castFunc =>
    .node .castFunc (.seq (key .CAST) (parens (all [.call .orExpr, key .AS, .call .typename])))
  | .extractFunc =>
    .node .commonFuncCall (.seq .take (parens (.seq
      (opt (.both (.either (.ahead 0 .label) (is .string)) (nextKey .FROM)) .take)
      (.loop (.not (is .rparen)) (.branch (isAny argumentMarks) .take (.call .orExpr))))))
  | .positionFunc =>
    let marks := isAny (.keyword .IN :: argumentMarks)
    .node .commonFuncCall (.seq .take (parens (.seq
      (.branch (is .rparen) .done (.branch marks .take (.call .notExpr)))
      (.loop (.not (is .rparen)) (.branch marks .take (.call .orExpr))))))
  | .plainFunc =>
    .node .commonFuncCall (.seq .take (parens
      (.loop (.not (is .rparen)) (.branch (isAny argumentMarks) .take (.call .orExpr)))))
  | .funcCall =>
    .node .funcCall (all
      [.node .funcName (.seq .take (.loop dotLabel two)),
       .call .funcArgs,
       opt (isKey .WITHIN) (.node .withinGroup (all [.take, key .GROUP, parens (.call .sortClause)])),
       opt (.both (isKey .FILTER) (next .lparen))
         (.node .filterClause (all [two, key .WHERE, .call .orExpr, tok .rparen])),
       .call .nullTreatment,
       opt (isKey .OVER) (.call .overClause)])
  | .funcArgs =>
    .node .funcArgs (parens (all
      [optKey [.ALL, .DISTINCT],
       .branch (is .star) .take (.branch (is .rparen) .done (.call .exprList)),
       opt (isKey .ORDER) (.call .sortClause),
       .call .nullTreatment]))
  | .nullTreatment =>
    opt (.both (isAnyKey [.IGNORE, .RESPECT]) (nextKey .NULLS)) (.node .nullTreatment two)
  | .overClause => .node .overClause (.seq (key .OVER) (.branch (is .lparen) (.call .windowSpec) name))
  | .windowSpec =>
    .node .windowSpec (parens (all
      [opt (.both (.ahead 0 .name) (.not (isAnyKey [.PARTITION, .ROWS, .RANGE]))) .take,
       opt (isKey .PARTITION) (.node .partitionClause (all [.take, key .BY, .call .exprList])),
       opt (isKey .ORDER) (.call .sortClause),
       opt (isAnyKey [.ROWS, .RANGE]) (.node .frameClause (.swallow none))]))
  | .typedConstant => .node .typedConstant (.seq (.call .typename) (tok .string))

/-- Bounds how many productions can be entered between two tokens. -/
def count : Nat := 128

end Symbol
end TableLineage.Grammar
