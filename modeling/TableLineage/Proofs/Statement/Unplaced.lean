import TableLineage.Statement.Phrase

/-! Phrases without their places. Two phrases that are the same once their ranges are taken off
differ in nothing but where they were read. -/
namespace TableLineage.Phrase

/-- The phrase with all ranges of source text taken off. -/
def unplaced {c : Category} : Phrase c → Phrase c
  | .none => .none
  | .some x => .some x.unplaced
  | .nil => .nil
  | .cons x xs => .cons x.unplaced xs.unplaced
  -- Statements
  | .select q => .select q.unplaced
  | .insert _ w t q d => .insert .none w.unplaced { t with span := .none } q.unplaced d
  | .delete _ w t us f => .delete .none w.unplaced { t with span := .none } us.unplaced f.unplaced
  | .createTableAs _ n t e cs a q => .createTableAs .none n t e cs a q.unplaced
  | .createView _ n r m cs o q => .createView .none n r m cs o q.unplaced
  | .createTable _ n t e ds a => .createTable .none n t e ds a
  | .alterRename _ n m => .alterRename .none n m
  | .drop _ k ns e b => .drop .none k ns e b
  -- Queries
  | .query _ w b o l f => .query .none w.unplaced b.unplaced o.unplaced l.unplaced f.unplaced
  | .withs _ r ts => .withs .none r ts.unplaced
  | .cte _ n cs q => .cte .none n cs q.unplaced
  | .core _ d on top ts into src f g h q ws =>
    .core .none d on.unplaced top.unplaced ts.unplaced (into.map fun i => { i with span := .none }) src.unplaced
      f.unplaced g.unplaced h.unplaced q.unplaced ws.unplaced
  | .combine _ op k l r => .combine .none op k l.unplaced r.unplaced
  | .values _ rows => .values .none rows.unplaced
  | .nested _ q => .nested .none q.unplaced
  | .star _ q => .star .none q
  | .labelled _ e a => .labelled .none e.unplaced a
  | .sort _ items => .sort .none items.unplaced
  | .sortItem _ e o n => .sortItem .none e.unplaced o n
  | .windowDef _ n w => .windowDef .none n w.unplaced
  | .window _ n p o f => .window .none n p.unplaced o.unplaced (f.map fun f => { f with span := .none })
  | .overName _ n => .overName .none n
  | .overWindow w => .overWindow w.unplaced
  -- Sources
  | .sources _ items => .sources .none items.unplaced
  | .sourceItem _ s js => .sourceItem .none s.unplaced js.unplaced
  | .table t => .table { t with span := .none }
  | .subquery _ q a => .subquery .none q.unplaced a
  | .parens _ i a => .parens .none i.unplaced a
  | .crossJoin _ t => .crossJoin .none t.unplaced
  | .qualifiedJoin _ k o n t c => .qualifiedJoin .none k o n t.unplaced c.unplaced
  | .joinOn _ e => .joinOn .none e.unplaced
  | .joinUsing _ cs => .joinUsing .none cs
  -- Expressions
  | .hole => .hole
  | .binary _ l op r => .binary .none l.unplaced op r.unplaced
  | .unary _ op e => .unary .none op e.unplaced
  | .between _ t l u n s => .between .none t.unplaced l.unplaced u.unplaced n s
  | .within _ t s n => .within .none t.unplaced s.unplaced n
  | .inValues _ xs => .inValues .none xs.unplaced
  | .inQuery _ q => .inQuery .none q.unplaced
  | .like _ t p op n e => .like .none t.unplaced p.unplaced op n e.unplaced
  | .quantifiedQuery _ k q => .quantifiedQuery .none k q.unplaced
  | .quantifiedExpr _ k e => .quantifiedExpr .none k e.unplaced
  | .collate _ e c => .collate .none e.unplaced c
  | .cast _ e t => .cast .none e.unplaced t
  | .nonempty _ q => .nonempty .none q.unplaced
  | .scalar _ q fs xs => .scalar .none q.unplaced fs xs.unplaced
  | .column _ ns s xs => .column .none ns s xs.unplaced
  | .constant _ k x t => .constant .none k x t
  | .row _ xs => .row .none xs.unplaced
  | .choice _ x ws e => .choice .none x.unplaced ws.unplaced e.unplaced
  | .when _ c r => .when .none c.unplaced r.unplaced
  | .call _ n xs a d s t o g f v =>
    .call .none n xs.unplaced a d s t o.unplaced g.unplaced f.unplaced v.unplaced
  | .special _ x xs => .special .none x xs.unplaced

end TableLineage.Phrase
