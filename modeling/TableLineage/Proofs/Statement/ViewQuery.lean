import TableLineage.Proofs.Statement.ViewExpr

/-! Queries and statements under a view. A tree and what is seen of it read alike, so lineage cannot tell
trees that look the same; and a firm tree is read as a complete phrase or refused. -/
namespace TableLineage

open List
open Phrase (Alike Complete Twin)

namespace Opened

variable {firm : Prop} {v : Grammar.View}

theorem tally_joins {ks ks' : List Kid} (kids : List.Forall₂ (Kid.Seen firm v) ks ks') :
    Tally firm (joins ks) (joins ks') := by
  induction kids with
  | nil => exact .ok ⟨.nil, fun _ => trivial⟩
  | @cons k k' ks ks' pair _ ih =>
    have both : Tally firm (k.read .join >>= fun j => joins ks >>= fun js => .ok (.cons j js))
        (k'.read .join >>= fun j => joins ks' >>= fun js => .ok (.cons j js)) :=
      (pair.read .join rfl).bind fun _ _ one => ih.bind fun _ _ rest =>
        .ok ⟨.cons one.1 rest.1, fun f => ⟨one.2 f, rest.2 f⟩⟩
    rw [joins, joins, pair.tree, Tree.rule?_seen]
    split
    case h_1 => exact ih
    case h_5 => exact .refused
    all_goals exact both

theorem inStep_joinType (t : Tree) (steady : firm → ∀ c ∈ t.children, c.isAbrupt = false) :
    InStep firm Eq (joinType t) (joinType (t.seen v)) := by
  unfold joinType
  rw [Tree.child?_seen]
  cases found : t.child? .joinType with
  | none => exact .ok rfl
  | some jt =>
    obtain ⟨member, rule⟩ := Tree.mem_of_child? found
    simp only [Option.map_some, Tree.children_seen, Tree.has_seen]
    cases none : jt.children with
    | nil => exact .failed fun f => Tree.children_ne_nil_of_not_abrupt (steady f jt member) rule rfl none
    | cons c cs =>
      simp only [map_cons, Tree.kind_seen]
      cases joinType? _ with
      | none => exact .refused
      | some => exact .ok rfl

theorem tally_combine {op : Tree} (some : firm → op.children ≠ []) {left left' right right' : Phrase .body}
    (first : left.Twin firm left') (second : right.Twin firm right') :
    Tally firm (combine op left right) (combine (op.seen v) left' right') := by
  unfold combine
  simp only [Tree.children_seen, Tree.has_seen]
  cases none : op.children with
  | nil => exact .failed fun f => some f none
  | cons c cs =>
    simp only [map_cons, Tree.kind_seen]
    cases setOp? _ with
    | none => exact .refused
    | some => exact .ok ⟨.combine first.1 second.1, fun f => ⟨first.2 f, second.2 f⟩⟩

theorem tally_unionOperand {k k' : Kid} (pair : k.Seen firm v k') : Tally firm (unionOperand k) (unionOperand k') := by
  rw [unionOperand, unionOperand, pair.tree, Tree.hasRule_seen]
  split
  · exact pair.read .body rfl
  · exact .refused

theorem tally_intersectOperand {k k' : Kid} (pair : k.Seen firm v k') :
    Tally firm (intersectOperand k) (intersectOperand k') := by
  unfold intersectOperand
  rw [pair.tree, Tree.rule?_seen]
  split
  case h_4 => exact .refused
  all_goals exact pair.read .body rfl

namespace Seen

variable {o o' : Opened} (seen : o.Seen firm v o')

include seen

/-! ### Order and windows -/

theorem sortItem : Tally firm o.sortItem o'.sortItem := by
  refine (seen.firstExpr "sort item").bind fun _ _ twin => ?_
  simp only [seen.has]
  exact .ok ⟨.sortItem twin.1, twin.2⟩

theorem sort : Tally firm o.sort o'.sort := by
  unfold Opened.sort
  rw [seen.rule?]
  split
  · exact seen.needed .sortClause "within group" .sort fun _ => rfl
  · exact (seen.each .sortBy .sortItem fun _ _ => rfl).bind fun _ _ items => .ok ⟨.sort items.1, items.2⟩

theorem window : Tally firm o.window o'.window := by
  -- The name is the second child; both sides find it by the same cases.
  rcases children : o.tree.children with _ | ⟨_, _ | ⟨c, _⟩⟩ <;>
  · simp only [Opened.window, seen.tree, seen.mode, Tree.children_seen, children, map_nil, map_cons,
      Tree.isLeaf_seen, Tree.is_seen, Tree.token_seen, seen.names _, Tree.child?_seen, Option.map_map]
    generalize o.kid? .partitionClause = x, o'.kid? .partitionClause = y, seen.kid? .partitionClause = both
    cases both with
    | none =>
      refine (seen.optional .sortClause .sort fun _ _ => rfl).bind fun _ _ order => ?_
      exact .ok ⟨.window .nil order.1 (by simp), fun f => ⟨trivial, order.2 f⟩⟩
    | some pair =>
      refine (pair.read _ rfl).bind fun _ _ parts => ?_
      refine (seen.optional .sortClause .sort fun _ _ => rfl).bind fun _ _ order => ?_
      exact .ok ⟨.window parts.1 order.1 (by simp), fun f => ⟨parts.2 f, order.2 f⟩⟩

theorem windowDef (rule : o.tree.hasRule .windowDefinition) : Tally firm o.windowDef o'.windowDef := by
  unfold Opened.windowDef
  generalize none : o.kids = ks, o'.kids = ks', seen.kids = kids
  cases kids with
  | nil => exact seen.childless (Tree.hasRule_iff.1 rule) rfl none
  | cons pair _ =>
    refine seen.through .windowSpec "window definition" (fun _ => rfl) fun _ _ twin => ?_
    rw [pair.tree, seen.mode, Tree.token_seen, seen.names _]
    exact .ok ⟨.windowDef twin.1, twin.2⟩

theorem overClause (rule : o.tree.hasRule .overClause) : Tally firm o.overClause o'.overClause := by
  unfold Opened.overClause
  generalize o.kid? .windowSpec = x, o'.kid? .windowSpec = y, seen.kid? .windowSpec = both
  cases both with
  | some pair => exact (pair.read .window rfl).bind fun _ _ twin => .ok ⟨.overWindow twin.1, twin.2⟩
  | none =>
    have last : Option.Rel (Kid.Seen firm v) o.kids.getLast? o'.kids.getLast? := by
      rw [← head?_reverse, ← head?_reverse]
      generalize o.kids.reverse = ks, o'.kids.reverse = ks', rel_reverse seen.kids = kids
      cases kids with
      | nil => exact .none
      | cons pair _ => exact .some pair
    dsimp only
    generalize none : o.kids.getLast? = x, o'.kids.getLast? = y at last
    cases last with
    | none => exact seen.childless (Tree.hasRule_iff.1 rule) rfl (getLast?_eq_none_iff.1 none)
    | some pair =>
      simp only [pair.tree, seen.mode, Tree.token_seen, seen.names _]
      exact .ok ⟨.overName, fun _ => trivial⟩

/-! ### Sources -/

theorem source {k k' : Kid} (pair : k.Seen firm v k') : Tally firm (o.source k) (o'.source k') := by
  unfold Opened.source
  simp only [pair.tree, seen.tree, seen.mode, Tree.rule?_seen, seen.names.aliasName]
  split
  · refine (Tree.need_seen _ _ _).bind fun _ _ name => ?_
    rw [name, seen.names.qualifiedName]
    exact .ok ⟨.table, fun _ => trivial⟩
  · exact (pair.read .query rfl).bind fun _ _ query => .ok ⟨.subquery query.1, query.2⟩
  · exact (pair.read .sourceItem rfl).bind fun _ _ item => .ok ⟨.parens item.1, item.2⟩
  · exact .refused

theorem sourceItem : Tally firm o.sourceItem o'.sourceItem := by
  unfold Opened.sourceItem
  rw [seen.rule?]
  split
  · exact seen.needed .tableRef "parenthesized join" .sourceItem fun _ => rfl
  · generalize o.nodes = ks, o'.nodes = ks', seen.nodes = kids
    cases kids with
    | nil => exact .refused
    | cons pair rest =>
      exact (seen.source pair).bind fun _ _ first => (tally_joins rest).bind fun _ _ others =>
        .ok ⟨.sourceItem first.1 others.1, fun f => ⟨first.2 f, others.2 f⟩⟩

theorem condition : Tally firm o.condition o'.condition := by
  have columns : ((o'.tree.child? .nameList).map o'.mode.nameList).getD [] =
      ((o.tree.child? .nameList).map o.mode.nameList).getD [] := by
    rw [seen.tree, seen.mode, Tree.child?_seen, Option.map_map, Function.comp_def]
    simp only [seen.names.nameList]
  unfold Opened.condition
  rw [seen.rule?, columns]
  split
  · exact .ok ⟨.joinUsing, fun _ => trivial⟩
  · exact (seen.firstExpr "join condition").bind fun _ _ twin => .ok ⟨.joinOn twin.1, twin.2⟩

theorem join : Tally firm o.join o'.join := by
  refine seen.through .tableRef "join" (fun _ => rfl) fun _ _ joined => ?_
  simp only [seen.tree, Tree.hasRule_seen]
  split
  · exact .ok ⟨.crossJoin joined.1, joined.2⟩
  · refine (inStep_joinType o.tree seen.steady_of_mem).bind ?_
    rintro ⟨type, outer⟩ _ rfl
    have either : Option.Rel (Kid.Seen firm v) ((o.kid? .joinOn).or (o.kid? .joinUsing))
        ((o'.kid? .joinOn).or (o'.kid? .joinUsing)) := by
      generalize o.kid? .joinOn = x, o'.kid? .joinOn = y, seen.kid? .joinOn = both
      cases both with
      | none => exact seen.kid? .joinUsing
      | some on => exact .some on
    dsimp only
    generalize (o.kid? .joinOn).or _ = x, (o'.kid? .joinOn).or _ = y at either
    cases either with
    | some pair =>
      refine (pair.read .condition rfl).bind fun _ _ condition => ?_
      exact .ok ⟨.qualifiedJoin joined.1 (.some condition.1), fun f => ⟨fun _ => rfl, joined.2 f, condition.2 f⟩⟩
    | none =>
      dsimp only
      split
      · next natural =>
        exact .ok ⟨.qualifiedJoin joined.1 .none, fun f => ⟨fun other => by simp [natural] at other, joined.2 f, trivial⟩⟩
      · exact .refused

theorem sources : Tally firm o.sources o'.sources :=
  (seen.each .tableRef .sourceItem fun _ _ => rfl).bind fun _ _ items => .ok ⟨.sources items.1, items.2⟩

/-! ### Select clauses -/

omit seen in
theorem foldBodies {operand : Kid → Outcome (Phrase .body)}
    (operands : ∀ k k', k.Seen firm v k' → Tally firm (operand k) (operand k')) {ks ks' : List Kid}
    (kids : List.Forall₂ (Kid.Seen firm v) ks ks') {left left' : Option (Phrase .body)}
    (twins : Option.Rel (Twin firm) left left') (op : Option Tree) (steady : firm → ∀ t ∈ op, t.children ≠ []) :
    Tally firm (o.foldBodies operand ks left op) (o'.foldBodies operand ks' left' (op.map (Tree.seen v))) := by
  induction kids generalizing left left' op with
  | nil =>
    cases twins with
    | none => exact .refused
    | some inner => exact .ok inner
  | @cons k k' _ _ pair _ ih =>
    rw [Opened.foldBodies, Opened.foldBodies, pair.tree, Tree.hasRule_seen]
    split
    · next rule =>
      refine ih twins (some k.tree) fun f => ?_
      simpa using Tree.children_ne_nil_of_not_abrupt (pair.steady f) (Tree.hasRule_iff.1 rule) rfl
    · refine (operands _ _ pair).bind fun right right' second => ?_
      cases twins with
      | none => exact ih (.some second) op steady
      | some inner =>
        cases op with
        | none => exact .refused
        | some op =>
          refine (tally_combine (fun f => steady f op rfl) inner second).bind fun _ _ both => ?_
          exact ih (.some both) none (by simp)

theorem into : InStep firm (fun i i' => i.map (fun i => (i.name, i.temporary)) = i'.map fun i => (i.name, i.temporary))
    o.into o'.into := by
  unfold Opened.into
  rw [seen.tree, seen.mode, Tree.child?_seen]
  cases o.tree.child? .intoClause with
  | none => exact .ok rfl
  | some t =>
    refine (Tree.need_seen t _ _).bind fun _ _ name => .ok ?_
    simp [name, seen.names.qualifiedName]

theorem core : Tally firm o.core o'.core := by
  have distinct {f f' : Phrase (.many .expr) → Outcome (Phrase .body)}
      (rest : ∀ p p', p.Twin firm p' → Tally firm (f p) (f' p')) (b : Bool) :
      Tally firm (if b then o.listed >>= f else .ok .nil >>= f) (if b then o'.listed >>= f' else .ok .nil >>= f') := by
    split
    · exact seen.listed.bind rest
    · exact rest _ _ ⟨.nil, fun _ => trivial⟩
  unfold Opened.core
  simp only [seen.has]
  refine distinct (fun _ _ on => ?_) _
  refine (seen.optional .topClause .expr fun _ _ => rfl).bind fun _ _ top => ?_
  refine seen.through .targetList "select" (fun _ => rfl) fun _ _ targets => ?_
  refine seen.into.bind fun _ _ into => ?_
  refine (seen.optional .fromClause .sources fun _ _ => rfl).bind fun _ _ sources => ?_
  refine (seen.optional .whereClause .expr fun _ _ => rfl).bind fun _ _ filter => ?_
  refine (seen.manyOf .groupClause .expr fun _ => rfl).bind fun _ _ group => ?_
  refine (seen.optional .havingClause .expr fun _ _ => rfl).bind fun _ _ having => ?_
  refine (seen.optional .qualifyClause .expr fun _ _ => rfl).bind fun _ _ qualify => ?_
  refine (seen.manyOf .windowClause .windowDef fun _ => rfl).bind fun _ _ windows => ?_
  exact .ok ⟨.core on.1 top.1 targets.1 into sources.1 filter.1 group.1 having.1 qualify.1 windows.1, fun f =>
    ⟨on.2 f, top.2 f, targets.2 f, sources.2 f, filter.2 f, group.2 f, having.2 f, qualify.2 f, windows.2 f⟩⟩

theorem target : Tally firm o.target o'.target := by
  unfold Opened.target
  rw [seen.rule?]
  split
  · simp only [seen.tree, seen.mode, Tree.children_seen, filter_map, map_map, Function.comp_def,
      Tree.is_seen, Tree.token_seen, seen.names _]
    exact .ok ⟨.star, fun _ => trivial⟩
  · next rule =>
    rw [seen.tree, seen.mode, Tree.children_seen, getLast?_map]
    cases none : o.tree.children.getLast? with
    | none =>
      exact .failed fun f =>
        Tree.children_ne_nil_of_not_abrupt (seen.steady f) rule rfl (getLast?_eq_none_iff.1 none)
    | some c =>
      refine (seen.firstExpr "target").bind fun _ _ twin => ?_
      simp only [Tree.isLeaf_seen, Tree.is_seen, Tree.token_seen, seen.names _]
      exact .ok ⟨.labelled twin.1, twin.2⟩
  · exact .refused

theorem values : Tally firm o.values o'.values :=
  (seen.each .valuesRow (.many .expr) fun _ _ => rfl).bind fun _ _ rows => .ok ⟨.values rows.1, rows.2⟩

theorem parenthesized : Tally firm o.parenthesized o'.parenthesized := by
  unfold Opened.parenthesized
  generalize o.kid? .selectWithParens = x, o'.kid? .selectWithParens = y, seen.kid? .selectWithParens = both
  cases both with
  | some pair => exact pair.read .query rfl
  | none => exact seen.needed .selectStmt "parenthesized query" .query fun _ => rfl

theorem body : Tally firm o.body o'.body := by
  unfold Opened.body
  rw [seen.rule?]
  split
  · exact foldBodies (fun _ _ => tally_unionOperand) seen.nodes .none none (by simp)
  · exact foldBodies (fun _ _ => tally_intersectOperand) seen.nodes .none none (by simp)
  · exact seen.values
  · exact seen.parenthesized.bind fun _ _ query => .ok ⟨.nested query.1, query.2⟩
  · exact seen.core

theorem cte : Tally firm o.cte o'.cte := by
  unfold Opened.cte
  generalize o.kids = ks, o'.kids = ks', seen.kids = kids
  cases kids with
  | nil => exact .refused
  | cons pair _ =>
    simp only [pair.tree, seen.tree, seen.mode, Tree.isLeaf_seen, Tree.token_seen, seen.names _,
      seen.names.columnList]
    split
    · exact .refused
    · exact seen.through .selectWithParens _ (fun _ => rfl) fun _ _ query => .ok ⟨.cte query.1, query.2⟩

theorem withs : Tally firm o.withs o'.withs := by
  refine (seen.each .commonTableExpr .cte fun _ _ => rfl).bind fun _ _ tables => ?_
  rw [seen.has]
  exact .ok ⟨.withs tables.1, tables.2⟩

theorem limit : Tally firm o.limit o'.limit := by
  unfold Opened.limit
  generalize o.kid? .limitClause = x, o'.kid? .limitClause = y, seen.kid? .limitClause = both
  cases both with
  | none => exact .ok ⟨.none, fun _ => trivial⟩
  | some pair =>
    simp only [pair.tree, Tree.has_seen]
    split
    · exact .ok ⟨.none, fun _ => trivial⟩
    · exact (pair.read .expr rfl).bind fun _ _ twin => .ok ⟨.some twin.1, twin.2⟩

theorem query : Tally firm o.query o'.query := by
  unfold Opened.query
  rw [seen.rule?]
  split
  · exact seen.parenthesized
  · refine (seen.optional .withClause .withs fun _ _ => rfl).bind fun _ _ withs => ?_
    refine seen.through .selectClause "select statement" (fun _ => rfl) fun _ _ body => ?_
    refine (seen.optional .sortClause .sort fun _ _ => rfl).bind fun _ _ order => ?_
    refine seen.limit.bind fun _ _ limit => ?_
    refine (seen.optional .offsetClause .expr fun _ _ => rfl).bind fun _ _ offset => ?_
    exact .ok ⟨.query withs.1 body.1 order.1 limit.1 offset.1,
      fun f => ⟨withs.2 f, body.2 f, order.2 f, limit.2 f, offset.2 f⟩⟩

/-! ### Statements -/

theorem nameOf (t : Tree) (construct : String) : InStep firm Eq (o.nameOf t construct) (o'.nameOf (t.seen v) construct) := by
  refine (Tree.need_seen t _ _).bind fun _ _ name => ?_
  rw [name, seen.mode, seen.names.qualifiedName]
  exact .ok rfl

theorem ownName (construct : String) : InStep firm Eq (o.nameOf o.tree construct) (o'.nameOf o'.tree construct) := by
  rw [seen.tree]
  exact seen.nameOf o.tree construct

theorem insertTarget : InStep firm (fun t t' => ∃ span, t' = { t with span := span }) o.insertTarget o'.insertTarget := by
  unfold Opened.insertTarget
  rw [seen.tree]
  refine (Tree.need_seen _ _ _).bind ?_
  rintro t _ rfl
  refine (seen.nameOf t _).bind ?_
  rintro name _ rfl
  refine .ok ⟨(t.seen v).span, ?_⟩
  simp [seen.mode, getLast?_map, Function.comp_def, seen.names _, seen.names.columnList]

theorem insert : Tally firm o.insert o'.insert := by
  refine (seen.optional .withClause .withs fun _ _ => rfl).bind fun _ _ withs => ?_
  refine seen.insertTarget.bind ?_
  rintro target _ ⟨span, rfl⟩
  simp only [seen.tree, Tree.leaf?_seen]
  cases o.tree.leaf? (.keyword .DEFAULT) with
  | some mark => exact .ok ⟨.insert withs.1 (.query .none (.values .nil) .none .none .none), fun f =>
      ⟨withs.2 f, trivial, trivial, trivial, trivial, trivial⟩⟩
  | none =>
    exact seen.through .selectStmt "insert statement" (fun _ => rfl) fun _ _ query =>
      .ok ⟨.insert withs.1 query.1, fun f => ⟨withs.2 f, query.2 f⟩⟩

theorem delete : Tally firm o.delete o'.delete := by
  refine (seen.optional .withClause .withs fun _ _ => rfl).bind fun _ _ withs => ?_
  rw [seen.tree]
  refine (Tree.need_seen _ _ _).bind ?_
  rintro t _ rfl
  refine (seen.nameOf t _).bind ?_
  rintro name _ rfl
  refine (seen.manyOf .deleteUsing .sourceItem fun _ => rfl).bind fun _ _ others => ?_
  refine (seen.optional .whereClause .expr fun _ _ => rfl).bind fun _ _ filter => ?_
  rw [seen.mode, seen.names.aliasName]
  exact .ok ⟨.delete withs.1 others.1 filter.1, fun f => ⟨withs.2 f, others.2 f, filter.2 f⟩⟩

theorem createTableAs : Tally firm o.createTableAs o'.createTableAs := by
  refine (seen.ownName _).bind ?_
  rintro name _ rfl
  refine seen.through .selectStmt _ (fun _ => rfl) fun _ _ query => ?_
  simp only [Opened.isTemporary, seen.has, seen.mode, seen.tree, seen.names.columnList]
  exact .ok ⟨.createTableAs query.1, query.2⟩

theorem createView : Tally firm o.createView o'.createView := by
  refine (seen.ownName _).bind ?_
  rintro name _ rfl
  refine seen.through .selectStmt _ (fun _ => rfl) fun _ _ query => ?_
  simp only [seen.has, seen.mode, seen.tree, seen.names.columnList]
  exact .ok ⟨.createView query.1, query.2⟩

theorem createTable : Tally firm o.createTable o'.createTable := by
  refine (seen.ownName _).bind ?_
  rintro name _ rfl
  rw [seen.tree]
  refine (Tree.need_seen _ _ _).bind fun _ _ _ => ?_
  simp only [Opened.isTemporary, seen.has]
  exact .ok ⟨.createTable, fun _ => trivial⟩

theorem alterRename (rule : o.tree.rule? = some .alterRenameStmt) : Tally firm o.alterRename o'.alterRename := by
  have named := seen.ownName "alter table"
  rw [Opened.alterRename, Opened.alterRename]
  rw [seen.tree, seen.mode, Tree.children_seen, getLast?_map]
  cases none : o.tree.children.getLast? with
  | none =>
    exact .failed fun f =>
      Tree.children_ne_nil_of_not_abrupt (seen.steady f) rule rfl (getLast?_eq_none_iff.1 none)
  | some c =>
    rw [seen.tree] at named
    refine named.bind ?_
    rintro name _ rfl
    simp only [Tree.isLeaf_seen, Tree.is_seen, Tree.token_seen, seen.names _]
    split
    · exact .refused
    · exact .ok ⟨.alterRename, fun _ => trivial⟩

theorem drop : Tally firm o.drop o'.drop := by
  have kind : o'.dropKind? = o.dropKind? := by
    simp only [Opened.dropKind?, seen.has]
  have names : (o'.tree.childrenOf .qualifiedName).map o'.mode.qualifiedName =
      (o.tree.childrenOf .qualifiedName).map o.mode.qualifiedName := by
    simp [seen.tree, seen.mode, Function.comp_def, seen.names.qualifiedName]
  unfold Opened.drop
  simp only [kind, names, seen.has]
  cases o.dropKind? with
  | none => exact .refused
  | some => exact .ok ⟨.drop, fun _ => trivial⟩

theorem statement : Tally firm o.statement o'.statement := by
  unfold Opened.statement
  rw [seen.rule?]
  split
  · exact seen.query.bind fun _ _ query => .ok ⟨.select query.1, query.2⟩
  · exact seen.insert
  · exact seen.delete
  · exact seen.createTableAs
  · exact seen.createView
  · exact seen.createTable
  · next rule => exact seen.alterRename rule
  · exact seen.drop
  · exact .refused

theorem read (c : Category) (may : o.tree.answers c) : Tally firm (o.read c) (o'.read c) := by
  cases c with
  | statement => exact seen.statement
  | query => exact seen.query
  | withs => exact seen.withs
  | cte => exact seen.cte
  | body => exact seen.body
  | target => exact seen.target
  | sort => exact seen.sort
  | sortItem => exact seen.sortItem
  | windowDef => exact seen.windowDef may
  | window => exact seen.window
  | overClause => exact seen.overClause may
  | sources => exact seen.sources
  | sourceItem => exact seen.sourceItem
  | source | inSource => cases may
  | join => exact seen.join
  | condition => exact seen.condition
  | expr => exact seen.readExpr
  | when => exact seen.whenClause
  | many c =>
    cases c with
    | expr => exact seen.readExprs
    | target => exact tally_readEach (fun _ _ pair => pair.read .target rfl) seen.nodes
    | windowDef => exact seen.each .windowDefinition .windowDef fun _ => id
    | sourceItem => exact seen.each .tableRef .sourceItem fun _ _ => rfl
    | _ => cases may
  | maybe c =>
    cases c with
    | sort => exact seen.optional .sortClause .sort fun _ _ => rfl
    | _ => cases may

end Seen
end Opened

variable {firm : Prop} {v : Grammar.View} {m : ReadMode}

mutual

/-- A tree and what is seen of it read alike; a firm tree is read as a complete phrase or refused. -/
theorem Tree.kid_seen (keeps : v.KeepsNames m) (sighted : firm → m.blind = false) :
    (t : Tree) → (firm → t.isFirm) → (t.kid m).Seen firm v ((t.seen v).kid m)
  | .leaf tok, _ => by
    have whole : ((Tree.leaf tok).opened m).Seen firm v (((Tree.leaf tok).seen v).opened m) :=
      ⟨rfl, sighted, keeps, rfl, fun _ => rfl, fun _ => rfl, rfl, by simp [Tree.seen, Tree.children]⟩
    refine ⟨rfl, fun _ => rfl, fun c may => ?_⟩
    rw [kid_read, kid_read, read_eq, read_eq]
    exact whole.read c may
  | .node r f l x cs, steady => by
    simp only [Tree.isFirm, Bool.and_eq_true, Bool.not_eq_true'] at steady
    have whole : ((Tree.node r f l x cs).opened m).Seen firm v (((Tree.node r f l x cs).seen v).opened m) := by
      refine ⟨rfl, sighted, keeps, rfl, fun f => (steady f).1.1, fun f => (steady f).1.2, by simp [Function.comp_def], ?_⟩
      simp only [Tree.opened_kids, Tree.children_seen, forall₂_map_left_iff, forall₂_map_right_iff, forall₂_same]
      exact Tree.kids_seen keeps sighted cs fun f => (steady f).2
    refine ⟨rfl, fun f => (steady f).1.2, fun c may => ?_⟩
    rw [kid_read, kid_read, read_eq, read_eq]
    exact whole.read c may

theorem Tree.kids_seen (keeps : v.KeepsNames m) (sighted : firm → m.blind = false) :
    (ts : List Tree) → (firm → Tree.allFirm ts) → ∀ t ∈ ts, (t.kid m).Seen firm v ((t.seen v).kid m)
  | [], _ => by simp
  | t :: ts, steady => by
    simp only [Tree.allFirm, Bool.and_eq_true] at steady
    exact forall_mem_cons.2 ⟨Tree.kid_seen keeps sighted t fun f => (steady f).1,
      Tree.kids_seen keeps sighted ts fun f => (steady f).2⟩

end

variable {t : Tree} {c : Category}

theorem Tree.read_seen (keeps : v.KeepsNames m) (t : Tree) (may : t.answers c) :
    Agree Phrase.Alike (t.read m c) ((t.seen v).read m c) :=
  ((t.kid_seen keeps False.elim False.elim).read c may).agree.imp fun _ _ twin => twin.alike

theorem Grammar.View.keepsNames_placeless (m : ReadMode) : Grammar.View.placeless.KeepsNames m := fun _ => rfl

theorem Tree.answered_read (sighted : m.blind = false) (firm : t.isFirm) (may : t.answers c) :
    Answered Complete (t.read m c) :=
  ((t.kid_seen (Grammar.View.keepsNames_placeless m) (fun _ => sighted) fun _ => firm).read c may).answered fun _ _ twin =>
    twin.complete trivial

end TableLineage
