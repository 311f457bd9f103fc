import TableLineage.Proofs.Statement.DrawQuery

/-! Shaped statements can be read and are drawn from their trees, and so is every shaped tree in every category that
it is asked for. -/
namespace TableLineage

open List
open Grammar (Form)
open Grammar.Form

variable {t : Tree}

namespace Tree

/-- What stands in an insertion in front of its rows. -/
def insertFront : Form :=
  row [opt (one .withClause), key .INSERT, key .INTO, one .insertTarget, opt (one .columnList)]

/-- An insertion of default rows stops with the words that say so. -/
theorem Shaped.children_insertDefault {mark : Tree} (shaped : t.Shaped) (rule : t.rule? = some .insertStmt)
    (found : t.leaf? (.keyword .DEFAULT) = some mark) :
    ∃ us d v, t.children = us ++ [.leaf d, .leaf v] ∧ mark = .leaf d ∧ insertFront.Matches us := by
  have parts {us ws : List Tree} (children : t.children = us ++ ws) (front : insertFront.Matches us)
      (rows : (Form.alt (row [key .DEFAULT, key .VALUES]) (one .selectStmt)).Matches ws) :
      ∃ us d v, t.children = us ++ [.leaf d, .leaf v] ∧ mark = .leaf d ∧ insertFront.Matches us := by
    have none : us.find? (·.is (.keyword .DEFAULT)) = none := by
      refine find?_eq_none.2 fun u member default => ?_
      have others : insertFront.always (among [.keyword .INSERT, .keyword .INTO]) fun _ => true := rfl
      obtain ⟨_, only, tok, rfl, fits⟩ | ⟨_, _, node⟩ := forall_of_always others front u member
      · have kind := kind_of_among only fits
        have default : tok.kind = .keyword .DEFAULT := by simpa [is] using default
        rw [default] at kind
        revert kind
        decide
      · cases u with
        | leaf => cases node
        | node => cases default
    rw [leaf?, children, find?_append, none, Option.none_or] at found
    obtain ⟨_, _, rfl, ⟨_, rfl, d, rfl, default⟩, _, rfl, v, rfl, values⟩ | ⟨q, rfl, _, _, node⟩ := rows
    · refine ⟨us, d, v, children, ?_, front⟩
      have kind : d.kind = .keyword .DEFAULT := kind_of_kind default
      simpa [is, kind, eq_comm] using found
    · cases q with
      | leaf => cases node
      | node => cases found
  obtain ⟨f, listed, shape⟩ := shaped.form rule
  obtain rfl | final := mem_cons.1 listed
  · obtain ⟨ws, _, children, withs, is, _, rfl, insert, os, _, rfl, into, ts, _, rfl, target, cs, rows, rfl, columns, last⟩ :=
      shape
    have children : t.children = (ws ++ (is ++ (os ++ (ts ++ cs)))) ++ rows := by simpa using children
    exact parts children ⟨ws, _, rfl, .inl withs, is, _, rfl, insert, os, _, rfl, into, ts, cs, rfl, target, columns⟩ last
  · obtain rfl := mem_singleton.1 final
    obtain ⟨is, _, children, insert, os, _, rfl, into, ts, _, rfl, target, cs, rows, rfl, columns, last⟩ := shape
    have children : t.children = (is ++ (os ++ (ts ++ cs))) ++ rows := by simpa using children
    exact parts children ⟨[], _, rfl, .inr rfl, is, _, rfl, insert, os, _, rfl, into, ts, cs, rfl, target, columns⟩ last

theorem Bounded.last_eq {text : List Char} {us : List Tree} {v : Token} (bounded : t.Bounded text)
    (children : t.children = us ++ [.leaf v]) : t.last = v := by
  cases bounded with
  | leaf => simp [Tree.children] at children
  | node edges _ =>
    cases children
    obtain ⟨-, last, -⟩ := edges (by simp [leaves])
    simpa [leaves, eq_comm, Tree.last] using last

theorem exists_nameOf {d : Tree} {r : Rule} (o : Opened) (shaped : d.Shaped) (rule : d.rule? = some r)
    (required : r.forms.all fun f => f.surely (fun _ => false) (· = .qualifiedName)) (construct : String) :
    ∃ q, d.child? .qualifiedName = some q ∧ o.nameOf d construct = .ok (o.mode.qualifiedName q) := by
  obtain ⟨q, found, _⟩ := shaped.exists_need rule required
  exact ⟨q, found, by rw [Opened.nameOf, need, found]; rfl⟩

variable {m : ReadMode}

theorem references_defaultRows (s : Span) : Outline.references (Opened.defaultRows s).outline = 0 := rfl

/-- Rows that are all defaults take the place of the words that say so. -/
theorem drawn_defaultRows (d v : Token) :
    Sketched m [.leaf d, .leaf v] (Opened.defaultRows ((Tree.leaf d).span.cover v.span)).outline := by
  have values : Sketched m ([.leaf d] ++ [.leaf v])
      [.node (.plain .valuesClause ((Tree.leaf d).span.cover v.span)) []] := by
    refine ⟨?_, fun _ => ?_⟩
    · rw [Outline.references_node _ _ (show PartKind.valuesClause ≠ .tableRef by decide)]
      simp
    · exact (Sited.quiet rfl).named (.leaf d) (by simp [leaves]) rfl (.leaf v) (by simp [leaves]) rfl
  exact values.under rfl

namespace Prepared

variable (prepared : t.Prepared m)

include prepared

theorem exists_insertTarget (rule : t.rule? = some .insertStmt) :
    ∃ target, (t.opened m).insertTarget = .ok target ∧
      Sketched m (t.child? .insertTarget).toList [.node (.plain .insertTarget target.span) []] := by
  obtain ⟨c, found, member, same⟩ := prepared.shaped.exists_need (s := .insertTarget) rule rfl
  have shaped := prepared.shaped.child member
  obtain ⟨q, -, named⟩ := exists_nameOf (t.opened m) shaped same rfl "insert target"
  rw [Opened.insertTarget, opened_tree, need, found]
  simp only [bind, Except.bind, named]
  exact ⟨_, rfl, shaped.enclose_bare same rfl rfl rfl rfl⟩

/-- Default rows reach from the word that says so to the end of the statement. -/
theorem drawn_insertDefault {mark : Tree} {os : List Outline} (rule : t.rule? = some .insertStmt)
    (found : t.leaf? (.keyword .DEFAULT) = some mark)
    (drawn : Sketched m ((t.child? .withClause).toList ++ (t.child? .insertTarget).toList) os) :
    Sketched m [t] (os ++ (Opened.defaultRows (mark.span.cover t.last.span)).outline) := by
  obtain ⟨us, d, v, children, rfl, front⟩ := prepared.shaped.children_insertDefault rule found
  have before (s : Rule) : us.find? (·.hasRule s) = t.child? s := by
    rw [child?, children, find?_append]
    simp [hasRule, rule?]
  have shaped : ∀ u ∈ us, u.Shaped := fun u member => prepared.shaped.child (children ▸ mem_append_left _ member)
  have first := drawn_among shaped front [.withClause, .insertTarget] (by decide) rfl (by simpa [before] using drawn)
  have whole : Sketched m [t] (os ++ (Opened.defaultRows ((Tree.leaf d).span.cover v.span)).outline) :=
    drawn_children rule rfl (children ▸ first.append (drawn_defaultRows d v))
  refine ⟨?_, fun located => ?_⟩
  · rw [← whole.tables, Outline.references_append, Outline.references_append, references_defaultRows,
      references_defaultRows]
  · have ends : t.children = (us ++ [.leaf d]) ++ [.leaf v] := by simpa using children
    rw [(located t mem_cons_self).bounded.last_eq ends]
    exact whole.sited located

theorem draws_insert (rule : t.rule? = some .insertStmt) : Draws m (t.opened m).insert [t] := by
  obtain ⟨target, read, two⟩ := prepared.exists_insertTarget rule
  rw [Opened.insert, read]
  refine (prepared.draws_optional (by decide)).bind fun withs one => ?_
  simp only [bind, Except.bind, opened_tree]
  cases mark : t.leaf? (.keyword .DEFAULT) with
  | some c =>
    refine .ok ⟨one.1, trivial, trivial, trivial, trivial, trivial⟩ (prepared.shaped.enclose rule rfl ?_ rfl)
    simpa using prepared.drawn_insertDefault rule mark (one.2.append two)
  | none =>
    have either : Rule.insertStmt.forms.all fun f => f.surely (among [.keyword .DEFAULT]) (· = .selectStmt) := rfl
    obtain ⟨f, listed, shape⟩ := prepared.shaped.form rule
    obtain ⟨c, member, ⟨_, only, tok, rfl, fits⟩ | ⟨s, chosen, same⟩⟩ :=
      exists_of_surely (all_eq_true.1 either f listed) shape
    · obtain ⟨_, also⟩ := exists_leaf? member (mem_singleton.1 (kind_of_among only fits))
      cases mark.symm.trans also
    · obtain rfl : s = .selectStmt := of_decide_eq_true chosen
      obtain ⟨d, found, inside, also⟩ := exists_child? member same
      rw [Opened.need, kid?_opened, found]
      refine (prepared.draws inside also (by decide)).bind fun query three => ?_
      refine .ok ⟨one.1, three.1⟩ (prepared.shaped.enclose rule rfl ?_ rfl)
      refine prepared.shaped.drawn_clauses rule [.withClause, .insertTarget, .selectStmt] (by decide) rfl rfl ?_
      simpa [found] using one.2.append (two.append three.2)

theorem draws_delete (rule : t.rule? = some .deleteStmt) : Draws m (t.opened m).delete [t] := by
  obtain ⟨c, found, member, same⟩ := prepared.shaped.exists_need (s := .deleteTarget) rule rfl
  have shaped := prepared.shaped.child member
  obtain ⟨q, inner, named⟩ := exists_nameOf (t.opened m) shaped same rfl "delete target"
  obtain ⟨straight, references⟩ := shaped.table (m := m) same rfl rfl inner
  have two (aliasName : String) : Sketched m [c]
      [TableRef.outline ⟨c.span, (t.opened m).mode.qualifiedName q, aliasName⟩] := by
    refine ⟨?_, fun located => ?_⟩
    · simp only [referencesOf_cons, referencesOf_nil, add_zero, references]
      rfl
    · exact (Sited.quiet straight).enclose (located c mem_cons_self).bounded (shaped.leaves_ne_nil same rfl) rfl
  rw [Opened.delete, opened_tree, need, found]
  refine (prepared.draws_optional (by decide)).bind fun withs one => ?_
  simp only [bind, Except.bind, named]
  refine (prepared.draws_manyOf (by decide)).bind fun others three => ?_
  refine (prepared.draws_optional (by decide)).bind fun filter four => ?_
  refine .ok ⟨one.1, three.1, four.1⟩ (prepared.shaped.enclose rule rfl ?_ rfl)
  refine prepared.shaped.drawn_clauses rule [.withClause, .deleteTarget, .deleteUsing, .whereClause] (by decide) rfl rfl ?_
  simpa [found] using one.2.append ((two _).append (three.2.append four.2))

theorem draws_createTableAs (rule : t.rule? = some .createTableAsStmt) : Draws m (t.opened m).createTableAs [t] := by
  obtain ⟨q, -, named⟩ := exists_nameOf (t.opened m) prepared.shaped rule rfl "create table as"
  rw [Opened.createTableAs, opened_tree, named]
  exact prepared.draws_after rule rfl rfl (s := .selectStmt) (by decide) fun query one =>
    .ok one.1 (prepared.shaped.enclose rule rfl one.2 rfl)

theorem draws_createView (rule : t.rule? = some .createViewStmt) : Draws m (t.opened m).createView [t] := by
  obtain ⟨q, -, named⟩ := exists_nameOf (t.opened m) prepared.shaped rule rfl "create view"
  rw [Opened.createView, opened_tree, named]
  exact prepared.draws_after rule rfl rfl (s := .selectStmt) (by decide) fun query one =>
    .ok one.1 (prepared.shaped.enclose rule rfl one.2 rfl)

theorem draws_createTable (rule : t.rule? = some .createTableStmt) : Draws m (t.opened m).createTable [t] := by
  obtain ⟨q, -, named⟩ := exists_nameOf (t.opened m) prepared.shaped rule rfl "create table"
  obtain ⟨c, found, _⟩ := prepared.shaped.exists_need (s := .columnDefinitions) rule rfl
  rw [Opened.createTable, opened_tree, named, need, found]
  exact .ok trivial (prepared.shaped.enclose_bare rule rfl rfl rfl rfl)

theorem draws_alterRename (rule : t.rule? = some .alterRenameStmt) : Draws m (t.opened m).alterRename [t] := by
  obtain ⟨q, -, named⟩ := exists_nameOf (t.opened m) prepared.shaped rule rfl "alter table"
  obtain ⟨_, _, children, _, _, _, rfl, _, _, _, rfl, _, _, _, rfl, _, _, _, rfl, _, _, rfl, tok, rfl, fits⟩ :=
    prepared.shaped.only rule rfl
  -- `TO` is reserved, so that it is no name.
  have other : tok.kind ≠ .keyword .TO := by
    intro same
    have name : tok.toLexeme.isName := fits .name rfl
    rw [Lexeme.isName, same] at name
    cases name
  have last : t.children.getLast? = some (.leaf tok) := by simp [children, getLast?_append]
  rw [Opened.alterRename, opened_tree, last]
  simp only [isLeaf, is, other, named]
  exact .ok trivial (prepared.shaped.enclose_bare rule rfl rfl rfl rfl)

theorem draws_drop (rule : t.rule? = some .dropStmt) : Draws m (t.opened m).drop [t] := by
  obtain ⟨tok, member, kind⟩ := exists_leaf [.keyword .TABLE, .keyword .VIEW] rfl (prepared.shaped.only rule rfl)
  have known : ∃ kind, (t.opened m).dropKind? = some kind := by
    obtain same | same : tok.kind = .keyword .TABLE ∨ tok.kind = .keyword .VIEW := by simpa using kind
    all_goals
      simp only [Opened.dropKind?, opened_has, has_of_leaf member same, if_true]
      split
      · exact ⟨_, rfl⟩
    · split
      · exact ⟨_, rfl⟩
      · exact ⟨_, rfl⟩
    · exact ⟨_, rfl⟩
  obtain ⟨kind, found⟩ := known
  rw [Opened.drop, found]
  exact .ok trivial (prepared.shaped.enclose_bare rule rfl rfl rfl rfl)

theorem draws_statement (role : .statement ∈ t.roles) : Draws m (t.opened m).statement [t] := by
  obtain ⟨r, _, _, _, _, rfl, listed⟩ := exists_role role
  cases r with
  | selectStmt =>
    have query := prepared.draws_query (mem_roles_of_rule rfl (by decide) fun limit => by cases limit)
    exact query.bind fun q one => .ok one.1 one.2
  | insertStmt => exact prepared.draws_insert rfl
  | deleteStmt => exact prepared.draws_delete rfl
  | createTableAsStmt => exact prepared.draws_createTableAs rfl
  | createViewStmt => exact prepared.draws_createView rfl
  | createTableStmt => exact prepared.draws_createTable rfl
  | alterRenameStmt => exact prepared.draws_alterRename rfl
  | dropStmt => exact prepared.draws_drop rfl
  | _ => exact absurd listed (by decide)

/-- A node can be read in every category that it is asked for, and what it reads as is drawn from it. -/
theorem draws_read {c : Category} (role : c ∈ t.roles) : Draws m (t.read m c) (t.part c) := by
  rw [read_eq]
  obtain ⟨r, _, _, _, _, rfl, listed⟩ := exists_role role
  cases r
  all_goals try obtain rfl := mem_singleton.1 listed
  case selectStmt =>
    obtain rfl | last := mem_cons.1 listed
    · exact prepared.draws_statement role
    · obtain rfl := mem_singleton.1 last
      exact prepared.draws_query role
  case insertStmt | deleteStmt | createTableAsStmt | createViewStmt | createTableStmt | alterRenameStmt | dropStmt =>
    exact prepared.draws_statement role
  case selectWithParens =>
    obtain rfl | last := mem_cons.1 listed
    · exact prepared.draws_query role
    · obtain rfl := mem_singleton.1 last
      exact prepared.draws_body role
  case commonTableExpr => exact prepared.draws_cte rfl
  case selectClause | simpleSelectIntersect | simpleSelect | valuesClause => exact prepared.draws_body role
  case withClause => exact prepared.draws_withs rfl
  case fromClause => exact prepared.draws_sources rfl
  case windowClause => exact prepared.draws_rows (s := .windowDefinition) rfl rfl rfl (by decide)
  case deleteUsing => exact prepared.draws_rows (s := .tableRef) rfl rfl rfl (by decide)
  case targetList => exact prepared.draws_targets rfl
  case targetStar | targetLabel => exact prepared.draws_target role
  case tableRef | nestedTableRef => exact prepared.draws_sourceItem role
  case crossJoin | qualifiedJoin | naturalJoin => exact prepared.draws_join role
  case joinOn | joinUsing => exact prepared.draws_condition role
  case sortClause | withinGroup => exact prepared.draws_sort role
  case sortBy => exact prepared.draws_sortItem rfl
  case windowDefinition => exact prepared.draws_windowDef rfl
  case windowSpec => exact prepared.draws_window rfl
  case overClause => exact prepared.draws_overClause rfl
  case whenClause => exact prepared.draws_whenClause rfl
  case funcArgs =>
    obtain rfl | last := mem_cons.1 listed
    · exact prepared.draws_readExprs role
    · obtain rfl := mem_singleton.1 last
      exact prepared.draws_optional (by decide)
  case valuesRow | inList | partitionClause | exprList | indirection | groupClause => exact prepared.draws_readExprs role
  -- What is left are the expressions, their clauses, and rules that have no role.
  all_goals first | exact prepared.draws_readExpr role | cases listed

end Prepared

/-- The body of a statement, which is read unless it is of no kind that is. -/
theorem Shaped.body (shaped : t.Shaped) (rule : t.rule? = some .stmt) : ∃ body r, t.children = [body] ∧
    t.nodes = [body] ∧ body.rule? = some r ∧ (r = .otherStmt ∨ r.Shows .statement) := by
  obtain ⟨body, children, r, among, same⟩ := shaped.only rule rfl
  have kinds : ∀ r ∈ [.insertStmt, .deleteStmt, .selectStmt, .createViewStmt, .otherStmt, .createTableAsStmt,
      .createTableStmt, .alterRenameStmt, .dropStmt], r = Rule.otherStmt ∨ r.Shows .statement := by decide
  exact ⟨body, r, children, by simp [Tree.nodes, children, isLeaf_of_rule same], same, kinds r among⟩

/-- Every shaped tree is ready, since what the reading of a node stands on is that its children are. -/
theorem Shaped.ready (sighted : m.blind = false) (shaped : t.Shaped) : t.Ready m := by
  induction shaped with
  | leaf => exact fun c role => by cases role
  | node listed shape all ih =>
    intro c role
    exact Prepared.draws_read ⟨sighted, .node listed shape all, ih⟩ role

end Tree
end TableLineage
