import TableLineage.Proofs.Grammar.Shaped
import TableLineage.Statement.Reading.Basic
import TableLineage.Statement.Reading.Statement

/-! The ground that reading stands on: complete phrases, the categories in which nodes are read, and what the shape
of a node says about the children that its reading asks for. -/
namespace TableLineage

open List

/-! ### Complete phrases

No operand is missing, every join that is not natural has its condition, and every case expression has a
case. -/

variable {c : Category}

namespace Phrase

def Complete {c : Category} : Phrase c → Prop
  | .none | .nil => True
  | .some x => x.Complete
  | .cons x xs => x.Complete ∧ xs.Complete
  -- Statements
  | .select q | .createTableAs _ _ _ _ _ _ q | .createView _ _ _ _ _ _ q => q.Complete
  | .insert _ w _ q _ => w.Complete ∧ q.Complete
  | .delete _ w _ us f => w.Complete ∧ us.Complete ∧ f.Complete
  | .createTable .. | .alterRename .. | .drop .. => True
  -- Queries
  | .query _ w b o l f => w.Complete ∧ b.Complete ∧ o.Complete ∧ l.Complete ∧ f.Complete
  | .withs _ _ ts => ts.Complete
  | .cte _ _ _ q => q.Complete
  | .core _ _ on top ts _ src f g h q ws =>
    on.Complete ∧ top.Complete ∧ ts.Complete ∧ src.Complete ∧ f.Complete ∧ g.Complete ∧ h.Complete ∧ q.Complete ∧
      ws.Complete
  | .combine _ _ _ l r => l.Complete ∧ r.Complete
  | .values _ rows => rows.Complete
  | .nested _ q => q.Complete
  | .star .. => True
  | .labelled _ e _ => e.Complete
  | .sort _ items => items.Complete
  | .sortItem _ e _ _ => e.Complete
  | .windowDef _ _ w => w.Complete
  | .window _ _ p o _ => p.Complete ∧ o.Complete
  | .overName .. => True
  | .overWindow w => w.Complete
  -- Sources
  | .sources _ items => items.Complete
  | .sourceItem _ s js => s.Complete ∧ js.Complete
  | .table _ => True
  | .subquery _ q _ => q.Complete
  | .parens _ i _ => i.Complete
  | .crossJoin _ t => t.Complete
  | .qualifiedJoin _ _ _ natural t k => (natural = false → k.toOption.isSome) ∧ t.Complete ∧ k.Complete
  | .joinOn _ e => e.Complete
  | .joinUsing .. => True
  -- Expressions
  | .hole => False
  | .binary _ l _ r => l.Complete ∧ r.Complete
  | .unary _ _ e | .quantifiedExpr _ _ e | .collate _ e _ | .cast _ e _ => e.Complete
  | .between _ t l u _ _ => t.Complete ∧ l.Complete ∧ u.Complete
  | .within _ t s _ => t.Complete ∧ s.Complete
  | .inValues _ xs | .column _ _ _ xs | .row _ xs | .special _ _ xs => xs.Complete
  | .inQuery _ q | .quantifiedQuery _ _ q | .nonempty _ q => q.Complete
  | .like _ t p _ _ e => t.Complete ∧ p.Complete ∧ e.Complete
  | .scalar _ q _ xs => q.Complete ∧ xs.Complete
  | .constant .. => True
  | .choice _ x ws e => ws.toList ≠ [] ∧ x.Complete ∧ ws.Complete ∧ e.Complete
  | .when _ c r => c.Complete ∧ r.Complete
  | .call _ _ xs _ _ _ _ o g f v => xs.Complete ∧ o.Complete ∧ g.Complete ∧ f.Complete ∧ v.Complete

theorem Complete.not_hole {e : Expr} (complete : e.Complete) : e.isHole = false := by
  cases e with
  | hole => exact complete.elim
  | _ => rfl

theorem complete_ofList {xs : List (Phrase c)} (all : ∀ x ∈ xs, x.Complete) : (ofList xs).Complete := by
  induction xs with
  | nil => trivial
  | cons x xs ih => exact ⟨all x mem_cons_self, ih fun y member => all y (mem_cons_of_mem _ member)⟩

theorem Complete.of_mem_toList {c : Category} {x : Phrase c} : {xs : Phrase (.many c)} → xs.Complete →
    x ∈ xs.toList → x.Complete
  | .nil, _, member => by cases member
  | .cons _ _, complete, member => by
    obtain rfl | later := mem_cons.1 member
    · exact complete.1
    · exact of_mem_toList complete.2 later

end Phrase

/-- An outcome that is there and complete. -/
def Gives {c : Category} (x : Outcome (Phrase c)) : Prop := ∃ p, x = .ok p ∧ p.Complete

/-! ### Nodes and their readings -/

/-- The categories in which nodes from a rule are read. -/
def Rule.roles : Rule → List Category
  | .selectStmt => [.statement, .query]
  | .insertStmt | .deleteStmt | .createTableAsStmt | .createViewStmt | .createTableStmt | .alterRenameStmt
  | .dropStmt => [.statement]
  | .selectWithParens => [.query, .body]
  | .withClause => [.withs]
  | .commonTableExpr => [.cte]
  | .selectClause | .simpleSelectIntersect | .simpleSelect | .valuesClause => [.body]
  | .targetList => [.many .target]
  | .targetStar | .targetLabel => [.target]
  | .fromClause => [.sources]
  | .tableRef | .nestedTableRef => [.sourceItem]
  | .crossJoin | .qualifiedJoin | .naturalJoin => [.join]
  | .joinOn | .joinUsing => [.condition]
  | .sortClause | .withinGroup => [.sort]
  | .sortBy => [.sortItem]
  | .windowClause => [.many .windowDef]
  | .windowDefinition => [.windowDef]
  | .windowSpec => [.window]
  | .overClause => [.overClause]
  | .deleteUsing => [.many .sourceItem]
  | .whenClause => [.when]
  | .funcArgs => [.many .expr, .maybe .sort]
  | .valuesRow | .inList | .partitionClause | .exprList | .indirection | .groupClause => [.many .expr]
  | .whereClause | .havingClause | .qualifyClause | .topClause | .limitClause | .offsetClause | .filterClause
  | .elseClause | .subqueryQuantifier => [.expr]
  | r => if r.isExpression then [.expr] else []

namespace Tree

/-- The categories in which a tree is read; `LIMIT ALL` is not read. -/
def roles (t : Tree) : List Category :=
  if t.hasRule .limitClause && t.has (.keyword .ALL) then [] else (t.rule?.map Rule.roles).getD []

variable (m : ReadMode)

/-- A tree with its reading. -/
def kid (t : Tree) : Kid := ⟨t, t.read m⟩

/-- A tree with the readings of its children. -/
def opened (t : Tree) : Opened := ⟨m, t, t.children.map (kid m)⟩

@[simp] theorem kid_tree (t : Tree) : (t.kid m).tree = t := rfl

@[simp] theorem kid_read (t : Tree) : (t.kid m).read = t.read m := rfl

@[simp] theorem opened_tree (t : Tree) : (t.opened m).tree = t := rfl

@[simp] theorem opened_kids (t : Tree) : (t.opened m).kids = t.children.map (kid m) := rfl

@[simp] theorem opened_has (t : Tree) (k : Keyword) : (t.opened m).has k = t.has (.keyword k) := rfl

theorem read_eq (t : Tree) : t.read m = (t.opened m).read := by
  cases t with
  | leaf => rfl
  | node r f l x cs =>
    rw [Tree.read, openAll_eq_map]
    rfl

theorem hasRule_iff {t : Tree} {r : Rule} : t.hasRule r ↔ t.rule? = some r := by
  simp [hasRule]

theorem Shaped.form {t : Tree} {r : Rule} (shaped : t.Shaped) (rule : t.rule? = some r) :
    ∃ f ∈ r.forms, f.Matches t.children := by
  cases shaped with
  | leaf => cases rule
  | node listed shape all =>
    cases rule
    exact ⟨_, listed, shape⟩

theorem Shaped.child {t c : Tree} (shaped : t.Shaped) (member : c ∈ t.children) : c.Shaped := by
  cases shaped with
  | leaf => cases member
  | node listed shape all => exact all c member

variable {m} {t : Tree} {r s : Rule}

theorem Shaped.only {f : Grammar.Form} (shaped : t.Shaped) (rule : t.rule? = some r) (table : r.forms = [f]) :
    f.Matches t.children := by
  obtain ⟨form, listed, shape⟩ := shaped.form rule
  rw [table, mem_singleton] at listed
  exact listed ▸ shape

/-- Whether a class has no kinds but some. -/
def among (ks : List Kind) (c : Option Grammar.Class) : Bool :=
  ((c.bind Grammar.Class.kinds?).map fun js => js.all ks.contains).getD false

theorem kind_of_among {ks : List Kind} {c : Option Grammar.Class} {tok : Token} (only : among ks c)
    (fits : ∀ k ∈ c, k.holds tok.toLexeme) : tok.kind ∈ ks := by
  unfold among at only
  cases c with
  | none => cases only
  | some c =>
    cases kinds : c.kinds? with
    | none => simp [kinds] at only
    | some js =>
      have all : ∀ j ∈ js, j ∈ ks := by simpa [kinds] using only
      exact all _ ((Grammar.Class.holds_iff_of_kinds kinds _).1 (fits c rfl))

/-- A leaf that a form requires. -/
theorem exists_leaf {f : Grammar.Form} {ts : List Tree} (ks : List Kind)
    (required : f.surely (among ks) fun _ => false) (shape : f.Matches ts) :
    ∃ tok, .leaf tok ∈ ts ∧ tok.kind ∈ ks := by
  obtain ⟨c, member, ⟨_, only, tok, rfl, fits⟩ | ⟨_, no, _⟩⟩ := Grammar.Form.exists_of_surely required shape
  · exact ⟨tok, member, kind_of_among only fits⟩
  · cases no

theorem has_of_leaf {tok : Token} (member : .leaf tok ∈ t.children) {k : Kind} (kind : tok.kind = k) :
    t.has k = true := by
  rw [has, any_eq_true]
  exact ⟨_, member, by simp [is, kind]⟩

theorem kid?_opened : (t.opened m).kid? r = (t.child? r).map (kid m) := by
  simp only [Opened.kid?, opened, child?, find?_map]
  rfl

theorem nodes_opened : (t.opened m).nodes = t.nodes.map (kid m) := by
  simp only [Opened.nodes, opened, nodes, filter_map]
  rfl

theorem kidsOf_opened : (t.opened m).kidsOf r = (t.childrenOf r).map (kid m) := by
  simp only [Opened.kidsOf, opened, childrenOf, filter_map]
  rfl

theorem mem_of_child? {c : Tree} (found : t.child? r = some c) : c ∈ t.children ∧ c.rule? = some r := by
  have same : c.hasRule r := find?_some (p := fun d : Tree => d.hasRule r) found
  exact ⟨mem_of_find?_eq_some found, hasRule_iff.1 same⟩

theorem exists_child? {c : Tree} (member : c ∈ t.children) (rule : c.rule? = some r) :
    ∃ d, t.child? r = some d ∧ d ∈ t.children ∧ d.rule? = some r := by
  have some : (t.child? r).isSome := by
    rw [child?, find?_isSome]
    exact ⟨c, member, hasRule_iff.2 rule⟩
  obtain ⟨d, found⟩ := Option.isSome_iff_exists.1 some
  exact ⟨d, found, mem_of_child? found⟩

/-- A child that the forms of the rule require. -/
theorem Shaped.exists_need (shaped : t.Shaped) (rule : t.rule? = some r)
    (required : r.forms.all fun f => f.surely (fun _ => false) (· = s)) :
    ∃ c, t.child? s = some c ∧ c ∈ t.children ∧ c.rule? = some s := by
  obtain ⟨f, listed, shape⟩ := shaped.form rule
  obtain ⟨c, member, ⟨_, no, _⟩ | ⟨s', same, found⟩⟩ :=
    Grammar.Form.exists_of_surely (all_eq_true.1 required f listed) shape
  · cases no
  · exact exists_child? member (by simpa using (of_decide_eq_true same) ▸ found)

theorem isExpression_role : r.isExpression → .expr ∈ r.roles ∧ r ≠ .limitClause := by
  cases r <;> decide

theorem mem_roles (rule : t.rule? = some r) (role : c ∈ t.roles) : c ∈ r.roles := by
  rw [roles] at role
  split at role
  · cases role
  · simpa [rule] using role

theorem exists_role (role : c ∈ t.roles) : ∃ r f l x cs, t = .node r f l x cs ∧ c ∈ r.roles := by
  cases t with
  | leaf => cases role
  | node r f l x cs => exact ⟨r, f, l, x, cs, rfl, mem_roles rfl role⟩

theorem not_all_of_mem_roles (rule : t.rule? = some .limitClause) (role : c ∈ t.roles) :
    t.has (.keyword .ALL) = false := by
  cases all : t.has (.keyword .ALL) with
  | false => rfl
  | true => simp [roles, hasRule, rule, all] at role

theorem mem_roles_of_rule (rule : t.rule? = some r) (role : c ∈ r.roles)
    (some : r = .limitClause → t.has (.keyword .ALL) = false) : c ∈ t.roles := by
  by_cases limit : r = .limitClause
  · simpa [roles, some limit, rule] using role
  · simpa [roles, hasRule, limit, rule] using role

/-! ### Nodes by their children -/

section

open Grammar (Form IsNode)

variable {d : Tree} {rs : List Rule} {tok : Token} {ns tail : List Tree}

theorem level_eq (children : t.children = d :: tail) (more : tail ≠ []) (read : Outcome Expr) :
    (t.opened m).level read = read := by
  obtain ⟨b, rest, rfl⟩ := exists_cons_of_ne_nil more
  simp [Opened.level, Opened.single?, children]

theorem exists_node (node : IsNode rs d) : ∃ r f l x cs, r ∈ rs ∧ d = .node r f l x cs := by
  obtain ⟨r, among, rule⟩ := node
  cases d with
  | leaf => cases rule
  | node _ f l x cs =>
    cases rule
    exact ⟨r, f, l, x, cs, among, rfl⟩

theorem nodes_cons (children : t.children = [d] ++ tail) (node : IsNode rs d) (rest : tail.filter (!·.isLeaf) = ns) :
    t.nodes = d :: ns := by
  obtain ⟨_, _, rule⟩ := node
  simp [Tree.nodes, children, rest, Form.isLeaf_of_rule rule]

theorem nodes_leaf (children : t.children = [.leaf tok] ++ tail) (rest : tail.filter (!·.isLeaf) = ns) :
    t.nodes = ns := by
  rw [Tree.nodes, children]
  exact rest

theorem mem_of_nodes (nodes : t.nodes = ns) (member : d ∈ ns) : d ∈ t.children := by
  rw [← nodes] at member
  exact (mem_filter.1 member).1

theorem eq_of_nodes {c : Tree} (nodes : t.nodes = [d]) (found : t.child? s = some c) : c = d := by
  obtain ⟨inside, same⟩ := mem_of_child? found
  have node : c ∈ t.nodes := mem_filter.2 ⟨inside, by simp [Form.isLeaf_of_rule same]⟩
  rw [nodes] at node
  exact mem_singleton.1 node

/-- A child from a rule is looked for among the nodes only. -/
theorem child?_eq_find? (t : Tree) (s : Rule) : t.child? s = t.nodes.find? (·.hasRule s) := by
  rw [child?, Tree.nodes, find?_filter]
  congr 1
  funext u
  cases u with
  | leaf => rfl
  | node => simp [isLeaf]

theorem hasRule_of_not_mem (node : IsNode rs d) (other : r ∉ rs) : d.hasRule r = false := by
  obtain ⟨s, member, rule⟩ := node
  have differ : s ≠ r := fun same => other (same ▸ member)
  simp [hasRule, rule, differ]

theorem kind_of_kind {k : Kind} (fits : ∀ c ∈ some (Grammar.Class.kind k), c.holds tok.toLexeme) : tok.kind = k :=
  of_decide_eq_true (fits _ rfl)

theorem exists_leaf? (member : .leaf tok ∈ t.children) {k : Kind} (kind : tok.kind = k) :
    ∃ c, t.leaf? k = some c := by
  apply Option.isSome_iff_exists.1
  rw [leaf?, find?_isSome]
  exact ⟨_, member, by simp [is, kind]⟩

/-- What is known of the kinds of a class is known of its tokens. -/
theorem exists_known {α : Type} {ops : Kind → Option α} {c : Option Grammar.Class} (ks : List Kind) (kinds : among ks c)
    (known : ks.all fun k => (ops k).isSome) (fits : ∀ k ∈ c, k.holds tok.toLexeme) : ∃ op, ops tok.kind = some op :=
  Option.isSome_iff_exists.1 (all_eq_true.1 known _ (kind_of_among kinds fits))

end
end Tree
end TableLineage
