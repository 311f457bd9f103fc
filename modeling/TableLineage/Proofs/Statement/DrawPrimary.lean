import TableLineage.Proofs.Statement.DrawExpr

/-! Shaped columns, literals, cases and calls can be read and are drawn from their trees, and with the levels of
operators every expression is. -/
namespace TableLineage

open List

namespace Phrase

variable {c : Category}

theorem complete_ofOption {x : Option (Phrase c)} (all : ∀ p ∈ x, p.Complete) : (ofOption x).Complete := by
  cases x with
  | none => trivial
  | some p => exact all p rfl

theorem outline_ofOption (x : Option (Phrase c)) : (ofOption x).outline = (x.map outline).getD [] := by
  cases x <;> rfl

theorem outline_ofList (xs : List (Phrase c)) : (ofList xs).outline = xs.flatMap outline := by
  rw [outline_many, toList_ofList]

end Phrase

/-- The outlines of the parts of a case expression read so far. -/
def Opened.CaseParts.outline (p : Opened.CaseParts) : List Outline :=
  (p.subject.map Phrase.outline).getD [] ++
    (p.whens.flatMap Phrase.outline ++ (p.otherwise.map Phrase.outline).getD [])

/-- The parts of a case expression are complete and drawn from the trees as far as they were read. -/
structure Opened.CaseParts.Traced (m : ReadMode) (us : List Tree) (p : Opened.CaseParts) : Prop where
  subject : ∀ e ∈ p.subject, e.Complete
  whens : ∀ w ∈ p.whens, w.Complete
  otherwise : ∀ e ∈ p.otherwise, e.Complete
  drawn : Sketched m us p.outline

namespace Tree

variable {m : ReadMode} {t d : Tree} {us : List Tree} {r : Rule}

/-- A case has what it is about, its conditions and what it is otherwise. -/
theorem Shaped.nodes_caseExpr (shaped : t.Shaped) (rule : t.rule? = some .caseExpr) :
    ∃ as ws es, t.nodes = as ++ (ws ++ es) ∧ (as = [] ∨ ∃ a, as = [a] ∧ a.rule? = some .aExprOr) ∧ ws ≠ [] ∧
      (∀ w ∈ ws, w.rule? = some .whenClause) ∧ (es = [] ∨ ∃ e, es = [e] ∧ e.rule? = some .elseClause) := by
  obtain ⟨as, _, nodes, subject, _, _, rfl, ⟨w, rfl, _, among, first⟩, ws, es, rfl, more, last⟩ :=
    (shaped.only rule rfl).bare
  obtain rfl := mem_singleton.1 among
  refine ⟨as, w :: ws, es, nodes, ?_, cons_ne_nil w ws, ?_, ?_⟩
  · obtain none | ⟨a, rfl, _, among, rule⟩ := subject
    · exact .inl none
    · exact .inr ⟨a, rfl, mem_singleton.1 among ▸ rule⟩
  · intro v member
    obtain rfl | later := mem_cons.1 member
    · exact first
    · obtain ⟨_, same, rule⟩ := Grammar.Form.isNode_of_always [.whenClause] rfl more v later
      exact mem_singleton.1 same ▸ rule
  · obtain ⟨e, rfl, _, among, rule⟩ | none := last
    · exact .inr ⟨e, rfl, mem_singleton.1 among ▸ rule⟩
    · exact .inl none

namespace Prepared

variable (prepared : t.Prepared m)

include prepared

/-! ### Columns, literals and queries -/

theorem draws_constant (rule : t.rule? = some .constant) : Draws m (t.opened m).constant [t] := by
  obtain ⟨_, children, tok, rfl, fits⟩ := prepared.shaped.only rule rfl
  obtain ⟨kind, found⟩ : ∃ kind, Opened.constantKind? tok.kind = some kind :=
    exists_known [.number, .string, .keyword .TRUE, .keyword .FALSE, .keyword .NULL, .keyword .DEFAULT] rfl rfl fits
  refine ⟨.constant t.span kind t.text "", ?_, trivial, prepared.shaped.enclose_bare rule rfl rfl rfl rfl⟩
  simp [Opened.constant, children, token, found]

theorem draws_typedConstant (rule : t.rule? = some .typedConstant) : Draws m (t.opened m).typedConstant [t] := by
  obtain ⟨_, _, children, ⟨a, rfl, _, among, type⟩, _, rfl, tok, rfl, fits⟩ := prepared.shaped.only rule rfl
  obtain rfl := mem_singleton.1 among
  obtain ⟨c, found, _⟩ := exists_child? (t := t) (by simp [children]) type
  obtain ⟨s, text⟩ := exists_leaf? (t := t) (by simp [children]) (kind_of_kind fits)
  rw [Opened.typedConstant, opened_tree, found, text]
  exact .ok trivial (prepared.shaped.enclose_bare rule rfl rfl rfl rfl)

/-- Subscripts stand in the paths among some children. -/
theorem exists_subscripts {cs : List Tree} (inside : ∀ c ∈ cs, c ∈ t.children)
    (others : ∀ c ∈ cs, c.isLeaf = true ∨ c.rule? = some .indirection) :
    ∃ xs, Opened.subscripts (cs.map (kid m)) = .ok xs ∧ (∀ x ∈ xs, x.Complete) ∧
      Sketched m cs (xs.flatMap Phrase.outline) := by
  induction cs with
  | nil => exact ⟨[], rfl, by simp, .nil⟩
  | cons c cs ih =>
    obtain ⟨xs, rest, all, drawn⟩ := ih (fun d member => inside d (mem_cons_of_mem c member))
      (fun d member => others d (mem_cons_of_mem c member))
    obtain leaf | rule := others c mem_cons_self
    · have plain : c.hasRule .indirection = false := by
        cases c with
        | leaf => rfl
        | node => cases leaf
      exact ⟨xs, by simpa [Opened.subscripts, plain] using rest, all, (Sketched.quiet (.of_isLeaf leaf)).append drawn⟩
    · obtain ⟨ys, found, one⟩ := prepared.draws (inside c mem_cons_self) rule (c := .many .expr) (by decide)
      refine ⟨ys.toList ++ xs, ?_, ?_, ?_⟩
      · simp [Opened.subscripts, hasRule, rule, found, rest, bind, Except.bind, pure, Except.pure]
      · exact forall_mem_append.2 ⟨fun x member => one.1.of_mem_toList member, all⟩
      · have first := one.2
        rw [Phrase.outline_many] at first
        rw [flatMap_append]
        exact first.append drawn

theorem draws_columnRef (rule : t.rule? = some .columnRef) : Draws m (t.opened m).columnRef [t] := by
  have cover : (Rule.forms .columnRef).all fun f => f.always (fun _ => true) (· = .indirection) := rfl
  have others : ∀ c ∈ t.children, c.isLeaf = true ∨ c.rule? = some .indirection := by
    intro c member
    obtain ⟨f, listed, shape⟩ := prepared.shaped.form rule
    obtain ⟨_, _, tok, rfl, _⟩ | ⟨q, path, same⟩ :=
      Grammar.Form.forall_of_always (all_eq_true.1 cover f listed) shape c member
    · exact .inl rfl
    · exact .inr (of_decide_eq_true path ▸ same)
  obtain ⟨xs, found, all, drawn⟩ := prepared.exists_subscripts (fun c => id) others
  rw [Opened.columnRef, opened_kids, found]
  refine .ok (Phrase.complete_ofList all) (prepared.shaped.enclose rule rfl (drawn_children rule rfl ?_) rfl)
  rwa [Phrase.outline_ofList]

theorem draws_selectExpr (rule : t.rule? = some .selectExpr) : Draws m (t.opened m).selectExpr [t] := by
  have whole {os : List Outline} {mark : Mark} (range : mark.plainSpan? = some t.span)
      (drawn : Sketched m ((t.child? .selectWithParens).toList ++ (t.child? .indirection).toList) os) :
      Sketched m [t] [.node mark os] :=
    prepared.shaped.enclose rule rfl (prepared.shaped.drawn_clauses rule [.selectWithParens, .indirection] (by decide)
      rfl rfl (by simpa using drawn)) range
  refine prepared.draws_needed rule rfl (by decide) fun query one => ?_
  rw [kid?_opened]
  cases path : t.child? .indirection with
  | none => exact .ok ⟨one.1, trivial⟩ (whole rfl (by rw [path]; exact one.2.append .nil))
  | some c =>
    obtain ⟨member, same⟩ := mem_of_child? path
    refine (prepared.draws member same (by decide)).bind fun xs two => .ok ⟨one.1, two.1⟩ (whole rfl ?_)
    rw [path]
    exact one.2.append two.2

theorem draws_existsExpr (rule : t.rule? = some .existsExpr) : Draws m (t.opened m).existsExpr [t] :=
  prepared.draws_after rule rfl rfl (s := .selectWithParens) (by decide) fun q one =>
    .ok one.1 (prepared.shaped.enclose rule rfl one.2 rfl)

theorem draws_castFunc (rule : t.rule? = some .castFunc) : Draws m (t.opened m).castFunc [t] := by
  obtain ⟨type, found, _⟩ := prepared.shaped.exists_need (s := .typename) rule rfl
  rw [Opened.castFunc, Opened.need, kid?_opened, found]
  refine (prepared.draws_firstExpr rule rfl rfl "cast").bind fun e one => .ok one.1 ?_
  exact prepared.shaped.enclose rule rfl one.2 rfl

/-! ### Cases -/

theorem draws_whenClause (rule : t.rule? = some .whenClause) : Draws m (t.opened m).whenClause [t] := by
  obtain ⟨_, _, nodes, ⟨a, rfl, first⟩, b, rfl, second⟩ := (prepared.shaped.only rule rfl).bare
  have nodes : t.nodes = [a, b] := nodes
  rw [Opened.whenClause, nodes_opened, nodes]
  refine (prepared.draws_node (mem_of_nodes nodes (by simp)) first rfl).bind fun condition one => ?_
  refine (prepared.draws_node (mem_of_nodes nodes (by simp)) second rfl).bind fun result two => ?_
  refine .ok ⟨one.1, two.1⟩ (prepared.shaped.enclose rule rfl (drawn_nodes rule rfl ?_) rfl)
  rw [nodes]
  exact one.2.append two.2

/-- The conditions of a case, one after the other, and what is otherwise. -/
theorem exists_caseParts {ws es : List Tree} (inside : ws ++ es ⊆ t.children)
    (conditions : ∀ w ∈ ws, w.rule? = some .whenClause) (last : es = [] ∨ ∃ e, es = [e] ∧ e.rule? = some .elseClause)
    {p : Opened.CaseParts} (more : p.otherwise = none) (traced : p.Traced m us) :
    ∃ q, (t.opened m).caseParts ((ws ++ es).map (kid m)) p = .ok q ∧ q.Traced m (us ++ (ws ++ es)) ∧
      (p.whens ≠ [] ∨ ws ≠ [] → q.whens ≠ []) := by
  induction ws generalizing us p with
  | nil =>
    obtain rfl | ⟨d, rfl, rule⟩ := last
    · exact ⟨p, rfl, by simpa using traced, by simp⟩
    · obtain ⟨e, found, one⟩ := prepared.draws (inside mem_cons_self) rule (c := .expr) (by decide)
      refine ⟨{ p with otherwise := e }, ?_, ⟨traced.subject, traced.whens, by simpa using one.1, ?_⟩, by simp⟩
      · simp [Opened.caseParts, hasRule, rule, found, bind, Except.bind]
      · simpa [Opened.CaseParts.outline, more] using traced.drawn.append one.2
  | cons d ws ih =>
    obtain ⟨member, rest⟩ := cons_subset.1 inside
    have rule := conditions d mem_cons_self
    obtain ⟨w, found, one⟩ := prepared.draws member rule (c := .when) (by decide)
    have next : Opened.CaseParts.Traced m (us ++ [d]) { p with whens := p.whens ++ [w] } := by
      refine ⟨traced.subject, forall_mem_append.2 ⟨traced.whens, by simpa using one.1⟩, traced.otherwise, ?_⟩
      simpa [Opened.CaseParts.outline, more] using traced.drawn.append one.2
    obtain ⟨q, read, all, some⟩ := ih (p := { p with whens := p.whens ++ [w] }) rest
      (fun w later => conditions w (mem_cons_of_mem d later)) more next
    refine ⟨q, ?_, by simpa using all, fun _ => some (by simp)⟩
    simpa [Opened.caseParts, hasRule, rule, found, bind, Except.bind] using read

/-- The cases are read after the subject, if there is one. -/
theorem exists_caseParts_nodes (rule : t.rule? = some .caseExpr) :
    ∃ q, (t.opened m).caseParts (t.opened m).nodes .empty = .ok q ∧ q.Traced m t.nodes ∧ q.whens ≠ [] := by
  obtain ⟨as, ws, es, nodes, subject, some, conditions, last⟩ := prepared.shaped.nodes_caseExpr rule
  have inside : as ++ (ws ++ es) ⊆ t.children := nodes ▸ filter_sublist.subset
  obtain ⟨early, later⟩ := append_subset.1 inside
  rw [nodes_opened, nodes]
  obtain rfl | ⟨d, rfl, same⟩ := subject
  · have empty : Opened.CaseParts.Traced m [] .empty :=
      ⟨by simp [Opened.CaseParts.empty], by simp [Opened.CaseParts.empty], by simp [Opened.CaseParts.empty], .nil⟩
    obtain ⟨q, read, traced, filled⟩ := prepared.exists_caseParts later conditions last rfl empty
    exact ⟨q, read, traced, filled (.inr some)⟩
  · obtain ⟨e, found, one⟩ := prepared.draws_expr (early mem_cons_self) same rfl
    have start : Opened.CaseParts.Traced m [d] { Opened.CaseParts.empty with subject := e } :=
      ⟨by simpa using one.1, by simp [Opened.CaseParts.empty], by simp [Opened.CaseParts.empty],
        by simpa [Opened.CaseParts.outline, Opened.CaseParts.empty] using one.2⟩
    obtain ⟨q, read, traced, filled⟩ := prepared.exists_caseParts later conditions last rfl start
    refine ⟨q, ?_, traced, filled (.inr some)⟩
    simpa [Opened.caseParts, hasRule, same, Opened.CaseParts.pastSubject, Opened.CaseParts.empty, found, bind,
      Except.bind] using read

theorem draws_caseExpr (rule : t.rule? = some .caseExpr) : Draws m (t.opened m).caseExpr [t] := by
  obtain ⟨q, found, traced, some⟩ := prepared.exists_caseParts_nodes rule
  refine ⟨.choice t.span (.ofOption q.subject) (.ofList q.whens) (.ofOption q.otherwise), ?_, ?_, ?_⟩
  · simp [Opened.caseExpr, found, some, bind, Except.bind, pure, Except.pure]
  · exact ⟨by simpa using some, Phrase.complete_ofOption traced.subject, Phrase.complete_ofList traced.whens,
      Phrase.complete_ofOption traced.otherwise⟩
  · refine prepared.shaped.enclose rule rfl (drawn_nodes rule rfl ?_) rfl
    rw [Phrase.outline_ofList, Phrase.outline_ofOption, Phrase.outline_ofOption, append_assoc]
    exact traced.drawn

/-! ### Calls -/

theorem draws_args (member : d ∈ t.children) (rule : d.rule? = some .funcArgs) :
    Draws m (d.read m (.many .expr)) (d.child? .exprList).toList ∧
      Draws m (d.read m (.maybe .sort)) (d.child? .sortClause).toList := by
  have role {c : Category} (among : c ∈ Rule.roles .funcArgs) : c ∈ d.roles :=
    mem_roles_of_rule rule among fun limit => by cases limit
  have list := prepared.ready d member (.many .expr) (role (by decide))
  have order := prepared.ready d member (.maybe .sort) (role (by decide))
  exact ⟨by simpa [part, hasRule, rule] using list, by simpa [part, hasRule, rule] using order⟩

theorem draws_funcCall (rule : t.rule? = some .funcCall) : Draws m (t.opened m).funcCall [t] := by
  obtain ⟨name, named, _⟩ := prepared.shaped.exists_need (s := .funcName) rule rfl
  obtain ⟨args, found, inside, also⟩ := prepared.shaped.exists_need (s := .funcArgs) rule rfl
  obtain ⟨list, order⟩ := prepared.draws_args inside also
  rw [Opened.funcCall, Opened.need, Opened.need, kid?_opened, kid?_opened, named, found]
  refine list.bind fun xs one => order.bind fun order two => ?_
  refine (prepared.draws_optional (by decide)).bind fun group three => ?_
  refine (prepared.draws_optional (by decide)).bind fun filter four => ?_
  refine (prepared.draws_optional (by decide)).bind fun windowed five => ?_
  have arguments : Sketched m [args] (xs.outline ++ order.outline) :=
    (prepared.shaped.child inside).drawn_clauses also [.exprList, .sortClause] (by decide) rfl rfl
      (by simpa using one.2.append two.2)
  refine .ok ⟨one.1, two.1, three.1, four.1, five.1⟩ (prepared.shaped.enclose rule rfl ?_ rfl)
  refine prepared.shaped.drawn_clauses rule [.funcArgs, .withinGroup, .filterClause, .overClause] (by decide) rfl rfl ?_
  simpa [found] using ((arguments.append three.2).append four.2).append five.2

/-! ### Expressions of clauses -/

theorem draws_topClause (rule : t.rule? = some .topClause) : Draws m (t.opened m).readExpr [t] := by
  obtain ⟨_, _, children, ⟨_, rfl, top, rfl, first⟩, ⟨d, rfl, s, among, same⟩ | ⟨_, rfl, tok, rfl, fits⟩⟩ :=
    prepared.shaped.only rule rfl
  · obtain rfl := mem_singleton.1 among
    have kind : top.kind = .keyword .TOP := kind_of_kind first
    have number : t.leaf? .number = none := by
      cases d with
      | leaf => cases same
      | node => simp [leaf?, children, is, kind]
    have nodes : t.nodes = [d] := nodes_leaf children (by simp [Grammar.Form.isLeaf_of_rule same])
    rw [Opened.readExpr, opened_tree, rule]
    simp only [number]
    exact prepared.draws_onlyExpr rule rfl nodes same _
  · have kind : top.kind = .keyword .TOP := kind_of_kind first
    have number : t.leaf? .number = some (.leaf tok) := by simp [leaf?, children, is, kind, kind_of_kind fits]
    rw [Opened.readExpr, opened_tree, rule]
    simp only [number]
    refine .ok trivial (drawn_children rule rfl ?_)
    rw [children]
    have word : Sketched m [.leaf tok] [] := .quiet (.of_isLeaf rfl)
    exact (Sketched.quiet (.of_isLeaf rfl)).append (word.enclose (fun _ => by simp [leaves]) rfl)

/-- `LIMIT ALL` has no expression. -/
theorem draws_limitClause (rule : t.rule? = some .limitClause) (some : t.has (.keyword .ALL) = false) :
    Draws m (t.opened m).readExpr [t] := by
  obtain ⟨_, _, children, ⟨_, rfl, limit, rfl, _⟩, ⟨_, rfl, tok, rfl, fits⟩ | ⟨d, rfl, s, among, same⟩⟩ :=
    prepared.shaped.only rule rfl
  · cases some.symm.trans (has_of_leaf (by simp [children]) (kind_of_kind fits))
  · obtain rfl := mem_singleton.1 among
    have nodes : t.nodes = [d] := nodes_leaf children (by simp [Grammar.Form.isLeaf_of_rule same])
    rw [Opened.readExpr, opened_tree, rule]
    exact prepared.draws_onlyExpr rule rfl nodes same _

theorem draws_readExpr (role : .expr ∈ t.roles) : Draws m (t.opened m).readExpr [t] := by
  have shaped := prepared.shaped
  obtain ⟨r, _, _, _, _, rfl, listed⟩ := exists_role role
  cases r with
  | aExprOr => exact prepared.draws_folded rfl rfl rfl rfl [.keyword .OR] rfl rfl
  | aExprAnd => exact prepared.draws_folded rfl rfl rfl rfl [.keyword .AND] rfl rfl
  | aExprBetween => exact prepared.draws_between rfl
  | aExprIn => exact prepared.draws_within rfl
  | aExprUnaryNot => exact prepared.draws_unaryLevel rfl rfl rfl rfl [.keyword .NOT] rfl rfl
  | aExprIsNull => exact prepared.draws_isNull rfl
  | aExprIsNot => exact prepared.draws_isNot rfl
  | aExprCompare => exact prepared.draws_compare rfl
  | aExprLike => exact prepared.draws_like rfl
  | aExprQualOp => exact prepared.draws_customLevel rfl
  | aExprUnaryQualOp => exact prepared.draws_prefixCustom rfl
  | aExprAdd => exact prepared.draws_folded rfl rfl rfl rfl [.plus, .minus] rfl rfl
  | aExprMul => exact prepared.draws_folded rfl rfl rfl rfl [.star, .slash, .percent] rfl rfl
  | aExprCaret => exact prepared.draws_folded rfl rfl rfl rfl [.caret] rfl rfl
  | aExprUnarySign => exact prepared.draws_unaryLevel rfl rfl rfl rfl [.plus, .minus] rfl rfl
  | aExprAtTimeZone => exact prepared.draws_atTimeZone rfl
  | aExprCollate => exact prepared.draws_collate rfl
  | aExprTypecast => exact prepared.draws_typecast rfl
  | subqueryQuantifier => exact prepared.draws_quantified rfl
  | columnRef => exact prepared.draws_columnRef rfl
  | constant => exact prepared.draws_constant rfl
  | typedConstant => exact prepared.draws_typedConstant rfl
  | param => exact .ok trivial (shaped.enclose_bare rfl rfl rfl rfl rfl)
  | implicitRow | commonFuncCall =>
    exact (prepared.draws_exprs rfl rfl rfl).bind fun xs one => .ok one.1 (shaped.enclose rfl rfl one.2 rfl)
  | selectExpr => exact prepared.draws_selectExpr rfl
  | existsExpr => exact prepared.draws_existsExpr rfl
  | caseExpr => exact prepared.draws_caseExpr rfl
  | funcCall => exact prepared.draws_funcCall rfl
  | castFunc => exact prepared.draws_castFunc rfl
  | topClause => exact prepared.draws_topClause rfl
  | limitClause => exact prepared.draws_limitClause rfl (not_all_of_mem_roles rfl role)
  | parenExpr | whereClause | havingClause | qualifyClause | offsetClause | filterClause | elseClause =>
    exact prepared.draws_firstExpr rfl rfl rfl _
  | _ => exact absurd listed (by decide)

/-- Rows and lists in parentheses have their expressions one level below. -/
theorem draws_wrapped (rule : t.rule? = some r) (plain : r.isPlain)
    (order : r.forms.all (·.spreads [.exprList])) : Draws m (t.opened m).listed [t] :=
  prepared.draws_listed.imp fun drawn =>
    prepared.shaped.drawn_clauses rule [.exprList] (by decide) plain order (by simpa using drawn)

theorem draws_readExprs (role : .many .expr ∈ t.roles) : Draws m (t.opened m).readExprs (t.part (.many .expr)) := by
  obtain ⟨r, _, _, _, _, rfl, listed⟩ := exists_role role
  cases r with
  | valuesRow | inList | partitionClause => exact prepared.draws_wrapped rfl rfl rfl
  | funcArgs => exact prepared.draws_listed
  | exprList | indirection | groupClause => exact prepared.draws_exprs rfl rfl rfl
  | _ => exact absurd listed (by decide)

end Prepared
end Tree
end TableLineage
