import TableLineage.Proofs.Statement.Drawing

/-! Reading and drawing trees. A node is read with the readings of its children, so that it can be read, and
what it reads as is drawn from it, stands on its children being ready: they can be read in every category that they
are asked for, and what they read as is drawn from them. -/
namespace TableLineage

open List

variable {us ts : List Tree} {ks : List Kid} {e : Expr} {m : ReadMode} {c : Category} {r s : Rule} {os : List Outline}
  {mark : Mark}

theorem Outcome.exists_of_bind {α β : Type} {x : Outcome α} {f : α → Outcome β} {b : β} (read : x >>= f = .ok b) :
    ∃ a, x = .ok a ∧ f a = .ok b := by
  cases x with
  | error => cases read
  | ok a => exact ⟨a, rfl, read⟩

/-- A complete phrase whose outline is drawn from the trees. -/
structure Phrase.Traced (m : ReadMode) {c : Category} (ts : List Tree) (p : Phrase c) : Prop where
  complete : p.Complete
  drawn : Sketched m ts p.outline

theorem Phrase.Traced.past {p : Phrase c} {u : Tree} (traced : p.Traced m us) (still : u.Still m) :
    p.Traced m (us ++ [u]) :=
  ⟨traced.complete, traced.drawn.past still⟩

/-- An outcome that is there, complete and drawn from the trees. -/
def Draws (m : ReadMode) {c : Category} (x : Outcome (Phrase c)) (ts : List Tree) : Prop :=
  ∃ p, x = .ok p ∧ p.Traced m ts

namespace Draws

variable {d : Category} {x : Outcome (Phrase c)}

theorem ok {p : Phrase c} (complete : p.Complete) (drawn : Sketched m ts p.outline) : Draws m (.ok p) ts :=
  ⟨p, rfl, complete, drawn⟩

theorem bind {f : Phrase c → Outcome (Phrase d)} (first : Draws m x us)
    (rest : ∀ p, p.Traced m us → Draws m (f p) ts) : Draws m (x >>= f) ts := by
  obtain ⟨p, rfl, traced⟩ := first
  exact rest p traced

/-- What is drawn from some trees is drawn from others. -/
theorem imp (draws : Draws m x us) (more : ∀ {os}, Sketched m us os → Sketched m ts os) : Draws m x ts := by
  obtain ⟨p, read, traced⟩ := draws
  exact ⟨p, read, traced.complete, more traced.drawn⟩

end Draws

theorem draws_readEach {read : Kid → Outcome (Phrase c)} (each : ∀ k ∈ ks, Draws m (read k) [k.tree]) :
    Draws m (readEach read ks) (ks.map Kid.tree) := by
  induction ks with
  | nil => exact .ok trivial .nil
  | cons k ks ih =>
    refine (each k mem_cons_self).bind fun x one => ?_
    refine (ih fun k member => each k (mem_cons_of_mem _ member)).bind fun xs rest => ?_
    exact .ok ⟨one.1, rest.1⟩ (one.2.append rest.2)

/-! ### Rules -/

/-- The rules whose nodes have leaves. -/
def Rule.isFilled : Rule → Bool
  | .root | .stmt | .otherStmt | .tableAttributes | .viewOptions | .frameClause | .indirection => false
  | _ => true

theorem Rule.filled_forms (filled : r.isFilled) : r.forms.all fun f => f.surely (fun _ => true) Rule.isFilled := by
  revert filled
  cases r <;> decide

/-- The rules whose nodes are walked through in the order of their children. -/
def Rule.isPlain (r : Rule) : Bool := r ≠ .typename && !r.isRelation && r ≠ .selectStmt && r ≠ .simpleSelect

theorem Rule.swaps_of_isPlain (plain : r.isPlain) (ts : List Tree) :
    (r ≠ .typename ∧ r.isRelation = false) ∧ Tree.swaps r ts = false := by
  cases r with
  | typename | selectStmt | simpleSelect | relationExpr | deleteTarget => cases plain
  | _ => exact ⟨by decide, rfl⟩

theorem Rule.plain_of_isSilent (silent : r.isSilent) (type : r ≠ .typename) : r.isPlain := by
  revert silent type
  cases r <;> decide

theorem Rule.walked_of_isExpression (expression : r.isExpression) : r.isPlain ∧ r.isFilled ∧ r ≠ .funcArgs := by
  revert expression
  cases r <;> decide

/-- The rules `parts` come in their order, and all others are silent. -/
def Grammar.Form.spreads (f : Form) (parts : List Rule) : Bool :=
  (f.reach parts 0).isSome && f.always (fun _ => true) fun q => parts.contains q || q.isSilent

/-- Nodes from the rule are read as a `c` and stand for themselves then. -/
abbrev Rule.Shows (r : Rule) (c : Category) : Prop := c ∈ r.roles ∧ r ≠ .limitClause ∧ r ≠ .funcArgs

namespace Tree

variable {t d : Tree}

theorem Shaped.leaves_ne_nil (shaped : t.Shaped) (rule : t.rule? = some r) (filled : r.isFilled) : t.leaves ≠ [] := by
  induction shaped generalizing r with
  | leaf => cases rule
  | @node s f l x cs form listed shape _ ih =>
    cases rule
    have sure := all_eq_true.1 (Rule.filled_forms filled) form listed
    have some : ∃ c ∈ cs, c.leaves ≠ [] := by
      obtain ⟨c, member, ⟨_, _, tok, rfl, _⟩ | ⟨q, filled, same⟩⟩ := Grammar.Form.exists_of_surely sure shape
      · exact ⟨_, member, by simp [leaves]⟩
      · exact ⟨c, member, ih c member same filled⟩
    obtain ⟨c, member, some⟩ := some
    obtain ⟨u, among⟩ := exists_mem_of_ne_nil _ some
    exact ne_nil_of_mem (mem_leaves_of_child (t := .node s f l x cs) member among)

theorem Shaped.straight_of_silent (shaped : t.Shaped) (rule : t.rule? = some r) (silent : r.isSilent) :
    t.straight = true := by
  induction shaped generalizing r with
  | leaf => rfl
  | @node s f l x cs form listed shape _ ih =>
    cases rule
    by_cases type : s = .typename
    · simp [straight, type]
    · have plain := Rule.plain_of_isSilent silent type
      refine (straight_iff rfl type).2 ⟨(Rule.swaps_of_isPlain plain cs).2, fun c member => ?_⟩
      obtain ⟨_, _, tok, rfl, _⟩ | ⟨_, quiet, same⟩ :=
        Grammar.Form.forall_of_always (all_eq_true.1 (Rule.silent_forms silent type).2 form listed) shape c member
      · rfl
      · exact ih c member same quiet

theorem Shaped.still_of_silent (shaped : t.Shaped) (rule : t.rule? = some r) (silent : r.isSilent) : t.Still m :=
  ⟨shaped.straight_of_silent rule silent, shaped.references_silent rule silent⟩

theorem trees_opened (ts : List Tree) : (ts.map (kid m)).map Kid.tree = ts := by
  simp [Function.comp_def]

/-! ### Nodes and their children -/

theorem drawn_children (rule : t.rule? = some r) (plain : r.isPlain) (drawn : Sketched m t.children os) :
    Sketched m [t] os := by
  obtain ⟨type, unswapped⟩ := Rule.swaps_of_isPlain plain t.children
  exact drawn.below rule type unswapped

theorem drawn_nodes (rule : t.rule? = some r) (plain : r.isPlain) (drawn : Sketched m t.nodes os) :
    Sketched m [t] os := by
  refine drawn_children rule plain (drawn.skip fun u member => ?_)
  cases leaf : u.isLeaf with
  | true => exact .inr (.of_isLeaf leaf)
  | false => exact .inl rfl

theorem drawn_among {f : Grammar.Form} (shaped : ∀ t ∈ ts, t.Shaped) (shape : f.Matches ts) (parts : List Rule)
    (nodup : parts.Nodup) (order : f.spreads parts)
    (drawn : Sketched m (parts.flatMap fun s => (ts.find? (·.hasRule s)).toList) os) : Sketched m ts os := by
  obtain ⟨ordered, cover⟩ := Bool.and_eq_true_iff.1 order
  rw [← Grammar.Form.filter_eq_flatMap nodup ordered shape] at drawn
  refine drawn.skip fun u member => ?_
  obtain ⟨_, _, tok, rfl, _⟩ | ⟨q, known, same⟩ := Grammar.Form.forall_of_always cover shape u member
  · exact .inr (.of_isLeaf rfl)
  · obtain among | silent := Bool.or_eq_true_iff.1 known
    · exact .inl (any_eq_true.2 ⟨q, contains_iff_mem.1 among, hasRule_iff.2 same⟩)
    · exact .inr ((shaped u member).still_of_silent same silent)

theorem Shaped.drawn_parts {f : Grammar.Form} (shaped : t.Shaped) (shape : f.Matches t.children) (parts : List Rule)
    (nodup : parts.Nodup) (order : f.spreads parts)
    (drawn : Sketched m (parts.flatMap fun s => (t.child? s).toList) os) : Sketched m t.children os :=
  drawn_among (fun _ => shaped.child) shape parts nodup order drawn

theorem Shaped.drawn_clauses (shaped : t.Shaped) (rule : t.rule? = some r) (parts : List Rule) (nodup : parts.Nodup)
    (plain : r.isPlain) (order : r.forms.all (·.spreads parts))
    (drawn : Sketched m (parts.flatMap fun s => (t.child? s).toList) os) : Sketched m [t] os := by
  obtain ⟨f, listed, shape⟩ := shaped.form rule
  exact drawn_children rule plain (shaped.drawn_parts shape parts nodup (all_eq_true.1 order f listed) drawn)

/-- A node none of whose children is walked. -/
theorem Shaped.drawn_bare (shaped : t.Shaped) (rule : t.rule? = some r) (plain : r.isPlain)
    (order : r.forms.all (·.spreads [])) : Sketched m [t] [] :=
  shaped.drawn_clauses rule [] .nil plain order .nil

/-- The part that stands for a node. -/
theorem Shaped.enclose (shaped : t.Shaped) (rule : t.rule? = some r) (filled : r.isFilled) (drawn : Sketched m [t] os)
    (range : mark.plainSpan? = some t.span) : Sketched m [t] [.node mark os] :=
  drawn.enclose (fun _ => shaped.leaves_ne_nil rule filled) range

/-- A part that stands for a node none of whose children is walked. -/
theorem Shaped.enclose_bare (shaped : t.Shaped) (rule : t.rule? = some r) (filled : r.isFilled) (plain : r.isPlain)
    (order : r.forms.all (·.spreads [])) (range : mark.plainSpan? = some t.span) : Sketched m [t] [.node mark []] :=
  shaped.enclose rule filled (shaped.drawn_bare rule plain order) range

theorem Shaped.enclose_nodes (shaped : t.Shaped) (rule : t.rule? = some r) (expression : r.isExpression)
    (nodes : t.nodes = us) (drawn : Sketched m us os) (range : mark.plainSpan? = some t.span) :
    Sketched m [t] [.node mark os] := by
  obtain ⟨plain, filled, -⟩ := Rule.walked_of_isExpression expression
  exact shaped.enclose rule filled (drawn_nodes rule plain (nodes ▸ drawn)) range

theorem Shaped.enclose_children (shaped : t.Shaped) (rule : t.rule? = some r) (expression : r.isExpression)
    (children : t.children = us) (drawn : Sketched m us os) (range : mark.plainSpan? = some t.span) :
    Sketched m [t] [.node mark os] := by
  obtain ⟨plain, filled, -⟩ := Rule.walked_of_isExpression expression
  exact shaped.enclose rule filled (drawn_children rule plain (children ▸ drawn)) range

/-! ### Ready trees -/

/-- The trees that a tree has when read as a `c`. The arguments of a call are read twice, for the
expressions among them and for their order. -/
def part (t : Tree) (c : Category) : List Tree :=
  if t.hasRule .funcArgs then if c = .maybe .sort then (t.child? .sortClause).toList else (t.child? .exprList).toList
  else [t]

/-- The tree reads as a complete phrase of each category that it is asked for, drawn from it. -/
def Ready (m : ReadMode) (t : Tree) : Prop := ∀ c ∈ t.roles, Draws m (t.read m c) (t.part c)

theorem Ready.gives (ready : t.Ready m) (rule : t.rule? = some r) (role : c ∈ r.roles ∧ r ≠ .limitClause) :
    Gives (t.read m c) := by
  obtain ⟨p, read, traced⟩ := ready c (mem_roles_of_rule rule role.1 fun limit => absurd limit role.2)
  exact ⟨p, read, traced.complete⟩

/-- A shaped node whose children are ready, with expressions to be read. -/
structure Prepared (m : ReadMode) (t : Tree) : Prop where
  sighted : m.blind = false
  shaped : t.Shaped
  ready : ∀ c ∈ t.children, c.Ready m

namespace Prepared

variable (prepared : t.Prepared m)

include prepared

theorem draws (member : d ∈ t.children) (rule : d.rule? = some s) (role : s.Shows c) : Draws m (d.read m c) [d] := by
  have ready := prepared.ready d member c (mem_roles_of_rule rule role.1 fun limit => absurd limit role.2.1)
  simpa [part, hasRule, rule, role.2.2] using ready

/-! ### Clauses -/

/-- A child that the forms of the rule require. -/
theorem draws_child (rule : t.rule? = some r) (required : r.forms.all fun f => f.surely (fun _ => false) (· = s))
    (role : s.Shows c) (construct : String) :
    Draws m ((t.opened m).need s construct >>= (·.read c)) (t.child? s).toList := by
  obtain ⟨d, found, member, same⟩ := prepared.shaped.exists_need rule required
  rw [Opened.need, kid?_opened, found]
  exact prepared.draws member same role

/-- A child that the forms of the rule require, and what follows it. -/
theorem draws_needed (rule : t.rule? = some r) (required : r.forms.all fun f => f.surely (fun _ => false) (· = s))
    {d : Category} (role : s.Shows c) {construct : String} {next : Phrase c → Outcome (Phrase d)}
    (rest : ∀ p, p.Traced m (t.child? s).toList → Draws m (next p) ts) :
    Draws m ((t.opened m).need s construct >>= fun k => k.read c >>= next) ts := by
  rw [← bind_assoc]
  exact (prepared.draws_child rule required role construct).bind rest

/-- A clause that is read by the one below it. -/
theorem draws_through (rule : t.rule? = some r) (plain : r.isPlain)
    (required : r.forms.all fun f => f.surely (fun _ => false) (· = s) && f.spreads [s]) (role : s.Shows c)
    (construct : String) : Draws m ((t.opened m).need s construct >>= (·.read c)) [t] := by
  simp only [all_eq_true, Bool.and_eq_true] at required
  refine (prepared.draws_child rule (all_eq_true.2 fun f listed => (required f listed).1) role construct).imp ?_
  intro os drawn
  exact prepared.shaped.drawn_clauses rule [s] (nodup_singleton s) plain
    (all_eq_true.2 fun f listed => (required f listed).2) (by simpa using drawn)

theorem draws_after (rule : t.rule? = some r) (plain : r.isPlain)
    (required : r.forms.all fun f => f.surely (fun _ => false) (· = s) && f.spreads [s]) {d : Category}
    (role : s.Shows c) {construct : String} {next : Phrase c → Outcome (Phrase d)}
    (rest : ∀ p, p.Traced m [t] → Draws m (next p) ts) :
    Draws m ((t.opened m).need s construct >>= fun k => k.read c >>= next) ts := by
  rw [← bind_assoc]
  exact (prepared.draws_through rule plain required role construct).bind rest

theorem draws_optional (role : s.Shows c) : Draws m ((t.opened m).optional s c) (t.child? s).toList := by
  rw [Opened.optional, kid?_opened]
  cases found : t.child? s with
  | none => exact .ok trivial .nil
  | some d =>
    obtain ⟨member, same⟩ := mem_of_child? found
    exact (prepared.draws member same role).bind fun x one => .ok one.1 one.2

theorem draws_manyOf (role : s.Shows (.many c)) : Draws m ((t.opened m).manyOf s c) (t.child? s).toList := by
  rw [Opened.manyOf, kid?_opened]
  cases found : t.child? s with
  | none => exact .ok trivial .nil
  | some d =>
    obtain ⟨member, same⟩ := mem_of_child? found
    exact prepared.draws member same role

/-- A node that is read child by child. -/
theorem draws_rows (rule : t.rule? = some r) (plain : r.isPlain)
    (cover : r.forms.all fun f => f.always (fun _ => true) fun q => q = s || q.isSilent) (role : s.Shows c) :
    Draws m (readEach (·.read c) ((t.opened m).kidsOf s)) [t] := by
  have each : Draws m (readEach (·.read c) ((t.opened m).kidsOf s)) (t.childrenOf s) := by
    rw [← trees_opened (m := m) (t.childrenOf s), ← kidsOf_opened]
    apply draws_readEach
    intro k among
    rw [kidsOf_opened] at among
    obtain ⟨d, inside, rfl⟩ := mem_map.1 among
    obtain ⟨member, same⟩ := mem_filter.1 inside
    exact prepared.draws member (hasRule_iff.1 same) role
  refine each.imp fun drawn => drawn_children rule plain (drawn.skip fun u member => ?_)
  obtain ⟨f, listed, shape⟩ := prepared.shaped.form rule
  obtain ⟨_, _, tok, rfl, _⟩ | ⟨q, known, same⟩ :=
    Grammar.Form.forall_of_always (all_eq_true.1 cover f listed) shape u member
  · exact .inr (.of_isLeaf rfl)
  · obtain among | silent := Bool.or_eq_true_iff.1 known
    · exact .inl (hasRule_iff.2 (of_decide_eq_true among ▸ same))
    · exact .inr ((prepared.shaped.child member).still_of_silent same silent)

theorem draws_listed : Draws m (t.opened m).listed (t.child? .exprList).toList :=
  prepared.draws_manyOf (s := .exprList) (c := .expr) (by decide)

/-! ### Expressions among the children -/

theorem draws_expr (member : d ∈ t.children) (rule : d.rule? = some r) (expression : r.isExpression) :
    Draws m ((t.opened m).expr (d.kid m)) [d] := by
  have sighted : (t.opened m).mode.blind = false := prepared.sighted
  have found : ((d.kid m).tree.rule?.map Rule.isExpression).getD false = true := by
    simp [kid, rule, expression]
  obtain ⟨role, limit⟩ := isExpression_role expression
  rw [Opened.expr, sighted, found]
  exact prepared.draws member rule ⟨role, limit, (Rule.walked_of_isExpression expression).2.2⟩

theorem draws_node {rs : List Rule} (member : d ∈ t.children) (node : Grammar.IsNode rs d)
    (all : rs.all Rule.isExpression) : Draws m ((t.opened m).expr (d.kid m)) [d] := by
  obtain ⟨r, among, rule⟩ := node
  exact prepared.draws_expr member rule (all_eq_true.1 all r among)

theorem draws_exprs (rule : t.rule? = some r) (plain : r.isPlain)
    (all : r.forms.all fun f => f.always (fun _ => true) Rule.isExpression) : Draws m (t.opened m).exprs [t] := by
  obtain ⟨f, listed, shape⟩ := prepared.shaped.form rule
  have each : Draws m (t.opened m).exprs (t.nodes.map (kid m) |>.map Kid.tree) := by
    rw [Opened.exprs, nodes_opened]
    apply draws_readEach
    intro k among
    obtain ⟨d, node, rfl⟩ := mem_map.1 among
    obtain ⟨member, inner⟩ := mem_filter.1 node
    obtain ⟨_, _, tok, rfl, _⟩ | ⟨s, expression, same⟩ :=
      Grammar.Form.forall_of_always (all_eq_true.1 all f listed) shape d member
    · cases inner
    · exact prepared.draws_expr member same expression
  rw [trees_opened] at each
  exact each.imp (drawn_nodes rule plain)

/-- The first node, all others being silent. -/
theorem draws_firstExpr (rule : t.rule? = some r) (plain : r.isPlain)
    (lead : r.forms.all fun f => f.leads (· = .aExprOr) && f.spreads [.aExprOr]) (construct : String) :
    Draws m ((t.opened m).firstExpr construct) [t] := by
  simp only [all_eq_true, Bool.and_eq_true] at lead
  obtain ⟨f, listed, shape⟩ := prepared.shaped.form rule
  obtain ⟨d, rest, q, nodes, same, first⟩ := Grammar.Form.nodes_of_leads (lead f listed).1 shape
  obtain rfl := of_decide_eq_true first
  have inside : d ∈ t.children := mem_of_nodes nodes mem_cons_self
  have found : t.child? .aExprOr = some d := by
    rw [child?_eq_find?, Tree.nodes, nodes]
    exact find?_cons_of_pos (hasRule_iff.2 same)
  rw [Opened.firstExpr, nodes_opened, Tree.nodes, nodes]
  refine (prepared.draws_expr inside same rfl).imp fun drawn => ?_
  refine prepared.shaped.drawn_clauses rule [.aExprOr] (nodup_singleton _) plain
    (all_eq_true.2 fun f listed => (lead f listed).2) ?_
  simpa [found] using drawn

/-- The only node. -/
theorem draws_onlyExpr (rule : t.rule? = some r) (plain : r.isPlain) (nodes : t.nodes = [d])
    (same : d.rule? = some .aExprOr) (construct : String) : Draws m ((t.opened m).firstExpr construct) [t] := by
  rw [Opened.firstExpr, nodes_opened, nodes]
  exact (prepared.draws_expr (mem_of_nodes nodes (by simp)) same rfl).imp fun drawn =>
    drawn_nodes rule plain (nodes ▸ drawn)

end Prepared
end Tree
end TableLineage
