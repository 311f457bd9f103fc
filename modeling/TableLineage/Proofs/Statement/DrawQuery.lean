import TableLineage.Proofs.Statement.DrawSource

/-! Shaped queries can be read and are drawn from their trees, clause by clause. The limit and the offset of a query
may be written in either order, as may `DISTINCT ON` and `TOP`, but they are walked in one. -/
namespace TableLineage

open List
open Grammar (Form)
open Grammar.Form

namespace Rule

/-- The clauses behind `DISTINCT ON` and `TOP`. -/
def selected : List Rule :=
  [.targetList, .intoClause, .fromClause, .whereClause, .groupClause, .havingClause, .qualifyClause, .windowClause]

/-- What is selected, behind `lead`. -/
def selectWith (lead : Form) : Form :=
  row [key .SELECT, lead, one .targetList, opt (one .intoClause), opt (one .fromClause), opt (one .whereClause),
    opt (one .groupClause), opt (one .havingClause), opt (one .qualifyClause), opt (one .windowClause)]

/-- A query that stops with `last`. -/
def queryWith (last : Form) : Form :=
  row [opt (one .withClause), one .selectClause, opt (one .sortClause), last]

end Rule

variable {m : ReadMode} {t : Tree}

namespace Tree

/-! ### Clauses in either order -/

section

variable {p q keep : Tree → Bool} {x y : Rule} {f : Form} {ts : List Tree}

/-- Trees that neither is picked from do not matter. -/
theorem comesBefore_filter (kept : ∀ t, (p t || q t) = true → keep t = true) :
    comesBefore p q (ts.filter keep) = comesBefore p q ts := by
  induction ts with
  | nil => rfl
  | cons t ts ih =>
    have same : (ts.filter keep).any q = ts.any q := by
      rw [any_filter]
      congr 1
      funext u
      cases second : q u with
      | true => simp [kept u (by simp [second])]
      | false => simp
    by_cases here : keep t = true
    · rw [filter_cons_of_pos here, comesBefore, comesBefore, same, ih]
    · have neither : p t = false := by
        by_contra first
        exact here (kept t (by simp [Bool.eq_true_of_not_eq_false first]))
      rw [filter_cons_of_neg here, ih, comesBefore, neither, Bool.false_and, Bool.false_or]

/-- Two clauses that a form has in their order. -/
theorem comesBefore_clauses (order : (f.reach [x, y] 0).isSome) (differ : x ≠ y) (shape : f.Matches ts)
    (kept : ∀ t, (p t || q t) = true → [x, y].any (t.hasRule ·) = true) :
    comesBefore p q ts = comesBefore p q ((ts.find? (·.hasRule x)).toList ++ (ts.find? (·.hasRule y)).toList) := by
  have among : ts.filter (fun t => [x, y].any (t.hasRule ·)) =
      (ts.find? (·.hasRule x)).toList ++ (ts.find? (·.hasRule y)).toList := by
    simpa using filter_eq_flatMap (by simpa using differ) order shape
  rw [← among, comesBefore_filter kept]

variable (first : ∀ t, p t = true → t.hasRule x = true) (second : ∀ t, q t = true → t.hasRule y = true)

include first second

theorem either_rule (either : (p t || q t) = true) : t.hasRule x = true ∨ t.hasRule y = true :=
  (Bool.or_eq_true_iff.1 either).imp (first t) (second t)

theorem comesBefore_of_reach (order : (f.reach [x, y] 0).isSome) (differ : x ≠ y) (shape : f.Matches ts) :
    comesBefore p q ts = ((ts.find? (·.hasRule x)).any p && (ts.find? (·.hasRule y)).any q) := by
  rw [comesBefore_clauses order differ shape fun t either => by simpa using either_rule first second either]
  cases ts.find? (·.hasRule x) <;> cases ts.find? (·.hasRule y) <;> simp [comesBefore]

theorem not_comesBefore_of_reach (order : (f.reach [y, x] 0).isSome) (differ : x ≠ y) (shape : f.Matches ts) :
    comesBefore p q ts = false := by
  rw [comesBefore_clauses order differ.symm shape fun t either => by simpa using (either_rule first second either).symm]
  cases found : ts.find? (·.hasRule y) with
  | none => cases ts.find? (·.hasRule x) <;> simp [comesBefore]
  | some b =>
    have rule : b.rule? = some y := hasRule_iff.1 (find?_some (p := fun t : Tree => t.hasRule y) found)
    have other : p b = false := by
      by_contra here
      have := hasRule_iff.1 (first b (Bool.eq_true_of_not_eq_false here))
      exact differ (Option.some.inj (this.symm.trans rule))
    cases ts.find? (·.hasRule x) <;> simp [comesBefore, other]

end

theorem child?_any (t : Tree) (s : Rule) : (t.child? s).any (·.hasRule s) = (t.child? s).isSome := by
  cases found : t.child? s with
  | none => rfl
  | some d => exact hasRule_iff.2 (mem_of_child? found).2

variable {r x y : Rule} {f : Form} {as xs ys bs : List Outline}

/-- Clauses that were written as `x`, `y` but are walked as `y`, `x`. -/
theorem Shaped.drawn_swap (shaped : t.Shaped) (rule : t.rule? = some r) (plain : r ≠ .typename ∧ r.isRelation = false)
    (shape : f.Matches t.children) (front back : List Rule) (nodup : (front ++ x :: y :: back).Nodup)
    (order : f.spreads (front ++ x :: y :: back))
    (swapped : swaps r t.children = true ↔ xs ≠ [] ∧ ys ≠ [])
    (before : Sketched m (front.flatMap fun s => (t.child? s).toList) as)
    (one : Sketched m (t.child? x).toList xs) (two : Sketched m (t.child? y).toList ys)
    (after : Sketched m (back.flatMap fun s => (t.child? s).toList) bs) :
    Sketched m [t] (as ++ (ys ++ (xs ++ bs))) := by
  have drawn : Sketched m t.children (as ++ (xs ++ (ys ++ bs))) :=
    shaped.drawn_parts shape _ nodup order
      (by simpa using before.append (one.append (two.append after)))
  by_cases both : xs ≠ [] ∧ ys ≠ []
  · constructor
    · rw [referencesOf_cons, referencesOf_nil, add_zero, references_plain m rule plain.1 plain.2, ← drawn.tables]
      simp only [Outline.references_append]
      ac_rfl
    intro text located standing
    have below (c : Tree) := (located t mem_cons_self).child (c := c)
    rw [leavesAll_singleton, leaves_eq rule] at standing ⊢
    obtain ⟨nested, -⟩ := drawn.sited below standing
    have sub : ((t.child? x).toList ++ (t.child? y).toList).Sublist t.children := by
      have among : t.children.filter (fun u => (front ++ x :: y :: back).any (u.hasRule ·)) =
          (front ++ x :: y :: back).flatMap fun s => (t.child? s).toList :=
        filter_eq_flatMap nodup (Bool.and_eq_true_iff.1 order).1 shape
      have all : ((front ++ x :: y :: back).flatMap fun s => (t.child? s).toList).Sublist t.children :=
        among ▸ filter_sublist
      rw [flatMap_append, flatMap_cons, flatMap_cons, ← append_assoc (t.child? x).toList] at all
      exact ((sublist_append_left _ _).trans (sublist_append_right _ _)).trans all
    obtain ⟨front, back⟩ := forall_mem_append.1 fun u member => below u (sub.subset member)
    refine ⟨fun o member => nested o ?_, iff_of_false (fun inOrder => ?_) fun straight => ?_⟩
    · simp only [mem_append] at member ⊢
      tauto
    · refine (one.sited front).not_inOrder (two.sited back) (standing.sublist (leavesAll_sublist sub)) both.1 both.2 ?_
      rw [← append_assoc ys] at inOrder
      exact inOrder.sublist_append
    · have := ((straight_iff rule plain.1).1 (straight t mem_cons_self)).1
      rw [swapped.2 both] at this
      cases this
  · have same : ys ++ (xs ++ bs) = xs ++ (ys ++ bs) := by
      by_cases none : xs = []
      · simp [none]
      · have none' : ys = [] := by
          by_contra some
          exact both ⟨none, some⟩
        simp [none']
    rw [same]
    exact drawn.below rule plain (Bool.eq_false_of_not_eq_true (mt swapped.1 both))

/-! ### Selections and queries -/

/-- A list of expressions in front of the targets stands behind `DISTINCT ON`. -/
theorem Shaped.no_exprList (shaped : t.Shaped) (rule : t.rule? = some .simpleSelect)
    (missing : ¬ (t.has (.keyword .DISTINCT) && t.has (.keyword .ON)) = true) : t.childrenOf .exprList = [] := by
  have shape := shaped.only rule rfl
  have leaf (k : Keyword) (brings : (Rule.forms .simpleSelect).all (·.brings .exprList (among [.keyword k])))
      (there : t.childrenOf .exprList ≠ []) : t.has (.keyword k) := by
    obtain ⟨d, member⟩ := exists_mem_of_ne_nil _ there
    obtain ⟨inside, same⟩ := mem_filter.1 member
    obtain ⟨c, found, ⟨_, only, tok, rfl, fits⟩ | ⟨_, no, _⟩⟩ :=
      Form.exists_leaf_of_brings (all_eq_true.1 brings _ mem_cons_self) shape ⟨d, inside, hasRule_iff.1 same⟩
    · exact has_of_leaf found (mem_singleton.1 (kind_of_among only fits))
    · cases no
  by_contra there
  exact missing (by rw [leaf .DISTINCT rfl there, leaf .ON rfl there]; rfl)

/-- `DISTINCT ON` and `TOP` in one of their orders. -/
theorem Shaped.drawn_select (shaped : t.Shaped) (rule : t.rule? = some .simpleSelect) {on top rest : List Outline}
    (some : on ≠ [] ↔ (t.child? .exprList).isSome = true) (some' : top ≠ [] ↔ (t.child? .topClause).isSome = true)
    (distinct : Sketched m (t.child? .exprList).toList on) (rows : Sketched m (t.child? .topClause).toList top)
    (others : Sketched m (Rule.selected.flatMap fun s => (t.child? s).toList) rest) :
    Sketched m [t] (on ++ (top ++ rest)) := by
  obtain ⟨_, _, children, select, _, _, rfl, leading | trailing, parts⟩ := shaped.only rule rfl
  · have shape : (Rule.selectWith (row [one .topClause, Rule.distinctParts])).Matches t.children :=
      children ▸ select.followedBy (leading.followedBy parts)
    have swapped : swaps .simpleSelect t.children = true ↔ top ≠ [] ∧ on ≠ [] := by
      rw [some, some', swaps, comesBefore_of_reach (fun _ => id) (fun _ => id) rfl (by decide) shape, Bool.and_eq_true]
      exact and_congr (by rw [← child?_any]; rfl) (by rw [← child?_any]; rfl)
    exact shaped.drawn_swap rule (by decide) shape [] Rule.selected (by decide) rfl swapped .nil rows distinct others
  · have shape : (Rule.selectWith (row [Rule.distinctParts, opt (one .topClause)])).Matches t.children :=
      children ▸ select.followedBy (trailing.followedBy parts)
    have ordered : swaps .simpleSelect t.children = false :=
      not_comesBefore_of_reach (fun _ => id) (fun _ => id) rfl (by decide) shape
    have drawn := shaped.drawn_parts shape (.exprList :: .topClause :: Rule.selected) (by decide) rfl
      (distinct.append (rows.append others))
    exact drawn.below rule (by decide) ordered

theorem Shaped.children_limitAll (shaped : t.Shaped) (rule : t.rule? = some .limitClause)
    (every : t.has (.keyword .ALL) = true) : ∃ limit all, t.children = [.leaf limit, .leaf all] := by
  obtain ⟨_, _, children, ⟨_, rfl, limit, rfl, first⟩, ⟨_, rfl, all, rfl, _⟩ | ⟨d, rfl, s, _, node⟩⟩ :=
    shaped.only rule rfl
  · exact ⟨limit, all, children⟩
  · have kind : limit.kind = .keyword .LIMIT := kind_of_kind first
    cases d with
    | leaf => cases node
    | node => simp [has, children, is, kind] at every

/-- The limit and the offset of a query in one of their orders. -/
theorem Shaped.drawn_query (shaped : t.Shaped) (rule : t.rule? = some .selectStmt) {limit offset front : List Outline}
    (some : limit ≠ [] ↔
      (t.child? .limitClause).any (fun c => c.hasRule .limitClause && !c.has (.keyword .ALL)) = true)
    (some' : offset ≠ [] ↔ (t.child? .offsetClause).isSome = true)
    (others : Sketched m ([.withClause, .selectClause, .sortClause].flatMap fun s => (t.child? s).toList) front)
    (rows : Sketched m (t.child? .limitClause).toList limit) (passed : Sketched m (t.child? .offsetClause).toList offset) :
    Sketched m [t] (front ++ (limit ++ offset)) := by
  have first (u : Tree) (found : (u.hasRule .limitClause && !u.has (.keyword .ALL)) = true) : u.hasRule .limitClause = true :=
    (Bool.and_eq_true_iff.1 found).1
  have arranged : (Rule.queryWith (row [one .limitClause, opt (one .offsetClause)])).Matches t.children ∨
      (Rule.queryWith (opt (row [one .offsetClause, opt (one .limitClause)]))).Matches t.children := by
    obtain ⟨f, listed, shape⟩ := shaped.form rule
    obtain rfl | final := mem_cons.1 listed
    · obtain ⟨_, _, children, withs, _, _, rfl, body, _, _, rfl, order, limited | passed⟩ := shape
      · exact .inl ⟨_, _, children, .inl withs, _, _, rfl, body, _, _, rfl, order, limited⟩
      · exact .inr ⟨_, _, children, .inl withs, _, _, rfl, body, _, _, rfl, order, passed⟩
    · obtain rfl := mem_singleton.1 final
      obtain ⟨_, _, children, withs, _, _, rfl, body, _, _, rfl, order, limited | passed⟩ := shape
      · exact .inl ⟨_, _, children, withs, _, _, rfl, body, _, _, rfl, order, limited⟩
      · exact .inr ⟨_, _, children, withs, _, _, rfl, body, _, _, rfl, order, passed⟩
  obtain shape | shape := arranged
  · have ordered : swaps .selectStmt t.children = false :=
      not_comesBefore_of_reach (fun _ => id) first rfl (by decide) shape
    have drawn := shaped.drawn_parts shape [.withClause, .selectClause, .sortClause, .limitClause, .offsetClause]
      (by decide) rfl (by simpa using others.append (rows.append passed))
    exact drawn.below rule (by decide) ordered
  · have swapped : swaps .selectStmt t.children = true ↔ offset ≠ [] ∧ limit ≠ [] := by
      rw [some, some', swaps, comesBefore_of_reach (fun _ => id) first rfl (by decide) shape, Bool.and_eq_true]
      exact and_congr (by rw [← child?_any]; rfl) Iff.rfl
    have drawn := shaped.drawn_swap rule (by decide) shape [.withClause, .selectClause, .sortClause] [] (by decide) rfl
      swapped others passed rows .nil
    simpa using drawn

namespace Prepared

variable {d : Tree} {r s : Rule} (prepared : t.Prepared m) {us vs : List Tree} {left right : Phrase .body}

/-! ### Bodies -/

theorem draws_combine {op : Tree} (shaped : op.Shaped) (rule : op.rule? = some .setOperator)
    (one : left.Traced m us) (two : right.Traced m vs) : Draws m (Opened.combine op left right) (us ++ vs) := by
  obtain ⟨_, _, children, ⟨_, rfl, tok, rfl, fits⟩, _⟩ := shaped.only rule rfl
  obtain ⟨code, known⟩ : ∃ code, Opened.setOp? tok.kind = some code :=
    exists_known ([.UNION, .EXCEPT, .MINUS, .INTERSECT].map .keyword) rfl rfl fits
  obtain ⟨mark, os, outline, range⟩ := left.outline_body
  obtain ⟨mark', os', outline', range'⟩ := right.outline_body
  have first := one.drawn
  have second := two.drawn
  rw [Opened.combine, children]
  simp only [cons_append, nil_append, token, known]
  refine .ok ⟨one.complete, two.complete⟩ ?_
  rw [outline] at first
  rw [outline'] at second
  change Sketched m (us ++ vs) [.node (.plain .combineSelect (left.span.cover right.span)) (left.outline ++ right.outline)]
  rw [outline, outline']
  exact first.pair second (by rw [Mark.plain, Outline.mark, Outline.mark, range, range']; rfl)

include prepared

/-- The induction is over the groups of an operator and an operand. -/
theorem draws_foldBodies {rs : List Rule} {operand : Kid → Outcome (Phrase .body)}
    (operands : ∀ d ∈ t.children, Grammar.IsNode rs d → Draws m (operand (d.kid m)) [d]) (other : .setOperator ∉ rs)
    {tss : List (List Tree)} (inside : ∀ c ∈ tss.flatten, c ∈ t.children)
    (each : ∀ us ∈ tss, (Form.seq (.one .setOperator) (.node rs)).Matches us) (one : left.Traced m us) :
    Draws m ((t.opened m).foldBodies operand (tss.flatten.map (kid m)) (some left) none) (us ++ tss.flatten) := by
  induction tss generalizing left us with
  | nil => exact ⟨left, rfl, by simpa using one⟩
  | cons vs tss ih =>
    have rest {both : Phrase .body} {us : List Tree} (traced : both.Traced m us) := ih
      (fun c member => inside c (by simp [member])) (fun vs member => each vs (mem_cons_of_mem _ member)) traced
    obtain ⟨_, _, rfl, ⟨op, rfl, _, among, mark⟩, d, rfl, node⟩ := each vs mem_cons_self
    obtain rfl := mem_singleton.1 among
    have plain := hasRule_of_not_mem node other
    have shaped : op.Shaped := prepared.shaped.child (inside op (by simp))
    have before := one.past (shaped.still_of_silent mark rfl)
    have step (right : Phrase .body) (two : right.Traced m [d]) :=
      (draws_combine shaped mark before two).bind fun both all => rest all
    simpa [Opened.foldBodies, hasRule_iff.2 mark, plain] using (operands d (inside d (by simp)) node).bind step

theorem draws_setOperation {rs : List Rule} {operand : Kid → Outcome (Phrase .body)} (rule : t.rule? = some r)
    (walked : r.isPlain) (table : r.forms = [.separated (.node rs) (.one .setOperator)]) (other : .setOperator ∉ rs)
    (operands : ∀ d ∈ t.children, Grammar.IsNode rs d → Draws m (operand (d.kid m)) [d]) :
    Draws m ((t.opened m).foldBodies operand (t.opened m).nodes none none) [t] := by
  obtain ⟨_, _, nodes, ⟨a, rfl, node⟩, tss, rfl, each⟩ := (prepared.shaped.only rule table).bare
  have nodes : t.nodes = [a] ++ tss.flatten := nodes
  have plain := hasRule_of_not_mem node other
  have rest (left : Phrase .body) (one : left.Traced m [a]) := prepared.draws_foldBodies operands other
    (fun c member => mem_of_nodes nodes (mem_append_right _ member)) each one
  have whole : Draws m ((t.opened m).foldBodies operand (t.opened m).nodes none none) t.nodes := by
    rw [nodes_opened, nodes]
    simpa [Opened.foldBodies, plain] using (operands a (mem_of_nodes nodes (by simp)) node).bind rest
  exact whole.imp (drawn_nodes rule walked)

/-! ### Selections -/

/-- An expression is walked if its clause is there. -/
theorem exists_optional (role : s.Shows .expr) : ∃ x, (t.opened m).optional s .expr = .ok x ∧
    x.Traced m (t.child? s).toList ∧ (x.outline ≠ [] ↔ (t.child? s).isSome = true) := by
  rw [Opened.optional, kid?_opened]
  cases found : t.child? s with
  | none => exact ⟨.none, rfl, ⟨trivial, .nil⟩, iff_of_false (fun some => some rfl) Bool.false_ne_true⟩
  | some d =>
    obtain ⟨member, same⟩ := mem_of_child? found
    obtain ⟨e, read, one⟩ := prepared.draws member same role
    refine ⟨.some e, ?_, ⟨one.1, one.2⟩, iff_of_true (Phrase.outline_ne_nil one.whole) rfl⟩
    simp [read, bind, Except.bind, pure, Except.pure]

/-- A list of expressions has one at least. -/
theorem exists_listed : ∃ on, (t.opened m).listed = .ok on ∧ on.Traced m (t.child? .exprList).toList ∧
    (on.outline ≠ [] ↔ (t.child? .exprList).isSome = true) := by
  obtain ⟨on, read, traced⟩ := prepared.draws_listed
  refine ⟨on, read, traced, ?_⟩
  rw [Opened.listed, kid?_opened] at read
  cases found : t.child? .exprList with
  | none =>
    rw [found] at read
    cases read
    exact iff_of_false (fun some => some rfl) Bool.false_ne_true
  | some d =>
    rw [found] at read
    obtain ⟨member, same⟩ := mem_of_child? found
    obtain ⟨f, listed, shape⟩ := (prepared.shaped.child member).form same
    have lead : (Rule.forms .exprList).all (·.leads (· = .aExprOr)) := rfl
    obtain ⟨e, rest, _, nodes, -⟩ := nodes_of_leads (all_eq_true.1 lead f listed) shape
    have exprs : (d.opened m).exprs = .ok on := by
      have read : d.read m (.many .expr) = .ok on := read
      cases d with
      | leaf => cases same
      | node =>
        cases same
        rwa [read_eq] at read
    rw [Opened.exprs, nodes_opened, Tree.nodes, nodes] at exprs
    obtain ⟨x, one, exprs⟩ := Outcome.exists_of_bind exprs
    obtain ⟨xs, more, exprs⟩ := Outcome.exists_of_bind exprs
    cases exprs
    exact iff_of_true (append_ne_nil_of_left_ne_nil (Phrase.outline_ne_nil traced.complete.1.not_hole) _) rfl

theorem draws_distinctOn (rule : t.rule? = some .simpleSelect) {next : Phrase (.many .expr) → Outcome (Phrase .body)}
    (rest : ∀ on, on.Traced m (t.child? .exprList).toList →
      (on.outline ≠ [] ↔ (t.child? .exprList).isSome = true) → Draws m (next on) us) :
    Draws m (if t.has (.keyword .DISTINCT) && t.has (.keyword .ON) then (t.opened m).listed >>= next
      else .ok .nil >>= next) us := by
  split
  · obtain ⟨on, read, one, some⟩ := prepared.exists_listed
    rw [read]
    exact rest on one some
  · next missing =>
    have none : t.child? .exprList = none := by
      cases found : t.child? .exprList with
      | none => rfl
      | some d =>
        obtain ⟨member, same⟩ := mem_of_child? found
        have there : d ∈ t.childrenOf .exprList := mem_filter.2 ⟨member, hasRule_iff.2 same⟩
        rw [prepared.shaped.no_exprList rule missing] at there
        cases there
    rw [none] at rest
    exact rest .nil ⟨trivial, .nil⟩ (iff_of_false (fun some => some rfl) Bool.false_ne_true)

theorem exists_into : ∃ into, (t.opened m).into = .ok into ∧ Sketched m (t.child? .intoClause).toList
    (into.toList.map fun i => .node (.plain .intoClause i.span) []) := by
  rw [Opened.into, opened_tree]
  cases found : t.child? .intoClause with
  | none => exact ⟨none, rfl, .nil⟩
  | some c =>
    obtain ⟨member, rule⟩ := mem_of_child? found
    have shaped := prepared.shaped.child member
    obtain ⟨name, named, _⟩ := shaped.exists_need (s := .qualifiedName) rule rfl
    simp only [need, named]
    exact ⟨_, rfl, shaped.enclose_bare rule rfl rfl rfl rfl⟩

theorem draws_core (rule : t.rule? = some .simpleSelect) : Draws m (t.opened m).core [t] := by
  obtain ⟨into, known, four⟩ := prepared.exists_into
  obtain ⟨top, read, two, limited⟩ := prepared.exists_optional (s := .topClause) (by decide)
  rw [Opened.core, known, read]
  refine prepared.draws_distinctOn rule fun on one listed => ?_
  refine prepared.draws_needed rule rfl (by decide) fun targets three => ?_
  refine (prepared.draws_optional (by decide)).bind fun sources five => ?_
  refine (prepared.draws_optional (by decide)).bind fun filter six => ?_
  refine (prepared.draws_manyOf (by decide)).bind fun groups seven => ?_
  refine (prepared.draws_optional (by decide)).bind fun having' eight => ?_
  refine (prepared.draws_optional (by decide)).bind fun qualify nine => ?_
  refine (prepared.draws_manyOf (by decide)).bind fun windows ten => ?_
  refine .ok ⟨one.1, two.1, three.1, five.1, six.1, seven.1, eight.1, nine.1, ten.1⟩ ?_
  have others := three.2.append (four.append (five.2.append (six.2.append (seven.2.append (eight.2.append
    (nine.2.append ten.2))))))
  refine prepared.shaped.enclose rule rfl ?_ rfl
  simpa using prepared.shaped.drawn_select rule listed limited one.2 two.2 (by simpa [Rule.selected] using others)

theorem draws_target (role : .target ∈ t.roles) : Draws m (t.opened m).target [t] := by
  have shaped := prepared.shaped
  obtain ⟨r, _, _, _, cs, rfl, listed⟩ := exists_role role
  cases r with
  | targetStar => exact .ok trivial (shaped.enclose_bare rfl rfl rfl rfl rfl)
  | targetLabel =>
    have first := prepared.draws_firstExpr rfl rfl rfl "target"
    change Draws m (Opened.target _) _
    rw [Opened.target, opened_tree]
    simp only [rule?, children]
    cases last : cs.getLast? with
    | none =>
      -- Without children there is no expression either.
      cases getLast?_eq_none_iff.1 last
      obtain ⟨e, none, _⟩ := first
      cases none
    | some c => exact first.bind fun e one => .ok one.1 (shaped.enclose rfl rfl one.2 rfl)
  | _ => exact absurd listed (by decide)

theorem draws_targets (rule : t.rule? = some .targetList) :
    Draws m (readEach (·.read .target) (t.opened m).nodes) [t] := by
  have each := isNode_of_always [.targetStar, .targetLabel] rfl (prepared.shaped.only rule rfl).bare
  have targets : Draws m (readEach (·.read .target) (t.opened m).nodes) ((t.opened m).nodes.map Kid.tree) := by
    refine draws_readEach fun k among => ?_
    rw [nodes_opened] at among
    obtain ⟨d, node, rfl⟩ := mem_map.1 among
    obtain ⟨s, two, same⟩ := each d node
    obtain rfl | rfl : s = .targetStar ∨ s = .targetLabel := by simpa using two
    all_goals exact prepared.draws (mem_filter.1 node).1 same (by decide)
  refine targets.imp fun drawn => drawn_nodes rule rfl ?_
  rwa [nodes_opened, trees_opened] at drawn

theorem draws_parenthesized (rule : t.rule? = some .selectWithParens) : Draws m (t.opened m).parenthesized [t] := by
  obtain ⟨d, nodes, s, among, same⟩ := (prepared.shaped.only rule rfl).bare
  have nodes : t.nodes = [d] := nodes
  have member : d ∈ t.children := mem_of_nodes nodes (by simp)
  have whole {os : List Outline} (drawn : Sketched m [d] os) : Sketched m [t] os := drawn_nodes rule rfl (nodes ▸ drawn)
  rw [Opened.parenthesized, kid?_opened, Opened.need, kid?_opened]
  obtain rfl | rfl : s = .selectWithParens ∨ s = .selectStmt := by simpa using among
  · have found : t.child? .selectWithParens = some d := by simp [child?_eq_find?, nodes, hasRule, same]
    rw [found]
    exact (prepared.draws member same (by decide)).imp whole
  · have none : t.child? .selectWithParens = none := by simp [child?_eq_find?, nodes, hasRule, same]
    have found : t.child? .selectStmt = some d := by simp [child?_eq_find?, nodes, hasRule, same]
    rw [none, found]
    exact (prepared.draws member same (by decide)).imp whole

theorem draws_body (role : .body ∈ t.roles) : Draws m (t.opened m).body [t] := by
  have shaped := prepared.shaped
  obtain ⟨r, _, _, _, _, rfl, listed⟩ := exists_role role
  cases r with
  | selectClause =>
    refine prepared.draws_setOperation rfl rfl rfl (by decide) fun d member node => ?_
    obtain ⟨s, among, same⟩ := node
    obtain rfl := mem_singleton.1 among
    rw [Opened.unionOperand, kid_tree, hasRule_iff.2 same]
    exact prepared.draws member same (by decide)
  | simpleSelectIntersect =>
    refine prepared.draws_setOperation rfl rfl rfl (by decide) fun d member node => ?_
    obtain ⟨s, among, same⟩ := node
    rw [Opened.intersectOperand, kid_tree, same]
    obtain rfl | rfl | rfl : s = .simpleSelect ∨ s = .valuesClause ∨ s = .selectWithParens := by simpa using among
    all_goals exact prepared.draws member same (by decide)
  | valuesClause =>
    exact (prepared.draws_rows (s := .valuesRow) rfl rfl rfl (by decide)).bind fun rows one =>
      .ok one.1 (shaped.enclose rfl rfl one.2 rfl)
  | selectWithParens =>
    exact (prepared.draws_parenthesized rfl).bind fun q one => .ok one.1 (shaped.enclose rfl rfl one.2 rfl)
  | simpleSelect => exact prepared.draws_core rfl
  | _ => exact absurd listed (by decide)

/-! ### Queries -/

theorem draws_cte (rule : t.rule? = some .commonTableExpr) : Draws m (t.opened m).cte [t] := by
  obtain ⟨_, _, children, ⟨_, rfl, tok, rfl, _⟩, _⟩ := prepared.shaped.only rule rfl
  rw [Opened.cte, opened_kids, children]
  exact prepared.draws_after rule rfl rfl (by decide) fun q one =>
    .ok one.1 (prepared.shaped.enclose rule rfl one.2 rfl)

theorem draws_withs (rule : t.rule? = some .withClause) : Draws m (t.opened m).withs [t] :=
  (prepared.draws_rows (s := .commonTableExpr) rule rfl rfl (by decide)).bind fun ts one =>
    .ok one.1 (prepared.shaped.enclose rule rfl one.2 rfl)

/-- The limit of a query, which is walked unless it is `LIMIT ALL`. -/
theorem exists_limit : ∃ x, (t.opened m).limit = .ok x ∧ x.Traced m (t.child? .limitClause).toList ∧
    (x.outline ≠ [] ↔
      (t.child? .limitClause).any (fun c => c.hasRule .limitClause && !c.has (.keyword .ALL)) = true) := by
  rw [Opened.limit, kid?_opened]
  cases found : t.child? .limitClause with
  | none => exact ⟨.none, rfl, ⟨trivial, .nil⟩, iff_of_false (fun some => some rfl) Bool.false_ne_true⟩
  | some c =>
    obtain ⟨member, same⟩ := mem_of_child? found
    by_cases every : c.has (.keyword .ALL) = true
    · obtain ⟨limit, all, children⟩ := (prepared.shaped.child member).children_limitAll same every
      have still : c.Still m := by
        refine ⟨(straight_iff same (by decide)).2 ⟨rfl, by simp [children, straight]⟩, ?_⟩
        rw [references_plain m same (by decide) (by decide), children]
        simp
      exact ⟨.none, if_pos every, ⟨trivial, .quiet still⟩, iff_of_false (fun some => some rfl) (by simp [every])⟩
    · have role : .expr ∈ c.roles := mem_roles_of_rule same (by decide) fun _ => by simpa using every
      obtain ⟨e, read, one⟩ := prepared.ready c member .expr role
      have part : c.part .expr = [c] := by simp [part, hasRule, same]
      rw [part] at one
      have found : (do return .some (← c.read m .expr)) = Except.ok (Phrase.some e) := by rw [read]; rfl
      refine ⟨.some e, (if_neg every).trans found, ⟨one.1, one.2⟩, iff_of_true (Phrase.outline_ne_nil one.whole) ?_⟩
      simp [every, hasRule, same]

theorem draws_query (role : .query ∈ t.roles) : Draws m (t.opened m).query [t] := by
  have shaped := prepared.shaped
  obtain ⟨r, _, _, _, _, rfl, listed⟩ := exists_role role
  cases r with
  | selectWithParens => exact prepared.draws_parenthesized rfl
  | selectStmt =>
    obtain ⟨limit, read, four, limited⟩ := prepared.exists_limit
    obtain ⟨offset, read', five, passed⟩ := prepared.exists_optional (s := .offsetClause) (by decide)
    rw [Opened.query, opened_tree, rule?, read, read']
    refine (prepared.draws_optional (by decide)).bind fun withs one => ?_
    refine prepared.draws_needed rfl rfl (by decide) fun body two => ?_
    refine (prepared.draws_optional (by decide)).bind fun order three => ?_
    refine .ok ⟨one.1, two.1, three.1, four.1, five.1⟩ (shaped.enclose rfl rfl ?_ rfl)
    have drawn := shaped.drawn_query rfl limited passed (by simpa using one.2.append (two.2.append three.2)) four.2 five.2
    simpa using drawn
  | _ => exact absurd listed (by decide)

end Prepared
end Tree
end TableLineage
