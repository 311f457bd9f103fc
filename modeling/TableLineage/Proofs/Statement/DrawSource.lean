import TableLineage.Proofs.Statement.DrawPrimary

/-! Shaped orders, windows, sources and joins can be read and are drawn from their trees. -/
namespace TableLineage.Tree

open List
open Grammar (IsNode)
open Grammar.Form

variable {m : ReadMode} {t d : Tree} {r : Rule}

/-- A node that stands for a table has no other tables in it. -/
theorem Shaped.table (shaped : d.Shaped) (rule : d.rule? = some r) (relation : r.isRelation)
    (cover : r.forms.all fun f => f.always (fun _ => true) Rule.isSilent) {name : Tree}
    (found : d.child? .qualifiedName = some name) : d.straight = true ∧ d.references m = {m.qualifiedName name} := by
  have still : ∀ c ∈ d.children, c.Still m := by
    intro c member
    obtain ⟨f, listed, shape⟩ := shaped.form rule
    obtain ⟨_, _, tok, rfl, _⟩ | ⟨s, quiet, same⟩ :=
      forall_of_always (all_eq_true.1 cover f listed) shape c member
    · exact .of_isLeaf rfl
    · exact (shaped.child member).still_of_silent same quiet
  constructor
  · have plain : r ≠ .typename ∧ swaps r d.children = false := by
      cases r with
      | relationExpr | deleteTarget => exact ⟨by decide, rfl⟩
      | _ => cases relation
    exact (straight_iff rule plain.1).2 ⟨plain.2, fun c member => (still c member).1⟩
  · rw [child?] at found
    rw [references_relation m rule relation, referencesOf_eq_zero fun c member => (still c member).2, relationName, found]
    simp

/-- The range of the source `d` of a reference, with the alias behind it if there is one. -/
def aliasedSpan (t d : Tree) : Span :=
  match t.child? .aliasClause with
  | some a => d.span.cover a.span
  | none => d.span

/-- A reference has its source, the alias of it and joins. -/
theorem Shaped.nodes_tableRef (shaped : t.Shaped) (rule : t.rule? = some .tableRef) :
    ∃ d js, t.nodes = d :: ((t.child? .aliasClause).toList ++ js) ∧
      IsNode [.selectWithParens, .nestedTableRef, .relationExpr] d ∧
      ∀ j ∈ js, IsNode [.crossJoin, .naturalJoin, .qualifiedJoin] j := by
  have parts {d : Tree} {as js : List Tree} (nodes : t.nodes = [d] ++ (as ++ js))
      (head : IsNode [.selectWithParens, .nestedTableRef, .relationExpr] d)
      (last : (opt (one .aliasClause)).bare.Matches as)
      (joins : ∀ j ∈ js, IsNode [.crossJoin, .naturalJoin, .qualifiedJoin] j) :
      t.nodes = d :: ((t.child? .aliasClause).toList ++ js) := by
    have found : (t.child? .aliasClause).toList = as := by
      have first : ¬ d.hasRule .aliasClause = true := by simp [hasRule_of_not_mem head (r := .aliasClause) (by decide)]
      rw [child?_eq_find?, nodes, singleton_append, find?_cons_of_neg (by exact first)]
      obtain ⟨a, rfl, _, only, named⟩ | none := last
      · rw [singleton_append, find?_cons_of_pos (by exact hasRule_iff.2 (mem_singleton.1 only ▸ named))]
        rfl
      · have none : as = [] := none
        rw [none, nil_append, find?_eq_none.2 fun j member => by simp [hasRule_of_not_mem (joins j member) (r := .aliasClause)]]
        rfl
    exact found ▸ nodes
  obtain ⟨f, listed, shape⟩ := shaped.form rule
  obtain rfl | final := mem_cons.1 listed
  · obtain ⟨_, _, nodes, ⟨d, rfl, head⟩, as, js, rfl, last, joins⟩ := shape.bare
    have joins := isNode_of_always [.crossJoin, .naturalJoin, .qualifiedJoin] rfl joins
    exact ⟨d, js, parts nodes head last joins, head, joins⟩
  · obtain rfl := mem_singleton.1 final
    obtain ⟨_, as, nodes, ⟨d, rfl, head⟩, last⟩ := shape.bare
    have nodes : t.nodes = [d] ++ (as ++ []) := (append_nil as).symm ▸ nodes
    exact ⟨d, [], parts nodes head last (by simp), head, by simp⟩

namespace Prepared

variable (prepared : t.Prepared m)

include prepared

/-! ### Order and windows -/

theorem draws_sortItem (rule : t.rule? = some .sortBy) : Draws m (t.opened m).sortItem [t] :=
  (prepared.draws_firstExpr rule rfl rfl _).bind fun _ one => .ok one.1 (prepared.shaped.enclose rule rfl one.2 rfl)

theorem draws_sort (role : .sort ∈ t.roles) : Draws m (t.opened m).sort [t] := by
  have shaped := prepared.shaped
  obtain ⟨r, _, _, _, _, rfl, listed⟩ := exists_role role
  cases r with
  | withinGroup => exact prepared.draws_through (s := .sortClause) rfl rfl rfl (by decide) "within group"
  | sortClause =>
    exact (prepared.draws_rows (s := .sortBy) rfl rfl rfl (by decide)).bind fun items one =>
      .ok one.1 (shaped.enclose rfl rfl one.2 rfl)
  | _ => exact absurd listed (by decide)

theorem drawn_frame : Sketched m (t.child? .frameClause).toList
    (((t.child? .frameClause).map fun f => (⟨f.span, f.text⟩ : Frame)).toList.map
      fun f => .node (.plain .frameClause f.span) []) := by
  cases found : t.child? .frameClause with
  | none => exact .nil
  | some d =>
    obtain ⟨member, same⟩ := mem_of_child? found
    have still : d.Still m := (prepared.shaped.child member).still_of_silent same rfl
    exact (Sketched.quiet still).enclose (fun framed => framed.leaves_ne_nil same) rfl

theorem draws_window (rule : t.rule? = some .windowSpec) : Draws m (t.opened m).window [t] := by
  have order := prepared.draws_optional (s := .sortClause) (c := .sort) (by decide)
  have whole {os ps : List Outline} {mark : Mark} (range : mark.plainSpan? = some t.span)
      (one : Sketched m (t.child? .partitionClause).toList os) (two : Sketched m (t.child? .sortClause).toList ps) :
      Sketched m [t] [.node mark (os ++ ps ++ ((t.child? .frameClause).map fun f =>
        (⟨f.span, f.text⟩ : Frame)).toList.map fun f => .node (.plain .frameClause f.span) [])] := by
    refine prepared.shaped.enclose rule rfl ?_ range
    refine prepared.shaped.drawn_clauses rule [.partitionClause, .sortClause, .frameClause] (by decide) rfl rfl ?_
    simpa using (one.append two).append prepared.drawn_frame
  rw [Opened.window, kid?_opened]
  cases found : t.child? .partitionClause with
  | none =>
    rw [found] at whole
    exact order.bind fun o two => .ok ⟨trivial, two.1⟩ (whole rfl .nil two.2)
  | some c =>
    rw [found] at whole
    obtain ⟨member, same⟩ := mem_of_child? found
    refine (prepared.draws member same (by decide)).bind fun ps one => ?_
    exact order.bind fun o two => .ok ⟨one.1, two.1⟩ (whole rfl one.2 two.2)

theorem draws_windowDef (rule : t.rule? = some .windowDefinition) : Draws m (t.opened m).windowDef [t] := by
  obtain ⟨_, _, children, ⟨a, rfl, _⟩, _⟩ := prepared.shaped.only rule rfl
  rw [Opened.windowDef, opened_kids, children]
  exact prepared.draws_after rule rfl rfl (by decide) fun w one =>
    .ok one.1 (prepared.shaped.enclose rule rfl one.2 rfl)

theorem draws_overClause (rule : t.rule? = some .overClause) : Draws m (t.opened m).overClause [t] := by
  have whole {os : List Outline} (drawn : Sketched m (t.child? .windowSpec).toList os) : Sketched m [t] os :=
    prepared.shaped.drawn_clauses rule [.windowSpec] (by decide) rfl rfl (by simpa using drawn)
  rw [Opened.overClause, kid?_opened]
  cases spec : t.child? .windowSpec with
  | some c =>
    rw [spec] at whole
    obtain ⟨member, same⟩ := mem_of_child? spec
    exact (prepared.draws member same (by decide)).bind fun w one => .ok one.1 (whole one.2)
  | none =>
    rw [spec] at whole
    obtain ⟨_, _, children, ⟨a, rfl, _⟩, _⟩ := prepared.shaped.only rule rfl
    rw [opened_kids, children]
    simp only [cons_append, nil_append, map_cons, getLast?_cons]
    exact .ok trivial (prepared.shaped.enclose rule rfl (whole .nil) rfl)

/-! ### Sources -/

/-- The source at the head of a reference, with the alias behind it if there is one. -/
theorem draws_source (inside : d ∈ t.children)
    (primary : IsNode [.selectWithParens, .nestedTableRef, .relationExpr] d) :
    Draws m ((t.opened m).source (d.kid m)) (d :: (t.child? .aliasClause).toList) := by
  have shaped := prepared.shaped.child inside
  have place {r : Rule} {os : List Outline} {mark : Mark} {text : List Char} (rule : d.rule? = some r)
      (filled : r.isFilled) (located : ∀ u ∈ d :: (t.child? .aliasClause).toList, u.Located text)
      (sited : Sited text [d] os)
      (range : mark.span = t.aliasedSpan d) : Sited text (d :: (t.child? .aliasClause).toList) [.node mark os] := by
    have bounded := (located d mem_cons_self).bounded
    have some := shaped.leaves_ne_nil rule filled
    cases found : t.child? .aliasClause with
    | none => exact sited.enclose bounded some (by rw [range, aliasedSpan, found])
    | some a =>
      obtain ⟨among, same⟩ := mem_of_child? found
      have shaped := prepared.shaped.child among
      exact sited.named bounded some (shaped.straight_of_silent same rfl) (located a (by simp [found])).bounded
        (shaped.leaves_ne_nil same rfl) (by rw [range, aliasedSpan, found])
  have tables : referencesOf m (d :: (t.child? .aliasClause).toList) = d.references m := by
    cases found : t.child? .aliasClause with
    | none => simp
    | some a =>
      obtain ⟨among, same⟩ := mem_of_child? found
      simp [(prepared.shaped.child among).references_silent same rfl]
  have whole {r : Rule} {os : List Outline} {mark : Mark} (rule : d.rule? = some r) (filled : r.isFilled)
      (drawn : Sketched m [d] os) (range : mark.plainSpan? = some (t.aliasedSpan d)) :
      Sketched m (d :: (t.child? .aliasClause).toList) [.node mark os] := by
    obtain ⟨other, same⟩ := Mark.of_plainSpan? range
    refine ⟨?_, fun located => place rule filled located (drawn.sited (by simpa using located d mem_cons_self)) same⟩
    rw [Outline.references_node mark os other, drawn.tables, tables]
    simp
  obtain ⟨r, among, rule⟩ := primary
  rw [Opened.source, kid_tree, rule]
  obtain rfl | rfl | rfl : r = .selectWithParens ∨ r = .nestedTableRef ∨ r = .relationExpr := by simpa using among
  · exact (prepared.draws inside rule (by decide)).bind fun q one => .ok one.1 (whole rule rfl one.2 rfl)
  · exact (prepared.draws inside rule (by decide)).bind fun i one => .ok one.1 (whole rule rfl one.2 rfl)
  · obtain ⟨name, found, -⟩ := shaped.exists_need (s := .qualifiedName) rule rfl
    obtain ⟨straight, references⟩ := shaped.table (m := m) rule rfl rfl found
    rw [need, found]
    refine .ok trivial ⟨?_, fun located => place rule rfl located (.quiet straight) rfl⟩
    rw [tables, references]
    rfl

theorem draws_joins {js : List Tree} (inside : js ⊆ t.children)
    (each : ∀ j ∈ js, IsNode [.crossJoin, .naturalJoin, .qualifiedJoin] j) :
    Draws m (Opened.joins (js.map (kid m))) js := by
  induction js with
  | nil => exact .ok trivial .nil
  | cons d js ih =>
    obtain ⟨member, rest⟩ := cons_subset.1 inside
    have later := ih rest fun j among => each j (mem_cons_of_mem d among)
    obtain ⟨r, among, rule⟩ := each d mem_cons_self
    rw [map_cons, Opened.joins, kid_tree, rule]
    obtain rfl | rfl | rfl : r = .crossJoin ∨ r = .naturalJoin ∨ r = .qualifiedJoin := by simpa using among
    all_goals
      refine (prepared.draws member rule (by decide)).bind fun j one => ?_
      exact later.bind fun js two => .ok ⟨one.1, two.1⟩ (one.2.append two.2)

omit prepared in
/-- The alias of the source is left out among the joins. -/
theorem joins_aliasClause (ks : List Kid) :
    Opened.joins ((t.child? .aliasClause).toList.map (kid m) ++ ks) = Opened.joins ks := by
  cases found : t.child? .aliasClause with
  | none => rfl
  | some a => simp [Opened.joins, (mem_of_child? found).2]

theorem draws_sourceItem (role : .sourceItem ∈ t.roles) : Draws m (t.opened m).sourceItem [t] := by
  have shaped := prepared.shaped
  obtain ⟨r, f, l, x, cs, rfl, listed⟩ := exists_role role
  cases r with
  | nestedTableRef => exact prepared.draws_through (s := .tableRef) rfl rfl rfl (by decide) "parenthesized join"
  | tableRef =>
    obtain ⟨d, js, nodes, head, joins⟩ := shaped.nodes_tableRef rfl
    have inside : d :: ((child? (.node .tableRef f l x cs) .aliasClause).toList ++ js) ⊆ cs :=
      nodes ▸ filter_sublist.subset
    obtain ⟨first, inside⟩ := cons_subset.1 inside
    rw [Opened.sourceItem, opened_tree, rule?]
    dsimp only
    rw [nodes_opened, nodes, map_cons, map_append]
    refine (prepared.draws_source first head).bind fun source one => ?_
    rw [joins_aliasClause]
    refine (prepared.draws_joins (append_subset.1 inside).2 joins).bind fun js two => ?_
    refine .ok ⟨one.1, two.1⟩ (shaped.enclose rfl rfl (drawn_nodes rfl rfl ?_) rfl)
    rw [nodes]
    exact one.2.append two.2
  | _ => exact absurd listed (by decide)

theorem draws_sources (rule : t.rule? = some .fromClause) : Draws m (t.opened m).sources [t] :=
  (prepared.draws_rows (s := .tableRef) rule rfl rfl (by decide)).bind fun items one =>
    .ok one.1 (prepared.shaped.enclose rule rfl one.2 rfl)

/-! ### Joins -/

theorem draws_condition (role : .condition ∈ t.roles) : Draws m (t.opened m).condition [t] := by
  have shaped := prepared.shaped
  obtain ⟨r, _, _, _, _, rfl, listed⟩ := exists_role role
  cases r with
  | joinUsing => exact .ok trivial (shaped.enclose_bare rfl rfl rfl rfl rfl)
  | joinOn =>
    exact (prepared.draws_firstExpr rfl rfl rfl _).bind fun e one => .ok one.1 (shaped.enclose rfl rfl one.2 rfl)
  | _ => exact absurd listed (by decide)

theorem exists_joinType : ∃ type, Opened.joinType t = .ok type := by
  rw [Opened.joinType]
  cases found : t.child? .joinType with
  | none => exact ⟨_, rfl⟩
  | some c =>
    obtain ⟨member, rule⟩ := mem_of_child? found
    obtain ⟨f, listed, shape⟩ := (prepared.shaped.child member).form rule
    obtain rfl | last := mem_cons.1 listed
    · obtain ⟨_, children, tok, rfl, fits⟩ := shape
      obtain ⟨type, known⟩ : ∃ type, Opened.joinType? tok.kind = some type :=
        exists_known [.keyword .INNER] rfl rfl fits
      simp [children, token, known]
    · obtain rfl := mem_singleton.1 last
      obtain ⟨_, _, children, ⟨_, rfl, tok, rfl, fits⟩, _⟩ := shape
      obtain ⟨type, known⟩ : ∃ type, Opened.joinType? tok.kind = some type :=
        exists_known ([.LEFT, .RIGHT, .FULL].map .keyword) rfl rfl fits
      simp [children, token, known]

/-- A join that is neither a cross join nor a natural one has its condition. -/
theorem draws_joinCondition {k : Kid}
    (found : ((t.opened m).kid? .joinOn).or ((t.opened m).kid? .joinUsing) = some k) :
    Draws m (k.read .condition) ((t.child? .joinOn).toList ++ (t.child? .joinUsing).toList) := by
  have shared : Sketched m (t.child? .joinUsing).toList [] := by
    cases using' : t.child? .joinUsing with
    | none => exact .nil
    | some c =>
      obtain ⟨member, same⟩ := mem_of_child? using'
      exact .quiet ((prepared.shaped.child member).still_of_silent same rfl)
  rw [kid?_opened, kid?_opened] at found
  obtain on | ⟨none, columns⟩ := Option.or_eq_some_iff.1 found
  · obtain ⟨c, first, rfl⟩ := Option.map_eq_some_iff.1 on
    obtain ⟨member, same⟩ := mem_of_child? first
    rw [first]
    exact (prepared.draws member same (by decide)).imp fun drawn => by simpa using drawn.append shared
  · obtain ⟨c, first, rfl⟩ := Option.map_eq_some_iff.1 columns
    obtain ⟨member, same⟩ := mem_of_child? first
    rw [Option.map_eq_none_iff.1 none, first]
    exact prepared.draws member same (by decide)

/-- A join of two sources that is natural or has a condition. -/
theorem draws_joined (rule : t.rule? = some r) (other : r ≠ .crossJoin) (plain : r.isPlain) (filled : r.isFilled)
    (required : r.forms.all fun f => f.surely (fun _ => false) (· = .tableRef))
    (order : r.forms.all (·.spreads [.tableRef, .joinOn, .joinUsing]))
    (settled : r = .naturalJoin ∨ (((t.opened m).kid? .joinOn).or ((t.opened m).kid? .joinUsing)).isSome) :
    Draws m (t.opened m).join [t] := by
  obtain ⟨⟨type, outer⟩, known⟩ := prepared.exists_joinType
  have cross : t.hasRule .crossJoin = false := by simp [hasRule, rule, other]
  refine prepared.draws_needed rule required (by decide) fun item one => ?_
  have whole {os : List Outline} {mark : Mark} (range : mark.plainSpan? = some t.span)
      (two : Sketched m ((t.child? .joinOn).toList ++ (t.child? .joinUsing).toList) os) :
      Sketched m [t] [.node mark (item.outline ++ os)] := by
    refine prepared.shaped.enclose rule filled ?_ range
    exact prepared.shaped.drawn_clauses rule _ (by decide) plain order (by simpa using one.2.append two)
  simp only [opened_tree, cross, Bool.false_eq_true, if_false, known, bind, Except.bind]
  cases condition : ((t.opened m).kid? .joinOn).or ((t.opened m).kid? .joinUsing) with
  | some k =>
    exact (prepared.draws_joinCondition condition).bind fun on two => .ok ⟨fun _ => rfl, one.1, two.1⟩ (whole rfl two.2)
  | none =>
    have natural : t.hasRule .naturalJoin := by simpa [condition, hasRule, rule] using settled
    rw [kid?_opened, kid?_opened] at condition
    obtain ⟨none, none'⟩ := Option.or_eq_none_iff.1 condition
    simp only [natural, if_true]
    refine .ok ⟨fun other => absurd other (by decide), one.1, trivial⟩ (whole rfl ?_)
    rw [Option.map_eq_none_iff.1 none, Option.map_eq_none_iff.1 none']
    exact .nil

theorem draws_join (role : .join ∈ t.roles) : Draws m (t.opened m).join [t] := by
  have shaped := prepared.shaped
  obtain ⟨r, _, l, _, _, rfl, listed⟩ := exists_role role
  cases r with
  | crossJoin =>
    exact prepared.draws_after rfl rfl rfl (s := .tableRef) (by decide) fun item one =>
      .ok one.1 (shaped.enclose rfl rfl one.2 rfl)
  | naturalJoin => exact prepared.draws_joined rfl (by decide) rfl rfl rfl rfl (.inl rfl)
  | qualifiedJoin =>
    refine prepared.draws_joined rfl (by decide) rfl rfl rfl rfl (.inr ?_)
    obtain ⟨c, member, ⟨_, no, _⟩ | ⟨s, two, same⟩⟩ := exists_of_surely (l := fun _ => false)
      (n := fun s => s = .joinOn ∨ s = .joinUsing) rfl (shaped.only rfl rfl)
    · cases no
    · rw [kid?_opened, kid?_opened]
      obtain rfl | rfl : s = .joinOn ∨ s = .joinUsing := of_decide_eq_true two
      all_goals
        obtain ⟨_, found, _⟩ := exists_child? member same
        simp [found]
  | _ => exact absurd listed (by decide)

end Prepared
end TableLineage.Tree
