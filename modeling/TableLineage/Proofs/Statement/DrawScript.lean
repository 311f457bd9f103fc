import TableLineage.Proofs.Statement.Placed

/-! The statements of a text are drawn from its parse tree. -/
namespace TableLineage

open List

variable {t : Tree}

/-- A statement is drawn from the tree of its body. -/
theorem Tree.drawn_of_statement {text : List Char} {m : ReadMode} {s : Statement} (sighted : m.blind = false)
    (shaped : t.Shaped) (located : t.Located text) (rule : t.rule? = some .stmt) (kept : t.isSkipped = false)
    (read : t.StatementOf m s) : Drawn text m [t] s.outline := by
  obtain ⟨body, r, children, nodes, same, kind⟩ := shaped.body rule
  obtain ⟨other, nodes', outcome, _⟩ := read
  obtain rfl : body = other := by simpa [nodes] using nodes'
  have shown : r.Shows .statement := by
    refine kind.resolve_left ?_
    rintro rfl
    simp [isSkipped, nodes, hasRule, same] at kept
  obtain ⟨p, found, traced⟩ := (shaped.child (by simp [children])).ready sighted .statement
    (mem_roles_of_rule same shown.1 fun is => absurd is shown.2.1)
  cases found.symm.trans outcome
  have drawn : Sketched m [t] s.outline :=
    drawn_children rule rfl (by simpa [children, part, hasRule, same, shown.2.2] using traced.drawn)
  exact ⟨drawn.tables, drawn.sited (by simpa using located)⟩

/-- The statements of a text that parses can be read, and each is drawn from its tree. -/
theorem Script.drawn_of_parse (normalize : Bool) {text : String} (parsed : parse text = .ok t) :
    ∃ script, Script.ofText normalize text = .ok script ∧
      List.Forall₂ (fun stmt s => Drawn text.toList ⟨normalize, false⟩ [stmt] (Phrase.outline s) ∧
          stmt.StatementOf ⟨normalize, false⟩ s)
        ((t.childrenOf .stmt).filter (!·.isSkipped)) script.statements := by
  obtain ⟨shaped, root⟩ := parse_shaped parsed
  have located : t.Located text.toList := ⟨(Grammar.parseTokens_bounded (parseTokens_of_parse parsed)).1,
    Grammar.parseTokens_framed (parseTokens_of_parse parsed)⟩
  have inside : ∀ u ∈ t.childrenOf .stmt, u ∈ t.children ∧ u.rule? = some .stmt := by
    intro u member
    obtain ⟨child, rule⟩ := mem_filter.1 member
    exact ⟨child, Tree.hasRule_iff.1 rule⟩
  obtain ⟨script, read, statements, -⟩ := Script.ofTrees_of_shaped normalize
    (fun u member => shaped.child (inside u member).1) (fun u member => (inside u member).2)
  refine ⟨script, ?_, ?_⟩
  · simp only [Script.ofText, parsed, Script.ofTree, Tree.hasRule_iff.2 root, if_true, read]
  · have each : ∀ u ∈ (t.childrenOf .stmt).filter (!·.isSkipped), u ∈ t.children ∧ u.rule? = some .stmt ∧ u.isSkipped = false := by
      intro u member
      obtain ⟨among, kept⟩ := mem_filter.1 member
      exact ⟨(inside u among).1, (inside u among).2, by simpa using kept⟩
    refine List.Forall₂.imp ?_ ((forall₂_and_left _ _).2 ⟨each, statements⟩)
    rintro u s ⟨⟨member, rule, kept⟩, statement⟩
    exact ⟨Tree.drawn_of_statement rfl (shaped.child member) (located.child member) rule kept statement, statement⟩

/-- No table is lost between text and walk: the statements of a text that parses can be read, and
the names of the tables that a walk through one of them meets are those of the relations and of the
targets of deletions in its parse tree, types left out. -/
theorem walk_meets_tables_of_text (normalize : Bool) {text : String} {t : Tree} (parsed : parse text = .ok t) :
    ∃ script, Script.ofText normalize text = .ok script ∧
      List.Forall₂ (fun stmt s => (Outline.tableNames (Phrase.outline s)).Perm (stmt.tableNames ⟨normalize, false⟩))
        ((t.childrenOf .stmt).filter (!·.isSkipped)) script.statements := by
  obtain ⟨script, read, each⟩ := Script.drawn_of_parse normalize parsed
  refine ⟨script, read, List.Forall₂.imp ?_ each⟩
  rintro stmt s ⟨drawn, -⟩
  exact Multiset.coe_eq_coe.1 (drawn.tables.trans (by simp [Tree.references]))

theorem walk_meets_tables_of_delete_and_join :
    ∃ t, parse "DELETE FROM a.B USING c; WITH w AS (SELECT 1 FROM d) SELECT e::t FROM w JOIN (f CROSS JOIN c) ON true"
        = .ok t ∧
      (t.childrenOf .stmt).map (fun u => (u.isSkipped, u.tableNames ⟨true, false⟩)) =
        [(false, ["a.b", "c"]), (false, ["d", "w", "f", "c"])] ∧
      ∃ script, Script.ofText true
          "DELETE FROM a.B USING c; WITH w AS (SELECT 1 FROM d) SELECT e::t FROM w JOIN (f CROSS JOIN c) ON true"
          = .ok script ∧
        List.Forall₂ (fun stmt s => (Outline.tableNames (Phrase.outline s)).Perm (stmt.tableNames ⟨true, false⟩))
          ((t.childrenOf .stmt).filter (!·.isSkipped)) script.statements := by
  generalize same : parse
    "DELETE FROM a.B USING c; WITH w AS (SELECT 1 FROM d) SELECT e::t FROM w JOIN (f CROSS JOIN c) ON true" = parsed
  have names : (parsed.toOption.map fun t => (t.childrenOf .stmt).map fun u =>
      (u.isSkipped, u.tableNames ⟨true, false⟩)) = some [(false, ["a.b", "c"]), (false, ["d", "w", "f", "c"])] := by
    rw [← same]
    decide +kernel
  cases parsed with
  | error => cases names
  | ok t => exact ⟨t, rfl, Option.some.inj names, walk_meets_tables_of_text true same⟩
end TableLineage
