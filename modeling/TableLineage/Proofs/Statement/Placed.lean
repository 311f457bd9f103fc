import TableLineage.Proofs.Grammar.Faithful
import TableLineage.Proofs.Grammar.Sequence
import TableLineage.Proofs.Script

/-! Where statements stand: a statement has the range of the node that it was read from, and that
node starts and stops with tokens of the text. -/
namespace TableLineage

open List

/-- If there is an outcome, it stands at the range. -/
def StandsAt {c : Category} (x : Outcome (Phrase c)) (span : Span) : Prop := ∀ p, x = .ok p → p.span = span

namespace StandsAt

variable {α : Type} {c : Category} {span : Span}

theorem ok {p : Phrase c} (same : p.span = span) : StandsAt (.ok p) span := by
  intro q found
  cases found
  exact same

theorem error {e : Mismatch} : StandsAt (.error e : Outcome (Phrase c)) span := by
  intro q found
  cases found

theorem after {x : Outcome α} {f : α → Outcome (Phrase c)} (rest : ∀ a, StandsAt (f a) span) :
    StandsAt (x >>= f) span := by
  cases x with
  | error => exact .error
  | ok a => exact rest a

end StandsAt

namespace Opened

variable (o : Opened)

theorem standsAt_query (rule : o.tree.rule? = some .selectStmt) : StandsAt o.query o.tree.span := by
  unfold Opened.query
  rw [rule]
  exact .after fun _ => .after fun _ => .after fun _ => .after fun _ => .after fun _ => .after fun _ => .ok rfl

theorem standsAt_insert : StandsAt o.insert o.tree.span := by
  refine .after fun _ => .after fun _ => ?_
  cases o.tree.leaf? (.keyword .DEFAULT) with
  | some => exact .ok rfl
  | none => exact .after fun _ => .after fun _ => .ok rfl

theorem standsAt_alterRename : StandsAt o.alterRename o.tree.span := by
  unfold Opened.alterRename
  cases o.tree.children.getLast? with
  | none => exact .error
  | some c =>
    refine .after fun _ => ?_
    split
    · exact .error
    · exact .ok rfl

theorem standsAt_drop : StandsAt o.drop o.tree.span := by
  unfold Opened.drop
  cases o.dropKind? with
  | none => exact .error
  | some => exact .ok rfl

theorem standsAt_statement : StandsAt o.statement o.tree.span := by
  unfold Opened.statement
  split
  · next rule =>
    cases query : o.query with
    | error => exact .error
    | ok q => exact .ok (o.standsAt_query rule q query)
  · exact o.standsAt_insert
  · exact .after fun _ => .after fun _ => .after fun _ => .after fun _ => .after fun _ => .ok rfl
  · exact .after fun _ => .after fun _ => .after fun _ => .ok rfl
  · exact .after fun _ => .after fun _ => .after fun _ => .ok rfl
  · exact .after fun _ => .after fun _ => .ok rfl
  · exact o.standsAt_alterRename
  · exact o.standsAt_drop
  · exact .error

end Opened

/-- A statement has the range of the tree that it is read from. -/
theorem Tree.span_of_read {m : ReadMode} {t : Tree} {s : Statement} (read : t.read m .statement = .ok s) :
    s.span = t.span := by
  cases t with
  | leaf tok =>
    rw [Tree.read] at read
    exact Opened.standsAt_statement ⟨m, .leaf tok, []⟩ s read
  | node r f l x cs =>
    rw [Tree.read] at read
    exact Opened.standsAt_statement ⟨m, .node r f l x cs, openAll m cs⟩ s read

/-- The body of a statement of a script: it starts and stops with tokens of the script. -/
structure Tree.Body (tokens : List Token) (t body : Tree) : Prop where
  children : t.children = [body]
  nodes : t.nodes = [body]
  first : body.leaves.head? = some body.first
  last : body.leaves.getLast? = some body.last
  tokens : ∀ u ∈ body.leaves, u ∈ tokens

theorem Grammar.parseTokens_body {source : List Char} {tokens : List Token} {t n : Tree}
    (parsed : parseTokens source tokens = .ok t) (member : n ∈ t.childrenOf .stmt) : ∃ body, n.Body tokens body := by
  obtain ⟨inside, rule⟩ := mem_filter.1 member
  obtain ⟨body, children, r, _, same⟩ := ((parseTokens_shaped parsed).1.child inside).only (Tree.hasRule_iff.1 rule) rfl
  have nodes : n.nodes = [body] := by simp [Tree.nodes, children, Form.isLeaf_of_rule same]
  obtain ⟨bounded, rest, read, -⟩ := parseTokens_bounded parsed
  have covers := parseTokens_covers parsed n inside
  have below : ∀ u ∈ n.leaves, u ∈ tokens := by
    intro u among
    rw [read]
    exact mem_append_left _ (Tree.mem_leaves_of_child inside among)
  have inner := (bounded.child inside).child (c := body) (by simp [children])
  have leaves : n.leaves = body.leaves := by
    cases n with
    | leaf => cases children
    | node =>
      cases children
      exact Tree.leavesAll_singleton body
  rw [leaves] at covers below
  cases inner with
  | leaf => cases same
  | node edges _ =>
    obtain ⟨head, last, -⟩ := edges covers
    exact ⟨_, children, nodes, head, last, below⟩

theorem parseTokens_of_parse {text : String} {t : Tree} (parsed : parse text = .ok t) :
    Grammar.parseTokens text.toList (scan text).tokens = .ok t :=
  (parse_eq_ok_iff.1 parsed).2

end TableLineage
