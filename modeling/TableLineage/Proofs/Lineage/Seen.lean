import TableLineage.Proofs.Statement.Placed
import TableLineage.Proofs.Statement.ViewQuery

/-! Scripts under a view: texts whose tokens look the same have statements with the same lineage and
say the same about those that are passed over, at places that the looks of tokens tell. -/
namespace TableLineage

open List

/-- Statements with the same lineage at related places. -/
structure Statement.SameFlow (P : Span → Span → Prop) (s s' : Statement) : Prop where
  flow : s.flow = s'.flow
  place : P s.span s'.span

/-- Diagnostics that say the same of related places. -/
structure Diagnostic.SameWord (P : Span → Span → Prop) (d d' : Diagnostic) : Prop where
  severity : d.severity = d'.severity
  message : d.message = d'.message
  place : P d.span d'.span

/-- What becomes of two statements that look the same. -/
inductive Item.Same (P : Span → Span → Prop) : Item → Item → Prop
  | statement {s s' : Statement} (same : s.SameFlow P s') : Same P (.statement s) (.statement s')
  | skipped {d d' : Diagnostic} (same : d.SameWord P d') : Same P (.skipped d) (.skipped d')

structure Script.Same (P : Span → Span → Prop) (r r' : Script) : Prop where
  statements : List.Forall₂ (Statement.SameFlow P) r.statements r'.statements
  diagnostics : List.Forall₂ (Diagnostic.SameWord P) r.diagnostics r'.diagnostics

namespace Tree

variable {v : Grammar.View} {m : ReadMode} (keeps : v.KeepsNames m)

include keeps in
theorem read_look {t t' : Tree} (same : t.seen v = t'.seen v) :
    Agree (fun s s' : Statement => s.flow = s'.flow) (t.read m .statement) (t'.read m .statement) := by
  have one := t.read_seen keeps (c := .statement) rfl
  have other := t'.read_seen keeps (c := .statement) rfl
  rw [← same] at other
  generalize t.read m .statement = x, t'.read m .statement = y, (t.seen v).read m .statement = z at one other
  cases one with
  | error =>
    cases other
    exact .error
  | ok alike =>
    cases other with
    | ok alike' => exact .ok (alike.trace_eq.trans alike'.trace_eq.symm)

variable {tokens tokens' : List Token} {n n' body body' : Tree}

theorem Body.see_first (whole : n.Body tokens body) (whole' : n'.Body tokens' body')
    (same : body.seen v = body'.seen v) : v.see body.first = v.see body'.first := by
  have leaves := (body.leaves_seen v).symm.trans (same ▸ body'.leaves_seen v)
  have heads := congrArg List.head? leaves
  rw [head?_map, head?_map, whole.first, whole'.first] at heads
  exact Option.some.inj heads

theorem Body.see_last (whole : n.Body tokens body) (whole' : n'.Body tokens' body')
    (same : body.seen v = body'.seen v) : v.see body.last = v.see body'.last := by
  have leaves := (body.leaves_seen v).symm.trans (same ▸ body'.leaves_seen v)
  have lasts := congrArg List.getLast? leaves
  rw [getLast?_map, getLast?_map, whole.last, whole'.last] at lasts
  exact Option.some.inj lasts

end Tree

/-- The view tells how the ranges are related that tokens of the one text and of the other span. -/
def Grammar.View.Places (v : Grammar.View) (tokens tokens' : List Token) (P : Span → Span → Prop) : Prop :=
  ∀ t ∈ tokens, ∀ u ∈ tokens, ∀ t' ∈ tokens', ∀ u' ∈ tokens', v.see t = v.see t' → v.see u = v.see u' →
    P ⟨t.span.start, u.span.stop⟩ ⟨t'.span.start, u'.span.stop⟩

/-- The view does not change what a token reads as in capitals. -/
def Grammar.View.KeepsWords (v : Grammar.View) : Prop := ∀ t, Text.upperWord (v.see t).raw = Text.upperWord t.raw

section

variable {v : Grammar.View} {m : ReadMode} {P : Span → Span → Prop} {tokens tokens' : List Token} {n n' body body' : Tree}
  (words : v.KeepsWords) (places : v.Places tokens tokens' P)

include places in
theorem Tree.Body.place (whole : n.Body tokens body) (whole' : n'.Body tokens' body')
    (same : body.seen v = body'.seen v) : P body.span body'.span :=
  places _ (whole.tokens _ (mem_of_head? whole.first)) _ (whole.tokens _ (mem_of_getLast? whole.last))
    _ (whole'.tokens _ (mem_of_head? whole'.first)) _ (whole'.tokens _ (mem_of_getLast? whole'.last))
    (whole.see_first whole' same) (whole.see_last whole' same)

include words places

theorem Tree.item_look (keeps : v.KeepsNames m) (rule : n.rule? = some .stmt) (whole : n.Body tokens body)
    (whole' : n'.Body tokens' body') (same : n.seen v = n'.seen v) :
    Agree (Item.Same P) (n.item m) (n'.item m) := by
  have rule' : n'.rule? = some .stmt := by rw [← rule?_seen (v := v), ← same, rule?_seen, rule]
  have inner : body.seen v = body'.seen v := by
    have children := congrArg Tree.children same
    rw [children_seen, children_seen, whole.children, whole'.children] at children
    exact (List.cons.inj children).1
  have place := whole.place places whole' inner
  have found : n.statementBody = .ok body := by simp [statementBody, hasRule_iff.2 rule, whole.nodes]
  have found' : n'.statementBody = .ok body' := by simp [statementBody, hasRule_iff.2 rule', whole'.nodes]
  have other : body'.hasRule .otherStmt = body.hasRule .otherStmt := by
    rw [← hasRule_seen (v := v), ← inner, hasRule_seen]
  unfold item
  rw [found, found']
  simp only [bind, Except.bind, other]
  split
  · have word : Text.upperWord body.first.raw = Text.upperWord body'.first.raw := by
      rw [← words body.first, whole.see_first whole' inner, words]
    exact .ok (.skipped ⟨rfl, congrArg ("unsupported statement " ++ ·) word, place⟩)
  · have both := read_look keeps inner
    have stands {s : Statement} (read : body.read m .statement = .ok s) : s.span = body.span := span_of_read read
    have stands' {s : Statement} (read : body'.read m .statement = .ok s) : s.span = body'.span := span_of_read read
    generalize body.read m .statement = x, body'.read m .statement = y at both stands stands'
    cases both with
    | error => exact .error
    | ok flow => exact .ok (.statement ⟨flow, by rwa [stands rfl, stands' rfl]⟩)

theorem Script.ofTrees_look {normalize : Bool} (keeps : v.KeepsNames ⟨normalize, false⟩) {ns ns' : List Tree}
    (same : ns.map (Tree.seen v) = ns'.map (Tree.seen v))
    (whole : ∀ n ∈ ns, n.rule? = some .stmt ∧ ∃ body, n.Body tokens body)
    (whole' : ∀ n ∈ ns', ∃ body, n.Body tokens' body) :
    Agree (Script.Same P) (Script.ofTrees normalize ns) (Script.ofTrees normalize ns') := by
  induction ns generalizing ns' with
  | nil =>
    rw [map_eq_nil_iff.1 same.symm]
    exact .ok ⟨.nil, .nil⟩
  | cons n ns ih =>
    cases ns' with
    | nil => cases same
    | cons n' ns' =>
      obtain ⟨head, tail⟩ := List.cons.inj same
      obtain ⟨⟨rule, body, one⟩, rest⟩ := forall_mem_cons.1 whole
      obtain ⟨⟨body', one'⟩, rest'⟩ := forall_mem_cons.1 whole'
      refine (Tree.item_look words places keeps rule one one' head).bind fun i i' item => ?_
      refine (ih tail rest rest').bind fun r r' more => ?_
      cases item with
      | statement flow => exact .ok ⟨.cons flow more.statements, more.diagnostics⟩
      | skipped word => exact .ok ⟨more.statements, .cons word more.diagnostics⟩

end

/-- Texts that scan without a fault into tokens that look the same are the same scripts, but for
what the view does not show. -/
theorem Script.ofText_look {v : Grammar.View} {P : Span → Span → Prop} {normalize : Bool} {s s' : String}
    (words : v.KeepsWords) (keeps : v.KeepsNames ⟨normalize, false⟩)
    (places : v.Places (scan s).tokens (scan s').tokens P) (clean : (scan s).errors = []) (clean' : (scan s').errors = [])
    (same : (scan s).tokens.map v.see = (scan s').tokens.map v.see) :
    Agree (Script.Same P) (Script.ofText normalize s) (Script.ofText normalize s') := by
  have both := parse_seen clean clean' same
  unfold Script.ofText
  cases parsed : parse s with
  | error =>
    rw [parsed] at both
    generalize parse s' = y at both
    cases both
    exact .error
  | ok t =>
    cases parsed' : parse s' with
    | error =>
      rw [parsed, parsed'] at both
      cases both
    | ok t' =>
      rw [parsed, parsed'] at both
      cases both with
      | ok seen =>
        have built := parseTokens_of_parse parsed
        have built' := parseTokens_of_parse parsed'
        have statements : (t.childrenOf .stmt).map (Tree.seen v) = (t'.childrenOf .stmt).map (Tree.seen v) := by
          rw [← Tree.childrenOf_seen, seen, Tree.childrenOf_seen]
        have script := Script.ofTrees_look words places keeps statements
          (fun n member => ⟨Tree.hasRule_iff.1 (mem_filter.1 member).2, Grammar.parseTokens_body built member⟩)
          (fun n member => Grammar.parseTokens_body built' member)
        have root := Tree.hasRule_iff.2 (Grammar.parseTokens_shaped built).2
        have root' := Tree.hasRule_iff.2 (Grammar.parseTokens_shaped built').2
        simp only [Script.ofTree, root, root', if_true]
        generalize Script.ofTrees normalize (t.childrenOf .stmt) = x,
          Script.ofTrees normalize (t'.childrenOf .stmt) = y at script
        cases script with
        | error => exact .error
        | ok related => exact .ok related

end TableLineage
