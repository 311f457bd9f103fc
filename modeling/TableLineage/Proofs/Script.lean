import Mathlib.Data.List.Forall2
import TableLineage.Proofs.Statement.DrawStatement
import TableLineage.Statement.Script

/-! Scripts: whatever parses can be read, statement by statement. -/
namespace TableLineage

open List

namespace Tree

/-- The body of a statement reads as `s`, with no part of it missing. -/
def StatementOf (m : ReadMode) (t : Tree) (s : Statement) : Prop :=
  ∃ body, t.nodes = [body] ∧ body.read m .statement = .ok s ∧ s.Complete

/-- A statement that is passed over, with the word on it. -/
def SkippedWith (t : Tree) (d : Diagnostic) : Prop :=
  ∃ body, t.nodes = [body] ∧
    d = ⟨.warning, body.span, "unsupported statement " ++ Text.upperWord body.first.raw⟩

/-- Whether the body of a statement is of no kind that is read. -/
def isSkipped (t : Tree) : Bool := t.nodes.any (·.hasRule .otherStmt)

theorem item_of_shaped {m : ReadMode} {t : Tree} (sighted : m.blind = false) (shaped : t.Shaped)
    (rule : t.rule? = some .stmt) :
    (t.isSkipped = false ∧ ∃ s, t.item m = .ok (.statement s) ∧ t.StatementOf m s) ∨
      (t.isSkipped = true ∧ ∃ d, t.item m = .ok (.skipped d) ∧ t.SkippedWith d) := by
  obtain ⟨body, r, children, nodes, same, kind⟩ := shaped.body rule
  have found : t.statementBody = .ok body := by simp [statementBody, hasRule_iff.2 rule, nodes]
  have inner : body.Shaped := shaped.child (by simp [children])
  by_cases other : r = .otherStmt
  · have mark : body.hasRule .otherStmt := hasRule_iff.2 (other ▸ same)
    refine .inr ⟨by simp [isSkipped, nodes, mark], _, ?_, body, nodes, rfl⟩
    simp [item, found, mark, bind, Except.bind, pure, Except.pure]
  · have plain : body.hasRule .otherStmt = false := by simp [hasRule, same, other]
    obtain ⟨role, limit, -⟩ := kind.resolve_left other
    obtain ⟨s, read, complete⟩ := (inner.ready sighted).gives same ⟨role, limit⟩
    refine .inl ⟨by simp [isSkipped, nodes, plain], s, ?_, body, nodes, read, complete⟩
    simp [item, found, plain, read, bind, Except.bind, pure, Except.pure]

end Tree

/-- The induction is over the statements; each goes into one of the two lists. -/
theorem Script.ofTrees_of_shaped (normalize : Bool) {ts : List Tree} (shaped : ∀ t ∈ ts, t.Shaped)
    (rules : ∀ t ∈ ts, t.rule? = some .stmt) :
    ∃ script, ofTrees normalize ts = .ok script ∧
      List.Forall₂ (Tree.StatementOf ⟨normalize, false⟩) (ts.filter (!·.isSkipped)) script.statements ∧
      List.Forall₂ Tree.SkippedWith (ts.filter (·.isSkipped)) script.diagnostics := by
  induction ts with
  | nil => exact ⟨empty, rfl, .nil, .nil⟩
  | cons t ts ih =>
    obtain ⟨script, rest, statements, diagnostics⟩ := ih (fun u member => shaped u (mem_cons_of_mem t member))
      (fun u member => rules u (mem_cons_of_mem t member))
    obtain ⟨kept, s, item, read⟩ | ⟨skipped, d, item, word⟩ := Tree.item_of_shaped (m := ⟨normalize, false⟩) rfl
      (shaped t mem_cons_self) (rules t mem_cons_self)
    · refine ⟨add (.statement s) script, by rw [ofTrees, item, rest]; rfl, ?_, ?_⟩
      · simpa [kept] using .cons read statements
      · simpa [kept, add] using diagnostics
    · refine ⟨add (.skipped d) script, by rw [ofTrees, item, rest]; rfl, ?_, ?_⟩
      · simpa [skipped, add] using statements
      · simpa [skipped] using .cons word diagnostics

/-- The tree of a text that parses reads as a script, and its statements are accounted for once
each and in order: those that are read in the statements, with no part of them missing, and those
that are passed over in the diagnostics. -/
theorem script_accounts_for_parsed_text (normalize : Bool) {text : String} {t : Tree} (parsed : parse text = .ok t) :
    ∃ script, Script.ofTree normalize (some t) = .ok script ∧
      List.Forall₂ (Tree.StatementOf ⟨normalize, false⟩) ((t.childrenOf .stmt).filter (!·.isSkipped))
        script.statements ∧
      List.Forall₂ Tree.SkippedWith ((t.childrenOf .stmt).filter (·.isSkipped)) script.diagnostics := by
  obtain ⟨shaped, root⟩ := parse_shaped parsed
  rw [Script.ofTree, if_pos (Tree.hasRule_iff.2 root)]
  refine Script.ofTrees_of_shaped normalize (fun u member => ?_) fun u member => ?_
  · exact shaped.child (List.mem_filter.1 member).1
  · exact Tree.hasRule_iff.1 (List.mem_filter.1 member).2

theorem script_accounts_for_join_and_vacuum :
    ∃ t, parse "SELECT CASE a WHEN 1 THEN b END FROM x JOIN y ON c IN (SELECT d FROM z); VACUUM w" = .ok t ∧
      (t.childrenOf .stmt).map Tree.isSkipped = [false, true] ∧
      ∃ script, Script.ofTree true (some t) = .ok script ∧
        List.Forall₂ (Tree.StatementOf ⟨true, false⟩) ((t.childrenOf .stmt).filter (!·.isSkipped))
          script.statements ∧
        List.Forall₂ Tree.SkippedWith ((t.childrenOf .stmt).filter (·.isSkipped)) script.diagnostics := by
  generalize same : parse "SELECT CASE a WHEN 1 THEN b END FROM x JOIN y ON c IN (SELECT d FROM z); VACUUM w" = parsed
  have kinds : (parsed.toOption.map fun t => (t.childrenOf .stmt).map Tree.isSkipped) = some [false, true] := by
    rw [← same]
    decide +kernel
  cases parsed with
  | error => cases kinds
  | ok t => exact ⟨t, rfl, Option.some.inj kinds, script_accounts_for_parsed_text true same⟩

end TableLineage
