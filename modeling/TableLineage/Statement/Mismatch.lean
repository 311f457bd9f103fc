import TableLineage.Text.Quoted
import TableLineage.Tree.Basic

/-! Why a parse tree cannot be read as a statement. -/
namespace TableLineage

inductive Problem where
  | missing (what : String)
  | expected (what : String)
  | malformed (what : String)
  | unknown (what raw : String)
  | unexpectedRule (rule : String)
  | unexpectedToken (raw : String)
  | unexpectedTree (tree : Tree)
  | shape (tree : Tree)
  | noRightOperand (operator : String)

def Problem.message : Problem → String
  | .missing what => "missing " ++ what
  | .expected what => "expected " ++ what
  | .malformed what => "malformed " ++ what
  | .unknown what raw => "unknown " ++ what ++ " " ++ Text.quote raw
  | .unexpectedRule rule => "unexpected rule " ++ rule
  | .unexpectedToken raw => "unexpected token " ++ Text.quote raw
  | .unexpectedTree tree => "unexpected " ++ tree.render
  | .shape tree => "unexpected shape " ++ tree.render
  | .noRightOperand operator => "missing right operand of " ++ Text.quote operator

inductive Mismatch where
  /-- The tree around `span`, read as a `construct`, has a problem. -/
  | at (construct : String) (span : Span) (problem : Problem)
  /-- A child is needed that the node does not have. -/
  | noChild

def Mismatch.message : Mismatch → String
  | .at construct span problem =>
    s!"unexpected {construct} at line {span.start.line}, column {span.start.column}: {problem.message}"
  | .noChild => "index out of range"

end TableLineage
