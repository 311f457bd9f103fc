import TableLineage.Grammar.Parse
import TableLineage.Statement.Reading.Statement

/-! Scripts: the statements of a text, and a word on each that was passed over. -/
namespace TableLineage

inductive Severity where
  | warning
  | info
  deriving DecidableEq, Repr

namespace Severity

def name : Severity → String
  | .warning => "warning"
  | .info => "info"

def nameOfNumber (n : Int) : String :=
  if n = 0 then name .warning else if n = 1 then name .info else s!"Severity({n})"

end Severity

structure Diagnostic where
  severity : Severity
  span : Span
  message : String
  deriving DecidableEq, Repr

def Diagnostic.text (d : Diagnostic) : String :=
  s!"{d.severity.name} at line {d.span.start.line}, column {d.span.start.column}: {d.message}"

inductive Item where
  | statement (s : Statement)
  | skipped (d : Diagnostic)

namespace Tree

def statementBody (t : Tree) : Outcome Tree :=
  if t.hasRule .stmt then
    match t.nodes with
    | [body] => .ok body
    | _ => t.fail "statement" (.expected "exactly one statement body")
  else .ok t

/-- A statement, or a word on why it is passed over. -/
def item (m : ReadMode) (t : Tree) : Outcome Item := do
  let body ← t.statementBody
  if body.hasRule .otherStmt then
    return .skipped ⟨.warning, body.span, "unsupported statement " ++ Text.upperWord body.first.raw⟩
  else return .statement (← body.read m .statement)

/-- The statements of a row, one after the other. Once one cannot be read, the
expressions of those after it are left out; a missing child breaks the row off. -/
def itemsInTurn (normalize : Bool) : Bool → List Tree → List (Outcome Item)
  | _, [] => []
  | blind, t :: ts =>
    match t.item ⟨normalize, blind⟩ with
    | .ok i => .ok i :: itemsInTurn normalize blind ts
    | .error .noChild => [.error .noChild]
    | .error e => .error e :: itemsInTurn normalize true ts

end Tree

structure Script where
  statements : List Statement
  diagnostics : List Diagnostic

namespace Script

def empty : Script := ⟨[], []⟩

def add : Item → Script → Script
  | .statement s, r => { r with statements := s :: r.statements }
  | .skipped d, r => { r with diagnostics := d :: r.diagnostics }

/-- The script of statements in a row; the first that cannot be read is the outcome. -/
def ofTrees (normalize : Bool) : List Tree → Outcome Script
  | [] => .ok empty
  | t :: ts => do
    let i ← t.item ⟨normalize, false⟩
    let rest ← ofTrees normalize ts
    return add i rest

def ofTree (normalize : Bool) : Option Tree → Outcome Script
  | some t =>
    if t.hasRule .root then ofTrees normalize (t.childrenOf .stmt)
    else t.fail "script" (.expected "a script root")
  | none => .error (.at "script" .none (.expected "a script root"))

end Script

inductive ReadError where
  | script (e : ScriptError)
  | mismatch (e : Mismatch)

def ReadError.message : ReadError → String
  | .script e => e.message
  | .mismatch e => e.message

def Script.ofText (normalize : Bool) (text : String) : Except ReadError Script :=
  match parse text with
  | .error e => .error (.script e)
  | .ok t =>
    match Script.ofTree normalize (some t) with
    | .error e => .error (.mismatch e)
    | .ok s => .ok s

end TableLineage
