import TableLineage.Lineage.Exclude
import TableLineage.Lineage.Extract
import TableLineage.Statement.Script

/-! From a text to its lineage records. -/
namespace TableLineage

structure ExtractOptions where
  /-- One record for each statement instead of one for all. -/
  split : Bool
  /-- The name of the text; empty if it has none. -/
  sourceName : String
  normalize : Bool
  exclude : List String
  deriving DecidableEq, Repr

inductive ExtractError where
  | pattern (e : BadPattern)
  | read (e : ReadError)

def ExtractError.message : ExtractError → String
  | .pattern e => e.message
  | .read e => e.message

structure Extraction where
  statements : List Statement
  records : List Record
  diagnostics : List Diagnostic

namespace Extraction

/-- The record with what is excluded left out and the source named, if it has a name. -/
def finish (patterns : List Glob) (sourceName : String) (r : Record) : Record :=
  let r := if patterns.isEmpty then r else r.exclude patterns
  if sourceName.isEmpty then r else r.withSourceName sourceName

def ofScript (split : Bool) (patterns : List Glob) (sourceName : String) (s : Script) : Extraction :=
  let records := if split then s.statements.map Statement.record else [scriptRecord s.statements]
  ⟨s.statements, records.map (finish patterns sourceName), s.diagnostics⟩

/-- Patterns are looked at before the text. -/
def ofText (o : ExtractOptions) (text : String) : Except ExtractError Extraction :=
  match readPatterns o.exclude with
  | .error e => .error (.pattern e)
  | .ok patterns =>
    match Script.ofText o.normalize text with
    | .error e => .error (.read e)
    | .ok s => .ok (ofScript o.split patterns o.sourceName s)

end Extraction
end TableLineage
