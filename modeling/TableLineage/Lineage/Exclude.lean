import TableLineage.Glob
import TableLineage.Lineage.Record
import TableLineage.Text.Quoted

/-! Leaving tables out of records by patterns. -/
namespace TableLineage

structure BadPattern where
  text : String
  deriving DecidableEq, Repr

def BadPattern.message (e : BadPattern) : String :=
  s!"invalid exclude pattern {Text.quote e.text}: syntax error in pattern"

def readPatterns : List String → Except BadPattern (List Glob)
  | [] => .ok []
  | p :: ps =>
    match Glob.ofText? p with
    | none => .error ⟨p⟩
    | some g =>
      match readPatterns ps with
      | .ok gs => .ok (g :: gs)
      | .error e => .error e

def excludes (patterns : List Glob) (name : String) : Bool := patterns.any (·.admits name)

def Names.exclude (patterns : List Glob) (ns : Names) : Names := KeyMap.filter (fun n => !excludes patterns n) ns

def Record.exclude (patterns : List Glob) (r : Record) : Record :=
  ⟨(r.sinks.filter fun n => !excludes patterns n).map (Names.exclude patterns), r.sources.exclude patterns, r.context⟩

end TableLineage
