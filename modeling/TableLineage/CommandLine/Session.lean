import TableLineage.CommandLine.Failure
import TableLineage.CommandLine.Log

/-! A run of the tool: what it reads, and what it leaves behind. -/
namespace TableLineage.CommandLine

structure Session where
  workspace : Workspace
  ids : IdSource
  clock : Instant
  input : String
  out : String
  err : String

/-- A step of a command. What it did before it fails stays done. -/
abbrev Action := ExceptT Failure (StateM Session)

namespace Action

def print (s : String) : Action Unit := modify fun t => { t with out := t.out ++ s }

def printError (s : String) : Action Unit := modify fun t => { t with err := t.err ++ s }

/-- Takes a result, or fails for the reason it gives. -/
def demand {ε α : Type} (cause : ε → Failure) : Except ε α → Action α
  | .ok a => pure a
  | .error e => throw (cause e)

def log (c : Config) (level : LogLevel) (message : String) (fields : List (String × LogValue)) : Action Unit := do
  if level.isShown c.verbose then
    let l : LogLine := ⟨level, message, fields⟩
    let now := (← get).clock
    printError (if c.logFormat = "json" then l.asJson now else l.asPairs now)

/-- The time, which is later at each asking. -/
def now : Action Instant := do
  let t := (← get).clock
  modify fun s => { s with clock := ⟨t.nanos + 1⟩ }
  return t

end Action

structure Outcome where
  code : Nat
  out : String
  err : String
  workspace : Workspace
  ids : IdSource

def Action.outcome (a : Action Unit) (s : Session) : Outcome :=
  match a.run.run s with
  | (.ok _, s) => ⟨0, s.out, s.err, s.workspace, s.ids⟩
  | (.error f, s) => ⟨f.code, s.out, s.err ++ "Error: " ++ f.message ++ "\n", s.workspace, s.ids⟩

end TableLineage.CommandLine
