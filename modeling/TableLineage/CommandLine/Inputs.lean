import TableLineage.CommandLine.Session
import TableLineage.Report.Render
import TableLineage.Statement.Outline

/-! The scripts that a command reads, their lineage, and where a report of it goes. -/
namespace TableLineage.CommandLine

/-- A script; what comes from the standard input has no name. -/
structure Input where
  name : String
  sql : String
  deriving DecidableEq, Repr

def Input.storeName (i : Input) : String := if i.name.isEmpty then "stdin" else i.name

def expandPath (w : Workspace) (path : String) : Except FileError (List String) :=
  match w.find path with
  | .error fault => .error ⟨"stat", path, fault⟩
  | .ok (.file ..) => .ok [path]
  | .ok (.directory place) => .ok ((w.filesBelow place path).filter fun f => Text.spells (Path.ending f) ".sql")

def expandPaths (w : Workspace) (paths : List String) : Except FileError (List String) :=
  (paths.mapM (expandPath w)).map List.flatten

def readInput (w : Workspace) (path : String) : Except FileError Input := (w.readText path).map fun sql => ⟨path, sql⟩

def readInputs (paths : List String) : Action (List Input) := do
  let s ← get
  if paths.isEmpty then return [⟨"", s.input⟩]
  else
    let files ← Action.demand .input (expandPaths s.workspace paths)
    Action.demand .input (files.mapM (readInput s.workspace))

/-! ### Lineage -/

def optionsFor (c : Config) (name : String) : ExtractOptions :=
  ⟨c.splitStatements, name, c.normalizeIdentifiers, c.exclude⟩

def kindName (s : Statement) : String :=
  match s.outline with
  | .node m _ :: _ => m.kind.name
  | [] => ""

def report (c : Config) (name : String) (x : Extraction) : Action Unit := do
  let source : String × LogValue := ("source", .text name)
  for d in x.diagnostics do
    Action.log c .debug "skipping statement" [source, ("line", .number d.span.start.line), ("reason", .text d.message)]
  for d in x.diagnostics do
    Action.log c .warn "skipped statement" [source, source, ("diagnostic", .text d.text)]
  for s in x.statements do
    Action.log c .debug "statement lineage"
      [source, ("type", .text (kindName s)), ("sinks", .number s.flow.sinks.size),
       ("sources", .number s.flow.sources.size)]

def extractInput (c : Config) (i : Input) : Action (List Record) := do
  let x ← Action.demand (.extraction i.name) (Extraction.ofText (optionsFor c i.name) i.sql)
  report c i.name x
  return x.records

def extractInputs (c : Config) (inputs : List Input) : Action (List (List Record)) := inputs.mapM (extractInput c)

/-! ### Reports -/

def writeReport (c : Config) (file : String) (records : List Record) : Action Unit := do
  let s ← get
  let (text, ids) := Report.render c.format c.events s.clock s.ids records
  if file.isEmpty || file = "-" then
    modify fun s => { s with ids := ids }
    Action.print text
  else
    let w ← Action.demand .output (s.workspace.writeText file text)
    modify fun s => { s with workspace := w, ids := ids }

end TableLineage.CommandLine
