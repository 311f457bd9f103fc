import TableLineage.CommandLine.GraphView

/-! The tool: a command line is read, the configuration is put together, and the command
that was named is run. -/
namespace TableLineage.CommandLine

def versionNumber : String := "0.1.0"

/-! ### Commands -/

def runVersion : Action Unit :=
  Action.print (Command.toolName ++ " v" ++ versionNumber ++ "\ncommit unknown, built unknown\n")

def extractPaths (w : Words) : List String :=
  let file := w.text "in-file"
  (if file.isEmpty || file = "-" then [] else [file]) ++ w.arguments

def runExtract (c : Config) (w : Words) : Action Unit := do
  let paths := extractPaths w
  let watching := w.switch "watch" false
  if watching && paths.isEmpty then throw .watchWithoutFiles
  let store ← OpenStore.openFor c
  let inputs ← readInputs paths
  let records ← extractInputs c inputs
  if let some s := store then s.saveAll c ((inputs.map Input.storeName).zip records)
  writeReport c (w.text "out-file") records.flatten
  if watching then throw (.unavailable "watch files: no file events")

def runQueryLog (c : Config) (w : Words) : Action Unit := do
  if w.duration "since" < 0 || w.number "limit" < 0 then throw .negativeWindow
  let connection := c.connection (← get).workspace
  if connection.host.isEmpty || connection.database.isEmpty then throw .noCluster
  Action.log c .debug "connecting to redshift"
    [("host", .text connection.host), ("database", .text connection.database)]
  throw (.unavailable "connect to redshift: no network")

def runServe (c : Config) (w : Words) : Action Unit := do
  if (w.list "watch").isEmpty then let _ ← OpenStore.openFor c
  else let _ ← OpenStore.require c
  Action.print ("Serving lineage on " ++ c.address ++ "\n")
  throw (.unavailable ("listen on " ++ c.address ++ ": no network"))

def runTable (runs : List Run) : Table :=
  { headings := ["Run", "Source", "Created", "Records"]
    rows := runs.map fun r => [r.id, r.sourceName, r.createdAt.plainText, toString r.records]
    numeric := [false, false, false, true] }

def runList (c : Config) : Action Unit := do
  let s ← OpenStore.require c
  match ← Action.demand .store s.store.runs with
  | [] => Action.print "No runs stored.\n"
  | runs => Action.print (runTable runs).render

def runShow (c : Config) (id : String) : Action Unit := do
  let s ← OpenStore.require c
  let _ ← Action.demand .store (s.store.run id)
  writeReport c "" (← Action.demand .store (s.store.load id))

def runDelete (c : Config) (id : String) : Action Unit := do
  let s ← OpenStore.require c
  s.delete id
  Action.print ("Deleted run " ++ id ++ "\n")

def helpText : String :=
  "Table-level lineage for Redshift SQL\n\nUsage:\n  " ++ Command.toolName ++ " [command] [flags]\n\nCommands:\n" ++
    String.join (Command.root.children.map fun c => "  " ++ c.name ++ "\n")

/-! ### The command line -/

def configure (w : Words) : Action Config := do
  let (c, file) ← Action.demand .config (Config.load (← get).workspace (w.text "config") w.settings)
  if let some path := file then Action.log c .debug "using config file" [("path", .text path)]
  return c

def runCommand (command : Command) (w : Words) : Action Unit := do
  let argument := w.arguments.head?.getD ""
  let c ← configure w
  match command with
  | .version => runVersion
  | .extract => runExtract c w
  | .graph => GraphView.run c w
  | .serve => runServe c w
  | .queryLog => runQueryLog c w
  | .runs => runList c
  | .showRun => runShow c argument
  | .deleteRun => runDelete c argument
  | .root | .completion | .help => Action.print helpText

def execute (words : List String) : Action Unit := do
  let (command, words) ← Action.demand .words (Command.find words)
  let w ← Action.demand .flag (read command.flags words)
  if w.switch "help" false || command = .help then Action.print helpText
  else if command = .root then
    Action.print (if w.switch "version" false then Command.toolName ++ " " ++ versionNumber ++ "\n" else helpText)
  else
    Action.demand .words (command.checkArguments w.arguments)
    if command = .completion then Action.print helpText else runCommand command w

def run (words : List String) (input : String) (now : Instant) (workspace : Workspace) (ids : IdSource) : Outcome :=
  (execute words).outcome ⟨workspace, ids, now, input, "", ""⟩

end TableLineage.CommandLine
