import TableLineage.CommandLine.Run
import TableLineage.Store.Text

/-! What a command line needs of the world before it can be run, and what has to be
written back after it. -/
namespace TableLineage.CommandLine

def understood? (words : List String) : Option (Command × Words) :=
  match Command.find words with
  | .error _ => none
  | .ok (command, words) =>
    match read command.flags words with
    | .error _ => none
    | .ok w => some (command, w)

def readsInput (words : List String) : Bool :=
  match understood? words with
  | some (.extract, w) => !w.switch "help" false && (extractPaths w).isEmpty
  | _ => false

/-- All paths that a command line may mean, each with the directory it is in. -/
def pathsOf (words : List String) : List String :=
  let named := match understood? words with
    | some (_, w) =>
      w.arguments ++ w.flags.flatMap fun f =>
        match f.2 with
        | .text s => [s]
        | .list items => items
        | _ => []
    | none => []
  let paths := (Config.fileNames ++ named).filter fun p => !p.isEmpty
  (paths ++ paths.map Path.directory).eraseDups

def storePath? (words : List String) (w : Workspace) : Option String :=
  (understood? words).bind fun (_, given) =>
    match Config.load w (given.text "config") given.settings with
    | .ok (c, _) => if c.storePath.isEmpty then none else some c.storePath
    | .error _ => none

def variableNames : List String :=
  ["OUT_FORMAT", "SPLIT_STATEMENTS", "NORMALIZE_IDENTIFIERS", "VERBOSE", "LOG_FORMAT", "EXCLUDE", "CONCURRENCY",
   "OPENLINEAGE__NAMESPACE", "OPENLINEAGE__JOB_NAMESPACE", "OPENLINEAGE__PRODUCER", "STORE__PATH", "REDSHIFT__HOST",
   "REDSHIFT__PORT", "REDSHIFT__DATABASE", "REDSHIFT__USER", "REDSHIFT__PASSWORD", "REDSHIFT__SSLMODE",
   "SERVER__ADDR"].map (Config.variableLead ++ ·)

def written : Content → String
  | .text s => s
  | .store tables => tables.text

def contentOf (s : String) : Content :=
  match Store.Tables.ofText? s with
  | some tables => .store tables
  | none => .text s

/-- The directories that are new after a command, and the files that are new or changed. -/
def changes (before after : Workspace) : List String × List (String × String) :=
  (after.directories.filter fun d => !before.directories.contains d,
   after.files.entries.filterMap fun (path, content) =>
    if (before.files.get? path).map written = some (written content) then none else some (path, written content))

end TableLineage.CommandLine
