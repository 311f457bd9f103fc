import Std.Time.DateTime.Timestamp
import TableLineage.CommandLine.Needs

/-! The program: it collects what the command line needs, runs it, and writes back what
came of it. Scripts are named one by one; directories are not listed. -/
namespace TableLineage.Program

def readFile? (path : String) : IO (Option String) := do
  try return some (← IO.FS.readFile path) catch _ => return none

def isThere (path : String) : IO Bool := do
  try
    let _ ← IO.FS.Handle.mk path .read
    return true
  catch _ => return false

def collect (w : Workspace) (path : String) : IO Workspace := do
  match ← readFile? path with
  | some s => return w.place path (CommandLine.contentOf s)
  | none =>
    let place := Path.clean path
    if (← isThere path) && !w.directories.contains place then return { w with directories := w.directories ++ [place] }
    else return w

def environment : IO (List (String × String)) :=
  CommandLine.variableNames.filterMapM fun name => do
    return (← IO.getEnv name).map fun value => (name, value)

def run (words : List String) : IO UInt32 := do
  let given ← environment
  let known ← (CommandLine.pathsOf words).foldlM collect { Workspace.empty with environment := given }
  let before ← match CommandLine.storePath? words known with
    | some path => collect known path
    | none => pure known
  let input ← if CommandLine.readsInput words then (← IO.getStdin).readToEnd else pure ""
  let seed := (← IO.getRandomBytes 16).toList.foldl (fun n b => n * 256 + b.toNat) 0
  let now := (← Std.Time.Timestamp.now).toNanosecondsSinceUnixEpoch.val
  let done := CommandLine.run words input ⟨now⟩ before ⟨seed⟩
  let (directories, files) := CommandLine.changes before done.workspace
  for d in directories do IO.FS.createDirAll d
  for (path, text) in files do IO.FS.writeFile path text
  (← IO.getStdout).putStr done.out
  (← IO.getStderr).putStr done.err
  return done.code.toUInt32

end TableLineage.Program

def main (words : List String) : IO UInt32 := TableLineage.Program.run words
