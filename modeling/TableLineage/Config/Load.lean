import TableLineage.Config.Basic
import TableLineage.Workspace.Basic

/-! Where a configuration comes from. Flags win over variables, variables over a file, and
a file over what holds else. -/
namespace TableLineage

inductive ConfigError where
  | unreadable (path : String) (e : FileError)
  | noSettings (path : String) (f : Yaml.EntriesFault)
  | undecodable (faults : List DecodeFault)
  | invalid (f : ConfigFault)

def ConfigError.message : ConfigError → String
  | .unreadable path e => "error reading config file " ++ path ++ ": " ++ e.message
  | .noSettings path f => "error reading config file " ++ path ++ ": " ++ f.message
  | .undecodable faults =>
    "unable to decode config: decoding failed due to the following error(s):\n\n" ++
      "\n".intercalate (faults.map DecodeFault.message)
  | .invalid f => "invalid configuration: " ++ f.message

namespace Config

def fileNames : List String := ["redshift-lineage.yaml", "redshift-lineage.yml"]

/-- The file to be read: the one that is named, or the first that is there. -/
def fileOf (w : Workspace) (named : String) : Option String :=
  if !named.isEmpty then some named
  else fileNames.find? fun f => (w.find f).toOption.isSome

def ofFile (w : Workspace) (path : String) : Except ConfigError (List (String × Setting)) :=
  match w.readText (Path.clean path) with
  | .error e => .error (.unreadable path e)
  | .ok text =>
    match Setting.ofYaml text with
    | .error f => .error (.noSettings path f)
    | .ok settings => .ok settings

/-! ### Variables -/

def variableLead : String := "REDLIN_"

def pointed : List Char → List Char
  | '_' :: '_' :: r => '.' :: pointed r
  | c :: r => c :: pointed r
  | [] => []

/-- The path of the setting that a variable gives, if it gives one. -/
def pathOfVariable (name : String) : Option (List String) :=
  if name.startsWith variableLead then
    let key := pointed (Text.lowerWord (String.ofList (name.toList.drop variableLead.length))).toList
    if key.isEmpty then none else some ((String.ofList key).splitOn ".")
  else none

def withVariables (given : List (String × String)) (settings : Setting) : Setting :=
  given.foldl (fun s v =>
    match pathOfVariable v.1 with
    | some path => s.putAt path (.str v.2)
    | none => s) settings

/-! ### Flags -/

def pathOfFlag (name : String) : List String :=
  match name with
  | "store" => ["store", "path"]
  | "addr" => ["server", "addr"]
  | "namespace" => ["openlineage", "namespace"]
  | "producer" => ["openlineage", "producer"]
  | "job-namespace" => ["openlineage", "job_namespace"]
  | "host" | "port" | "database" | "user" | "sslmode" => ["redshift", name]
  | _ => [name.map fun c => if c = '-' then '_' else c]

def withFlags (flags : List (String × Setting)) (settings : Setting) : Setting :=
  flags.foldl (fun s f => s.putAt (pathOfFlag f.1) f.2) settings

/-- The configuration from the file that is named or found, the variables and the flags
that were given, and the file that was read. -/
def load (w : Workspace) (named : String) (flags : List (String × Setting)) :
    Except ConfigError (Config × Option String) := do
  let file := fileOf w named
  let written ← match file with
    | some path => ofFile w path
    | none => .ok []
  let settings := withFlags flags (withVariables w.environment (.map (Setting.layAllOver standard written)))
  match ofSettings (settings.toSection "").1 with
  | .error faults => .error (.undecodable faults)
  | .ok c =>
    match c.check with
    | .error f => .error (.invalid f)
    | .ok _ => .ok (c, file)

/-! ### References to variables -/

/-- Takes a reference off the head: a dollar sign and a name in braces. -/
def reference? : List Char → Option (List Char × List Char)
  | '$' :: '\x7b' :: r =>
    let name := r.takeWhile (· ≠ '\x7d')
    if name.isEmpty || name.length = r.length then none else some (name, r.drop (name.length + 1))
  | _ => none

/-- Puts the values of variables in place of the references to them; a variable without
a value stays as it is written. -/
def expandFrom (w : Workspace) : Nat → List Char → List Char
  | 0, cs => cs
  | _ + 1, [] => []
  | fuel + 1, c :: r =>
    match reference? (c :: r) with
    | some (name, rest) =>
      let value := w.valueOf (String.ofList name)
      (if value.isEmpty then '$' :: '\x7b' :: name ++ ['\x7d'] else value.toList) ++ expandFrom w fuel rest
    | none => c :: expandFrom w fuel r

def expand (w : Workspace) (s : String) : String := String.ofList (expandFrom w s.length s.toList)

def connection (w : Workspace) (c : Config) : Connection := { c.cluster with password := expand w c.cluster.password }

end Config
end TableLineage
