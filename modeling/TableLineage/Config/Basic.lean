import TableLineage.Config.Decode
import TableLineage.Lineage.Exclude
import TableLineage.QueryLog.Connection
import TableLineage.Report.Format
import TableLineage.Report.OpenLineage

/-! The configuration of the tool, and what is asked of it before it is used. -/
namespace TableLineage

structure Config where
  outFormat : String
  splitStatements : Bool
  normalizeIdentifiers : Bool
  verbose : Bool
  logFormat : String
  exclude : List String
  concurrency : Int
  events : EventSettings
  storePath : String
  /-- The cluster; its password may refer to variables. -/
  cluster : Connection
  address : String

inductive ConfigFault where
  | format (e : UnknownFormat)
  | logFormat (name : String)
  | concurrency (n : Int)
  | port (n : Int)
  | pattern (e : BadPattern)
  deriving DecidableEq, Repr

def ConfigFault.message : ConfigFault → String
  | .format e => e.message
  | .logFormat name => "unsupported log format " ++ Text.quote name ++ " (expected text or json)"
  | .concurrency n => "concurrency must be at least 1, got " ++ toString n
  | .port n => "invalid redshift port " ++ toString n
  | .pattern e => e.message

namespace Config

def standard : List (String × Setting) :=
  [("out_format", .str "json"), ("split_statements", .bool false), ("normalize_identifiers", .bool false),
   ("verbose", .bool false), ("log_format", .str "text"), ("exclude", .list []), ("concurrency", .int 4),
   ("openlineage", .map [("namespace", .str EventSettings.standard.namespaceName),
     ("job_namespace", .str EventSettings.standard.jobNamespace), ("producer", .str EventSettings.standard.producer)]),
   ("store", .map [("path", .str "")]), ("redshift", .map [("port", .int 5439), ("sslmode", .str "require")]),
   ("server", .map [("addr", .str ":8080")])]

def compact (patterns : List String) : List String := (patterns.map Text.trimmed).filter fun p => !p.isEmpty

def ofSettings (settings : List (String × Setting)) : Except (List DecodeFault) Config :=
  let text (key : String) := (Setting.under key settings).toText key
  let truth (key : String) := (Setting.under key settings).toTruth key
  let inner (group key : String) : Setting := Setting.under key ((Setting.under group settings).toSection group).1
  let innerText (group key : String) := (inner group key).toText (group ++ "." ++ key)
  let group (key : String) := ((Setting.under key settings).toSection key).2
  let outFormat := text "out_format"
  let split := truth "split_statements"
  let normalize := truth "normalize_identifiers"
  let verbose := truth "verbose"
  let logFormat := text "log_format"
  let exclude := (Setting.under "exclude" settings).toTexts "exclude"
  let concurrency := (Setting.under "concurrency" settings).toNumber "concurrency"
  let space := innerText "openlineage" "namespace"
  let jobSpace := innerText "openlineage" "job_namespace"
  let producer := innerText "openlineage" "producer"
  let storePath := innerText "store" "path"
  let host := innerText "redshift" "host"
  let port := (inner "redshift" "port").toNumber "redshift.port"
  let database := innerText "redshift" "database"
  let user := innerText "redshift" "user"
  let password := innerText "redshift" "password"
  let sslMode := innerText "redshift" "sslmode"
  let address := innerText "server" "addr"
  let faults := outFormat.2 ++ split.2 ++ normalize.2 ++ verbose.2 ++ logFormat.2 ++ exclude.2 ++ concurrency.2 ++
    group "openlineage" ++ space.2 ++ jobSpace.2 ++ producer.2 ++ group "store" ++ storePath.2 ++
    group "redshift" ++ host.2 ++ port.2 ++ database.2 ++ user.2 ++ password.2 ++ sslMode.2 ++
    group "server" ++ address.2
  if faults.isEmpty then
    .ok { outFormat := outFormat.1, splitStatements := split.1, normalizeIdentifiers := normalize.1,
          verbose := verbose.1, logFormat := logFormat.1, exclude := compact exclude.1, concurrency := concurrency.1,
          events := ⟨space.1, jobSpace.1, producer.1⟩, storePath := storePath.1,
          cluster := ⟨host.1, port.1, database.1, user.1, password.1, sslMode.1⟩, address := address.1 }
  else .error faults

def check (c : Config) : Except ConfigFault Unit :=
  match Format.parse c.outFormat with
  | .error e => .error (.format e)
  | .ok _ =>
    if c.logFormat ≠ "text" && c.logFormat ≠ "json" then .error (.logFormat c.logFormat)
    else if c.concurrency < 1 then .error (.concurrency c.concurrency)
    else if c.cluster.port < 0 || 65535 < c.cluster.port then .error (.port c.cluster.port)
    else
      match readPatterns c.exclude with
      | .error e => .error (.pattern e)
      | .ok _ => .ok ()

def format (c : Config) : Format :=
  match Format.parse c.outFormat with
  | .ok f => f
  | .error _ => .json

end Config
end TableLineage
