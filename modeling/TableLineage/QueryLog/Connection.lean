/-! How to reach a cluster, and the line of settings that says so. -/
namespace TableLineage

structure Connection where
  host : String
  port : Int
  database : String
  username : String
  password : String
  sslMode : String
  deriving DecidableEq, Repr

namespace Connection

def orElse (s standard : String) : String := if s.isEmpty then standard else s

/-- The connection with the standard settings in place of what is missing. -/
def withDefaults (c : Connection) : Connection :=
  { c with
    host := orElse c.host "localhost"
    port := if c.port = 0 then 5439 else c.port
    sslMode := orElse c.sslMode "require" }

def optional (key value : String) : String := if value.isEmpty then "" else " " ++ key ++ "=" ++ value

def line (c : Connection) : String :=
  let d := c.withDefaults
  "host=" ++ d.host ++ " port=" ++ toString d.port ++ " dbname=" ++ d.database ++ " sslmode=" ++ d.sslMode ++
    optional "user" d.username ++ optional "password" d.password

end Connection
end TableLineage
