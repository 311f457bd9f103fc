import TableLineage.CommandLine.Command
import TableLineage.Config.Load
import TableLineage.Lineage.Extraction

/-! Why a command stops, and with which code. -/
namespace TableLineage.CommandLine

inductive Failure where
  | words (f : WordFault)
  | flag (e : FlagError)
  | config (e : ConfigError)
  | watchWithoutFiles
  | noStore
  | negativeDepth (n : Int)
  | negativeWindow
  | noCluster
  | storeDirectory (e : FileError)
  | notStore
  | storeNotOpened
  | input (e : FileError)
  /-- A text that cannot be read; it may have a name. -/
  | extraction (name : String) (e : ExtractError)
  | saving (e : StoreError)
  | store (e : StoreError)
  | output (e : FileError)
  | unknownTable (name : String)
  /-- There is no network, and nothing tells of changed files. -/
  | unavailable (task : String)

namespace Failure

def isUsage : Failure → Bool
  | .words _ | .flag _ | .config _ | .watchWithoutFiles | .noStore | .negativeDepth _ | .negativeWindow | .noCluster => true
  | _ => false

def code (f : Failure) : Nat := if f.isUsage then 2 else 1

def message : Failure → String
  | .words f => f.message
  | .flag e => e.message
  | .config e => e.message
  | .watchWithoutFiles => "--watch needs input files"
  | .noStore => "no lineage store configured (use --store or store.path)"
  | .negativeDepth n => "invalid depth " ++ toString n
  | .negativeWindow => "--since and --limit must not be negative"
  | .noCluster => "redshift host and database are required (--host, --database)"
  | .storeDirectory e => "failed to create store directory: " ++ e.message
  | .notStore => "failed to run migrations: file is not a database (26)"
  | .storeNotOpened => "failed to ping sqlite database: unable to open database file: out of memory (14)"
  | .input e => "failed to read input: " ++ e.message
  | .extraction name e => (if name.isEmpty then "" else name ++ ": ") ++ e.message
  | .saving e => "failed to store lineage: " ++ e.message
  | .store e => e.message
  | .output e => "failed to create output file: " ++ e.message
  | .unknownTable name => "table not found: " ++ name
  | .unavailable task => "failed to " ++ task

end Failure
end TableLineage.CommandLine
