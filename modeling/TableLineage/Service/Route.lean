import TableLineage.Text.Utf8

/-! Which request goes where. -/
namespace TableLineage

inductive Direction where
  | upstream | downstream
  deriving DecidableEq, Repr

def Direction.name : Direction → String
  | .upstream => "upstream"
  | .downstream => "downstream"

inductive RunQuestion where
  | list
  | one (id : List UInt8)
  | delete (id : List UInt8)
  | reach (d : Direction) (table : List UInt8)
  | events
  deriving DecidableEq, Repr

inductive Route where
  | health
  | extract
  | runs (q : RunQuestion)
  deriving DecidableEq, Repr

inductive Routing where
  | found (r : Route)
  | wrongMethod (allow : List String)
  | notFound
  deriving DecidableEq, Repr

namespace Route

def knownMethods : List String := ["CONNECT", "DELETE", "GET", "HEAD", "OPTIONS", "PATCH", "POST", "PUT", "TRACE"]

def choose (method : String) (ways : List (String × Route)) : Routing :=
  match ways.find? fun w => w.1 == method with
  | some w => .found w.2
  | none => .wrongMethod (ways.map (·.1))

def slash : UInt8 := 0x2f

def after? (lead : String) (path : List UInt8) : Option (List UInt8) :=
  let lead := Text.bytesOf lead.toList
  if lead.isPrefixOf path then some (path.drop lead.length) else none

/-- Ways behind the name of a table, which may be empty. An empty name is met in two
ways, and a wrong method then counts twice. -/
def ofTable (method : String) (path : List UInt8) : Routing :=
  let name := path.takeWhile (· ≠ slash)
  let rest := path.dropWhile (· ≠ slash)
  let way (d : Direction) : Routing :=
    let ways := [("GET", runs (.reach d name))]
    choose method (if name.isEmpty then ways ++ ways else ways)
  if rest = Text.bytesOf "/upstream".toList then way .upstream
  else if rest = Text.bytesOf "/downstream".toList then way .downstream
  else .notFound

def ofVersion1 (method : String) (path : List UInt8) : Routing :=
  if path = Text.bytesOf "lineage".toList then choose method [("POST", extract)]
  else if path = Text.bytesOf "runs".toList then choose method [("GET", runs .list)]
  else if path = Text.bytesOf "events".toList then choose method [("GET", runs .events)]
  else
    match after? "runs/" path, after? "tables/" path with
    | some id, _ =>
      if id.isEmpty || id.contains slash then .notFound
      else choose method [("DELETE", runs (.delete id)), ("GET", runs (.one id))]
    | none, some rest => ofTable method rest
    | none, none => .notFound

def of (method : String) (path : List UInt8) : Routing :=
  if !knownMethods.contains method then .wrongMethod []
  else if path = Text.bytesOf "/healthz".toList then choose method [("GET", health)]
  else
    match after? "/v1/" path with
    | some rest => ofVersion1 method rest
    | none => .notFound

end Route
end TableLineage
