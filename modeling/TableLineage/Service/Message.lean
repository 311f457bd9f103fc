import TableLineage.Format.JsonValue

/-! Requests to the service and its responses. -/
namespace TableLineage

structure Request where
  method : String
  target : String
  headers : List (String × String)
  body : String
  deriving DecidableEq, Repr

/-- The value of a header, whose name may be in any case; empty if there is none. -/
def Request.header (q : Request) (name : String) : String :=
  ((q.headers.find? fun h => h.1.toLower == name.toLower).map (·.2)).getD ""

structure Response where
  status : Nat
  contentType : Option String
  encoding : Option String
  runId : Option String
  warnings : List String
  allow : List String
  body : String
  deriving DecidableEq, Repr

namespace Response

def bare (status : Nat) : Response := ⟨status, none, none, none, [], [], ""⟩

def plain (status : Nat) (body : String) : Response :=
  { bare status with contentType := some "text/plain; charset=utf-8", body := body }

def json (status : Nat) (v : JsonValue) : Response :=
  { bare status with contentType := some "application/json", body := v.line }

def fault (status : Nat) (message : String) : Response := json status (.obj [("error", .str message)])

def ofContent (contentType body : String) : Response := { bare 200 with contentType := some contentType, body := body }

def packedTypes : List String :=
  ["text/html", "text/css", "text/plain", "text/javascript", "application/javascript", "application/x-javascript",
   "application/json", "application/atom+xml", "application/rss+xml", "image/svg+xml"]

def packings : List String := ["gzip", "deflate"]

def standsIn (part : List Char) : List Char → Bool
  | [] => part.isEmpty
  | c :: r => part.isPrefixOf (c :: r) || standsIn part r

/-- Packs the body if its type is worth it and the other side takes it. -/
def packed (accepted : String) (r : Response) : Response :=
  let mediaType := String.ofList (((r.contentType.getD "").toList).takeWhile (· ≠ ';'))
  if packedTypes.contains mediaType then
    { r with encoding := packings.find? fun p => standsIn p.toList accepted.toLower.toList }
  else r

end Response
end TableLineage
