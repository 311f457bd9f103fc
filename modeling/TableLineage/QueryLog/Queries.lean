import TableLineage.Format.Decimal
import TableLineage.Instant
import TableLineage.Text.Blank
import TableLineage.Text.Quoted

/-! The queries that a cluster has run. The log holds the text of a query in pieces; here
they are put together. -/
namespace TableLineage

structure LogRow where
  id : Int
  start : Instant
  /-- The place of the piece in the text. -/
  sequence : Int
  text : String
  deriving DecidableEq, Repr

structure LoggedQuery where
  id : Int
  start : Instant
  text : String
  deriving DecidableEq, Repr

namespace LoggedQuery

def join : List LogRow → List LoggedQuery
  | [] => []
  | r :: rs =>
    match join rs with
    | [] => [⟨r.id, r.start, r.text⟩]
    | q :: qs =>
      if q.id = r.id then ⟨r.id, r.start, r.text ++ q.text⟩ :: qs else ⟨r.id, r.start, r.text⟩ :: q :: qs

def isFiller (c : Char) : Bool := c = ' ' || c = '\t' || c = '\r' || c = '\n'

/-- Without the blanks that fill up the last piece. -/
def trim (q : LoggedQuery) : LoggedQuery :=
  { q with text := String.ofList (Text.dropTailWhile isFiller q.text.toList) }

def ofRows (rows : List LogRow) : List LoggedQuery := (join rows).map trim

end LoggedQuery

structure LogFilter where
  /-- No query that started before this; the first instant of the year one sets no bound. -/
  since : Instant
  /-- At most so many of the newest queries; no limit if it is not positive. -/
  limit : Int
  deriving DecidableEq, Repr

namespace LogFilter

def unbounded : Instant := .ofSeconds (-62135596800)

def earliest (f : LogFilter) : Instant := if f.since = unbounded then .ofSeconds 0 else f.since

def limitText (f : LogFilter) : String :=
  if f.limit ≤ 0 then "" else s!"\n  ORDER BY h.start_time DESC, h.query_id DESC\n  LIMIT {f.limit}"

def question (f : LogFilter) : String := "
WITH recent AS (
  SELECT h.query_id, h.start_time
  FROM sys_query_history h
  WHERE h.status = 'success'
    AND h.query_type IN ('SELECT', 'INSERT', 'DELETE', 'CTAS', 'DDL')
    AND h.start_time >= $1" ++ f.limitText ++ "
)
SELECT r.query_id, r.start_time, t.sequence, t.text
FROM recent r
JOIN sys_query_text t ON t.query_id = r.query_id
ORDER BY r.start_time, r.query_id, t.sequence"

end LogFilter

/-- The id of a query as it comes: a number, or a text that should be one. -/
inductive LogId where
  | number (n : Int)
  | text (s : String)
  deriving DecidableEq, Repr

structure LogCells where
  id : LogId
  start : Instant
  sequence : Int
  text : String
  deriving DecidableEq, Repr

structure BadLogId where
  text : String
  fault : NumberFault
  deriving DecidableEq, Repr

def BadLogId.message (e : BadLogId) : String :=
  "sql: Scan error on column index 0, name \"query_id\": converting driver.Value type string (" ++
    Text.quote e.text ++ ") to a int64: " ++ e.fault.text

def LogId.value : LogId → Except BadLogId Int
  | .number n => .ok n
  | .text s =>
    match Whole.parseDecimal s with
    | .ok n => .ok n
    | .error fault => .error ⟨s, fault⟩

def LogCells.row (c : LogCells) : Except BadLogId LogRow := do return ⟨← c.id.value, c.start, c.sequence, c.text⟩

inductive LogReply where
  | unreachable
  | refused (reason : String)
  /-- The rows that came, and why no more did, if they broke off. -/
  | rows (rows : List LogCells) (broken : Option String)
  deriving DecidableEq, Repr

inductive LogError where
  | unreachable
  | refused (reason : String)
  | badId (e : BadLogId)
  | broken (reason : String)
  deriving DecidableEq, Repr

def LogError.message : LogError → String
  | .unreachable => "database connection not established"
  | .refused reason => "failed to query sys_query_text: " ++ reason
  | .badId e => "failed to scan query text: " ++ e.message
  | .broken reason => "failed to read query text: " ++ reason

def LogReply.queries : LogReply → Except LogError (List LoggedQuery)
  | .unreachable => .error .unreachable
  | .refused reason => .error (.refused reason)
  | .rows cells broken =>
    match cells.mapM LogCells.row, broken with
    | .error e, _ => .error (.badId e)
    | .ok _, some reason => .error (.broken reason)
    | .ok came, none => .ok (LoggedQuery.ofRows came)

end TableLineage
