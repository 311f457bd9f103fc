import TableLineage.Lineage.Extraction
import TableLineage.QueryLog.Queries

/-! The lineage of logged queries. A query that cannot be read is set aside. -/
namespace TableLineage

structure QueryFailure where
  id : Int
  cause : ExtractError

def QueryFailure.message (f : QueryFailure) : String := s!"query {f.id}: " ++ f.cause.message

namespace LoggedQuery

def sourceName (q : LoggedQuery) : String := s!"query:{q.id}"

def extraction (o : ExtractOptions) (q : LoggedQuery) : Except ExtractError Extraction :=
  Extraction.ofText { o with sourceName := q.sourceName } q.text

def outcome (o : ExtractOptions) (q : LoggedQuery) : List Record × List QueryFailure :=
  match q.extraction o with
  | .ok x => (x.records, [])
  | .error e => ([], [⟨q.id, e⟩])

/-- The records of all queries and the queries that failed, both in order. Patterns are
looked at first. -/
def lineage (o : ExtractOptions) (queries : List LoggedQuery) :
    Except BadPattern (List Record × List QueryFailure) :=
  match readPatterns o.exclude with
  | .error e => .error e
  | .ok _ =>
    let outcomes := queries.map (outcome o)
    .ok (outcomes.flatMap (·.1), outcomes.flatMap (·.2))

end LoggedQuery
end TableLineage
