import TableLineage.Report.Format
import TableLineage.Report.Json
import TableLineage.Report.OpenLineage
import TableLineage.Report.Table
import TableLineage.Report.Text
import TableLineage.Report.Yaml

/-! Reports in any of the formats. -/
namespace TableLineage.Report

def idsTaken (f : Format) (r : Report) : Nat :=
  match f with
  | .openLineage => r.writes.length
  | _ => 0

def written (f : Format) (s : EventSettings) (time : Instant) (ids : IdSource) (r : Report) : String × IdSource :=
  let text := match f with
    | .json => r.json
    | .yaml => r.yaml
    | .openLineage => r.openLineage s time ids
    | .table => r.table
    | .text => r.text
  (text, ids.skip (idsTaken f r))

def render (f : Format) (s : EventSettings) (time : Instant) (ids : IdSource) (records : List Record) :
    String × IdSource :=
  written f s time ids (.ofRecords records)

end TableLineage.Report
