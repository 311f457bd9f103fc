import TableLineage.Format.JsonValue
import TableLineage.Instant
import TableLineage.Report.Entry
import TableLineage.RunId

/-! Reports as OpenLineage run events: one event for each sink of each entry, each on
a line of its own. -/
namespace TableLineage

structure EventSettings where
  namespaceName : String
  jobNamespace : String
  producer : String
  deriving DecidableEq, Repr

namespace EventSettings

def standard : EventSettings :=
  ⟨"redshift://cluster.region:5439", "redshift-lineage", "https://github.com/leapstack-labs/redshift-lineage"⟩

/-- The settings with the standard in place of what is empty. -/
def orStandard (s : EventSettings) : EventSettings :=
  ⟨if s.namespaceName.isEmpty then standard.namespaceName else s.namespaceName,
   if s.jobNamespace.isEmpty then standard.jobNamespace else s.jobNamespace,
   if s.producer.isEmpty then standard.producer else s.producer⟩

end EventSettings

structure RunEvent where
  time : Instant
  runId : String
  jobName : String
  inputs : List String
  output : String
  deriving DecidableEq, Repr

namespace RunEvent

def schemaUrl : String := "https://openlineage.io/spec/1-0-2/OpenLineage.json#/definitions/RunEvent"

/-- The job that stands for a text without a name. -/
def unnamedJob : String := "stdin"

def jobOf (e : Report.Entry) : String := e.sourceName?.getD unnamedJob

def named (space name : String) : JsonValue := .obj [("namespace", .str space), ("name", .str name)]

def toJson (s : EventSettings) (e : RunEvent) : JsonValue :=
  .obj [("eventType", .str "COMPLETE"), ("eventTime", .str e.time.fullText), ("run", .obj [("runId", .str e.runId)]),
    ("job", named s.jobNamespace e.jobName), ("inputs", .arr (e.inputs.map (named s.namespaceName))),
    ("outputs", .arr [named s.namespaceName e.output]), ("producer", .str s.producer), ("schemaURL", .str schemaUrl)]

end RunEvent

namespace Report

def writes (r : Report) : List (String × Sink) := r.entries.flatMap fun e => e.sinks.map fun s => (RunEvent.jobOf e, s)

def events (time : Instant) (ids : IdSource) (r : Report) : List RunEvent :=
  r.writes.zipIdx.map fun ((job, sink), k) => ⟨time, ids.ahead k, job, sink.sources, sink.target⟩

def openLineage (s : EventSettings) (time : Instant) (ids : IdSource) (r : Report) : String :=
  String.join ((r.events time ids).map fun e => (e.toJson s.orStandard).line)

end Report
end TableLineage
