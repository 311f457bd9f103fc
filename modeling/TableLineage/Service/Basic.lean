import TableLineage.Graph.Reach
import TableLineage.Lineage.Extraction
import TableLineage.Report.Render
import TableLineage.Service.ExtractRequest
import TableLineage.Service.Message
import TableLineage.Service.Notifier
import TableLineage.Service.Route
import TableLineage.Service.Url
import TableLineage.Store.Basic

/-! The service: it extracts lineage on request, keeps runs if it has a store, answers
questions about them, and tells subscribers what has been saved. -/
namespace TableLineage

structure Service where
  store : Option Store
  /-- Whether names are normalized, unless a request says otherwise. -/
  normalize : Bool
  /-- What is excluded besides what a request excludes. -/
  exclude : List String
  settings : EventSettings
  notifier : Notifier
  ids : IdSource

structure Times where
  event : Instant
  saving : Instant
  deriving DecidableEq, Repr

inductive Reply where
  | response (r : Response)
  | stream (subscriber : Nat)
  deriving DecidableEq, Repr

namespace Service

/-- The format that a request asks for; it is JSON if it asks for none. -/
def formatOf (t : Url.Target) : Except Response Format :=
  let name := t.value "format"
  if name.isEmpty then .ok .json
  else
    match Format.parse (Text.ofBytes name) with
    | .ok f => .ok f
    | .error _ => .error (.fault 400 ("unsupported output format " ++ Text.quoteBytes name ++ Format.choices))

def contentType : Format → String
  | .json => "application/json"
  | .yaml => "application/yaml"
  | .openLineage => "application/x-ndjson"
  | .table => "text/plain; charset=utf-8"
  | .text => "text/plain; charset=utf-8"

def report (s : Service) (event : Instant) (target : Url.Target) (records : List Record) : Response × Service :=
  match formatOf target with
  | .error a => (a, s)
  | .ok f =>
    let (text, ids) := Report.render f s.settings event s.ids records
    (.ofContent (contentType f) text, { s with ids })

/-! ### Extraction -/

def extractOptions (s : Service) (r : ExtractRequest) : ExtractOptions :=
  ⟨r.split, r.sourceName, r.normalize.getD s.normalize, s.exclude ++ r.exclude⟩

def saveRun (s : Service) (store : Store) (now : Instant) (sourceName : String) (records : List Record) :
    Except StoreError Run × Service :=
  match store.save s.ids now sourceName records with
  | (.error e, store, ids) => (.error e, { s with store := some store, ids })
  | (.ok run, store, ids) =>
    (.ok run,
     { s with store := some store, ids, notifier := s.notifier.broadcast ⟨run.id, run.sourceName, run.records⟩ })

def answerWith (s : Service) (t : Times) (target : Url.Target) (r : ExtractRequest) (x : Extraction) :
    Response × Service :=
  let warned (a : Response) : Response := { a with warnings := x.diagnostics.map Diagnostic.text }
  match r.save, s.store with
  | true, some store =>
    match s.saveRun store t.saving r.sourceName x.records with
    | (.error e, s) => (warned (.fault 500 e.message), s)
    | (.ok run, s) =>
      let (a, s) := s.report t.event target x.records
      ({ warned a with runId := some run.id }, s)
  | _, _ =>
    let (a, s) := s.report t.event target x.records
    (warned a, s)

/-- What is wrong with a request is found in this order: its body, its format, the wish to
save without a store, its patterns, its text. All of it is found before anything is saved. -/
def extract (s : Service) (t : Times) (target : Url.Target) (body : String) : Response × Service :=
  match ExtractRequest.ofBody body with
  | .error e => (.fault 400 ("invalid request body: " ++ e.message), s)
  | .ok r =>
    match formatOf target with
    | .error a => (a, s)
    | .ok _ =>
      if r.save && s.store.isNone then (.fault 400 "saving requires a configured store", s)
      else
        match Extraction.ofText (s.extractOptions r) r.sql with
        | .error (.pattern e) => (.fault 400 e.message, s)
        | .error (.read e) => (.fault 422 e.message, s)
        | .ok x => s.answerWith t target r x

/-! ### Questions about saved runs -/

def runObject (r : Run) : JsonValue :=
  .obj [("id", .str r.id), ("sourceName", .str r.sourceName), ("createdAt", .str r.createdAt.shortText),
    ("records", .int r.records)]

/-- A run that is not there is not found; all else is the fault of the service. -/
def storeFault (e : StoreError) : Response :=
  match e with
  | .runNotFound _ => .fault 404 e.message
  | _ => .fault 500 e.message

def listRuns (store : Store) : Response :=
  match store.runs with
  | .error e => .fault 500 e.message
  | .ok rs => .json 200 (.arr (rs.map runObject))

def showRun (s : Service) (store : Store) (event : Instant) (target : Url.Target) (id : String) :
    Response × Service :=
  match store.run id, store.load id with
  | .error e, _ => (storeFault e, s)
  | .ok _, .error e => (.fault 500 e.message, s)
  | .ok _, .ok records => s.report event target records

def deleteRun (s : Service) (store : Store) (id : String) : Response × Service :=
  match store.delete id with
  | .error e => (storeFault e, s)
  | .ok store => (.bare 204, { s with store := some store })

/-- The depth that is asked for; none means no limit. -/
def depthOf? (value : List UInt8) : Option Int :=
  if value.isEmpty then some 0
  else
    match Whole.signed64? (some 10) (Text.ofBytes value).toList with
    | some d => if d < 0 then none else some d
    | none => none

def reach (store : Store) (target : Url.Target) (d : Direction) (table : List UInt8) : Response :=
  let value := target.value "depth"
  match depthOf? value with
  | none => .fault 400 ("invalid depth " ++ Text.quoteBytes value)
  | some depth =>
    match store.latest with
    | .error e => .fault 500 e.message
    | .ok records =>
      let g := Graph.ofRecords records
      let name := Text.ofBytes table
      match g.node? name with
      | none => .fault 404 ("table " ++ Text.quoteBytes table ++ " not found")
      | some _ =>
        let tables := match d with
          | .upstream => g.upstream name depth
          | .downstream => g.downstream name depth
        .json 200 (.obj [("table", .str name), ("direction", .str d.name), ("depth", .int depth),
          ("tables", .arr (tables.map .str))])

/-! ### Streams -/

def noticeText (e : SavedNotice) : String :=
  "event: run\ndata: " ++ String.ofList e.toJson.compact ++ "\n\n\n"

def streamType : String := "text/event-stream"

def pull (s : Service) (subscriber : Nat) : String × Service :=
  let (es, n) := s.notifier.drain subscriber
  (String.join (es.map noticeText), { s with notifier := n })

def leave (s : Service) (subscriber : Nat) : Service := { s with notifier := s.notifier.unsubscribe subscriber }

/-! ### Requests -/

def withStore (s : Service) (store : Store) (t : Times) (target : Url.Target) :
    RunQuestion → Reply × Service
  | .list => (.response (listRuns store), s)
  | .one id =>
    let (a, s) := s.showRun store t.event target (Text.ofBytes id)
    (.response a, s)
  | .delete id =>
    let (a, s) := s.deleteRun store (Text.ofBytes id)
    (.response a, s)
  | .reach d table => (.response (reach store target d table), s)
  | .events =>
    (.stream s.notifier.channels.length, { s with notifier := s.notifier.subscribe })

def respond (s : Service) (t : Times) (q : Request) : Reply × Service :=
  let target := Url.Target.ofText q.target
  match Route.of q.method (Url.routePath target.path) with
  | .notFound => (.response (.plain 404 "404 page not found\n"), s)
  | .wrongMethod allow => (.response { Response.bare 405 with allow }, s)
  | .found .health => (.response (.plain 200 "ok\n"), s)
  | .found .extract =>
    let (a, s) := s.extract t target q.body
    (.response (a.packed (q.header "Accept-Encoding")), s)
  | .found (.runs r) =>
    match s.store with
    | none => (.response (.fault 501 "no store configured"), s)
    | some store => s.withStore store t target r

end Service
end TableLineage
