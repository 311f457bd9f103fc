import TableLineage.RunId
import TableLineage.Store.Tables

/-! A store of runs. It may be closed, or have no database at all; then it answers with
an error. -/
namespace TableLineage

inductive StoreTask where
  | save | listRuns | findRun | load | listEdges | delete | version | migrate
  deriving DecidableEq, Repr

inductive StoreError where
  | notOpen
  | runNotFound (id : String)
  | closed (task : StoreTask)
  deriving DecidableEq, Repr

namespace StoreError

def closedText : String := "sql: database is closed"

/-- The version is asked for in two ways before that fails. -/
def taskText : StoreTask → String
  | .save => "failed to begin transaction: "
  | .listRuns => "failed to query runs: "
  | .findRun => "failed to query run: "
  | .load => "failed to query records: "
  | .listEdges => "failed to query edges: "
  | .delete => "failed to delete run: "
  | .version => closedText ++ "; "
  | .migrate => "failed to run migrations: " ++ closedText ++ "; "

def message : StoreError → String
  | .notOpen => "database not opened"
  | .runNotFound id => "run not found: " ++ id
  | .closed task => taskText task ++ closedText

end StoreError

inductive Store where
  | absent
  | closed
  | opened (tables : Store.Tables)
  deriving DecidableEq, Repr

namespace Store

def fresh : Store := .opened .empty

def ask {α : Type} (s : Store) (task : StoreTask) (question : Tables → Except StoreError α) : Except StoreError α :=
  match s with
  | .absent => .error .notOpen
  | .closed => .error (.closed task)
  | .opened t => question t

def save (s : Store) (ids : IdSource) (now : Instant) (sourceName : String) (records : List Record) :
    Except StoreError Run × Store × IdSource :=
  match s with
  | .absent => (.error .notOpen, s, ids)
  | .closed => (.error (.closed .save), s, ids.next.2)
  | .opened t =>
    let (id, ids) := ids.next
    (.ok ⟨id, sourceName, now, records.length⟩, .opened (t.insertRun ⟨id, sourceName, now⟩ records), ids)

def runs (s : Store) : Except StoreError (List Run) := s.ask .listRuns fun t => .ok t.runList

def run (s : Store) (id : String) : Except StoreError Run :=
  s.ask .findRun fun t =>
    match t.run? id with
    | some r => .ok r
    | none => .error (.runNotFound id)

def load (s : Store) (id : String) : Except StoreError (List Record) := s.ask .load fun t => .ok (t.load id)

def latest (s : Store) : Except StoreError (List Record) := s.ask .listRuns fun t => .ok t.latest

def edges (s : Store) (table : String) : Except StoreError (List SavedEdge) :=
  s.ask .listEdges fun t => .ok (t.edgesOf table)

def delete (s : Store) (id : String) : Except StoreError Store :=
  s.ask .delete fun t =>
    match t.run? id with
    | some _ => .ok (.opened (t.deleteRun id))
    | none => .error (.runNotFound id)

def version (s : Store) : Except StoreError Nat := s.ask .version fun _ => .ok 1

/-- Brings the layout of the tables up to date; a store always is. -/
def migrate (s : Store) : Except StoreError Unit := s.ask .migrate fun _ => .ok ()

def close : Store → Store
  | .absent => .absent
  | _ => .closed

end Store
end TableLineage
