import TableLineage.CommandLine.Session

/-! The lineage store of a command. It is a file, or lives no longer than the command. -/
namespace TableLineage.CommandLine

structure OpenStore where
  file : Option String
  store : Store

namespace OpenStore

/-- The path of a store that is no file. -/
def inMemory : String := ":memory:"

def keep (s : OpenStore) : Action Unit :=
  match s.file, s.store with
  | some path, .opened tables =>
    modify fun t => { t with workspace := { t.workspace with files := t.workspace.files.insert path (.store tables) } }
  | _, _ => pure ()

def at' (w : Workspace) (path : String) : Except Failure OpenStore :=
  if path = inMemory then .ok ⟨none, .fresh⟩
  else
    match w.find path with
    | .ok (.file place (.store tables)) => .ok ⟨some place, .opened tables⟩
    | .ok (.file place (.text text)) => if text.isEmpty then .ok ⟨some place, .fresh⟩ else .error .notStore
    | .ok (.directory _) => .error .storeNotOpened
    | .error .missing => .ok ⟨some (Path.clean path), .fresh⟩
    | .error _ => .error .storeNotOpened

def openFor (c : Config) : Action (Option OpenStore) := do
  if c.storePath.isEmpty then return none
  let directory := Path.directory c.storePath
  if directory ≠ "." then
    let w ← Action.demand .storeDirectory ((← get).workspace.makeDirectory directory)
    modify fun s => { s with workspace := w }
  let s ← Action.demand id (at' (← get).workspace c.storePath)
  s.keep
  Action.log c .debug "opened lineage store" [("path", .text c.storePath)]
  return some s

def require (c : Config) : Action OpenStore := do
  match ← openFor c with
  | some s => return s
  | none => throw .noStore

def save (c : Config) (s : OpenStore) (source : String) (records : List Record) : Action (Run × OpenStore) := do
  let now ← Action.now
  let (saved, store, ids) := s.store.save (← get).ids now source records
  modify fun t => { t with ids := ids }
  let run ← Action.demand .saving saved
  let s := { s with store := store }
  s.keep
  let fields : List (String × LogValue) :=
    [("run", .text run.id), ("source", .text run.sourceName), ("records", .number run.records)]
  Action.log c .debug "saved lineage run" fields
  Action.log c .info "stored lineage run" fields
  return (run, s)

def saveAll (c : Config) : OpenStore → List (String × List Record) → Action Unit
  | _, [] => pure ()
  | s, (source, records) :: rest => do
    let (_, s) ← s.save c source records
    saveAll c s rest

def delete (s : OpenStore) (id : String) : Action Unit := do
  let store ← Action.demand .store (s.store.delete id)
  keep { s with store := store }

end OpenStore
end TableLineage.CommandLine
