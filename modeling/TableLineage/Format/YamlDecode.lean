import TableLineage.Format.YamlDatum
import TableLineage.Format.YamlNode

/-! From the nodes of a YAML document to what they stand for. A mapping can take in others:
their entries count where it has none of its own. What does not fit its place is noted and
left out; some faults end the reading. -/
namespace TableLineage.Yaml

/-! ### What does not fit -/

inductive Misfit where
  | repeatedKey (line : Nat) (key : String) (before : Nat)
  | wrongKind (line : Nat) (tag text wanted : String)
  deriving DecidableEq, Repr

namespace Misfit

def shortened (s : String) : String :=
  if 10 < s.utf8ByteSize then Text.ofBytes ((Text.bytesOf s.toList).take 7) ++ "..." else s

def message : Misfit → String
  | .repeatedKey line key before =>
    "line " ++ toString line ++ ": mapping key " ++ Text.quote key ++ " already defined at line " ++ toString before
  | .wrongKind line tag text wanted =>
    "line " ++ toString line ++ ": cannot unmarshal " ++ tag ++
      (if tag = "!!seq" || tag = "!!map" then "" else " \x60" ++ shortened text ++ "\x60") ++ " into " ++ wanted

end Misfit

/-! ### Nodes as keys -/

namespace Document

def find? (d : Document) (number : Nat) : Option Node := d.named.lookup number

def tagOf (d : Document) : Node → String
  | .scalar _ tag _ => tag
  | .sequence _ tag _ => tag
  | .mapping _ tag _ => tag
  | .reference _ _ _ target =>
    match d.find? target with
    | some (.scalar _ tag _) => tag
    | some (.sequence _ tag _) => tag
    | some (.mapping _ tag _) => tag
    | _ => ""

def hasTextKeys (d : Document) (entries : List (Node × Node)) : Bool :=
  entries.all fun e => ["!!str", "!!merge"].contains (d.tagOf e.1)

def isMapping (d : Document) : Node → Bool
  | .mapping .. => true
  | .reference _ _ _ target =>
    match d.find? target with
    | some (.mapping ..) => true
    | _ => false
  | _ => false

end Document

namespace Node

def line : Node → Nat
  | .scalar line _ _ => line
  | .sequence line _ _ => line
  | .mapping line _ _ => line
  | .reference line _ _ _ => line

def text : Node → String
  | .scalar _ _ text => text
  | .reference _ _ name _ => name
  | _ => ""

def kind : Node → Nat
  | .scalar .. => 0
  | .sequence .. => 1
  | .mapping .. => 2
  | .reference .. => 3

/-- The sign for other mappings in place of a key. -/
def isMerge : Node → Bool
  | .scalar _ tag text => text = "<<" && tag = "!!merge"
  | _ => false

end Node

/-- The keys that stand twice in a mapping. Keys of the same kind with the same text are the
same, whatever they stand for. -/
def repeatedKeys : List Node → List Misfit
  | [] => []
  | k :: r =>
    ((r.filter fun j => j.kind = k.kind && j.text = k.text).map fun j => .repeatedKey j.line j.text k.line) ++
      repeatedKeys r

/-! ### Reading -/

structure Decoding where
  misfits : List Misfit
  count : Nat
  referred : Nat
  active : List Nat
  /-- The keys that are taken, while a mapping takes in others. -/
  taken : Option (List Datum)

abbrev Decode := StateT Decoding (Except Problem)

namespace Decode

def note (found : List Misfit) : Decode Unit := modify fun s => { s with misfits := s.misfits ++ found }

/-- Whether references stand for too much of a document: nearly all of a small one, a tenth
of a very large one. -/
def isExcessive (count referred : Nat) : Bool :=
  100 < referred && 1000 < count &&
    (if count ≤ 400000 then 99 * count < 100 * referred
     else if 4000000 ≤ count then count < 10 * referred
     else (99 * 3600000 - 89 * (count - 400000)) * count < 100 * 3600000 * referred)

def visit : Decode Unit := do
  modify fun s =>
    { s with count := s.count + 1, referred := if s.active.isEmpty then s.referred else s.referred + 1 }
  let s ← get
  if isExcessive s.count s.referred then throw .tooManyReferences

def enter (number : Nat) (name : String) : Decode Unit := do
  if (← get).active.contains number then throw (.selfReference name)
  modify fun s => { s with active := number :: s.active }

def leave : Decode Unit := modify fun s => { s with active := s.active.drop 1 }

def hasRepeated (entries : List (Node × Node)) : Decode Bool := do
  let found := repeatedKeys (entries.map (·.1))
  note found
  return !found.isEmpty

/-- Notes that a key is taken, and whether it was so before. -/
def claim (key : Datum) : List Datum → Decode (Bool × List Datum)
  | keys => do
    if let some kind := key.collection? then throw (.unhashableKey kind)
    return if keys.any (·.sameKey key) then (true, keys) else (false, key :: keys)

mutual

def value (d : Document) (fuel : Nat) (n : Node) : Decode (Option Datum) := do
  match fuel with
  | 0 => return none
  | fuel + 1 =>
    visit
    match n with
    | .reference _ number name target =>
      enter number name
      let found ← match d.find? target with
        | some n => value d fuel n
        | none => pure none
      leave
      return found
    | .scalar _ tag text => return some (← liftM (Datum.ofScalar tag text))
    | .sequence _ _ items => return some (.list (← values d fuel items))
    | .mapping _ _ entries =>
      if ← hasRepeated entries then return none
      let asText := d.hasTextKeys entries
      let found ← fill d fuel asText entries []
      return some (if asText then .map (Datum.textEntries found) else .table found)

def values (d : Document) (fuel : Nat) (items : List Node) : Decode (List Datum) := do
  match fuel, items with
  | 0, _ => return []
  | _ + 1, [] => return []
  | fuel + 1, n :: r =>
    let first ← value d fuel n
    let rest ← values d fuel r
    return first.toList ++ rest

def text (d : Document) (fuel : Nat) (n : Node) : Decode (Option Datum) := do
  match fuel with
  | 0 => return none
  | fuel + 1 =>
    visit
    match n with
    | .reference _ number name target =>
      enter number name
      let found ← match d.find? target with
        | some n => text d fuel n
        | none => pure none
      leave
      return found
    | .scalar _ tag s =>
      match ← liftM (Datum.ofScalar tag s) with
      | .null => return none
      | .str decoded => return some (.str decoded)
      | _ => return some (.str s)
    | .sequence line tag _ =>
      note [.wrongKind line tag "" "string"]
      return none
    | .mapping line tag entries =>
      if !(← hasRepeated entries) then note [.wrongKind line tag "" "string"]
      return none

/-- Puts the entries of a mapping to others, its own first and then those of the mappings
that it takes in. -/
def fill (d : Document) (fuel : Nat) (asText : Bool) (entries : List (Node × Node)) (done : List (Datum × Datum)) :
    Decode (List (Datum × Datum)) := do
  match fuel with
  | 0 => return done
  | fuel + 1 =>
    let taken ← modifyGet fun s => (s.taken, { s with taken := none })
    let (own, taken) ← ownEntries d fuel asText entries taken done
    modify fun s => { s with taken }
    match (entries.filter (·.1.isMerge)).getLast? with
    | none => return own
    | some (_, source) =>
      if taken.isNone then
        modify fun s => { s with taken := some [] }
        claimAll d fuel (entries.map (·.1))
      let sources := match source with
        | .sequence _ _ items => items
        | n => [n]
      let all ← takeIn d fuel asText sources own
      modify fun s => { s with taken }
      return all

/-- The entries of a mapping itself. Those with keys that are taken already do not count. -/
def ownEntries (d : Document) (fuel : Nat) (asText : Bool) (entries : List (Node × Node)) (taken : Option (List Datum))
    (done : List (Datum × Datum)) : Decode (List (Datum × Datum) × Option (List Datum)) := do
  match fuel, entries with
  | 0, _ => return (done, taken)
  | _ + 1, [] => return (done, taken)
  | fuel + 1, (k, n) :: r =>
    if k.isMerge then ownEntries d fuel asText r taken done
    else
      match ← if asText then text d fuel k else value d fuel k with
      | none => ownEntries d fuel asText r taken done
      | some key =>
        let (isTaken, taken) ← match taken with
          | none => pure (false, none)
          | some keys =>
            let (isTaken, keys) ← claim key keys
            pure (isTaken, some keys)
        if isTaken then ownEntries d fuel asText r taken done
        else
          if key.collection?.isSome then throw (.collectionKey key.literal)
          match ← value d fuel n with
          | some found => ownEntries d fuel asText r taken (Datum.put key found done)
          | none => ownEntries d fuel asText r taken done

def claimAll (d : Document) (fuel : Nat) (keys : List Node) : Decode Unit := do
  match fuel, keys with
  | 0, _ => return
  | _ + 1, [] => return
  | fuel + 1, k :: r =>
    if let some key ← value d fuel k then
      let (_, keys) ← claim key ((← get).taken.getD [])
      modify fun s => { s with taken := some keys }
    claimAll d fuel r

def takeIn (d : Document) (fuel : Nat) (asText : Bool) (sources : List Node) (done : List (Datum × Datum)) :
    Decode (List (Datum × Datum)) := do
  match fuel, sources with
  | 0, _ => return done
  | _ + 1, [] => return done
  | fuel + 1, n :: r =>
    if !d.isMapping n then throw .noMergedMapping
    takeIn d fuel asText r (← takeOne d fuel asText n done)

def takeOne (d : Document) (fuel : Nat) (asText : Bool) (n : Node) (done : List (Datum × Datum)) :
    Decode (List (Datum × Datum)) := do
  match fuel with
  | 0 => return done
  | fuel + 1 =>
    visit
    match n with
    | .reference _ number name target =>
      enter number name
      let found ← match d.find? target with
        | some n => takeOne d fuel asText n done
        | none => pure done
      leave
      return found
    | .mapping _ _ entries => if ← hasRepeated entries then return done else fill d fuel asText entries done
    | _ => return done

end

def entries (d : Document) (fuel : Nat) : Decode (List (String × Datum)) := do
  let wanted := "map[string]interface \x7b\x7d"
  visit
  visit
  match d.root with
  | .mapping _ _ entries =>
    if ← hasRepeated entries then return []
    return Datum.textEntries (← fill d fuel true entries [])
  | .scalar line tag text =>
    match ← liftM (Datum.ofScalar tag text) with
    | .null => return []
    | _ =>
      note [.wrongKind line tag text wanted]
      return []
  | .sequence line tag _ =>
    note [.wrongKind line tag "" wanted]
    return []
  | .reference .. => return []

end Decode

/-! ### The size of documents -/

namespace Node

mutual

def size : Node → Nat
  | .scalar .. => 1
  | .reference .. => 1
  | .sequence _ _ items => sizeOfItems items + 1
  | .mapping _ _ entries => sizeOfEntries entries + 1

def sizeOfItems : List Node → Nat
  | [] => 1
  | n :: r => size n + sizeOfItems r

def sizeOfEntries : List (Node × Node) → Nat
  | [] => 1
  | (k, n) :: r => size k + size n + sizeOfEntries r

end

end Node

/-- A bound on how deep reading goes: no reference is read inside of itself, so that the
document is gone through once at most for each reference. -/
def Document.depthBound (d : Document) : Nat := 8 * (d.root.size + 1) * (d.root.size + 1)

/-! ### Texts -/

inductive EntriesFault where
  | malformed (f : Fault)
  | unfit (misfits : List Misfit)
  deriving DecidableEq, Repr

def EntriesFault.message : EntriesFault → String
  | .malformed f => "yaml: " ++ f.text
  | .unfit misfits => "yaml: unmarshal errors:\n  " ++ "\n  ".intercalate (misfits.map Misfit.message)

def entriesOf (text : String) : Except EntriesFault (List (String × Datum)) :=
  match documentOf text with
  | .error f => .error (.malformed f)
  | .ok none => .ok []
  | .ok (some d) =>
    match (Decode.entries d d.depthBound).run ⟨[], 0, 0, [], none⟩ with
    | .error p => .error (.malformed (.anywhere p))
    | .ok (entries, s) => if s.misfits.isEmpty then .ok entries else .error (.unfit s.misfits)

end TableLineage.Yaml
