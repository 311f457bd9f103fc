import TableLineage.Format.YamlPlain
import TableLineage.Format.YamlToken

/-! The nodes of a YAML document, read from its tokens. Only the first document of a
text counts. A node can have a name, and a reference stands for the node of its name; a
node can so stand in several places, also inside of itself. -/
namespace TableLineage.Yaml

/-- A node with the line on which it begins, from one, and its tag in short form. -/
inductive Node where
  | scalar (line : Nat) (tag text : String)
  | sequence (line : Nat) (tag : String) (items : List Node)
  | mapping (line : Nat) (tag : String) (entries : List (Node × Node))
  /-- A reference, with a number of its own, to the named node with the number `target`. -/
  | reference (line number : Nat) (name : String) (target : Nat)

structure Document where
  root : Node
  named : List (Nat × Node)

/-! ### Tags -/

def languageTags : String := "tag:yaml.org,2002:"

def shortTag (tag : String) : String :=
  if tag.startsWith languageTags then "!!" ++ String.ofList (tag.toList.drop languageTags.length) else tag

/-- The tag of a node: the one it was given, if it says anything, or else its usual one. -/
def tagOr (usual given : String) : String := if given.isEmpty || given = "!" then usual else shortTag given

/-- The tag of a scalar. Text that is not plain is a string. -/
def scalarTag (given text : String) (plain : Bool) : String :=
  tagOr (if !plain then "!!str" else if text = "<<" then "!!merge" else (Plain.ofText true text).tag) given

/-! ### Reading -/

/-- What is left of the text, what the handles of tags stand for, and the names so far. -/
structure Composer where
  scanner : Scanner
  handles : List (String × String)
  names : List (String × Nat)
  named : List (Nat × Node)
  numbers : Nat

abbrev Compose := StateT Composer (Except Fault)

namespace Compose

def peek : Compose Token := fun s =>
  match s.scanner.settle with
  | .error f => .error f
  | .ok scanner => .ok (scanner.pending.head?.getD ⟨.streamEnd, scanner.cursor.line⟩, { s with scanner })

def skip : Compose Unit := modify fun s => { s with scanner := s.scanner.drop }

def following : Compose Token := do
  skip
  peek

def fail {α : Type} (start stop : Nat) (problem : Problem) : Compose α := throw (.inOrder start stop problem)

def newNumber : Compose Nat := modifyGet fun s => (s.numbers, { s with numbers := s.numbers + 1 })

def name (anchor : Option String) : Compose (Option Nat) := do
  match anchor with
  | none => return none
  | some a =>
    let number ← newNumber
    modify fun s => { s with names := (a, number) :: s.names }
    return some number

def keep (number : Option Nat) (n : Node) : Compose Node := do
  if let some k := number then modify fun s => { s with named := (k, n) :: s.named }
  return n

def reference (line : Nat) (a : String) : Compose Node := do
  match (← get).names.lookup a with
  | some target => return .reference line (← newNumber) a target
  | none => throw (.anywhere (.unknownAnchor a))

def isAbsent (ends : List TokenKind) (t : Token) : Bool := ends.contains t.kind

def nothing (line : Nat) : Node := .scalar (line + 1) "!!null" ""

/-! ### Names and tags -/

structure Properties where
  anchor : Option String
  tag : Option (TagName × Nat)

def properties (t : Token) : Compose (Properties × Token) := do
  match t.kind with
  | .anchor a =>
    let next ← following
    match next.kind with
    | .tag g => return (⟨some a, some (g, next.line)⟩, ← following)
    | _ => return (⟨some a, none⟩, next)
  | .tag g =>
    let next ← following
    match next.kind with
    | .anchor a => return (⟨some a, some (g, t.line)⟩, ← following)
    | _ => return (⟨none, some (g, t.line)⟩, next)
  | _ => return (⟨none, none⟩, t)

/-- The tag in full of a node that begins on line `start`. -/
def fullTag (start : Nat) (tag : Option (TagName × Nat)) : Compose String := do
  match tag with
  | none => return ""
  | some (t, line) =>
    if t.handle.isEmpty then return t.suffix
    match (← get).handles.lookup t.handle with
    | some lead => return lead ++ t.suffix
    | none => fail start line .unknownHandle

/-! ### Nodes -/

mutual

/-- A node. Blocks count only where `inBlock` says so, and items at the column of their
key only where `indentless` does. -/
def node (fuel : Nat) (inBlock indentless : Bool) : Compose Node := do
  match fuel with
  | 0 => fail 0 0 .noNode
  | fuel + 1 =>
    let first ← peek
    let line := first.line + 1
    if let .reference a := first.kind then
      skip
      return ← reference line a
    let (p, t) ← properties first
    let tag ← fullTag first.line p.tag
    let absent : Compose Node := do
      if p.anchor.isNone && tag.isEmpty then fail first.line t.line .noNode
      keep (← name p.anchor) (.scalar line (scalarTag tag "" true) "")
    match t.kind with
    | .scalar text plain =>
      skip
      keep (← name p.anchor) (.scalar line (scalarTag tag text plain) text)
    | .sequenceOpen =>
      let number ← name p.anchor
      skip
      keep number (.sequence line (tagOr "!!seq" tag) (← flowItems fuel t.line true []))
    | .mappingOpen =>
      let number ← name p.anchor
      skip
      keep number (.mapping line (tagOr "!!map" tag) (← flowEntries fuel t.line true []))
    | .blockSequence =>
      if !inBlock then absent
      else
        let number ← name p.anchor
        skip
        keep number (.sequence line (tagOr "!!seq" tag) (← blockItems fuel t.line []))
    | .blockMapping =>
      if !inBlock then absent
      else
        let number ← name p.anchor
        skip
        keep number (.mapping line (tagOr "!!map" tag) (← blockEntries fuel t.line []))
    | .dash =>
      if !indentless then absent
      else
        let number ← name p.anchor
        keep number (.sequence line (tagOr "!!seq" tag) (← indentlessItems fuel []))
    | _ => absent

def blockItems (fuel start : Nat) (done : List Node) : Compose (List Node) := do
  match fuel with
  | 0 => fail 0 0 .noDash
  | fuel + 1 =>
    let t ← peek
    match t.kind with
    | .dash =>
      let next ← following
      let item ← if isAbsent [.dash, .blockEnd] next then pure (nothing t.line) else node fuel true false
      blockItems fuel start (done ++ [item])
    | .blockEnd =>
      skip
      return done
    | _ => fail start t.line .noDash

def indentlessItems (fuel : Nat) (done : List Node) : Compose (List Node) := do
  match fuel with
  | 0 => fail 0 0 .noDash
  | fuel + 1 =>
    let t ← peek
    match t.kind with
    | .dash =>
      let next ← following
      let item ←
        if isAbsent [.dash, .key, .value, .blockEnd] next then pure (nothing t.line) else node fuel true false
      indentlessItems fuel (done ++ [item])
    | _ => return done

def blockEntries (fuel start : Nat) (done : List (Node × Node)) : Compose (List (Node × Node)) := do
  match fuel with
  | 0 => fail 0 0 .noKey
  | fuel + 1 =>
    let t ← peek
    match t.kind with
    | .key =>
      let next ← following
      let key ← if isAbsent [.key, .value, .blockEnd] next then pure (nothing t.line) else node fuel true true
      let value ← blockValue fuel
      blockEntries fuel start (done ++ [(key, value)])
    | .blockEnd =>
      skip
      return done
    | _ => fail start t.line .noKey

def blockValue (fuel : Nat) : Compose Node := do
  match fuel with
  | 0 => fail 0 0 .noNode
  | fuel + 1 =>
    let t ← peek
    match t.kind with
    | .value =>
      let next ← following
      if isAbsent [.key, .value, .blockEnd] next then return nothing t.line else node fuel true true
    | _ => return nothing t.line

/-- The items between square brackets. A key that is left out takes the sign behind it
along. -/
def flowItems (fuel start : Nat) (first : Bool) (done : List Node) : Compose (List Node) := do
  match fuel with
  | 0 => fail 0 0 .noSequenceEnd
  | fuel + 1 =>
    let t ← peek
    if t.kind = .sequenceClose then
      skip
      return done
    if !first && t.kind ≠ .comma then fail start t.line .noSequenceEnd
    let t ← if first then pure t else following
    match t.kind with
    | .key =>
      let next ← following
      let key ←
        if isAbsent [.value, .comma, .sequenceClose] next then
          skip
          pure (nothing next.line)
        else node fuel false false
      let value ← flowValue fuel .sequenceClose
      flowItems fuel start false (done ++ [.mapping (t.line + 1) "!!map" [(key, value)]])
    | .sequenceClose =>
      skip
      return done
    | _ => flowItems fuel start false (done ++ [← node fuel false false])

def flowEntries (fuel start : Nat) (first : Bool) (done : List (Node × Node)) : Compose (List (Node × Node)) := do
  match fuel with
  | 0 => fail 0 0 .noMappingEnd
  | fuel + 1 =>
    let t ← peek
    if t.kind = .mappingClose then
      skip
      return done
    if !first && t.kind ≠ .comma then fail start t.line .noMappingEnd
    let t ← if first then pure t else following
    match t.kind with
    | .key =>
      let next ← following
      let key ←
        if isAbsent [.value, .comma, .mappingClose] next then pure (nothing next.line) else node fuel false false
      let value ← flowValue fuel .mappingClose
      flowEntries fuel start false (done ++ [(key, value)])
    | .mappingClose =>
      skip
      return done
    | _ =>
      let key ← node fuel false false
      flowEntries fuel start false (done ++ [(key, nothing t.line)])

def flowValue (fuel : Nat) (close : TokenKind) : Compose Node := do
  match fuel with
  | 0 => fail 0 0 .noNode
  | fuel + 1 =>
    let t ← peek
    match t.kind with
    | .value =>
      let next ← following
      if isAbsent [.comma, close] next then return nothing next.line else node fuel false false
    | _ => return nothing t.line

end

/-! ### Documents -/

/-- The handles that stand for something even if no directive says so. -/
def usualHandles : List (String × String) := [("!", "!"), ("!!", languageTags)]

/-- Reads the directives of a document. There is one version of the language, and it is
named once at most, as is every handle. -/
def directives (versioned : Bool) : Nat → Compose Token
  | 0 => peek
  | fuel + 1 => do
    let t ← peek
    match t.kind with
    | .directive (.version major minor) =>
      if versioned then fail 0 t.line .secondVersion
      if major ≠ 1 || minor ≠ 1 then fail 0 t.line .otherVersion
      skip
      directives true fuel
    | .directive (.handle handle lead) =>
      if ((← get).handles.lookup handle).isSome then fail 0 t.line .secondHandle
      modify fun s => { s with handles := s.handles ++ [(handle, lead)] }
      skip
      directives versioned fuel
    | _ => return t

/-- What follows a document has to be readable, no more. -/
def readOn (root : Node) : Compose (Option Node) := do
  let _ ← peek
  return some root

def endsDocument (t : Token) : Bool :=
  match t.kind with
  | .directive _ | .documentStart | .documentEnd | .streamEnd => true
  | _ => false

def document (fuel : Nat) : Compose (Option Node) := do
  let _ ← peek
  let t ← following
  match t.kind with
  | .streamEnd => return none
  | .directive _ | .documentStart =>
    let t ← directives false fuel
    modify fun s => { s with handles := s.handles ++ usualHandles }
    if t.kind ≠ .documentStart then fail 0 t.line .noDocumentStart
    let next ← following
    if endsDocument next then return some (nothing next.line)
    else readOn (← node fuel true false)
  | _ =>
    modify fun s => { s with handles := usualHandles }
    readOn (← node fuel true false)

end Compose

def documentOf (text : String) : Except Fault (Option Document) :=
  match scannerOf text with
  | .error f => .error f
  | .ok scanner =>
    match (Compose.document (8 * text.length + 16)).run ⟨scanner, [], [], [], 0⟩ with
    | .error f => .error f
    | .ok (none, _) => .ok none
    | .ok (some root, s) => .ok (some ⟨root, s.named⟩)

end TableLineage.Yaml
