import TableLineage.Format.JsonReader
import TableLineage.Text.Fold

/-! What a request for an extraction asks. It comes as a JSON object; field names may be in
any case, a field that is null keeps its value, and of several faults the first counts. Only
so much of a body is read. -/
namespace TableLineage

structure ExtractRequest where
  sql : String
  split : Bool
  sourceName : String
  exclude : List String
  normalize : Option Bool
  save : Bool
  deriving DecidableEq, Repr

inductive BodyFault where
  | json (f : JsonFault)
  | tooLarge
  | unknownField (name : String)
  | wrongBody (found : String)
  | wrongField (found field wanted : String)
  deriving DecidableEq, Repr

def BodyFault.message : BodyFault → String
  | .json f => f.message
  | .tooLarge => "http: request body too large"
  | .unknownField name => "json: unknown field " ++ Text.quote name
  | .wrongBody found => "json: cannot unmarshal " ++ found ++ " into Go value of type server.ExtractRequest"
  | .wrongField found field wanted =>
    "json: cannot unmarshal " ++ found ++ " into Go struct field ExtractRequest." ++ field ++ " of type " ++ wanted

def JsonValue.kindName : JsonValue → String
  | .null => "null"
  | .bool _ => "bool"
  | .num _ => "number"
  | .str _ => "string"
  | .arr _ => "array"
  | .obj _ => "object"

namespace ExtractRequest

def empty : ExtractRequest := ⟨"", false, "", [], none, false⟩

def textField (field : String) (old : String) : JsonValue → Except BodyFault String
  | .str s => .ok s
  | .null => .ok old
  | v => .error (.wrongField v.kindName field "string")

def boolField (field : String) (old : Bool) : JsonValue → Except BodyFault Bool
  | .bool b => .ok b
  | .null => .ok old
  | v => .error (.wrongField v.kindName field "bool")

def choiceField (field : String) : JsonValue → Except BodyFault (Option Bool)
  | .bool b => .ok (some b)
  | .null => .ok none
  | v => .error (.wrongField v.kindName field "bool")

/-- The texts of a list; a null keeps the text at its place. -/
def textItems (field : String) : List String → List JsonValue → Except BodyFault (List String)
  | _, [] => .ok []
  | old, v :: vs => do
    let s ← textField field (old.head?.getD "") v
    let rest ← textItems field old.tail vs
    return s :: rest

def listField (field : String) (old : List String) : JsonValue → Except BodyFault (List String)
  | .arr vs => textItems field old vs
  | .null => .ok []
  | v => .error (.wrongField v.kindName field "[]string")

def withField (r : ExtractRequest) (f : String × JsonValue) : Except BodyFault ExtractRequest :=
  let named (word : String) : Bool := Text.spells f.1 word
  if named "sql" then (textField "sql" r.sql f.2).map fun s => { r with sql := s }
  else if named "splitstatements" then
    (boolField "splitStatements" r.split f.2).map fun b => { r with split := b }
  else if named "sourcename" then (textField "sourceName" r.sourceName f.2).map fun s => { r with sourceName := s }
  else if named "exclude" then (listField "exclude" r.exclude f.2).map fun ps => { r with exclude := ps }
  else if named "normalizeidentifiers" then
    (choiceField "normalizeIdentifiers" f.2).map fun b => { r with normalize := b }
  else if named "save" then (boolField "save" r.save f.2).map fun b => { r with save := b }
  else .error (.unknownField f.1)

def ofValue : JsonValue → Except BodyFault ExtractRequest
  | .obj fs => fs.foldlM withField empty
  | .null => .ok empty
  | v => .error (.wrongBody v.kindName)

/-- How many bytes of a body are read. -/
def limit : Nat := 10 * 1024 * 1024

/-- The characters of a text up to a number of bytes. -/
def within : Nat → List Char → List Char
  | _, [] => []
  | bytes, c :: r => if c.utf8Size ≤ bytes then c :: within (bytes - c.utf8Size) r else []

/-- The first value of a body. It has to end within the bytes that are read. -/
def firstValue (body : String) : Except BodyFault JsonValue :=
  if body.utf8ByteSize ≤ limit then (JsonValue.first body).mapError .json
  else
    match JsonValue.first (String.ofList (within limit body.toList)) with
    | .error .nothing | .error .cutShort => .error .tooLarge
    | v => v.mapError .json

def ofBody (body : String) : Except BodyFault ExtractRequest := (firstValue body).bind ofValue

end ExtractRequest
end TableLineage
