import TableLineage.Text.Quoted

/-! JSON values and their text. Objects keep the order of their fields, and numbers
the way they are written. Besides
quotes, backslashes and controls, the signs that mark up HTML and the two
Unicode line ends are escaped. -/
namespace TableLineage

inductive JsonValue where
  | null
  | bool (b : Bool)
  | num (literal : String)
  | str (s : String)
  | arr (items : List JsonValue)
  | obj (fields : List (String × JsonValue))
  deriving Repr

namespace JsonValue

def unicodeEscape (c : Char) : List Char := '\\' :: 'u' :: Text.hex 4 c.toNat

def stringChar (c : Char) : List Char :=
  if c = '\x22' || c = '\\' then ['\\', c]
  else if c = '\n' then ['\\', 'n']
  else if c = '\r' then ['\\', 'r']
  else if c = '\t' then ['\\', 't']
  else if c = '\x08' then ['\\', 'b']
  else if c = '\x0c' then ['\\', 'f']
  else if c.toNat < 0x20 || c = '<' || c = '>' || c = '&' || c = '\u2028' || c = '\u2029' then unicodeEscape c
  else [c]

def stringText (s : String) : List Char := '\x22' :: s.toList.flatMap stringChar ++ ['\x22']

def int (n : Int) : JsonValue := .num (toString n)

/-- The blanks in front of what stands `depth` levels deep: none if all is on one line. -/
def indent (spread : Bool) (depth : Nat) : List Char := if spread then '\n' :: List.replicate (2 * depth) ' ' else []

def colon (spread : Bool) : List Char := if spread then [':', ' '] else [':']

def comma {α : Type} (behind : List α) : List Char := if behind.isEmpty then [] else [',']

mutual

/-- The text without any blanks, or spread with every item and field on a line of its own. -/
def text (spread : Bool) (depth : Nat) : JsonValue → List Char
  | .null => "null".toList
  | .bool b => (toString b).toList
  | .num t => t.toList
  | .str s => stringText s
  | .arr [] => ['[', ']']
  | .arr vs => '[' :: items spread (depth + 1) vs ++ indent spread depth ++ [']']
  | .obj [] => ['\x7b', '\x7d']
  | .obj fs => '\x7b' :: fields spread (depth + 1) fs ++ indent spread depth ++ ['\x7d']

def items (spread : Bool) (depth : Nat) : List JsonValue → List Char
  | [] => []
  | v :: vs => indent spread depth ++ text spread depth v ++ comma vs ++ items spread depth vs

def fields (spread : Bool) (depth : Nat) : List (String × JsonValue) → List Char
  | [] => []
  | (k, v) :: fs =>
    indent spread depth ++ stringText k ++ colon spread ++ text spread depth v ++ comma fs ++ fields spread depth fs

end

def compact (v : JsonValue) : List Char := v.text false 0

def line (v : JsonValue) : String := String.ofList (v.compact ++ ['\n'])

def document (v : JsonValue) : String := String.ofList (v.text true 0 ++ ['\n'])

end JsonValue
end TableLineage
