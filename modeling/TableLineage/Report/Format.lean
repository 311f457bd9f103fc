import TableLineage.Text.Blank
import TableLineage.Text.Fold
import TableLineage.Text.Quoted

/-! The formats of a report and their names. -/
namespace TableLineage

inductive Format where
  | json | yaml | openLineage | table | text
  deriving DecidableEq, Repr

namespace Format

def all : List Format := [.json, .yaml, .openLineage, .table, .text]

def name : Format → String
  | .json => "json"
  | .yaml => "yaml"
  | .openLineage => "openlineage"
  | .table => "table"
  | .text => "text"

def names : List String := all.map name

def choices : String := " (expected one of " ++ ", ".intercalate names ++ ")"

def ofName? (n : String) : Option Format := all.find? fun f => f.name == n

end Format

structure UnknownFormat where
  name : String
  deriving DecidableEq, Repr

def UnknownFormat.brief (e : UnknownFormat) : String := "unsupported output format " ++ Text.quote e.name

def UnknownFormat.message (e : UnknownFormat) : String := e.brief ++ Format.choices

/-- The format of a name, without regard to case and to blanks around it. -/
def Format.parse (n : String) : Except UnknownFormat Format :=
  match Format.ofName? (Text.lowerWord (Text.trimmed n)) with
  | some f => .ok f
  | none => .error ⟨n⟩

end TableLineage
