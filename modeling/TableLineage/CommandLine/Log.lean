import TableLineage.Instant
import TableLineage.Text.Blank
import TableLineage.Text.Quoted

/-! Lines of a log: a time, a level, a message and fields, as pairs with equals signs or
as a JSON object. -/
namespace TableLineage.CommandLine

inductive LogLevel where
  | debug | info | warn
  deriving DecidableEq, Repr

namespace LogLevel

def name : LogLevel → String
  | .debug => "DEBUG"
  | .info => "INFO"
  | .warn => "WARN"

def isShown (verbose : Bool) : LogLevel → Bool
  | .warn => true
  | _ => verbose

end LogLevel

inductive LogValue where
  | text (s : String)
  | number (n : Nat)
  deriving DecidableEq, Repr

structure LogLine where
  level : LogLevel
  message : String
  fields : List (String × LogValue)
  deriving DecidableEq, Repr

namespace LogLine

/-! ### Pairs -/

/-- Whether a text can stand without quotes only if this character is not in it. -/
def needsQuotes (c : Char) : Bool :=
  c = ' ' || c = '=' || c = '\x22' || c.toNat < 0x20 ||
    (0x80 ≤ c.toNat && (c = '\ufffd' || Text.isBlank c || !Text.isPrintable c))

def plainText (s : String) : String := if s.isEmpty || s.toList.any needsQuotes then Text.quote s else s

def valueText : LogValue → String
  | .text s => plainText s
  | .number n => toString n

def asPairs (l : LogLine) (time : Instant) : String :=
  "time=" ++ time.milliText ++ " level=" ++ l.level.name ++ " msg=" ++ plainText l.message ++
    String.join (l.fields.map fun f => " " ++ f.1 ++ "=" ++ valueText f.2) ++ "\n"

/-! ### JSON -/

def jsonChar (c : Char) : List Char :=
  if c = '\x22' || c = '\\' then ['\\', c]
  else if c = '\n' then ['\\', 'n']
  else if c = '\r' then ['\\', 'r']
  else if c = '\t' then ['\\', 't']
  else if c.toNat < 0x20 || c = '\u2028' || c = '\u2029' then '\\' :: 'u' :: Text.hex 4 c.toNat
  else [c]

def jsonText (s : String) : String := String.ofList ('\x22' :: s.toList.flatMap jsonChar ++ ['\x22'])

def jsonValue : LogValue → String
  | .text s => jsonText s
  | .number n => toString n

def asJson (l : LogLine) (time : Instant) : String :=
  let fields := [("time", .text time.fullText), ("level", .text l.level.name), ("msg", .text l.message)] ++ l.fields
  "\x7b" ++ ",".intercalate (fields.map fun f => jsonText f.1 ++ ":" ++ jsonValue f.2) ++ "\x7d\n"

end LogLine
end TableLineage.CommandLine
