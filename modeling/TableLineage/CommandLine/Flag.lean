import TableLineage.Config.Setting
import TableLineage.Format.Csv
import TableLineage.Format.Duration

/-! Flags of a command line. A flag has a name behind two dashes and maybe a letter behind
one; letters can stand together. A switch stands alone, other flags take a value, which
follows an equals sign or is the next word. -/
namespace TableLineage.CommandLine

inductive FlagKind where
  | text | switch | number | list | duration
  deriving DecidableEq, Repr

structure Flag where
  name : String
  letter : Option Char
  kind : FlagKind
  deriving DecidableEq, Repr

inductive FlagValue where
  | text (s : String)
  | switch (b : Bool)
  | number (n : Int)
  | list (items : List String)
  | duration (nanos : Int)
  deriving DecidableEq, Repr

def FlagValue.setting : FlagValue → Setting
  | .text s => .str s
  | .switch b => .bool b
  | .number n => .int n
  | .list items => .list (items.map .str)
  | .duration nanos => .int nanos

/-! ### Faults -/

inductive ValueFault where
  | noTruth (text : String)
  | noNumber (text : String) (fault : NumberFault)
  | noList (fault : CsvFault)
  | noDuration (fault : DurationFault)
  deriving DecidableEq, Repr

def ValueFault.message : ValueFault → String
  | .noTruth text => "strconv.ParseBool: parsing " ++ Text.quote text ++ ": invalid syntax"
  | .noNumber text fault => "strconv.ParseInt: parsing " ++ Text.quote text ++ ": " ++ fault.text
  | .noList fault => fault.message
  | .noDuration fault => fault.message

inductive FlagError where
  | unknown (name : String)
  /-- A letter that no flag has, and the letters from it on. -/
  | unknownLetter (letters : List Char)
  | malformed (word : String)
  | noValue (name : String)
  | noValueForLetter (letters : List Char)
  | invalid (flag : Flag) (value : String) (fault : ValueFault)
  deriving DecidableEq, Repr

namespace FlagError

/-- The character with the number of the first byte of another. -/
def leadChar (c : Char) : Char := Char.ofNat (((String.utf8EncodeChar c).head?.map UInt8.toNat).getD 0)

/-- The first of some letters between single quotes, and then all of them. A letter is one
byte, so that of others only the start of the start shows. -/
def lettersText (letters : List Char) : String :=
  let shown := match letters.head?.map fun c => leadChar (leadChar c) with
    | some '\x27' => "\\'"
    | some '\x22' => "\x22"
    | some c => String.ofList (Text.quotedChar c)
    | none => ""
  "'" ++ shown ++ "' in -" ++ String.ofList letters

def flagText (f : Flag) : String :=
  match f.letter with
  | some c => "-" ++ c.toString ++ ", --" ++ f.name
  | none => "--" ++ f.name

def message : FlagError → String
  | .unknown name => "unknown flag: --" ++ name
  | .unknownLetter letters => "unknown shorthand flag: " ++ lettersText letters
  | .malformed word => "bad flag syntax: " ++ word
  | .noValue name => "flag needs an argument: --" ++ name
  | .noValueForLetter letters => "flag needs an argument: " ++ lettersText letters
  | .invalid flag value fault =>
    "invalid argument " ++ Text.quote value ++ " for " ++ Text.quote (flagText flag) ++ " flag: " ++ fault.message

end FlagError

/-! ### Values -/

def FlagKind.read (kind : FlagKind) (before : Option FlagValue) (s : String) : Except ValueFault FlagValue :=
  match kind with
  | .text => .ok (.text s)
  | .switch =>
    match truth? s with
    | some b => .ok (.switch b)
    | none => .error (.noTruth s)
  | .number =>
    match Whole.parse s with
    | .ok n => .ok (.number n)
    | .error fault => .error (.noNumber s fault)
  | .duration =>
    match Duration.parse s with
    | .ok n => .ok (.duration n)
    | .error fault => .error (.noDuration fault)
  | .list =>
    let earlier := match before with
      | some (.list items) => items
      | _ => []
    if s.isEmpty then .ok (.list earlier)
    else
      match Csv.record s with
      | .ok items => .ok (.list (earlier ++ items))
      | .error fault => .error (.noList fault)

structure Words where
  flags : List (Flag × FlagValue)
  arguments : List String
  deriving Repr

namespace Words

def empty : Words := ⟨[], []⟩

def value? (w : Words) (name : String) : Option FlagValue :=
  (w.flags.find? fun f => f.1.name == name).map (·.2)

def text (w : Words) (name : String) : String :=
  match w.value? name with
  | some (.text s) => s
  | _ => ""

def switch (w : Words) (name : String) (standard : Bool) : Bool :=
  match w.value? name with
  | some (.switch b) => b
  | _ => standard

def number (w : Words) (name : String) : Int :=
  match w.value? name with
  | some (.number n) => n
  | _ => 0

def list (w : Words) (name : String) : List String :=
  match w.value? name with
  | some (.list items) => items
  | _ => []

def duration (w : Words) (name : String) : Int :=
  match w.value? name with
  | some (.duration n) => n
  | _ => 0

def set (w : Words) (f : Flag) (s : String) : Except FlagError Words :=
  match f.kind.read (w.value? f.name) s with
  | .error fault => .error (.invalid f s fault)
  | .ok v => .ok { w with flags := (w.flags.filter fun e => e.1.name != f.name) ++ [(f, v)] }

def addArguments (w : Words) (more : List String) : Words := { w with arguments := w.arguments ++ more }

def settings (w : Words) : List (String × Setting) := w.flags.map fun f => (f.1.name, f.2.setting)

end Words

/-! ### Reading -/

/-- What letters behind one dash give; the last of them may wait for its value. -/
structure Cluster where
  words : Words
  waiting : Option (Flag × List Char)

/-- Reads letters behind one dash. Those of a test run are passed over. -/
def readLetters (flags : List Flag) (w : Words) : List Char → Except FlagError Cluster
  | [] => .ok ⟨w, none⟩
  | c :: r =>
    if "test.".toList.isPrefixOf (c :: r) then .ok ⟨w, none⟩
    else
      match flags.find? fun f => f.letter == some c with
      | none => .error (.unknownLetter (c :: r))
      | some f =>
        match r with
        | '=' :: v :: rest => (w.set f (String.ofList (v :: rest))).map fun w => ⟨w, none⟩
        | _ =>
          if f.kind = .switch then (w.set f "true").bind fun w => readLetters flags w r
          else if r.isEmpty then .ok ⟨w, some (f, c :: r)⟩
          else (w.set f (String.ofList r)).map fun w => ⟨w, none⟩

def splitAtEquals (cs : List Char) : List Char × Option (List Char) :=
  let name := cs.takeWhile (· ≠ '=')
  match cs.drop name.length with
  | [] => (name, none)
  | _ :: value => (name, some value)

/-- Reads the words of a command line. Behind two dashes alone all words are arguments. -/
def readFrom (flags : List Flag) : Words → List String → Except FlagError Words
  | w, [] => .ok w
  | w, word :: rest =>
    match word.toList with
    | '-' :: '-' :: [] => .ok (w.addArguments rest)
    | '-' :: '-' :: body =>
      if body.head? = some '-' || body.head? = some '=' then .error (.malformed word)
      else
        let (name, value) := splitAtEquals body
        let name := String.ofList name
        match flags.find? fun f => f.name == name with
        | none => .error (.unknown name)
        | some f =>
          match value with
          | some v => (w.set f (String.ofList v)).bind fun w => readFrom flags w rest
          | none =>
            if f.kind = .switch then (w.set f "true").bind fun w => readFrom flags w rest
            else
              match rest with
              | [] => .error (.noValue name)
              | v :: rest => (w.set f v).bind fun w => readFrom flags w rest
    | '-' :: c :: r =>
      match readLetters flags w (c :: r) with
      | .error e => .error e
      | .ok ⟨w, none⟩ => readFrom flags w rest
      | .ok ⟨w, some (f, letters)⟩ =>
        match rest with
        | [] => .error (.noValueForLetter letters)
        | v :: rest => (w.set f v).bind fun w => readFrom flags w rest
    | _ => readFrom flags (w.addArguments [word]) rest

def read (flags : List Flag) (words : List String) : Except FlagError Words := readFrom flags .empty words

end TableLineage.CommandLine
