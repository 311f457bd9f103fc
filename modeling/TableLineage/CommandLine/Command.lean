import TableLineage.CommandLine.Flag
import TableLineage.Text.Distance

/-! The commands of the tool, their flags, and how a command line names one of them. -/
namespace TableLineage.CommandLine

inductive Command where
  | root | version | extract | graph | serve | queryLog | runs | showRun | deleteRun | completion | help
  deriving DecidableEq, Repr

inductive ArgumentRule where
  | any
  | none
  | atMost (n : Nat)
  | exactly (n : Nat)
  | oneOf (words : List String)
  deriving DecidableEq, Repr

namespace Command

def toolName : String := "redshift-lineage"

def name : Command → String
  | .root => toolName
  | .version => "version"
  | .extract => "extract"
  | .graph => "graph"
  | .serve => "serve"
  | .queryLog => "querylog"
  | .runs => "runs"
  | .showRun => "show"
  | .deleteRun => "delete"
  | .completion => "completion"
  | .help => "help"

def spellings (c : Command) : List String :=
  match c with
  | .deleteRun => [c.name, "rm"]
  | _ => [c.name]

def children : Command → List Command
  | .root => [.version, .extract, .graph, .serve, .queryLog, .runs, .completion, .help]
  | .runs => [.showRun, .deleteRun]
  | _ => []

def path (c : Command) : String :=
  match c with
  | .root => toolName
  | .showRun | .deleteRun => toolName ++ " runs " ++ c.name
  | _ => toolName ++ " " ++ c.name

def arguments : Command → ArgumentRule
  | .version | .serve | .queryLog | .runs => .none
  | .graph => .atMost 1
  | .showRun | .deleteRun => .exactly 1
  | .completion => .oneOf ["bash", "zsh", "fish", "powershell"]
  | .root | .extract | .help => .any

/-! ### Flags -/

def text (name : String) : Flag := ⟨name, none, .text⟩

def switch (name : String) : Flag := ⟨name, none, .switch⟩

def list (name : String) : Flag := ⟨name, none, .list⟩

def number (name : String) : Flag := ⟨name, none, .number⟩

def extractFlags : List Flag :=
  [switch "split-statements", switch "normalize-identifiers", list "exclude", number "concurrency"]

def reportFlags : List Flag :=
  [⟨"out-format", some 'f', .text⟩, text "namespace", text "job-namespace", text "producer"]

def commonFlags : List Flag := [text "config", ⟨"verbose", some 'v', .switch⟩, text "log-format"]

def helpFlag : Flag := ⟨"help", some 'h', .switch⟩

def ownFlags : Command → List Flag
  | .extract =>
    [⟨"in-file", some 'i', .text⟩, text "out-file", ⟨"watch", some 'w', .switch⟩] ++ extractFlags ++ reportFlags ++
      [text "store"]
  | .graph =>
    [list "input", switch "upstream", switch "downstream", number "depth", switch "json", text "store",
     list "exclude", switch "normalize-identifiers"]
  | .serve => [text "addr", text "store", list "watch", list "exclude", switch "normalize-identifiers"]
  | .queryLog =>
    [⟨"since", none, .duration⟩, number "limit", text "out-file", text "host", number "port", text "database",
     text "user", text "sslmode", text "store"] ++ extractFlags ++ reportFlags
  | .runs | .deleteRun => [text "store"]
  | .showRun => text "store" :: reportFlags
  | .root | .version | .completion | .help => []

def searchFlags (c : Command) : List Flag := c.ownFlags ++ commonFlags

def flags (c : Command) : List Flag :=
  c.searchFlags ++ [helpFlag] ++ (if c = .root then [switch "version"] else [])

/-! ### Finding a command -/

/-- Whether a word is a flag whose value is the next word, as far as the flags are known. -/
def takesNext (flags : List Flag) (word : String) : Bool :=
  let alone (found : Option Flag) : Bool := (found.map fun f => f.kind == .switch).getD false
  match word.toList with
  | '-' :: '-' :: body =>
    !body.contains '=' && !alone (flags.find? fun f => f.name == String.ofList body)
  | ['-', c] => c.toNat < 0x80 && c ≠ '=' && !alone (flags.find? fun f => f.letter == some c)
  | _ => false

def plainWords (flags : List Flag) : List String → List String
  | [] => []
  | word :: rest =>
    if word = "--" then []
    else if takesNext flags word then
      match rest with
      | [] | [_] => []
      | _ :: rest => plainWords flags rest
    else if word.isEmpty || word.toList.head? = some '-' then plainWords flags rest
    else word :: plainWords flags rest

/-- The words without the first that is a certain one, values of flags apart. -/
def without (flags : List Flag) (name : String) : List String → List String
  | [] => []
  | word :: rest =>
    if word = "--" then word :: rest
    else if takesNext flags word then
      match rest with
      | [] => [word]
      | value :: rest => word :: value :: without flags name rest
    else if word = name then rest
    else word :: without flags name rest

/-- The command that words name, from a command on, and the words without its name. -/
def findFrom : Nat → Command → List String → Command × List String
  | 0, c, words => (c, words)
  | depth + 1, c, words =>
    match plainWords c.searchFlags words with
    | [] => (c, words)
    | word :: _ =>
      match c.children.find? fun d => d.spellings.contains word with
      | some d => findFrom depth d (without c.searchFlags word words)
      | none => (c, words)

def suggestions (c : Command) (word : String) : List String :=
  ((c.children.filter (· ≠ .help)).map name).filter fun n =>
    Text.distance word n ≤ 2 || (Text.lowerWord word).toList.isPrefixOf n.toList

end Command

/-- A word that names no command, or arguments that a command does not take. -/
inductive WordFault where
  | unknownCommand (word : String) (parent : Command) (suggestions : List String)
  | tooMany (limit count : Nat)
  | wrongCount (wanted count : Nat)
  | invalidArgument (word : String) (command : Command)
  deriving DecidableEq, Repr

namespace WordFault

def suggestionText (names : List String) : String :=
  if names.isEmpty then "" else "\n\nDid you mean this?\n" ++ String.join (names.map fun n => "\t" ++ n ++ "\n")

def message : WordFault → String
  | .unknownCommand word parent names =>
    "unknown command " ++ Text.quote word ++ " for " ++ Text.quote parent.path ++ suggestionText names
  | .tooMany limit count => "accepts at most " ++ toString limit ++ " arg(s), received " ++ toString count
  | .wrongCount wanted count => "accepts " ++ toString wanted ++ " arg(s), received " ++ toString count
  | .invalidArgument word command => "invalid argument " ++ Text.quote word ++ " for " ++ Text.quote command.path

end WordFault

namespace Command

def find (words : List String) : Except WordFault (Command × List String) :=
  match findFrom 2 .root words with
  | (.root, words) =>
    match plainWords Command.root.searchFlags words with
    | [] => .ok (.root, words)
    | word :: _ => .error (.unknownCommand word .root (Command.root.suggestions word))
  | found => .ok found

def checkArguments (c : Command) (arguments : List String) : Except WordFault Unit :=
  match c.arguments, arguments with
  | .any, _ => .ok ()
  | .none, [] => .ok ()
  | .none, word :: _ => .error (.unknownCommand word c [])
  | .atMost n, args => if args.length ≤ n then .ok () else .error (.tooMany n args.length)
  | .exactly n, args => if args.length = n then .ok () else .error (.wrongCount n args.length)
  | .oneOf words, [word] => if words.contains word then .ok () else .error (.invalidArgument word c)
  | .oneOf _, args => .error (.wrongCount 1 args.length)

end Command
end TableLineage.CommandLine
