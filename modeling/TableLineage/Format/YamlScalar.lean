import TableLineage.Format.YamlPlain
import TableLineage.Text.Quoted

/-! Strings in YAML. A string stands plain if it reads back as itself; one that
would read as a number, a date, a truth value or nothing stands in double quotes,
and one with signs that mean something to YAML in single quotes, unless it needs
escapes. A string of several lines stands as a block. -/
namespace TableLineage.Yaml

/-! ### What plain text would read as -/

def oldBoolWords : List String :=
  ["y", "Y", "yes", "Yes", "YES", "on", "On", "ON", "n", "N", "no", "No", "NO", "off", "Off", "OFF"]

/-- A group of a sexagesimal number: a colon and one or two digits up to 59. -/
def sexagesimalTail : List Char → Bool
  | [] => true
  | ':' :: a :: b :: r =>
    if a.isDigit && b.isDigit then a ≤ '5' && sexagesimalTail r
    else a.isDigit && (if b = '.' then r.all fun c => c.isDigit || c = '_' else sexagesimalTail (b :: r))
  | [':', a] => a.isDigit
  | '.' :: r => r.all fun c => c.isDigit || c = '_'
  | _ => false

/-- Digits in groups of sixty, which older readers take for a number. -/
def isSexagesimal (cs : List Char) : Bool :=
  let body := (Whole.signed cs).2
  match body with
  | c :: r =>
    let rest := r.dropWhile fun d => d.isDigit || d = '_'
    c.isDigit && rest.head? = some ':' && sexagesimalTail rest
  | [] => false

def isPlainString (s : String) : Bool :=
  Plain.ofText true s = .str && !isSexagesimal s.toList && !oldBoolWords.contains s

/-! ### What the characters allow -/

def isBreak (c : Char) : Bool := c = '\n' || c = '\r' || c = '\u0085' || c = '\u2028' || c = '\u2029'

def isBlankMark (c : Char) : Bool := c = ' ' || c = '\t'

def isShown (c : Char) : Bool :=
  let n := c.toNat
  n = 0x0a || (0x20 ≤ n && n ≤ 0x7e) || (0xa0 ≤ n && n < 0xfffe && n ≠ 0xfeff)

structure Analysis where
  indicators : Bool
  breaks : Bool
  special : Bool
  tabs : Bool
  breakSpace : Bool
  spaceBreak : Bool
  deriving DecidableEq, Repr

def startIndicators : List Char :=
  ['#', ',', '[', ']', '\x7b', '\x7d', '&', '*', '!', '|', '>', '\x27', '\x22', '%', '@', '\x60']

/-- Whether the character `c` keeps a string from standing plain, `before` in front of
it (nothing at the start) and `after` behind it. -/
def isIndicator (before : Option Char) (c : Char) (after : Option Char) : Bool :=
  let open' := (after.map fun d => isBlankMark d).getD true
  match before with
  | none => startIndicators.contains c || ((c = '?' || c = ':' || c = '-') && open')
  | some b => (c = ':' && open') || (c = '#' && (isBlankMark b || isBreak b))

def analyzeFrom (before : Option Char) : List Char → Analysis
  | [] => ⟨false, false, false, false, false, false⟩
  | c :: r =>
    let a := analyzeFrom (some c) r
    ⟨isIndicator before c r.head? || a.indicators, isBreak c || a.breaks,
     (c ≠ '\t' && !isShown c) || a.special, c = '\t' || a.tabs,
     (c = ' ' && (before.map isBreak).getD false) || a.breakSpace,
     (isBreak c && before = some ' ') || a.spaceBreak⟩

def startsDocument (cs : List Char) : Bool := ['-', '-', '-'].isPrefixOf cs || ['.', '.', '.'].isPrefixOf cs

def edgeIsBlank (cs : List Char) : Bool :=
  let blank (c : Option Char) : Bool := (c.map fun d => d = ' ' || isBreak d).getD false
  blank cs.head? || blank cs.getLast?

inductive Style where
  | plain | single | double | block
  deriving DecidableEq, Repr

def styleOf (s : String) : Style :=
  let cs := s.toList
  let a := analyzeFrom none cs
  let escapes := a.spaceBreak || a.tabs || a.special
  if cs.contains '\n' then
    if cs.getLast? = some ' ' || a.spaceBreak || a.special then .double else .block
  else if !isPlainString s then .double
  else if cs.isEmpty then .plain
  else if startsDocument cs || edgeIsBlank cs || a.breakSpace || escapes || a.breaks || a.indicators then
    if a.breakSpace || escapes then .double else .single
  else .plain

/-! ### Writing -/

def upperHex (width n : Nat) : List Char := (Text.hex width n).map Char.toUpper

def escapeChar (c : Char) : List Char :=
  match c.toNat with
  | 0x00 => ['\\', '0']
  | 0x07 => ['\\', 'a']
  | 0x08 => ['\\', 'b']
  | 0x09 => ['\\', 't']
  | 0x0a => ['\\', 'n']
  | 0x0b => ['\\', 'v']
  | 0x0c => ['\\', 'f']
  | 0x0d => ['\\', 'r']
  | 0x1b => ['\\', 'e']
  | 0x22 => ['\\', '\x22']
  | 0x5c => ['\\', '\\']
  | 0x85 => ['\\', 'N']
  | 0xa0 => ['\\', '_']
  | 0x2028 => ['\\', 'L']
  | 0x2029 => ['\\', 'P']
  | n =>
    if n ≤ 0xff then '\\' :: 'x' :: upperHex 2 n
    else if n ≤ 0xffff then '\\' :: 'u' :: upperHex 4 n
    else '\\' :: 'U' :: upperHex 8 n

/-- The inside of double quotes. Behind a byte order mark at the start nothing stands as
itself. -/
def doubleText (cs : List Char) : List Char :=
  let marked := cs.head? = some '\ufeff'
  cs.flatMap fun c =>
    if !marked && isShown c && !isBreak c && c ≠ '\x22' && c ≠ '\\' then [c] else escapeChar c

def indentOf (n : Nat) : List Char := List.replicate n ' '

/-- The inside of single quotes; a line goes on at the given indentation. -/
def singleFrom (indent : Nat) (afterBreak : Bool) : List Char → List Char
  | [] => []
  | c :: r =>
    if isBreak c then c :: singleFrom indent true r
    else if c = ' ' then c :: singleFrom indent afterBreak r
    else
      (if afterBreak then indentOf indent else []) ++
        (if c = '\x27' then ['\x27', '\x27'] else [c]) ++ singleFrom indent false r

def blockFrom (indent : Nat) (afterBreak : Bool) : List Char → List Char
  | [] => []
  | c :: r =>
    if isBreak c then c :: blockFrom indent true r
    else (if afterBreak then indentOf indent else []) ++ c :: blockFrom indent false r

/-- The lines of a block behind its sign. A line end at the start of the string ends the
line of the sign. -/
def blockText (indent : Nat) (cs : List Char) : List Char :=
  match cs with
  | [] => []
  | c :: r => if isBreak c then c :: blockFrom indent true r else '\n' :: blockFrom indent true (c :: r)

/-- What follows the sign of a block: its indentation if its first line does not show
it, and what becomes of the line ends after its last line. -/
def blockHints (step : Nat) (cs : List Char) : List Char :=
  let lead := (cs.head?.map fun c => c = ' ' || isBreak c).getD false
  let chomp := match cs.reverse with
    | [] => ['-']
    | [c] => if isBreak c then ['+'] else ['-']
    | c :: d :: _ => if !isBreak c then ['-'] else if isBreak d then ['+'] else []
  (if lead then (toString step).toList else []) ++ chomp

/-- The text of a string; what goes on to further lines is indented by `indent`. -/
def scalar (step indent : Nat) (s : String) : List Char :=
  let cs := s.toList
  match styleOf s with
  | .plain => cs
  | .single => '\x27' :: singleFrom indent false cs ++ ['\x27']
  | .double => '\x22' :: doubleText cs ++ ['\x22']
  | .block => '|' :: blockHints step cs ++ blockText indent cs

end TableLineage.Yaml
