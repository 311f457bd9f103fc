import TableLineage.Token.Basic
import TableLineage.Token.Comment

/-! Scanning: a text is cut into blanks, comments and tokens. Every reading says
how many characters it takes, so the pieces are slices of the text by
construction. A NUL character ends the text everywhere but in the body of a
dollar-quoted string. -/
namespace TableLineage

inductive ScanFault where
  | openString
  | openName
  | openComment
  deriving DecidableEq, Repr

structure ScanError where
  fault : ScanFault
  pos : Position
  deriving DecidableEq, Repr

def ScanFault.message : ScanFault → String
  | .openString => "unterminated string literal"
  | .openName => "unterminated quoted identifier"
  | .openComment => "unterminated block comment"

def ScanError.message (e : ScanError) : String :=
  s!"lexer error at line {e.pos.line}, column {e.pos.column}: {e.fault.message}"

namespace Scan

def nul : Char := Char.ofNat 0

def isSpace (c : Char) : Bool := c = ' ' || c = '\t' || c = '\n' || c = '\r' || c = '\x0c'

def isNameStart (c : Char) : Bool := c.isAlpha || c = '_' || 0x80 ≤ c.toNat

def isNamePart (c : Char) : Bool := isNameStart c || c.isDigit || c = '$'

def isTagPart (c : Char) : Bool := isNameStart c || c.isDigit

def startsDigit : List Char → Bool
  | c :: _ => c.isDigit
  | [] => false

/-- The exponent at the head of `cs`, if digits follow its mark and sign. -/
def exponent : List Char → List Char
  | e :: s :: r =>
    if e = 'e' || e = 'E' then
      if s.isDigit then e :: (s :: r).takeWhile Char.isDigit
      else if (s = '+' || s = '-') && startsDigit r then e :: s :: r.takeWhile Char.isDigit
      else []
    else []
  | _ => []

/-- The fraction at the head of `cs`: a dot that no second dot follows, and digits. -/
def fraction : List Char → List Char
  | '.' :: r => if r.head? = some '.' then [] else '.' :: r.takeWhile Char.isDigit
  | _ => []

def number (cs : List Char) : List Char :=
  let whole := cs.takeWhile Char.isDigit
  let rest := cs.drop whole.length
  let part := fraction rest
  whole ++ part ++ exponent (rest.drop part.length)

/-- A quoted text after its opening quote: what it says, how many characters it
takes, and whether it was closed. A doubled quote stands for one. -/
def quoted (q : Char) : List Char → List Char × Nat × Bool
  | [] => ([], 0, false)
  | c :: r =>
    if c = nul then ([], 0, false)
    else if c = q then
      match r with
      | d :: r' =>
        if d = q then
          let (body, size, closed) := quoted q r'
          (q :: body, size + 2, closed)
        else ([], 1, true)
      | [] => ([], 1, true)
    else
      let (body, size, closed) := quoted q r
      (c :: body, size + 1, closed)

/-- A block comment after its opening mark, `depth` marks being open: how many
characters it takes and whether it was closed. -/
def blockComment : Nat → List Char → Nat × Bool
  | 0, _ => (0, true)
  | _, [] => (0, false)
  | depth + 1, '*' :: '/' :: r =>
    let (size, closed) := blockComment depth r
    (size + 2, closed)
  | depth + 1, '/' :: '*' :: r =>
    let (size, closed) := blockComment (depth + 2) r
    (size + 2, closed)
  | depth + 1, c :: r =>
    if c = nul then (0, false)
    else
      let (size, closed) := blockComment (depth + 1) r
      (size + 1, closed)

/-- What is left after `n` bytes of a text: how many bytes of a split character
stand in front, how many characters were entered, and the characters after it. -/
def skipBytes : Nat → List Char → Nat × Nat × List Char
  | 0, cs => (0, 0, cs)
  | _, [] => (0, 0, [])
  | n + 1, c :: cs =>
    if c.utf8Size ≤ n + 1 then
      let (stray, count, rest) := skipBytes (n + 1 - c.utf8Size) cs
      (stray, count + 1, rest)
    else (c.utf8Size - (n + 1), 1, cs)

def beforeMark (mark : List Char) : List Char → Option (List Char)
  | [] => if mark.isEmpty then some [] else none
  | c :: cs => if mark.isPrefixOf (c :: cs) then some [] else (beforeMark mark cs).map (c :: ·)

/-- Stands for a byte that is no character on its own. -/
def strayByte : Char := '\ufffd'

structure Reading where
  kind : Kind
  literal : List Char
  size : Nat
  quoted : Bool
  fault : Option ScanFault
  deriving Repr

def Reading.plain (kind : Kind) (text : List Char) : Reading := ⟨kind, text, text.length, false, none⟩

def tag? : List Char → Option (List Char)
  | '$' :: r =>
    let name := r.takeWhile isTagPart
    if (r.drop name.length).head? = some '$' then some ('$' :: name ++ ['$']) else none
  | _ => none

/-- A dollar-quoted string. The opening tag is passed over by as many bytes as it
has characters, so a tag outside ASCII leaves its own end in the body. -/
def dollarQuoted (tag cs : List Char) : Reading :=
  let (stray, entered, rest) := skipBytes tag.length cs
  let lead := List.replicate stray strayByte
  match beforeMark tag rest with
  | some body => ⟨.string, lead ++ body, entered + body.length + tag.length, false, none⟩
  | none => ⟨.string, lead ++ rest, entered + (rest.takeWhile (· ≠ nul)).length, false, some .openString⟩

def symbol : List Char → Option (Kind × Nat)
  | '+' :: _ => some (.plus, 1)
  | '-' :: _ => some (.minus, 1)
  | '*' :: _ => some (.star, 1)
  | '/' :: _ => some (.slash, 1)
  | '%' :: _ => some (.percent, 1)
  | '^' :: _ => some (.caret, 1)
  | '=' :: _ => some (.eq, 1)
  | ',' :: _ => some (.comma, 1)
  | ';' :: _ => some (.semicolon, 1)
  | '(' :: _ => some (.lparen, 1)
  | ')' :: _ => some (.rparen, 1)
  | '[' :: _ => some (.lbracket, 1)
  | ']' :: _ => some (.rbracket, 1)
  | '<' :: '=' :: _ => some (.le, 2)
  | '<' :: '>' :: _ => some (.ne, 2)
  | '<' :: '<' :: _ => some (.op, 2)
  | '<' :: _ => some (.lt, 1)
  | '>' :: '=' :: _ => some (.ge, 2)
  | '>' :: '>' :: _ => some (.op, 2)
  | '>' :: _ => some (.gt, 1)
  | '!' :: '=' :: _ => some (.ne, 2)
  | '!' :: '~' :: '*' :: _ => some (.op, 3)
  | '!' :: '~' :: _ => some (.op, 2)
  | '|' :: '|' :: '/' :: _ => some (.op, 3)
  | '|' :: '|' :: _ => some (.op, 2)
  | '|' :: '/' :: _ => some (.op, 2)
  | '|' :: _ => some (.op, 1)
  | '~' :: '*' :: _ => some (.op, 2)
  | '~' :: '~' :: _ => some (.op, 2)
  | '~' :: _ => some (.op, 1)
  | '&' :: _ => some (.op, 1)
  | '#' :: _ => some (.op, 1)
  | '@' :: _ => some (.op, 1)
  | ':' :: ':' :: _ => some (.typecast, 2)
  | ':' :: _ => some (.colon, 1)
  | '.' :: _ => some (.dot, 1)
  | _ => none

def token (c : Char) (r : List Char) : Reading :=
  let cs := c :: r
  if c = '\x27' then
    let (body, size, closed) := quoted '\x27' r
    ⟨.string, body, size + 1, false, if closed then none else some .openString⟩
  else if c = '\x22' then
    let (body, size, closed) := quoted '\x22' r
    ⟨.ident, body, size + 1, true, if closed then none else some .openName⟩
  else if c = '$' then
    if startsDigit r then .plain .param ('$' :: r.takeWhile Char.isDigit)
    else
      match tag? cs with
      | some tag => dollarQuoted tag cs
      | none => .plain .illegal [c]
  else if c.isDigit || (c = '.' && startsDigit r) then .plain .number (number cs)
  else if isNameStart c then
    let word := cs.takeWhile isNamePart
    .plain (.ofWord (Text.lowerWord (String.ofList word))) word
  else
    match symbol cs with
    | some (kind, size) => .plain kind (cs.take size)
    | none => .plain .illegal [c]

inductive Piece where
  | space
  | comment (style : Comment.Style) (size : Nat) (fault : Option ScanFault)
  | token (r : Reading)
  deriving Repr

def piece (c : Char) (r : List Char) : Piece :=
  if isSpace c then .space
  else
    match c, r with
    | '-', '-' :: _ => .comment .line ((c :: r).takeWhile fun d => d ≠ '\n' && d ≠ nul).length none
    | '/', '*' :: r' =>
      let (size, closed) := blockComment 1 r'
      .comment .block (size + 2) (if closed then none else some .openComment)
    | _, _ => .token (token c r)

end Scan

structure Scan where
  tokens : List Token
  comments : List Comment
  errors : List ScanError
  deriving Repr

namespace Scan

def ending (p : Position) : Scan := ⟨[⟨⟨.eof, "", "", false⟩, ⟨p, p⟩⟩], [], []⟩

def noting (p : Position) : Option ScanFault → Scan → Scan
  | none, s => s
  | some fault, s => { s with errors := ⟨fault, p⟩ :: s.errors }

/-- Scans the text `cs` that starts at `p`, in at most `n` pieces. -/
def pieces : Nat → Position → List Char → Scan
  | 0, p, _ => ending p
  | _, p, [] => ending p
  | n + 1, p, c :: r =>
    if c = nul then ending p
    else
      match piece c r with
      | .space => pieces n (p.step c) r
      | .comment style size fault =>
        let text := (c :: r).take size
        let stop := p.after text
        let rest := pieces n stop ((c :: r).drop size)
        noting p fault { rest with comments := ⟨style, String.ofList text, ⟨p, stop⟩⟩ :: rest.comments }
      | .token t =>
        let text := (c :: r).take t.size
        let stop := p.after text
        let rest := pieces n stop ((c :: r).drop t.size)
        let token := ⟨⟨t.kind, String.ofList t.literal, String.ofList text, t.quoted⟩, ⟨p, stop⟩⟩
        noting p t.fault { rest with tokens := token :: rest.tokens }

/-- Scans a whole text. No piece is empty, so its length bounds their number. -/
def ofText (text : List Char) : Scan := pieces text.length .start text

end Scan

def scan (text : String) : Scan := Scan.ofText text.toList

end TableLineage
