import TableLineage.Format.YamlTag
import TableLineage.Format.YamlText

/-! The tokens of a YAML text. Blocks are told apart by indentation, so the scanner
keeps the columns of the open blocks, and since a key shows only at the colon behind
it, also the places where one may have begun: a key token is put in front of the
tokens that came in between. Tokens are read when they are asked for, and never more of
them than are needed to know the next one. -/
namespace TableLineage.Yaml

inductive TokenKind where
  | streamStart
  | streamEnd
  | directive (d : Directive)
  | documentStart
  | documentEnd
  | sequenceOpen
  | sequenceClose
  | mappingOpen
  | mappingClose
  | comma
  | blockSequence
  | blockMapping
  | blockEnd
  | dash
  | key
  | value
  | reference (name : String)
  | anchor (name : String)
  | tag (t : TagName)
  | scalar (text : String) (plain : Bool)
  deriving DecidableEq, Repr

structure Token where
  kind : TokenKind
  line : Nat
  deriving DecidableEq, Repr

/-- A place where a key may begin: the number of the token there, and whether nothing but
a key can stand at its column. -/
structure OpenKey where
  possible : Bool
  needed : Bool
  token : Nat
  line : Nat
  column : Nat
  index : Nat
  deriving DecidableEq, Repr

structure Scanner where
  cursor : Cursor
  /-- The tokens that were read and not yet taken, and how many were taken. -/
  pending : List Token
  taken : Nat
  /-- The column of the innermost block, -1 outside of all, and those around it. -/
  indent : Int
  indents : List Int
  keyAllowed : Bool
  /-- One place for each pair of open brackets and one for the blocks, the innermost first. -/
  keys : List OpenKey
  /-- Where a key may begin at a token: the number of the token, and how many places there
  are around the place of the key. -/
  keyTokens : List (Nat × Nat)

namespace Scanner

def start (cs : List Char) : Scanner where
  cursor := .start cs
  pending := [⟨.streamStart, 0⟩]
  taken := 0
  indent := -1
  indents := []
  keyAllowed := true
  keys := [⟨false, false, 0, 0, 0, 0⟩]
  keyTokens := []

def level (s : Scanner) : Nat := s.keys.length - 1

def inFlow (s : Scanner) : Bool := !(s.keys.drop 1).isEmpty

def nextNumber (s : Scanner) : Nat := s.taken + s.pending.length

def push (s : Scanner) (kind : TokenKind) (line : Nat) : Scanner := { s with pending := s.pending ++ [⟨kind, line⟩] }

/-- Puts a token in front of the one with a number; if that was taken already, at the end. -/
def insert (s : Scanner) (number : Nat) (t : Token) : Scanner :=
  if number < s.taken then { s with pending := s.pending ++ [t] }
  else
    let before := number - s.taken
    { s with pending := s.pending.take before ++ t :: s.pending.drop before }

def fault (s : Scanner) (problem : Problem) : Fault := .inToken s.cursor.line s.cursor.line problem

/-! ### Blanks and comments -/

def pastComment (c : Cursor) : Cursor :=
  let blanks := (c.rest.takeWhile isBlankMark).length
  if blanks < 512 && (c.rest.drop blanks).head? = some '#' then (c.skip blanks).skipWhile (!isBreak ·) else c

def pastGap : Nat → Cursor → Cursor
  | 0, c => c
  | fuel + 1, c =>
    match c.rest with
    | [] => c
    | d :: _ =>
      if isBlankMark d then pastGap fuel (c.skip 1)
      else if isBreak d then pastGap fuel c.skipLine
      else c

/-- Over a comment and those on the next lines, which blanks of any kind may precede. -/
def pastComments : Nat → Cursor → Cursor
  | 0, c => c
  | fuel + 1, c =>
    let c := c.skipWhile (!isBreak ·)
    let gap := (c.rest.takeWhile fun d => isBlankMark d || d = '\n' || d = '\r').length
    if gap < 512 && (c.rest.drop gap).head? = some '#' then pastComments fuel (pastGap gap c) else c

/-- Over blanks, comments and line ends to where a token can be. In a block a tab does not
count as a blank where a key may begin. -/
def skipFrom : Nat → Scanner → Scanner
  | 0, s => s
  | fuel + 1, s =>
    let c := if s.cursor.index = 0 && s.cursor.rest.head? = some '\ufeff' then s.cursor.skip 1 else s.cursor
    let c := c.skipWhile fun d => d = ' ' || ((s.inFlow || !s.keyAllowed) && d = '\t')
    let c := if c.rest.head? = some '#' then pastComments (c.rest.length + 1) c else c
    match Cursor.break? c.rest with
    | some _ => skipFrom fuel { s with cursor := c.skipLine, keyAllowed := s.keyAllowed || !s.inFlow }
    | none => { s with cursor := c }

def take (s : Scanner) (kind : TokenKind) (n : Nat) : Scanner :=
  { s.push kind s.cursor.line with cursor := pastComment (s.cursor.skip n) }

/-! ### Blocks -/

def unwindFrom (column : Int) (line : Nat) : List Int → Scanner → Scanner
  | [], s => s
  | outer :: more, s =>
    if column < s.indent then
      unwindFrom column line more { s.push .blockEnd line with indent := outer, indents := more }
    else s

def unwind (s : Scanner) (column : Int) (line : Nat) : Scanner :=
  if s.inFlow then s else unwindFrom column line s.indents s

def depthBound : Nat := 10000

/-- Opens a block at a column, if it is right of the innermost one; its token goes in front
of the one with a number. -/
def openBlock (s : Scanner) (column number line : Nat) (kind : TokenKind) : Except Fault Scanner :=
  if s.inFlow || (column : Int) ≤ s.indent then .ok s
  else if depthBound ≤ s.indents.length then
    .error (.inToken ((s.keys.head?.map OpenKey.line).getD 0) s.cursor.line .tooDeep)
  else .ok { s.insert number ⟨kind, line⟩ with indent := column, indents := s.indent :: s.indents }

def openHere (s : Scanner) (kind : TokenKind) : Except Fault Scanner :=
  s.openBlock s.cursor.column s.nextNumber s.cursor.line kind

/-! ### Places of keys -/

/-- No key begins at the token with a number. -/
def forget (s : Scanner) (number : Nat) : Scanner :=
  { s with keyTokens := s.keyTokens.filter fun e => e.1 ≠ number }

def dropKey (s : Scanner) : Except Fault Scanner :=
  match s.keys with
  | k :: more =>
    if !k.possible then .ok s
    else if k.needed then .error (.inToken k.line s.cursor.line .keyWithoutColon)
    else .ok { s.forget k.token with keys := { k with possible := false } :: more }
  | [] => .ok s

def noteKey (s : Scanner) : Except Fault Scanner :=
  if !s.keyAllowed then .ok s
  else
    let c := s.cursor
    let number := s.nextNumber
    s.dropKey.map fun s =>
      { s with
        keys := ⟨true, !s.inFlow && s.indent = c.column, number, c.line, c.column, c.index⟩ :: s.keys.drop 1
        keyTokens := (number, s.level) :: s.keyTokens }

/-- Whether a key that may have begun can still end here: it stands on one line. If it
cannot, its place is given up. -/
def reaches (s : Scanner) (level : Nat) : Except Fault (Bool × Scanner) :=
  let inner := s.level - level
  match s.keys[inner]? with
  | none => .ok (false, s)
  | some k =>
    if !k.possible then .ok (false, s)
    else if s.cursor.line ≤ k.line && s.cursor.index ≤ k.index + 1024 then .ok (true, s)
    else if k.needed then .error (.inToken k.line s.cursor.line .keyWithoutColon)
    else .ok (false, { s with keys := s.keys.set inner { k with possible := false } })

/-! ### Signs -/

def dash (s : Scanner) : Except Fault Scanner :=
  if !s.inFlow && !s.keyAllowed then .error (s.fault .entryNotAllowed)
  else
    (s.openHere .blockSequence).bind fun s =>
      s.dropKey.map fun s =>
        { s.push .dash s.cursor.line with cursor := s.cursor.skip 1, keyAllowed := true }

def question (s : Scanner) : Except Fault Scanner :=
  if !s.inFlow && !s.keyAllowed then .error (s.fault .keyNotAllowed)
  else
    (s.openHere .blockMapping).bind fun s => s.dropKey.map fun s => { s.take .key 1 with keyAllowed := !s.inFlow }

/-- The colon behind a key that began at a place and stands on one line. -/
def colonAfter (s : Scanner) (k : OpenKey) : Except Fault Scanner :=
  ((s.insert k.token ⟨.key, k.line⟩).openBlock k.column k.token k.line .blockMapping).map fun s =>
    { (s.forget k.token).take .value 1 with
      keyAllowed := false
      keys := { k with possible := false } :: s.keys.drop 1 }

def colonAlone (s : Scanner) : Except Fault Scanner :=
  if !s.inFlow && !s.keyAllowed then .error (s.fault .valueNotAllowed)
  else (s.openHere .blockMapping).map fun s => { s.take .value 1 with keyAllowed := !s.inFlow }

/-- The sign in front of a value; what came before it on the line was a key. -/
def colon (s : Scanner) : Except Fault Scanner :=
  (s.reaches s.level).bind fun
    | (true, s) => (s.keys.head?.map s.colonAfter).getD s.colonAlone
    | (false, s) => s.colonAlone

def named (s : Scanner) (kind : String → TokenKind) : Except Fault Scanner :=
  s.noteKey.bind fun s =>
    let name := (s.cursor.rest.drop 1).takeWhile isNameChar
    let after := s.cursor.rest.drop (1 + name.length)
    let closed := atGap after || after.head?.any fun d => "?:,]\x7d%@\x60".toList.contains d
    if name.isEmpty || !closed then .error (s.fault .noAnchorName)
    else .ok { s.take (kind (String.ofList name)) (1 + name.length) with keyAllowed := false }

def tagged (s : Scanner) : Except Fault Scanner :=
  s.noteKey.bind fun s =>
    match tagOf s.cursor.rest with
    | .error p => .error (s.fault p)
    | .ok (t, r) => .ok { s.take (.tag t) (s.cursor.rest.length - r.length) with keyAllowed := false }

def withScalar (s : Scanner) (plain : Bool) (r : Scalar) : Scanner :=
  { s.push (.scalar (String.ofList r.text) plain) s.cursor.line with
    cursor := if r.lineEnded then r.after else pastComment r.after
    keyAllowed := r.lineEnded }

def quoted (s : Scanner) (single : Bool) : Except Fault Scanner :=
  s.noteKey.bind fun s =>
    let c := s.cursor.skip 1
    (quotedFrom single s.cursor.line (c.rest.length + 1) [] c).map (s.withScalar false)

def plain (s : Scanner) : Except Fault Scanner :=
  s.noteKey.bind fun s =>
    let c := s.cursor
    (plainFrom s.inFlow (s.indent + 1).toNat c.line (c.rest.length + 1) [] .none c).map (s.withScalar true)

def block (s : Scanner) (literal : Bool) : Except Fault Scanner :=
  s.dropKey.bind fun s => (blockScalar literal s.indent s.cursor).map (s.withScalar false)

def openBracket (s : Scanner) (kind : TokenKind) : Except Fault Scanner :=
  s.noteKey.bind fun s =>
    let c := s.cursor
    if depthBound ≤ s.level then .error (s.fault .tooDeep)
    else
      .ok { s.take kind 1 with
        keyAllowed := true
        keys := ⟨false, false, s.nextNumber, c.line, c.column, c.index⟩ :: s.keys }

/-- Closes a bracket. The place of a key inside of it goes, and with it what was noted for
the token at that place. -/
def closeBracket (s : Scanner) (kind : TokenKind) : Except Fault Scanner :=
  s.dropKey.map fun s =>
    let closed : Scanner :=
      match s.keys with
      | k :: more :: outer => { s.forget k.token with keys := more :: outer }
      | _ => s
    { closed.take kind 1 with keyAllowed := false }

def comma (s : Scanner) : Except Fault Scanner := s.dropKey.map fun s => { s.take .comma 1 with keyAllowed := true }

/-! ### Documents -/

/-- Ends all blocks in front of what is about whole documents. -/
def endBlocks (s : Scanner) : Except Fault Scanner :=
  (s.unwind (-1) s.cursor.line).dropKey.map fun s => { s with keyAllowed := false }

def documentMark (s : Scanner) (kind : TokenKind) : Except Fault Scanner :=
  s.endBlocks.map fun s => { s.push kind s.cursor.line with cursor := s.cursor.skip 3 }

def directive (s : Scanner) : Except Fault Scanner :=
  s.endBlocks.bind fun s =>
    match directiveOf (s.cursor.rest.drop 1) with
    | .error p => .error (s.fault p)
    | .ok (d, r) =>
      .ok { s.push (.directive d) s.cursor.line with
        cursor := (s.cursor.skip (s.cursor.rest.length - r.length)).skipLine }

def finish (s : Scanner) : Except Fault Scanner :=
  let c := s.cursor
  let s := { s with cursor := if c.column = 0 then c else ⟨[], c.line + 1, 0, c.index⟩ }
  s.endBlocks.map fun s => s.push .streamEnd s.cursor.line

/-! ### The next token -/

def signs : List Char :=
  ['-', '?', ':', ',', '[', ']', '\x7b', '\x7d', '#', '&', '*', '!', '|', '>', '\x27', '\x22', '%', '@', '\x60']

def startsPlain (s : Scanner) (c : Char) (r : List Char) : Bool :=
  !(isGap c || signs.contains c) || (c = '-' && !r.head?.any isBlankMark) ||
    (!s.inFlow && (c = '?' || c = ':') && !atGap r)

def next (s : Scanner) (c : Char) (r : List Char) : Except Fault Scanner :=
  if s.cursor.column = 0 && c = '%' then s.directive
  else if s.cursor.column = 0 && atDocumentMark (c :: r) then
    s.documentMark (if c = '-' then .documentStart else .documentEnd)
  else if c = '[' then s.openBracket .sequenceOpen
  else if c = '\x7b' then s.openBracket .mappingOpen
  else if c = ']' then s.closeBracket .sequenceClose
  else if c = '\x7d' then s.closeBracket .mappingClose
  else if c = ',' then s.comma
  else if c = '-' && atGap r then s.dash
  else if c = '?' && (s.inFlow || atGap r) then s.question
  else if c = ':' && (s.inFlow || atGap r) then s.colon
  else if c = '*' then s.named .reference
  else if c = '&' then s.named .anchor
  else if c = '!' then s.tagged
  else if c = '|' && !s.inFlow then s.block true
  else if c = '>' && !s.inFlow then s.block false
  else if c = '\x27' then s.quoted true
  else if c = '\x22' then s.quoted false
  else if s.startsPlain c r then s.plain
  else .error (s.fault .noToken)

def fetch (s : Scanner) : Except Fault Scanner :=
  let line := s.cursor.line
  let s := s.skipFrom (s.cursor.rest.length + 1)
  let s := s.unwind s.cursor.column line
  match s.cursor.rest with
  | [] => s.finish
  | c :: r => s.next c r

/-- Reads on until the next token is sure: two others follow it, and no key can begin at
it any more that has not ended. -/
def fetchFrom : Nat → Scanner → Except Fault Scanner
  | 0, s => .ok s
  | fuel + 1, s =>
    if (s.pending.drop 2).isEmpty then s.fetch.bind (fetchFrom fuel)
    else
      match s.keyTokens.lookup s.taken with
      | none => .ok s
      | some level =>
        (s.reaches level).bind fun
          | (true, s) => s.fetch.bind (fetchFrom fuel)
          | (false, s) => .ok s

def settle (s : Scanner) : Except Fault Scanner := fetchFrom (s.cursor.rest.length + 4) s

def drop (s : Scanner) : Scanner := { s with pending := s.pending.drop 1, taken := s.taken + 1 }

end Scanner

/-- The scanner at the start of a text, which may begin with a byte order mark. -/
def scannerOf (text : String) : Except Fault Scanner :=
  let cs := text.toList
  let cs := if cs.head? = some '\ufeff' then cs.drop 1 else cs
  if cs.all isAllowed then .ok (.start cs) else .error (.anywhere .controlCharacter)

end TableLineage.Yaml
