import TableLineage.Grammar.Sql
import TableLineage.Text.Quoted
import TableLineage.Text.Utf8
import TableLineage.Token.Scan
import TableLineage.Tree.Basic

/-! Reading a script. Parts are interpreted over the tokens of a text: a part
either adds subtrees and moves on, or fails at the token in front of it. -/
namespace TableLineage.Grammar

structure ParseError where
  fault : Fault
  found : Lexeme
  pos : Position
  deriving DecidableEq, Repr

def shown (l : Lexeme) : String := if l.kind = .eof then "EOF" else Text.quote l.raw

def Fault.message (found : Lexeme) : Fault → String
  | .expected what => s!"unexpected token {shown found}, expected {what}"
  | .unexpected => s!"unexpected {Text.quote found.raw}"
  | .illegal => s!"illegal character {Text.quote found.raw}"
  | .noExpression => s!"expected expression, found {shown found}"
  | .noName => s!"expected identifier, found {shown found}"
  | .noQuery => s!"expected SELECT, VALUES or WITH, found {shown found}"
  | .tooDeep => "nesting too deep"

def ParseError.message (e : ParseError) : String :=
  s!"parse error at line {e.pos.line}, column {e.pos.column}: {e.fault.message e.found}"

structure State where
  /-- The tokens still to be read, the end of the text last. -/
  rest : List Token
  read : Nat
  last : Token
  deriving Repr

namespace State

def current (s : State) : Token := s.rest.head?.getD .none

def fail {α : Type} (s : State) (fault : Fault) : Except ParseError α :=
  .error ⟨fault, s.current.toLexeme, s.current.span.start⟩

end State

/-- Continues the children of the node that is being built. -/
abbrev Step := List Tree → State → Except ParseError (List Tree × State)

namespace Step

/-- Reads one token; the end of the text is never read. -/
def take : Step := fun acc s =>
  match s.rest with
  | t :: u :: ts =>
    if t.kind = .illegal then s.fail .illegal
    else .ok (acc ++ [.leaf t], ⟨u :: ts, s.read + 1, t⟩)
  | _ => s.fail .unexpected

def andThen (a b : Step) : Step := fun acc s =>
  match a acc s with
  | .ok (acc', s') => b acc' s'
  | .error e => .error e

/-- Repeats `a` while `l` holds, at most `n` times. -/
def loop (l : Look) (a : Step) : Nat → Step
  | 0, acc, s => .ok (acc, s)
  | n + 1, acc, s => if l.holds s.rest then a.andThen (loop l a n) acc s else .ok (acc, s)

/-- Whether a run of tokens outside parentheses ends in front of `t`. -/
def stopsAt (stop : Option Kind) (depth : Nat) (t : Lexeme) : Bool :=
  t.kind = .eof || (depth = 0 && (t.kind = .semicolon || t.kind = .rparen || some t.kind = stop))

/-- Reads tokens up to the end of a run, at most `n` of them, `depth` parentheses being open. -/
def swallow (stop : Option Kind) : Nat → Nat → Step
  | 0, _, acc, s => .ok (acc, s)
  | n + 1, depth, acc, s =>
    let t := s.current.toLexeme
    if stopsAt stop depth t then .ok (acc, s)
    else
      let depth' := if t.kind = .lparen then depth + 1 else if t.kind = .rparen then depth - 1 else depth
      take.andThen (swallow stop n depth') acc s

end Step

/-- The node of the tokens from `first` up to the last one read. Without any token read it
stands, empty, at the token in front of it. -/
def closeNode (source : List Char) (r : Rule) (first : Token) (isEmpty : Bool) (s : State)
    (children : List Tree) : Tree :=
  if isEmpty then .node r first first "" children
  else
    .node r first s.last
      (String.ofList (Text.slice source first.span.start.offset s.last.span.stop.offset)) children

namespace Part

variable {σ : Type}

def run (source : List Char) (call : σ → Step) : Part σ → Step
  | .done => fun acc s => .ok (acc, s)
  | .take => Step.take
  | .need c fault => fun acc s => if c.holds s.current.toLexeme then Step.take acc s else s.fail fault
  | .fail fault => fun _ s => s.fail fault
  | .seq a b => (run source call a).andThen (run source call b)
  | .branch l a b => fun acc s =>
    if l.holds s.rest then run source call a acc s else run source call b acc s
  | .loop l a => fun acc s => Step.loop l (run source call a) s.rest.length acc s
  | .attempt a b => fun acc s =>
    match run source call a acc s with
    | .ok r => .ok r
    | .error _ => run source call b acc s
  | .swallow stop => fun acc s => Step.swallow stop s.rest.length 0 acc s
  | .call s => call s
  | .node r a => fun acc s =>
    match run source call a [] s with
    | .ok (children, s') =>
      .ok (acc ++ [closeNode source r s.current (s'.read = s.read) s' children], s')
    | .error e => .error e
  | .group a => fun acc s =>
    match run source call a [] s with
    | .ok (children, s') => .ok (acc ++ children, s')
    | .error e => .error e
  | .wrap r a => fun acc s =>
    match run source call a acc s with
    | .ok (children, s') =>
      let first := (children.head?.map Tree.first).getD s.current
      .ok ([closeNode source r first (acc.isEmpty && s'.read = s.read) s' children], s')
    | .error e => .error e

end Part

def Symbol.run (source : List Char) : Nat → Symbol → Step
  | 0, _ => fun _ s => s.fail .tooDeep
  | depth + 1, s => (production s).run source (Symbol.run source depth)

def parseTokens (source : List Char) (tokens : List Token) : Except ParseError Tree :=
  let start : State := ⟨tokens, 0, .none⟩
  match Symbol.run source (Symbol.count * (tokens.length + 1)) .script [] start with
  | .ok (t :: _, _) => .ok t
  | .ok ([], s) => s.fail .unexpected
  | .error e => .error e

end TableLineage.Grammar

namespace TableLineage

inductive ScriptError where
  | scan (e : ScanError)
  | parse (e : Grammar.ParseError)
  deriving DecidableEq, Repr

def ScriptError.message : ScriptError → String
  | .scan e => e.message
  | .parse e => e.message

/-- The parse tree of a text. A fault of scanning comes before every fault of the grammar. -/
def parseText (text : List Char) : Except ScriptError Tree :=
  let scanned := Scan.ofText text
  match scanned.errors with
  | e :: _ => .error (.scan e)
  | [] =>
    match Grammar.parseTokens text scanned.tokens with
    | .ok t => .ok t
    | .error e => .error (.parse e)

def parse (text : String) : Except ScriptError Tree := parseText text.toList

end TableLineage
