import TableLineage.Grammar.Sql
import TableLineage.Proofs.Token.Spaced
import TableLineage.Statement.Phrase

/-! Formulas: expressions over columns and constants, and how they are written. Every operator
has its level on the ladder, and an operand is put in parentheses where its level is too low. -/
namespace TableLineage

/-! ### Words -/

/-- The lexeme of a keyword or a sign. -/
def Kind.lexeme (k : Kind) : Lexeme := ⟨k, k.name, k.name, false⟩

/-- A lexeme that its own text is scanned as, with a property. -/
structure Atom (fits : Lexeme → Bool) where
  lexeme : Lexeme
  whole : Lexeme.ofText? lexeme.raw = some lexeme
  fit : fits lexeme

/-- No keyword, and no function that is called by its bare name. -/
def Lexeme.isColumn (l : Lexeme) : Bool :=
  l.kind = .ident && !(Grammar.Class.amongWords Grammar.Symbol.bareFunctions).holds l

def Lexeme.isNumber (l : Lexeme) : Bool := l.kind = .number

def Lexeme.isString (l : Lexeme) : Bool := l.kind = .string

def Lexeme.isLiteral (l : Lexeme) : Bool := l.isNumber || l.isString

abbrev Label := Atom Lexeme.isLabel

/-- The labels of a path, a dot in front of each. -/
def dottedPath (path : List Label) : List Lexeme := path.flatMap fun l => [Kind.dot.lexeme, l.lexeme]

/-- A collation by its name or as a string. -/
inductive Collation where
  | string (text : Atom Lexeme.isString)
  | name (head : Label) (path : List Label)

def Collation.lexemes : Collation → List Lexeme
  | .string text => [text.lexeme]
  | .name head path => head.lexeme :: dottedPath path

/-- A type: its name, the words that go on with it, its arguments, its time zone, and how often
it is an array. -/
structure TypeName where
  head : Label
  path : List Label
  words : List (Atom (Grammar.Class.amongWords Grammar.Symbol.typeWords).holds)
  arguments : List (Atom Lexeme.isNumber)
  zone : Option Bool
  dimensions : Nat

namespace TypeName

def without : Lexeme := ⟨.ident, "WITHOUT", "WITHOUT", false⟩

/-- Arguments in parentheses, unless there are none. -/
def listed : List (Atom Lexeme.isNumber) → List Lexeme
  | [] => []
  | x :: xs => Kind.lparen.lexeme :: x.lexeme :: (xs.flatMap fun y => [Kind.comma.lexeme, y.lexeme]) ++
      [Kind.rparen.lexeme]

def zoned : Option Bool → List Lexeme
  | none => []
  | some present =>
    [if present then (Kind.keyword .WITH).lexeme else without, (Kind.keyword .TIME).lexeme, (Kind.keyword .ZONE).lexeme]

def lexemes (t : TypeName) : List Lexeme :=
  t.head.lexeme :: (dottedPath t.path ++ (t.words.map (·.lexeme) ++ (listed t.arguments ++ (zoned t.zone ++
    (List.replicate t.dimensions [Kind.lbracket.lexeme, Kind.rbracket.lexeme]).flatten))))

end TypeName

/-- A custom operator by its sign, or by the name of its schema and its sign. -/
inductive CustomSign where
  | plain (sign : Atom fun l => l.kind = .op)
  | qualified (path : List Label) (sign : Atom Grammar.Class.sign.holds)

namespace CustomSign

def lexemes : CustomSign → List Lexeme
  | .plain sign => [sign.lexeme]
  | .qualified path sign =>
    (Kind.keyword .OPERATOR).lexeme :: Kind.lparen.lexeme :: ((path.flatMap fun l => [l.lexeme, Kind.dot.lexeme]) ++
      [sign.lexeme, Kind.rparen.lexeme])

def text (s : CustomSign) : String := String.join (s.lexemes.map (·.raw))

end CustomSign

/-! ### The ladder -/

/-- The levels of expressions, from the weakest operator to expressions without one. -/
inductive Level where
  | or | and | between | within | not | isNull | is | compare | like | custom | customFront
  | add | multiply | caret | sign | timeZone | collate | cast | primary
  deriving DecidableEq, Repr

namespace Level

def rank : Level → Nat
  | or => 0
  | and => 1
  | between => 2
  | within => 3
  | not => 4
  | isNull => 5
  | is => 6
  | compare => 7
  | like => 8
  | custom => 9
  | customFront => 10
  | add => 11
  | multiply => 12
  | caret => 13
  | sign => 14
  | timeZone => 15
  | collate => 16
  | cast => 17
  | primary => 18

/-- The next stronger level. -/
def next : Level → Level
  | or => and
  | and => between
  | between => within
  | within => not
  | not => isNull
  | isNull => is
  | is => compare
  | compare => like
  | like => custom
  | custom => customFront
  | customFront => add
  | add => multiply
  | multiply => caret
  | caret => sign
  | sign => timeZone
  | timeZone => collate
  | collate => cast
  | cast => primary
  | primary => primary

end Level

/-- Operators between two operands. -/
inductive BinarySign where
  | or | and
  | distinctFrom (negated : Bool)
  | equals | notEquals | less | lessEqual | greater | greaterEqual
  | custom (sign : CustomSign)
  | plus | minus | times | divided | modulo | power | atTimeZone

namespace BinarySign

def level : BinarySign → Level
  | or => .or
  | and => .and
  | distinctFrom _ => .is
  | equals | notEquals | less | lessEqual | greater | greaterEqual => .compare
  | custom _ => .custom
  | plus | minus => .add
  | times | divided | modulo => .multiply
  | power => .caret
  | atTimeZone => .timeZone

/-- The weakest level that the left operand may have: comparisons do not chain. -/
def leftLevel (op : BinarySign) : Level := if op.level = .compare then .like else op.level

def lexemes : BinarySign → List Lexeme
  | or => [(Kind.keyword .OR).lexeme]
  | and => [(Kind.keyword .AND).lexeme]
  | distinctFrom false => [.keyword .IS, .keyword .DISTINCT, .keyword .FROM].map Kind.lexeme
  | distinctFrom true => [.keyword .IS, .keyword .NOT, .keyword .DISTINCT, .keyword .FROM].map Kind.lexeme
  | equals => [Kind.eq.lexeme]
  | notEquals => [Kind.ne.lexeme]
  | less => [Kind.lt.lexeme]
  | lessEqual => [Kind.le.lexeme]
  | greater => [Kind.gt.lexeme]
  | greaterEqual => [Kind.ge.lexeme]
  | custom sign => sign.lexemes
  | plus => [Kind.plus.lexeme]
  | minus => [Kind.minus.lexeme]
  | times => [Kind.star.lexeme]
  | divided => [Kind.slash.lexeme]
  | modulo => [Kind.percent.lexeme]
  | power => [Kind.caret.lexeme]
  | atTimeZone => [.keyword .AT, .keyword .TIME, .keyword .ZONE].map Kind.lexeme

/-- The operator in an expression. -/
def op : BinarySign → BinaryOp
  | or => .or
  | and => .and
  | distinctFrom false => .distinctFrom
  | distinctFrom true => .notDistinctFrom
  | equals => .equals
  | notEquals => .notEquals
  | less => .less
  | lessEqual => .lessEqual
  | greater => .greater
  | greaterEqual => .greaterEqual
  | custom sign => if sign.text = "<<" then .shiftLeft else if sign.text = ">>" then .shiftRight else .custom sign.text
  | plus => .add
  | minus => .subtract
  | times => .multiply
  | divided => .divide
  | modulo => .modulo
  | power => .caret
  | atTimeZone => .atTimeZone

end BinarySign

/-- Operators in front of an operand. -/
inductive UnarySign where
  | not | plus | minus
  | custom (sign : CustomSign)

namespace UnarySign

def level : UnarySign → Level
  | not => .not
  | plus | minus => .sign
  | custom _ => .customFront

/-- The weakest level that the operand may have: `NOT` and signs may be repeated. -/
def operandLevel (op : UnarySign) : Level := if op.level = .customFront then .add else op.level

def lexemes : UnarySign → List Lexeme
  | not => [(Kind.keyword .NOT).lexeme]
  | plus => [Kind.plus.lexeme]
  | minus => [Kind.minus.lexeme]
  | custom sign => sign.lexemes

def op : UnarySign → UnaryOp
  | not => .not
  | plus => .plus
  | minus => .minus
  | custom sign => .custom sign.text

end UnarySign

/-- What may be asked after `IS`. -/
inductive TestWord where
  | null | isTrue | isFalse | unknown

namespace TestWord

def keyword : TestWord → Keyword
  | null => .NULL
  | isTrue => .TRUE
  | isFalse => .FALSE
  | unknown => .UNKNOWN

def op : TestWord → Bool → UnaryOp
  | null, false => .isNull
  | null, true => .isNotNull
  | isTrue, false => .isTrue
  | isTrue, true => .isNotTrue
  | isFalse, false => .isFalse
  | isFalse, true => .isNotFalse
  | unknown, false => .isUnknown
  | unknown, true => .isNotUnknown

end TestWord

/-! ### Formulas -/

/-- One formula, or a row of them. -/
inductive Shape where
  | single | row

inductive Formula : Shape → Type where
  | column (name : Atom Lexeme.isColumn) : Formula .single
  | constant (value : Atom Lexeme.isLiteral) : Formula .single
  | binary (left : Formula .single) (op : BinarySign) (right : Formula .single) : Formula .single
  | unary (op : UnarySign) (operand : Formula .single) : Formula .single
  | test (operand : Formula .single) (negated : Bool) (word : TestWord) : Formula .single
  | between (target : Formula .single) (negated symmetric : Bool) (lower upper : Formula .single) : Formula .single
  | within (target : Formula .single) (negated : Bool) (items : Formula .row) : Formula .single
  | like (target : Formula .single) (negated ignoreCase : Bool) (pattern : Formula .single) : Formula .single
  | collate (operand : Formula .single) (name : Collation) : Formula .single
  | cast (operand : Formula .single) (type : TypeName) : Formula .single
  | last (item : Formula .single) : Formula .row
  | cons (item : Formula .single) (items : Formula .row) : Formula .row

namespace Formula

/-- The level of the outermost operator. -/
def level {s : Shape} : Formula s → Level
  | column _ | constant _ => .primary
  | binary _ op _ => op.level
  | unary op _ => op.level
  | test .. => .is
  | between .. => .between
  | within .. => .within
  | like .. => .like
  | collate .. => .collate
  | cast .. => .cast
  | last _ | cons .. => .or

/-- The word `NOT`, if it is there. -/
def negation (negated : Bool) : List Lexeme := if negated then [(Kind.keyword .NOT).lexeme] else []

/-- Lexemes in parentheses, if these are needed. -/
def enclose (needed : Bool) (ls : List Lexeme) : List Lexeme :=
  if needed then Kind.lparen.lexeme :: ls ++ [Kind.rparen.lexeme] else ls

/-- How a formula is written, the outermost parentheses left out. -/
def lexemes {s : Shape} : Formula s → List Lexeme
  | column name => [name.lexeme]
  | constant value => [value.lexeme]
  | binary l op r =>
    enclose (l.level.rank < op.leftLevel.rank) l.lexemes ++ (op.lexemes ++
      enclose (r.level.rank < op.level.next.rank) r.lexemes)
  | unary op e => op.lexemes ++ enclose (e.level.rank < op.operandLevel.rank) e.lexemes
  | test e negated word =>
    enclose (e.level.rank < Level.is.rank) e.lexemes ++ ((Kind.keyword .IS).lexeme :: (negation negated ++
      [(Kind.keyword word.keyword).lexeme]))
  | between t negated symmetric l u =>
    enclose (t.level.rank < Level.within.rank) t.lexemes ++ (negation negated ++ ((Kind.keyword .BETWEEN).lexeme ::
      ((if symmetric then [(Kind.keyword .SYMMETRIC).lexeme] else []) ++
        (enclose (l.level.rank < Level.within.rank) l.lexemes ++ ((Kind.keyword .AND).lexeme ::
          enclose (u.level.rank < Level.within.rank) u.lexemes)))))
  | within t negated items =>
    enclose (t.level.rank < Level.not.rank) t.lexemes ++ (negation negated ++ ((Kind.keyword .IN).lexeme ::
      Kind.lparen.lexeme :: (items.lexemes ++ [Kind.rparen.lexeme])))
  | like t negated ignoreCase p =>
    enclose (t.level.rank < Level.custom.rank) t.lexemes ++ (negation negated ++
      ((Kind.keyword (if ignoreCase then .ILIKE else .LIKE)).lexeme ::
        enclose (p.level.rank < Level.custom.rank) p.lexemes))
  | collate e name =>
    enclose (e.level.rank < Level.cast.rank) e.lexemes ++ ((Kind.keyword .COLLATE).lexeme :: name.lexemes)
  | cast e type => enclose (e.level.rank < Level.cast.rank) e.lexemes ++ (Kind.typecast.lexeme :: type.lexemes)
  | last e => e.lexemes
  | cons e es => e.lexemes ++ (Kind.comma.lexeme :: es.lexemes)

/-- A formula as an operand where the level `ℓ` is the weakest allowed. -/
def operand {s : Shape} (ℓ : Level) (e : Formula s) : List Lexeme := enclose (e.level.rank < ℓ.rank) e.lexemes

end Formula

def Formula.text {s : Shape} (e : Formula s) : String := Lexeme.spaced e.lexemes

abbrev Shape.category : Shape → Category
  | single => .expr
  | row => .many .expr

/-- The expression that a formula stands for, nowhere in a text. -/
def Formula.expr : {s : Shape} → Formula s → Phrase s.category
  | _, column name => .column .none [name.lexeme.raw] false .nil
  | _, constant value =>
    .constant .none (if value.lexeme.isNumber then .number else .string) value.lexeme.raw ""
  | _, binary l op r => .binary .none l.expr op.op r.expr
  | _, unary op e => .unary .none op.op e.expr
  | _, test e negated word => .unary .none (word.op negated) e.expr
  | _, between t negated symmetric l u => .between .none t.expr l.expr u.expr negated symmetric
  | _, within t negated items => .within .none t.expr (.inValues .none items.expr) negated
  | _, like t negated ignoreCase p => .like .none t.expr p.expr (if ignoreCase then .ilike else .like) negated .none
  | _, collate e name => .collate .none e.expr (Lexeme.spaced name.lexemes)
  | _, cast e type => .cast .none e.expr (Lexeme.spaced type.lexemes)
  | _, last e => .cons e.expr .nil
  | _, cons e es => .cons e.expr es.expr

end TableLineage
