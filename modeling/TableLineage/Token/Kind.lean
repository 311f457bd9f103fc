import TableLineage.Token.Keyword

/-! The kinds of tokens: names and literals, operators and punctuation, and one
kind for each keyword. -/
namespace TableLineage

inductive Kind where
  | eof | illegal
  | ident | number | string | param
  | plus | minus | star | slash | percent | caret
  | eq | ne | lt | gt | le | ge | typecast | op
  | dot | comma | semicolon | colon | lparen | rparen | lbracket | rbracket
  | keyword (k : Keyword)
  deriving DecidableEq, Repr

namespace Kind

def all : List Kind :=
  ([.eof, .illegal, .ident, .number, .string, .param, .plus, .minus, .star, .slash, .percent, .caret,
   .eq, .ne, .lt, .gt, .le, .ge, .typecast, .op, .dot, .comma, .semicolon, .colon, .lparen, .rparen,
   .lbracket, .rbracket] : List Kind) ++ Keyword.all.map .keyword

def name : Kind → String
  | .eof => "EOF"
  | .illegal => "ILLEGAL"
  | .ident => "IDENT"
  | .number => "NUMBER"
  | .string => "STRING"
  | .param => "PARAM"
  | .plus => "+"
  | .minus => "-"
  | .star => "*"
  | .slash => "/"
  | .percent => "%"
  | .caret => "^"
  | .eq => "="
  | .ne => "!="
  | .lt => "<"
  | .gt => ">"
  | .le => "<="
  | .ge => ">="
  | .typecast => "::"
  | .op => "OP"
  | .dot => "."
  | .comma => ","
  | .semicolon => ";"
  | .colon => ":"
  | .lparen => "("
  | .rparen => ")"
  | .lbracket => "["
  | .rbracket => "]"
  | .keyword k => k.name

def isKeyword : Kind → Bool
  | .keyword _ => true
  | _ => false

def isReserved : Kind → Bool
  | .keyword k => k.isReserved
  | _ => false

def isOperator : Kind → Bool
  | .eof | .illegal | .ident | .number | .string | .param | .keyword _ => false
  | _ => true

/-- The kind of a word in lower case: its keyword, or a plain name. -/
def ofWord (w : String) : Kind := ((Keyword.ofWord? w).map .keyword).getD .ident

def ofName? (n : String) : Option Kind := all.find? (·.name == n)

def ofNumber? : Int → Option Kind
  | .ofNat n => all[n]?
  | .negSucc _ => none

/-- The name of the kind with the number `n`; a number without a kind names itself. -/
def nameOfNumber (n : Int) : String :=
  match ofNumber? n with
  | some k => k.name
  | none => s!"TOKEN({n})"

end Kind
end TableLineage
