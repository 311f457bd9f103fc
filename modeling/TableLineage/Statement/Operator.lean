/-! The operators and keywords that a statement keeps, each with its text. -/
namespace TableLineage

inductive BinaryOp where
  | add | subtract | multiply | divide | modulo
  | and | or
  | equals | notEquals | less | lessEqual | greater | greaterEqual
  | shiftLeft | shiftRight
  | distinctFrom | notDistinctFrom
  | caret | atTimeZone
  /-- An operator known by its text only, with its schema if it was given one. -/
  | custom (text : String)
  deriving DecidableEq, Repr

namespace BinaryOp

def name : BinaryOp → String
  | .add => "+"
  | .subtract => "-"
  | .multiply => "*"
  | .divide => "/"
  | .modulo => "%"
  | .and => "AND"
  | .or => "OR"
  | .equals => "="
  | .notEquals => "<>"
  | .less => "<"
  | .lessEqual => "<="
  | .greater => ">"
  | .greaterEqual => ">="
  | .shiftLeft => "<<"
  | .shiftRight => ">>"
  | .distinctFrom => "IS DISTINCT FROM"
  | .notDistinctFrom => "IS NOT DISTINCT FROM"
  | .caret => "^"
  | .atTimeZone => "AT TIME ZONE"
  | .custom _ => "OPERATOR"

def customText : BinaryOp → String
  | .custom text => text
  | _ => ""

def all : List BinaryOp :=
  [.add, .subtract, .multiply, .divide, .modulo, .and, .or, .equals, .notEquals, .less, .lessEqual,
   .greater, .greaterEqual, .shiftLeft, .shiftRight, .distinctFrom, .notDistinctFrom, .caret,
   .atTimeZone, .custom ""]

def nameOfNumber (n : Nat) : String := (all[n]?.map name).getD "?"

end BinaryOp

inductive UnaryOp where
  | not
  | isNull | isNotNull | isTrue | isNotTrue | isFalse | isNotFalse | isUnknown | isNotUnknown
  | minus | plus
  | custom (text : String)
  deriving DecidableEq, Repr

namespace UnaryOp

def name : UnaryOp → String
  | .not => "NOT"
  | .isNull => "IS NULL"
  | .isNotNull => "IS NOT NULL"
  | .isTrue => "IS TRUE"
  | .isNotTrue => "IS NOT TRUE"
  | .isFalse => "IS FALSE"
  | .isNotFalse => "IS NOT FALSE"
  | .isUnknown => "IS UNKNOWN"
  | .isNotUnknown => "IS NOT UNKNOWN"
  | .minus => "-"
  | .plus => "+"
  | .custom _ => "OPERATOR"

def customText : UnaryOp → String
  | .custom text => text
  | _ => ""

def all : List UnaryOp :=
  [.not, .isNull, .isNotNull, .isTrue, .isNotTrue, .isFalse, .isNotFalse, .isUnknown, .isNotUnknown,
   .minus, .plus, .custom ""]

def nameOfNumber (n : Nat) : String := (all[n]?.map name).getD "?"

end UnaryOp

inductive LikeOp where
  | like | ilike | similarTo
  deriving DecidableEq, Repr

def LikeOp.name : LikeOp → String
  | .like => "LIKE"
  | .ilike => "ILIKE"
  | .similarTo => "SIMILAR TO"

inductive Quantifier where
  | any | all | some
  deriving DecidableEq, Repr

def Quantifier.name : Quantifier → String
  | .any => "ANY"
  | .all => "ALL"
  | .some => "SOME"

inductive ConstantKind where
  | number | string | bool | null | default | typed | param
  deriving DecidableEq, Repr

def ConstantKind.name : ConstantKind → String
  | .number => "number"
  | .string => "string"
  | .bool => "bool"
  | .null => "null"
  | .default => "default"
  | .typed => "typed"
  | .param => "param"

/-- Whether a function takes nulls into account, if that was said. -/
inductive NullTreatment where
  | ignore | respect
  deriving DecidableEq, Repr

def NullTreatment.name : NullTreatment → String
  | .ignore => "IGNORE NULLS"
  | .respect => "RESPECT NULLS"

/-- The set operators; `MINUS` is another word for `EXCEPT`. -/
inductive SetOp where
  | union | except | intersect
  deriving DecidableEq, Repr

def SetOp.name : SetOp → String
  | .union => "UNION"
  | .except => "EXCEPT"
  | .intersect => "INTERSECT"

inductive SetModifier where
  | all | distinct
  deriving DecidableEq, Repr

def SetModifier.name : SetModifier → String
  | .all => "ALL"
  | .distinct => "DISTINCT"

inductive SortOrder where
  | ascending | descending
  deriving DecidableEq, Repr

def SortOrder.name : SortOrder → String
  | .ascending => "ASC"
  | .descending => "DESC"

inductive NullsOrder where
  | first | last
  deriving DecidableEq, Repr

def NullsOrder.name : NullsOrder → String
  | .first => "FIRST"
  | .last => "LAST"

inductive JoinType where
  | inner | left | right | full
  deriving DecidableEq, Repr

def JoinType.name : JoinType → String
  | .inner => "INNER"
  | .left => "LEFT"
  | .right => "RIGHT"
  | .full => "FULL"

inductive DropKind where
  | table | view | materializedView
  deriving DecidableEq, Repr

def DropKind.name : DropKind → String
  | .table => "TABLE"
  | .view => "VIEW"
  | .materializedView => "MATERIALIZED VIEW"

inductive DropBehavior where
  | cascade | restrict
  deriving DecidableEq, Repr

def DropBehavior.name : DropBehavior → String
  | .cascade => "CASCADE"
  | .restrict => "RESTRICT"

end TableLineage
