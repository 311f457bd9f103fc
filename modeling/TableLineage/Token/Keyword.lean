/-! The keywords of the dialect, in alphabetical order. Most of them may still
name a column or a table; the reserved ones may not. -/
namespace TableLineage

inductive Keyword where
  | ALL | ALTER | AND | ANY | AS | ASC | AT | BETWEEN | BOTH | BY | CASCADE | CASE | CAST
  | COLLATE | CREATE | CROSS | DEFAULT | DELETE | DESC | DISTINCT | DROP | ELSE | END | ESCAPE
  | EXCEPT | EXISTS | EXTRACT | FALSE | FILTER | FIRST | FOR | FROM | FULL | GROUP | HAVING
  | IF | IGNORE | ILIKE | IN | INNER | INSERT | INTERSECT | INTO | IS | ISNULL | JOIN | LAST
  | LEADING | LEFT | LIKE | LIMIT | LOCAL | MATERIALIZED | MINUS | NATURAL | NO | NOT | NOTNULL
  | NULL | NULLS | OFFSET | ON | OPERATOR | OR | ORDER | OUTER | OVER | PARTITION | POSITION
  | QUALIFY | RANGE | RECURSIVE | RENAME | REPLACE | RESPECT | RESTRICT | RIGHT | ROWS | SELECT
  | SIMILAR | SOME | SUBSTRING | SYMMETRIC | TABLE | TEMP | TEMPORARY | THEN | TIME | TO | TOP
  | TRAILING | TRIM | TRUE | UNION | UNKNOWN | USING | VALUES | VIEW | WHEN | WHERE | WINDOW
  | WITH | WITHIN | ZONE
  deriving DecidableEq, Repr

namespace Keyword

def all : List Keyword :=
  [.ALL, .ALTER, .AND, .ANY, .AS, .ASC, .AT, .BETWEEN, .BOTH, .BY, .CASCADE, .CASE, .CAST,
   .COLLATE, .CREATE, .CROSS, .DEFAULT, .DELETE, .DESC, .DISTINCT, .DROP, .ELSE, .END, .ESCAPE,
   .EXCEPT, .EXISTS, .EXTRACT, .FALSE, .FILTER, .FIRST, .FOR, .FROM, .FULL, .GROUP, .HAVING,
   .IF, .IGNORE, .ILIKE, .IN, .INNER, .INSERT, .INTERSECT, .INTO, .IS, .ISNULL, .JOIN, .LAST,
   .LEADING, .LEFT, .LIKE, .LIMIT, .LOCAL, .MATERIALIZED, .MINUS, .NATURAL, .NO, .NOT,
   .NOTNULL, .NULL, .NULLS, .OFFSET, .ON, .OPERATOR, .OR, .ORDER, .OUTER, .OVER, .PARTITION,
   .POSITION, .QUALIFY, .RANGE, .RECURSIVE, .RENAME, .REPLACE, .RESPECT, .RESTRICT, .RIGHT,
   .ROWS, .SELECT, .SIMILAR, .SOME, .SUBSTRING, .SYMMETRIC, .TABLE, .TEMP, .TEMPORARY, .THEN,
   .TIME, .TO, .TOP, .TRAILING, .TRIM, .TRUE, .UNION, .UNKNOWN, .USING, .VALUES, .VIEW, .WHEN,
   .WHERE, .WINDOW, .WITH, .WITHIN, .ZONE]

def name : Keyword → String
  | .ALL => "ALL"
  | .ALTER => "ALTER"
  | .AND => "AND"
  | .ANY => "ANY"
  | .AS => "AS"
  | .ASC => "ASC"
  | .AT => "AT"
  | .BETWEEN => "BETWEEN"
  | .BOTH => "BOTH"
  | .BY => "BY"
  | .CASCADE => "CASCADE"
  | .CASE => "CASE"
  | .CAST => "CAST"
  | .COLLATE => "COLLATE"
  | .CREATE => "CREATE"
  | .CROSS => "CROSS"
  | .DEFAULT => "DEFAULT"
  | .DELETE => "DELETE"
  | .DESC => "DESC"
  | .DISTINCT => "DISTINCT"
  | .DROP => "DROP"
  | .ELSE => "ELSE"
  | .END => "END"
  | .ESCAPE => "ESCAPE"
  | .EXCEPT => "EXCEPT"
  | .EXISTS => "EXISTS"
  | .EXTRACT => "EXTRACT"
  | .FALSE => "FALSE"
  | .FILTER => "FILTER"
  | .FIRST => "FIRST"
  | .FOR => "FOR"
  | .FROM => "FROM"
  | .FULL => "FULL"
  | .GROUP => "GROUP"
  | .HAVING => "HAVING"
  | .IF => "IF"
  | .IGNORE => "IGNORE"
  | .ILIKE => "ILIKE"
  | .IN => "IN"
  | .INNER => "INNER"
  | .INSERT => "INSERT"
  | .INTERSECT => "INTERSECT"
  | .INTO => "INTO"
  | .IS => "IS"
  | .ISNULL => "ISNULL"
  | .JOIN => "JOIN"
  | .LAST => "LAST"
  | .LEADING => "LEADING"
  | .LEFT => "LEFT"
  | .LIKE => "LIKE"
  | .LIMIT => "LIMIT"
  | .LOCAL => "LOCAL"
  | .MATERIALIZED => "MATERIALIZED"
  | .MINUS => "MINUS"
  | .NATURAL => "NATURAL"
  | .NO => "NO"
  | .NOT => "NOT"
  | .NOTNULL => "NOTNULL"
  | .NULL => "NULL"
  | .NULLS => "NULLS"
  | .OFFSET => "OFFSET"
  | .ON => "ON"
  | .OPERATOR => "OPERATOR"
  | .OR => "OR"
  | .ORDER => "ORDER"
  | .OUTER => "OUTER"
  | .OVER => "OVER"
  | .PARTITION => "PARTITION"
  | .POSITION => "POSITION"
  | .QUALIFY => "QUALIFY"
  | .RANGE => "RANGE"
  | .RECURSIVE => "RECURSIVE"
  | .RENAME => "RENAME"
  | .REPLACE => "REPLACE"
  | .RESPECT => "RESPECT"
  | .RESTRICT => "RESTRICT"
  | .RIGHT => "RIGHT"
  | .ROWS => "ROWS"
  | .SELECT => "SELECT"
  | .SIMILAR => "SIMILAR"
  | .SOME => "SOME"
  | .SUBSTRING => "SUBSTRING"
  | .SYMMETRIC => "SYMMETRIC"
  | .TABLE => "TABLE"
  | .TEMP => "TEMP"
  | .TEMPORARY => "TEMPORARY"
  | .THEN => "THEN"
  | .TIME => "TIME"
  | .TO => "TO"
  | .TOP => "TOP"
  | .TRAILING => "TRAILING"
  | .TRIM => "TRIM"
  | .TRUE => "TRUE"
  | .UNION => "UNION"
  | .UNKNOWN => "UNKNOWN"
  | .USING => "USING"
  | .VALUES => "VALUES"
  | .VIEW => "VIEW"
  | .WHEN => "WHEN"
  | .WHERE => "WHERE"
  | .WINDOW => "WINDOW"
  | .WITH => "WITH"
  | .WITHIN => "WITHIN"
  | .ZONE => "ZONE"

def word (k : Keyword) : String := String.ofList (k.name.toList.map Char.toLower)

def ofWord? (w : String) : Option Keyword := all.find? (·.word == w)

def isReserved : Keyword → Bool
  | .ALL | .AND | .ANY | .AS | .ASC | .BETWEEN | .BOTH | .CASE | .CAST | .COLLATE | .CREATE
  | .CROSS | .DEFAULT | .DESC | .DISTINCT | .ELSE | .END | .EXCEPT | .FALSE | .FOR | .FROM
  | .FULL | .GROUP | .HAVING | .ILIKE | .IN | .INNER | .INTERSECT | .INTO | .IS | .ISNULL
  | .JOIN | .LEADING | .LEFT | .LIKE | .LIMIT | .MINUS | .NATURAL | .NOT | .NOTNULL | .NULL
  | .OFFSET | .ON | .OR | .ORDER | .OUTER | .QUALIFY | .RIGHT | .SELECT | .SIMILAR | .SOME
  | .SYMMETRIC | .TABLE | .THEN | .TO | .TOP | .TRAILING | .TRUE | .UNION | .USING | .WHEN
  | .WHERE | .WINDOW | .WITH => true
  | _ => false

end Keyword
end TableLineage
