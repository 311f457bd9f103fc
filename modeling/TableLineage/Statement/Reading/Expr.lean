import TableLineage.Statement.Reading.Basic

/-! Reading expressions. The tree has a node for each level of operators; a level
without an operator has a single child and reads as that child, and the operators
of the others are folded to the left. -/
namespace TableLineage.Opened

def single? (o : Opened) : Option (Outcome Expr) :=
  match o.kids with
  | [k] =>
    match k.tree with
    | .leaf t => some (o.fail "expression" (.unexpectedToken t.raw))
    | .node .. => some (o.expr k)
  | _ => none

/-- A level that reads as its single child, or else by `read`. -/
@[macro_inline] def level (o : Opened) (read : Outcome Expr) : Outcome Expr :=
  match o.single? with
  | some e => e
  | none => read

/-- Reads the expression `k` and goes on, unless it is a hole. -/
def operand (o : Opened) (k : Kid) (next : Expr → Outcome Expr) : Outcome Expr := do
  let e ← o.expr k
  if e.isHole then return .hole else next e

def orOp : Kind → Option BinaryOp
  | .keyword .OR => some .or
  | _ => none

def andOp : Kind → Option BinaryOp
  | .keyword .AND => some .and
  | _ => none

def addOp : Kind → Option BinaryOp
  | .plus => some .add
  | .minus => some .subtract
  | _ => none

def mulOp : Kind → Option BinaryOp
  | .star => some .multiply
  | .slash => some .divide
  | .percent => some .modulo
  | _ => none

def caretOp : Kind → Option BinaryOp
  | .caret => some .caret
  | _ => none

def compareOp : Kind → Option BinaryOp
  | .eq => some .equals
  | .ne => some .notEquals
  | .lt => some .less
  | .le => some .lessEqual
  | .gt => some .greater
  | .ge => some .greaterEqual
  | _ => none

/-- Folds operands and the operators between them to the left. -/
def foldBinary (o : Opened) (ops : Kind → Option BinaryOp) : List Kid → Option Expr → Option Tree → Outcome Expr
  | [], left, none => .ok (left.getD .hole)
  | [], _, some op => op.fail "operator" (.noRightOperand op.token.raw)
  | k :: ks, left, op =>
    if k.tree.isLeaf then
      if op.isSome || left.isNone then k.tree.fail "operator" (.unexpectedToken k.tree.token.raw)
      else foldBinary o ops ks left (some k.tree)
    else
      o.operand k fun right =>
        match left, op with
        | none, _ => foldBinary o ops ks (some right) op
        | some _, none => .error .noChild
        | some left, some op =>
          match ops op.token.kind with
          | none => op.fail "operator" (.unknown "operator" op.token.raw)
          | some code =>
            foldBinary o ops ks (some (.binary (left.span.cover right.span) left code right)) none

def folded (o : Opened) (ops : Kind → Option BinaryOp) : Outcome Expr := o.level (o.foldBinary ops o.kids none none)

def signOp : Kind → Option UnaryOp
  | .keyword .NOT => some .not
  | .minus => some .minus
  | .plus => some .plus
  | _ => none

/-- An operator in front of an operand of its own level `self`. -/
def unaryLevel (o : Opened) (self : Rule) : Outcome Expr :=
  o.level <|
    match o.kids with
    | [op, k] =>
      if !op.tree.isLeaf || !k.tree.hasRule self then o.fail "unary expression" (.shape o.tree)
      else
        match signOp op.tree.token.kind with
        | none => op.tree.fail "operator" (.unknown "prefix operator" op.tree.token.raw)
        | some code => o.operand k fun e => .ok (.unary o.tree.span code e)
    | _ => o.fail "unary expression" (.shape o.tree)

def between (o : Opened) : Outcome Expr :=
  o.level <|
    match o.nodes with
    | [target, lower, upper] =>
      if !o.has .BETWEEN then o.fail "between expression" (.expected "three operands")
      else do
        let target ← o.expr target
        let lower ← o.expr lower
        let upper ← o.expr upper
        return .between o.tree.span target lower upper (o.has .NOT) (o.has .SYMMETRIC)
    | _ => o.fail "between expression" (.expected "three operands")

def within (o : Opened) : Outcome Expr :=
  o.level <|
    match o.nodes with
    | [target, source] =>
      if !o.has .IN then o.fail "in expression" (.expected "a target and a source")
      else do
        let target ← o.expr target
        if source.tree.hasRule .selectWithParens then
          return .within o.tree.span target (.inQuery source.tree.span (← source.read .query)) (o.has .NOT)
        else if source.tree.hasRule .inList then
          return .within o.tree.span target (.inValues source.tree.span (← source.read (.many .expr))) (o.has .NOT)
        else source.tree.fail "in source" (.unexpectedRule source.tree.ruleName)
    | _ => o.fail "in expression" (.expected "a target and a source")

def nullTest : Kind → Option UnaryOp
  | .keyword .ISNULL => some .isNull
  | .keyword .NOTNULL => some .isNotNull
  | _ => none

def nullTests : List Kid → Expr → Outcome Expr
  | [], e => .ok e
  | k :: ks, e =>
    if e.isHole then .ok .hole
    else
      match nullTest k.tree.token.kind with
      | none => k.tree.fail "operator" (.unknown "postfix operator" k.tree.token.raw)
      | some op => nullTests ks (.unary (e.span.cover k.tree.span) op e)

def isNull (o : Opened) : Outcome Expr :=
  o.level <|
    match o.kids with
    | k :: ks => do nullTests ks (← o.expr k)
    | [] => .error .noChild

def isTest (negated : Bool) : Kind → Option UnaryOp
  | .keyword .NULL => some (if negated then .isNotNull else .isNull)
  | .keyword .TRUE => some (if negated then .isNotTrue else .isTrue)
  | .keyword .FALSE => some (if negated then .isNotFalse else .isFalse)
  | .keyword .UNKNOWN => some (if negated then .isNotUnknown else .isUnknown)
  | _ => none

def wordTest (e : Expr) (negated : Bool) (test : Tree) : Outcome Expr :=
  match isTest negated test.token.kind with
  | none => test.fail "is expression" (.unknown "test" test.token.raw)
  | some op => .ok (.unary (e.span.cover test.span) op e)

def distinctTest (o : Opened) (e : Expr) (negated : Bool) (test mark : Tree) (k : Kid) : Outcome Expr :=
  if !mark.is (.keyword .FROM) || k.tree.isLeaf then test.fail "is expression" (.malformed "DISTINCT FROM")
  else
    o.operand k fun right =>
      .ok (.binary (e.span.cover right.span) e (if negated then .notDistinctFrom else .distinctFrom) right)

def isTests (o : Opened) : List Kid → Expr → Outcome Expr
  | [], e => .ok e
  | k :: ks, e =>
    if e.isHole then .ok .hole
    else if !k.tree.is (.keyword .IS) then k.tree.fail "is expression" (.expected "IS")
    else
      match ks with
      | [] => k.tree.fail "is expression" (.expected "IS")
      | t :: ts =>
        if t.tree.is (.keyword .NOT) then
          match ts with
          | [] => o.fail "is expression" (.missing "test after IS")
          | u :: us =>
            if u.tree.is (.keyword .DISTINCT) then
              match us with
              | mark :: right :: rest => do isTests o rest (← o.distinctTest e true u.tree mark.tree right)
              | _ => u.tree.fail "is expression" (.malformed "DISTINCT FROM")
            else do isTests o us (← wordTest e true u.tree)
        else if t.tree.is (.keyword .DISTINCT) then
          match ts with
          | mark :: right :: rest => do isTests o rest (← o.distinctTest e false t.tree mark.tree right)
          | _ => t.tree.fail "is expression" (.malformed "DISTINCT FROM")
        else do isTests o ts (← wordTest e false t.tree)

def isNot (o : Opened) : Outcome Expr :=
  o.level <|
    match o.kids with
    | k :: ks => do o.isTests ks (← o.expr k)
    | [] => .error .noChild

/-- A comparison, which does not chain. -/
def compare (o : Opened) : Outcome Expr :=
  o.level <|
    match o.kids with
    | [l, op, r] =>
      if !op.tree.isLeaf then o.fail "comparison" (.shape o.tree)
      else
        match compareOp op.tree.token.kind with
        | none => op.tree.fail "operator" (.unknown "comparison operator" op.tree.token.raw)
        | some code => do
          let left ← o.expr l
          let right ← if r.tree.hasRule .subqueryQuantifier then r.read .expr else o.expr r
          if left.isHole || right.isHole then return .hole
          else return .binary o.tree.span left code right
    | _ => o.fail "comparison" (.shape o.tree)

def quantifier? : Kind → Option Quantifier
  | .keyword .ANY => some .any
  | .keyword .ALL => some .all
  | .keyword .SOME => some .some
  | _ => none

def quantified (o : Opened) : Outcome Expr :=
  match o.kids with
  | [] => .error .noChild
  | k :: _ =>
    match quantifier? k.tree.token.kind with
    | none => o.fail "quantifier" (.unknown "quantifier" k.tree.token.raw)
    | some q =>
      match o.kid? .selectWithParens with
      | some s => do return .quantifiedQuery o.tree.span q (← s.read .query)
      | none => do return .quantifiedExpr o.tree.span q (← o.firstExpr "quantifier")

def likeOp? (o : Opened) : Option LikeOp :=
  if o.has .LIKE then some .like
  else if o.has .ILIKE then some .ilike
  else if o.has .SIMILAR then some .similarTo
  else none

/-- A pattern match of `target`; the tail holds the escape character, if any. -/
def likeOf (o : Opened) (target pattern : Kid) (tail : List Kid) : Outcome Expr := do
  let target ← o.expr target
  let pattern ← o.expr pattern
  match o.likeOp? with
  | none => o.fail "like expression" (.unknown "pattern operator in" o.tree.text)
  | some op =>
    match tail with
    | [] => return .like o.tree.span target pattern op (o.has .NOT) .none
    | e :: _ => return .like o.tree.span target pattern op (o.has .NOT) (.some (← o.expr e))

def like (o : Opened) : Outcome Expr :=
  o.level <|
    match o.nodes with
    | [target, pattern] => o.likeOf target pattern []
    | [target, pattern, escape] => o.likeOf target pattern [escape]
    | _ => o.fail "like expression" (.shape o.tree)

def operatorText (t : Tree) : String := String.join (t.children.map fun c => c.token.raw)

/-- Two custom operators have a meaning of their own. -/
def customOp (text : String) : BinaryOp :=
  if text = "<<" then .shiftLeft else if text = ">>" then .shiftRight else .custom text

def foldCustom (o : Opened) : List Kid → Option Expr → String → Outcome Expr
  | [], left, _ => .ok (left.getD .hole)
  | k :: ks, left, op =>
    if k.tree.hasRule .qualOp then foldCustom o ks left (operatorText k.tree)
    else
      o.operand k fun right =>
        match left with
        | none => foldCustom o ks (some right) op
        | some left => foldCustom o ks (some (.binary (left.span.cover right.span) left (customOp op) right)) op

def customLevel (o : Opened) : Outcome Expr := o.level (o.foldCustom o.kids none "")

def prefixCustom (o : Opened) : Outcome Expr :=
  o.level <|
    match o.kids with
    | [op, k] =>
      if !op.tree.hasRule .qualOp then o.fail "prefix operator" (.shape o.tree)
      else o.operand k fun e => .ok (.unary o.tree.span (.custom (operatorText op.tree)) e)
    | _ => o.fail "prefix operator" (.shape o.tree)

def foldZones (o : Opened) : List Kid → Option Expr → Outcome Expr
  | [], left => .ok (left.getD .hole)
  | k :: ks, left =>
    if k.tree.isLeaf then
      if k.tree.is (.keyword .AT) || k.tree.is (.keyword .TIME) || k.tree.is (.keyword .ZONE) then
        foldZones o ks left
      else k.tree.fail "operator" (.unexpectedToken k.tree.token.raw)
    else
      o.operand k fun right =>
        match left with
        | none => foldZones o ks (some right)
        | some left => foldZones o ks (some (.binary (left.span.cover right.span) left .atTimeZone right))

def atTimeZone (o : Opened) : Outcome Expr := o.level (o.foldZones o.kids none)

def collate (o : Opened) : Outcome Expr :=
  o.level <|
    match o.kid? .anyName with
    | none => o.fail "collate expression" (.missing "collation")
    | some n =>
      if !o.has .COLLATE then o.fail "collate expression" (.missing "collation")
      else
        match o.kids with
        | k :: _ => o.operand k fun e => .ok (.collate o.tree.span e n.tree.text)
        | [] => .error .noChild

def casts : List Kid → Expr → Outcome Expr
  | [], e => .ok e
  | k :: ks, e =>
    if e.isHole then .ok .hole
    else if k.tree.is .typecast then casts ks e
    else if k.tree.hasRule .typename then casts ks (.cast (e.span.cover k.tree.span) e k.tree.text)
    else k.tree.fail "type cast" (.unexpectedTree k.tree)

def typecast (o : Opened) : Outcome Expr :=
  o.level <|
    match o.kids with
    | k :: ks => do casts ks (← o.expr k)
    | [] => .error .noChild

end TableLineage.Opened
