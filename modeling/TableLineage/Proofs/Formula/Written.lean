import TableLineage.Proofs.Formula.Ladder

/-! Formulas as they are written: with what they start, and that all their lexemes are found
again when they are scanned. -/
namespace TableLineage

open List

/-! ### Lexemes on their own -/

/-- Each of the lexemes is what its text is scanned as. -/
def Whole (ls : List Lexeme) : Prop := ∀ l ∈ ls, Lexeme.ofText? l.raw = some l

@[simp] theorem whole_nil : Whole [] := by simp [Whole]

variable {ks ls : List Lexeme} {l : Lexeme}

@[simp] theorem whole_cons : Whole (l :: ls) ↔ Lexeme.ofText? l.raw = some l ∧ Whole ls := forall_mem_cons

@[simp] theorem whole_append : Whole (ls ++ ks) ↔ Whole ls ∧ Whole ks := forall_mem_append

theorem whole_flatMap {α : Type} {xs : List α} {f : α → List Lexeme} (each : ∀ x ∈ xs, Whole (f x)) :
    Whole (xs.flatMap f) := by
  intro l member
  obtain ⟨x, among, inside⟩ := mem_flatMap.1 member
  exact each x among l inside

/-- The words and signs that formulas are written with, beside names and constants. -/
def marks : List Kind :=
  ([.lparen, .rparen, .lbracket, .rbracket, .comma, .dot, .eq, .ne, .lt, .le, .gt, .ge, .plus, .minus, .star, .slash,
   .percent, .caret, .typecast] : List Kind) ++
    ([.OR, .AND, .NOT, .IS, .DISTINCT, .FROM, .AT, .TIME, .ZONE, .NULL, .TRUE, .FALSE, .UNKNOWN, .BETWEEN, .SYMMETRIC,
     .IN, .LIKE, .ILIKE, .COLLATE, .OPERATOR, .WITH, .SELECT] : List Keyword).map .keyword

theorem whole_marks : ∀ k ∈ marks, Lexeme.ofText? k.lexeme.raw = some k.lexeme := by
  decide +kernel

/-- A mark ends an expression of each level that its kind does not go on with. -/
theorem Ends.of_mark {ℓ : Level} {k : Kind} {t : Token} {us : List Token} (mark : t.toLexeme = k.lexeme)
    (known : k ∈ marks) (stops : k.mayFollow ℓ = false) : Ends ℓ (t :: us) := by
  have other : ∀ k ∈ marks, k.lexeme.isWord "without" = false := by decide +kernel
  have kind : t.kind = k := congrArg Lexeme.kind mark
  exact .of_kind (by rw [kind, stops]) (by rw [mark, other k known])

theorem Ends.of_not {ℓ : Level} {t : Token} {us : List Token} (ends : Ends ℓ us)
    (mark : t.toLexeme = (Kind.keyword .NOT).lexeme) : Ends ℓ (t :: us) :=
  ends.negated (congrArg Lexeme.kind mark) (by rw [mark]; decide +kernel)

theorem whole_dottedPath (path : List Label) : Whole (dottedPath path) :=
  whole_flatMap fun l _ => by simp [whole_marks .dot (by decide), l.whole]

theorem Collation.whole (c : Collation) : Whole c.lexemes := by
  cases c with
  | string text => simp [lexemes, text.whole]
  | name head path => simp [lexemes, head.whole, whole_dottedPath]

namespace TypeName

theorem whole_listed (xs : List (Atom Lexeme.isNumber)) : Whole (listed xs) := by
  cases xs with
  | nil => exact whole_nil
  | cons x xs =>
    have others : Whole (xs.flatMap fun y => [Kind.comma.lexeme, y.lexeme]) :=
      whole_flatMap fun y _ => by simp [whole_marks .comma (by decide), y.whole]
    simp [listed, whole_marks .lparen (by decide), whole_marks .rparen (by decide), x.whole, others]

theorem whole_zoned (zone : Option Bool) : Whole (zoned zone) := by
  have outside : Lexeme.ofText? without.raw = some without := by decide +kernel
  have time := whole_marks (.keyword .TIME) (by decide)
  have mark := whole_marks (.keyword .ZONE) (by decide)
  match zone with
  | none => exact whole_nil
  | some false => simp [zoned, outside, time, mark]
  | some true => simp [zoned, whole_marks (.keyword .WITH) (by decide), time, mark]

theorem whole (t : TypeName) : Whole t.lexemes := by
  have words : Whole (t.words.map (·.lexeme)) := by
    intro l member
    obtain ⟨w, _, rfl⟩ := mem_map.1 member
    exact w.whole
  have brackets : Whole (List.replicate t.dimensions [Kind.lbracket.lexeme, Kind.rbracket.lexeme]).flatten := by
    intro l member
    obtain ⟨pair, among, inside⟩ := mem_flatten.1 member
    have both : Whole [Kind.lbracket.lexeme, Kind.rbracket.lexeme] := by
      simp [whole_marks .lbracket (by decide), whole_marks .rbracket (by decide)]
    exact both l (eq_of_mem_replicate among ▸ inside)
  simp [lexemes, t.head.whole, whole_dottedPath, words, whole_listed, whole_zoned, brackets]

end TypeName

theorem CustomSign.whole (s : CustomSign) : Whole s.lexemes := by
  cases s with
  | plain sign => simp [lexemes, sign.whole]
  | qualified path sign =>
    have schema : Whole (path.flatMap fun l => [l.lexeme, Kind.dot.lexeme]) :=
      whole_flatMap fun l _ => by simp [whole_marks .dot (by decide), l.whole]
    simp [lexemes, whole_marks (.keyword .OPERATOR) (by decide), whole_marks .lparen (by decide),
      whole_marks .rparen (by decide), sign.whole, schema]

theorem whole_map_marks {ks : List Kind} (known : ∀ k ∈ ks, k ∈ marks) : Whole (ks.map Kind.lexeme) := by
  intro l member
  obtain ⟨k, among, rfl⟩ := mem_map.1 member
  exact whole_marks k (known k among)

theorem BinarySign.whole (op : BinarySign) : Whole op.lexemes := by
  match op with
  | custom sign => exact sign.whole
  | distinctFrom false => exact whole_map_marks (by decide)
  | distinctFrom true => exact whole_map_marks (by decide)
  | atTimeZone => exact whole_map_marks (by decide)
  | or | and | equals | notEquals | less | lessEqual | greater | greaterEqual | plus | minus | times | divided
  | modulo | power => simpa [lexemes] using whole_marks _ (by decide)

theorem UnarySign.whole (op : UnarySign) : Whole op.lexemes := by
  cases op with
  | custom sign => exact sign.whole
  | not | plus | minus => simpa [lexemes] using whole_marks _ (by decide)

namespace Formula

theorem whole_enclose {needed : Bool} (inner : Whole ls) : Whole (enclose needed ls) := by
  cases needed with
  | false => exact inner
  | true => simp [enclose, whole_marks .lparen (by decide), whole_marks .rparen (by decide), inner]

theorem whole_negation (negated : Bool) : Whole (negation negated) := by
  cases negated with
  | false => exact whole_nil
  | true => simp [negation, whole_marks (.keyword .NOT) (by decide)]

theorem whole {s : Shape} (e : Formula s) : Whole e.lexemes := by
  induction e with
  | column name => simp [lexemes, name.whole]
  | constant value => simp [lexemes, value.whole]
  | binary _ op _ left right => simp [lexemes, op.whole, whole_enclose left, whole_enclose right]
  | unary op _ ih => simp [lexemes, op.whole, whole_enclose ih]
  | test _ negated word ih =>
    have test : Lexeme.ofText? (Kind.keyword word.keyword).lexeme.raw = some (Kind.keyword word.keyword).lexeme :=
      whole_marks _ (by cases word <;> decide)
    simp [lexemes, whole_enclose ih, whole_negation, whole_marks (.keyword .IS) (by decide), test]
  | between _ negated symmetric _ _ target lower upper =>
    have mark : Whole (if symmetric then [(Kind.keyword .SYMMETRIC).lexeme] else []) := by
      cases symmetric with
      | false => exact whole_nil
      | true => simp [whole_marks (.keyword .SYMMETRIC) (by decide)]
    simp [lexemes, whole_enclose target, whole_enclose lower, whole_enclose upper, whole_negation, mark,
      whole_marks (.keyword .BETWEEN) (by decide), whole_marks (.keyword .AND) (by decide)]
  | within _ negated _ target items =>
    simp [lexemes, whole_enclose target, items, whole_negation, whole_marks (.keyword .IN) (by decide),
      whole_marks .lparen (by decide), whole_marks .rparen (by decide)]
  | like _ negated ignoreCase _ target pattern =>
    have word : Lexeme.ofText? (Kind.keyword (if ignoreCase then .ILIKE else .LIKE)).lexeme.raw =
        some (Kind.keyword (if ignoreCase then .ILIKE else .LIKE)).lexeme :=
      whole_marks _ (by cases ignoreCase <;> decide)
    simp [lexemes, whole_enclose target, whole_enclose pattern, whole_negation, word]
  | collate _ name ih =>
    simp [lexemes, whole_enclose ih, name.whole, whole_marks (.keyword .COLLATE) (by decide)]
  | cast _ type ih => simp [lexemes, whole_enclose ih, type.whole, whole_marks .typecast (by decide)]
  | last _ ih => exact ih
  | cons _ _ first rest => simp [lexemes, first, rest, whole_marks .comma (by decide)]

end Formula

/-! ### The first lexemes -/

/-- No dot comes first. -/
def Undotted (ls : List Lexeme) : Prop := ∀ l ∈ ls.head?, l.kind ≠ .dot

/-- An expression of the level `ℓ` starts here, maybe in parentheses, and its first name is not the
first of a path. -/
inductive Opens : Level → List Lexeme → Prop where
  | direct {ℓ : Level} {l : Lexeme} {ls : List Lexeme} (starts : ℓ.Starts l.kind) (other : l.kind ≠ .lparen)
      (follows : Undotted ls) : Opens ℓ (l :: ls)
  | nested {ℓ : Level} {ls : List Lexeme} (inner : Opens .or ls) : Opens ℓ (Kind.lparen.lexeme :: ls)

theorem Undotted.append (first : Undotted ls) (second : Undotted ks) : Undotted (ls ++ ks) := by
  cases ls with
  | nil => exact second
  | cons l ls => exact first

namespace Opens

variable {ℓ : Level} {ts : List Token}

theorem head (opens : Opens ℓ ls) : ∃ l ms, ls = l :: ms ∧ ℓ.Starts l.kind := by
  cases opens with
  | direct starts other follows => exact ⟨_, _, rfl, starts⟩
  | nested inner => exact ⟨_, _, rfl, .primary, rfl, ℓ.rank_le⟩

theorem undotted (opens : Opens ℓ ls) : Undotted ls := by
  obtain ⟨l, ms, rfl, m, start, _⟩ := opens.head
  intro l' same kind
  cases same
  rw [kind] at start
  cases start

theorem mono {k : Level} (opens : Opens ℓ ls) (below : k.rank ≤ ℓ.rank) : Opens k ls := by
  cases opens with
  | direct starts other follows => exact .direct (starts.mono below) other follows
  | nested inner => exact .nested inner

theorem append (opens : Opens ℓ ls) (follows : Undotted ks) : Opens ℓ (ls ++ ks) := by
  induction opens with
  | direct starts other inner => exact .direct starts other (inner.append follows)
  | nested _ ih => exact .nested ih

/-- No query starts where an expression does. -/
theorem no_query (opens : Opens ℓ ls) (same : ts.map Token.toLexeme = ls) (rest : List Token) :
    Grammar.leadsToQuery (ts ++ rest) = false := by
  induction opens generalizing ts with
  | @direct ℓ l ls starts other follows =>
    obtain ⟨t, us, rfl, rfl, _⟩ := map_eq_cons_iff.1 same
    obtain ⟨m, start, _⟩ := starts
    have free (k : Kind) (none : k.opens? = Option.none) : t.kind ≠ k := by
      rintro rfl
      exact absurd (none.symm.trans start) (by simp)
    simp [Grammar.leadsToQuery, other, free (.keyword .SELECT) rfl, free (.keyword .WITH) rfl,
      free (.keyword .VALUES) rfl]
  | nested _ ih =>
    obtain ⟨t, us, rfl, sign, inner⟩ := map_eq_cons_iff.1 same
    have kind : t.kind = .lparen := congrArg Lexeme.kind sign
    simpa [Grammar.leadsToQuery, kind] using ih inner

theorem no_query_inside (opens : Opens ℓ (ts.map Token.toLexeme)) {left : Token} (opening : left.kind = .lparen)
    (right : Token) (rest : List Token) : Grammar.Look.query.holds (left :: (ts ++ [right]) ++ rest) = false := by
  have inside := opens.no_query rfl ([right] ++ rest)
  simpa [Grammar.Look.holds, Grammar.leadsToQuery, opening] using inside

theorem ne_nil (opens : Opens ℓ (ts.map Token.toLexeme)) : ts ≠ [] := by
  rintro rfl
  cases opens

end Opens

theorem undotted_cons (other : l.kind ≠ .dot) : Undotted (l :: ls) := by
  rintro _ ⟨⟩
  exact other

theorem CustomSign.opens (s : CustomSign) (follows : Undotted ls) : Opens .customFront (s.lexemes ++ ls) := by
  cases s with
  | plain sign =>
    have kind : sign.lexeme.kind = .op := by simpa using sign.fit
    exact .direct ⟨.customFront, by rw [kind]; rfl, Nat.le_refl _⟩ (by simp [kind]) follows
  | qualified path sign => exact .direct ⟨.customFront, rfl, Nat.le_refl _⟩ (by decide) (undotted_cons (by decide))

theorem BinarySign.level_le_leftLevel (op : BinarySign) : op.level.rank ≤ op.leftLevel.rank := by
  unfold leftLevel
  split
  case isTrue same => rw [same]; decide
  case isFalse => exact Nat.le_refl _

theorem BinarySign.undotted (op : BinarySign) (ls : List Lexeme) : Undotted (op.lexemes ++ ls) := by
  match op with
  | custom (.plain sign) =>
    have kind : sign.lexeme.kind = .op := by simpa using sign.fit
    exact undotted_cons (by simp [kind])
  | custom (.qualified ..) | distinctFrom false | distinctFrom true => exact undotted_cons (by decide)
  | or | and | equals | notEquals | less | lessEqual | greater | greaterEqual | plus | minus | times | divided
  | modulo | power | atTimeZone => exact undotted_cons (by decide)

namespace Formula

theorem undotted_negation (negated : Bool) (other : l.kind ≠ .dot) : Undotted (negation negated ++ l :: ls) := by
  cases negated with
  | false => exact undotted_cons other
  | true => exact undotted_cons (by decide)

theorem opens_operand {s : Shape} {e : Formula s} (opens : Opens e.level e.lexemes) (ℓ : Level) :
    Opens ℓ (e.operand ℓ) := by
  unfold operand enclose
  split
  · exact .nested (.append (opens.mono (Nat.zero_le _)) (undotted_cons (by decide)))
  · rename_i high
    exact opens.mono (by simpa using high)

/-- Every formula starts as its level says. -/
theorem opens {s : Shape} (e : Formula s) : Opens e.level e.lexemes := by
  induction e with
  | column name =>
    have fit := name.fit
    have kind : name.lexeme.kind = .ident := by
      simp only [Lexeme.isColumn, Bool.and_eq_true, decide_eq_true_eq] at fit
      exact fit.1
    exact .direct ⟨.primary, by rw [kind]; rfl, Nat.le_refl _⟩ (by simp [kind]) (by simp [Undotted])
  | constant value =>
    have kind : value.lexeme.kind = .number ∨ value.lexeme.kind = .string := by
      simpa [Lexeme.isLiteral, Lexeme.isNumber, Lexeme.isString] using value.fit
    rcases kind with kind | kind
    all_goals exact .direct ⟨.primary, by rw [kind]; rfl, Nat.le_refl _⟩ (by simp [kind]) (by simp [Undotted])
  | binary _ op _ left _ =>
    exact ((opens_operand left op.leftLevel).mono op.level_le_leftLevel).append (op.undotted _)
  | unary op _ ih =>
    have follows := (opens_operand ih op.operandLevel).undotted
    cases op with
    | not => exact .direct ⟨.not, rfl, Nat.le_refl _⟩ (by decide) follows
    | plus | minus => exact .direct ⟨.sign, rfl, Nat.le_refl _⟩ (by decide) follows
    | custom sign => exact sign.opens follows
  | test _ negated word ih => exact (opens_operand ih .is).append (undotted_cons (by decide))
  | between _ negated _ _ _ target _ _ =>
    exact ((opens_operand target .within).mono (Level.rank_next .between)).append (undotted_negation _ (by decide))
  | within _ negated _ target _ =>
    exact ((opens_operand target .not).mono (Level.rank_next .within)).append (undotted_negation _ (by decide))
  | like _ negated ignoreCase _ target _ =>
    have word : (Kind.keyword (if ignoreCase then .ILIKE else .LIKE)).lexeme.kind ≠ .dot := by
      cases ignoreCase <;> decide
    exact ((opens_operand target .custom).mono (Level.rank_next .like)).append (undotted_negation _ word)
  | collate _ _ ih =>
    exact ((opens_operand ih .cast).mono (Level.rank_next .collate)).append (undotted_cons (by decide))
  | cast _ _ ih => exact (opens_operand ih .cast).append (undotted_cons (by decide))
  | last _ ih => exact ih.mono (Nat.zero_le _)
  | cons _ _ first _ => exact (first.mono (Nat.zero_le _)).append (undotted_cons (by decide))

end Formula

end TableLineage
