import TableLineage.Proofs.Formula.Basic
import TableLineage.Proofs.Grammar.Yields
import TableLineage.Proofs.Statement.Ready
import TableLineage.Proofs.Statement.Unplaced

/-! The ladder in the grammar. Each level has a symbol; it hands an operand of a stronger level
on, unless it finds one of its own operators in front or behind. -/
namespace TableLineage

open List
open Grammar (Symbol Look Step Part)
open Grammar.Look (isKey nextKey isAny isAnyKey)
open Grammar.Symbol (negatable qualOpAhead comparisons typeWords)

namespace Level

def symbol : Level → Symbol
  | or => .orExpr
  | and => .andExpr
  | between => .betweenExpr
  | within => .inExpr
  | not => .notExpr
  | isNull => .isNullExpr
  | is => .isExpr
  | compare => .compareExpr
  | like => .likeExpr
  | custom => .qualOpExpr
  | customFront => .prefixOpExpr
  | add => .addExpr
  | multiply => .mulExpr
  | caret => .caretExpr
  | sign => .signExpr
  | timeZone => .timeZoneExpr
  | collate => .collateExpr
  | cast => .castExpr
  | primary => .primary

/-- The rule of the nodes on a level; on the last one there are several. -/
def rule? : Level → Option Rule
  | or => some .aExprOr
  | and => some .aExprAnd
  | between => some .aExprBetween
  | within => some .aExprIn
  | not => some .aExprUnaryNot
  | isNull => some .aExprIsNull
  | is => some .aExprIsNot
  | compare => some .aExprCompare
  | like => some .aExprLike
  | custom => some .aExprQualOp
  | customFront => some .aExprUnaryQualOp
  | add => some .aExprAdd
  | multiply => some .aExprMul
  | caret => some .aExprCaret
  | sign => some .aExprUnarySign
  | timeZone => some .aExprAtTimeZone
  | collate => some .aExprCollate
  | cast => some .aExprTypecast
  | primary => none

/-- What goes on with an expression of the level, in place of ending it. -/
def goesOn : Level → Look
  | or => isAny [.keyword .OR]
  | and => isAny [.keyword .AND]
  | between => negatable [.BETWEEN]
  | within => negatable [.IN]
  | isNull => isAnyKey [.ISNULL, .NOTNULL]
  | is => isKey .IS
  | compare => isAny comparisons
  | like => .either (.either (negatable [.LIKE, .ILIKE]) (negatable [.SIMILAR])) (isKey .ESCAPE)
  | custom => qualOpAhead
  | add => isAny [.plus, .minus]
  | multiply => isAny [.star, .slash, .percent]
  | caret => isAny [.caret]
  | timeZone => .both (isKey .AT) (nextKey .TIME)
  | collate => isKey .COLLATE
  | cast => Look.is .typecast
  -- Names, types and calls go on with these.
  | primary =>
    .either (isAny [.dot, .lbracket, .lparen, .string, .keyword .WITH])
      (.either (.ahead 0 (.amongWords typeWords)) (.ahead 0 (.word "without")))
  | not | customFront | sign => isAny []

end Level

/-- An expression of the level `ℓ` ends in front of the tokens. -/
structure Ends (ℓ : Level) (rest : List Token) : Prop where
  more : rest ≠ []
  stops : ∀ k : Level, ℓ.rank ≤ k.rank → k.goesOn.holds rest = false

variable {e : Formula .single} {source : List Char} {rest ts us : List Token} {t : Token} {r : Rule} {k : Kind}

theorem Ends.mono {ℓ k : Level} (ends : Ends ℓ rest) (above : ℓ.rank ≤ k.rank) : Ends k rest :=
  ⟨ends.more, fun j higher => ends.stops j (Nat.le_trans above higher)⟩

namespace Level

theorem rank_next (ℓ : Level) : ℓ.rank ≤ ℓ.next.rank := by
  cases ℓ <;> decide

theorem rank_le (ℓ : Level) : ℓ.rank ≤ 18 := by
  cases ℓ <;> decide

/-- The levels in their order. -/
def ladder : List Level :=
  [or, and, between, within, not, isNull, is, compare, like, custom, customFront, add, multiply, caret, sign,
   timeZone, collate, cast, primary]

theorem ladder_rank (ℓ : Level) : ladder[ℓ.rank]? = some ℓ := by
  cases ℓ <;> rfl

theorem rank_inj {ℓ k : Level} (same : ℓ.rank = k.rank) : ℓ = k :=
  Option.some.inj (by rw [← ladder_rank ℓ, ← ladder_rank k, same])

theorem rank_next_of_ne {ℓ : Level} (other : ℓ ≠ primary) : ℓ.next.rank = ℓ.rank + 1 := by
  cases ℓ <;> first | rfl | exact absurd rfl other

end Level

/-- The strongest level that starts with a token of the kind, if any does. -/
def Kind.opens? : Kind → Option Level
  | .ident | .number | .string | .lparen => some .primary
  | .plus | .minus => some .sign
  | .op | .keyword .OPERATOR => some .customFront
  | .keyword .NOT => some .not
  | _ => none

/-- An expression of the level `ℓ` may start with a token of the kind. -/
def Level.Starts (ℓ : Level) (k : Kind) : Prop := ∃ m : Level, k.opens? = some m ∧ ℓ.rank ≤ m.rank

theorem Level.Starts.mono {ℓ m : Level} (starts : ℓ.Starts k) (below : m.rank ≤ ℓ.rank) : m.Starts k := by
  obtain ⟨n, opens, above⟩ := starts
  exact ⟨n, opens, Nat.le_trans below above⟩

/-- A token that starts weaker levels only is none that starts the level. -/
theorem Level.Starts.ne {ℓ m : Level} {j : Kind} (starts : ℓ.Starts k) (opens : j.opens? = some m)
    (below : m.rank < ℓ.rank) : k ≠ j := by
  rintro rfl
  obtain ⟨n, same, above⟩ := starts
  rw [opens] at same
  cases same
  exact absurd above (Nat.not_le.2 below)

namespace Grammar.Look

variable (t : Token) (ts : List Token)

@[simp] theorem holds_is (k : Kind) : (is k).holds (t :: ts) = decide (t.kind = k) := rfl

@[simp] theorem holds_isKey (k : Keyword) : (isKey k).holds (t :: ts) = decide (t.kind = .keyword k) := rfl

@[simp] theorem holds_isAny (ks : List Kind) : (isAny ks).holds (t :: ts) = ks.contains t.kind := rfl

end Grammar.Look

/-! ### Ends -/

/-- The strongest level that goes on with a token of the kind, if any does. -/
def Kind.follows? : Kind → Option Level
  | .keyword .OR => some .or
  | .keyword .AND => some .and
  | .keyword .BETWEEN => some .between
  | .keyword .IN => some .within
  | .keyword .ISNULL | .keyword .NOTNULL => some .isNull
  | .keyword .IS => some .is
  | .eq | .ne | .lt | .gt | .le | .ge => some .compare
  | .keyword .NOT | .keyword .LIKE | .keyword .ILIKE | .keyword .SIMILAR | .keyword .ESCAPE => some .like
  | .op | .keyword .OPERATOR => some .custom
  | .plus | .minus => some .add
  | .star | .slash | .percent => some .multiply
  | .caret => some .caret
  | .keyword .AT => some .timeZone
  | .keyword .COLLATE => some .collate
  | .typecast => some .cast
  | .dot | .lbracket | .lparen | .string | .keyword .WITH | .ident => some .primary
  | _ => none

/-- A token of the kind may go on with an expression of the level `ℓ` or a stronger one. -/
def Kind.mayFollow (ℓ : Level) (k : Kind) : Bool := (k.follows?.map fun m => decide (ℓ.rank ≤ m.rank)).getD false

theorem Kind.mayFollow_mono {ℓ m : Level} (below : ℓ.rank ≤ m.rank) (follows : k.mayFollow m = true) :
    k.mayFollow ℓ = true := by
  unfold mayFollow at follows ⊢
  cases known : k.follows? with
  | none => simp [known] at follows
  | some n =>
    have above : m.rank ≤ n.rank := by simpa [known] using follows
    simpa using Nat.le_trans below above

namespace Level

theorem mayFollow_of_isAny {ℓ : Level} {ks : List Kind} (known : ∀ k ∈ ks, k.mayFollow ℓ = true)
    (goes : (isAny ks).holds (t :: us) = true) : t.kind.mayFollow ℓ = true :=
  known _ (by simpa using goes)

theorem mayFollow_of_negatable {ℓ : Level} {ks : List Keyword} (known : ∀ k ∈ ks, (Kind.keyword k).mayFollow ℓ = true)
    (not : (Kind.keyword .NOT).mayFollow ℓ = true) (goes : (negatable ks).holds (t :: us) = true) :
    t.kind.mayFollow ℓ = true := by
  rcases Bool.or_eq_true_iff.1 goes with plain | negated
  · exact mayFollow_of_isAny (by simpa using known) plain
  · have kind : t.kind = .keyword .NOT := by simpa using (Bool.and_eq_true_iff.1 negated).1
    rwa [kind]

/-- What goes on with an expression shows in its first token. -/
theorem mayFollow_of_goesOn {ℓ : Level} (word : t.isWord "without" = false) (goes : ℓ.goesOn.holds (t :: us) = true) :
    t.kind.mayFollow ℓ = true := by
  cases ℓ with
  | or | and | compare | add | multiply | caret | isNull | not | customFront | sign =>
    exact mayFollow_of_isAny (by decide) goes
  | between | within => exact mayFollow_of_negatable (by decide) rfl goes
  | like =>
    rcases Bool.or_eq_true_iff.1 goes with pattern | escape
    · rcases Bool.or_eq_true_iff.1 pattern with plain | similar
      · exact mayFollow_of_negatable (by decide) rfl plain
      · exact mayFollow_of_negatable (by decide) rfl similar
    · have kind : t.kind = .keyword .ESCAPE := of_decide_eq_true escape
      rw [kind]
      rfl
  | is | collate | cast =>
    have kind := of_decide_eq_true goes
    exact (congrArg _ kind).trans rfl
  | timeZone =>
    have kind : t.kind = .keyword .AT := of_decide_eq_true (Bool.and_eq_true_iff.1 goes).1
    rw [kind]
    rfl
  | custom =>
    rcases Bool.or_eq_true_iff.1 goes with plain | qualified
    · have kind : t.kind = .op := of_decide_eq_true plain
      rw [kind]
      rfl
    · have kind : t.kind = .keyword .OPERATOR := of_decide_eq_true (Bool.and_eq_true_iff.1 qualified).1
      rw [kind]
      rfl
  | primary =>
    rcases Bool.or_eq_true_iff.1 goes with mark | words
    · exact mayFollow_of_isAny (by decide) mark
    · rcases Bool.or_eq_true_iff.1 words with known | outside
      · have kind : t.kind = .ident := of_decide_eq_true (Bool.and_eq_true_iff.1 (Bool.and_eq_true_iff.1 known).1).1
        rw [kind]
        rfl
      · exact absurd (word.symm.trans outside) Bool.false_ne_true

/-- An operator word does no less without `NOT` in front of it. -/
theorem goesOn_of_negated {ℓ : Level} (kind : t.kind = .keyword .NOT) (word : t.isWord "without" = false)
    (goes : ℓ.goesOn.holds (t :: us) = true) : ℓ.goesOn.holds us = true := by
  have negated {ks : List Keyword} (other : .NOT ∉ ks) (goes : (negatable ks).holds (t :: us) = true) :
      (negatable ks).holds us = true := by
    rcases Bool.or_eq_true_iff.1 goes with plain | second
    · have among : t.kind ∈ ks.map .keyword := by simpa [isAnyKey] using plain
      rw [kind] at among
      obtain ⟨k, member, same⟩ := mem_map.1 among
      cases same
      exact absurd member other
    · exact Bool.or_eq_true_iff.2 (.inl (Bool.and_eq_true_iff.1 second).2)
  have strong := mayFollow_of_goesOn word goes
  rw [kind] at strong
  cases ℓ with
  | between | within => exact negated (by decide) goes
  | like =>
    have pattern := Bool.or_eq_true_iff.1 (by simpa [goesOn, Look.holds, kind] using goes)
    refine Bool.or_eq_true_iff.2 (.inl (Bool.or_eq_true_iff.2 ?_))
    rcases pattern with plain | similar
    · exact .inl (negated (by decide) plain)
    · exact .inr (negated (by decide) similar)
  | or | and | isNull | compare | add | multiply | caret | not | customFront | sign =>
    simp [goesOn, isAnyKey, comparisons, kind] at goes
  | is => simp [goesOn, kind] at goes
  | custom | timeZone | collate | cast | primary => exact absurd strong (by decide)

end Level

namespace Ends

variable {ℓ : Level}

theorem of_kind (stops : t.kind.mayFollow ℓ = false) (word : t.isWord "without" = false) : Ends ℓ (t :: us) := by
  refine ⟨cons_ne_nil _ _, fun k above => ?_⟩
  rw [Bool.eq_false_iff]
  intro goes
  have follows := Kind.mayFollow_mono above (k.mayFollow_of_goesOn word goes)
  exact absurd (stops.symm.trans follows) Bool.false_ne_true

/-- A sign, a bracket or the end of the text. -/
theorem of_sign (stops : t.kind.mayFollow ℓ = false) (sign : t.isLabel = false) : Ends ℓ (t :: us) :=
  of_kind stops (by rw [Lexeme.isWord, sign, Bool.and_false, Bool.false_and])

theorem negated (ends : Ends ℓ us) (kind : t.kind = .keyword .NOT) (word : t.isWord "without" = false) :
    Ends ℓ (t :: us) := by
  refine ⟨cons_ne_nil _ _, fun k above => ?_⟩
  rw [Bool.eq_false_iff]
  intro goes
  have also := k.goesOn_of_negated kind word goes
  exact absurd ((ends.stops k above).symm.trans also) Bool.false_ne_true

end Ends

/-! ### How trees read -/

namespace Tree

@[simp] theorem isLeaf_leaf (t : Token) : (leaf t).isLeaf = true := rfl

theorem is_of_node {t : Tree} (node : t.isLeaf = false) (k : Kind) : t.is k = false := by
  cases t with
  | leaf => cases node
  | node => rfl

variable (source : List Char) (r : Rule) (ts : List Token) (kids : List Tree)

@[simp] theorem rule?_covering : (covering source r ts kids).rule? = some r := rfl

@[simp] theorem children_covering : (covering source r ts kids).children = kids := rfl

end Tree

/-- Names stay as they are, and expressions are read. -/
def ReadMode.exact : ReadMode := ⟨false, false⟩

namespace Tree

/-- The tree reads as the formula, at some place. -/
def Means (t : Tree) (e : Formula .single) : Prop :=
  (t.rule?.map Rule.isExpression).getD false = true ∧ ∃ x, t.read .exact .expr = .ok x ∧ x.unplaced = e.expr

theorem Means.not_leaf {t : Tree} (means : t.Means e) : t.isLeaf = false := by
  cases t with
  | leaf => cases means.1
  | node => rfl

end Tree

theorem Opened.expr_means {t : Tree} (means : t.Means e) :
    ∃ x, x.unplaced = e.expr ∧ ∀ o : Opened, o.mode = .exact → o.expr (t.kid .exact) = .ok x := by
  obtain ⟨expression, x, read, same⟩ := means
  refine ⟨x, same, fun o mode => ?_⟩
  rw [Opened.expr, mode, Tree.kid_tree, expression]
  exact read

theorem Formula.not_hole {x : Expr} (same : x.unplaced = e.expr) : x.isHole = false := by
  cases x with
  | hole => cases e <;> cases same
  | _ => rfl

/-- A level without an operator reads as its operand. -/
theorem Tree.means_single {ℓ : Level} (rule : ℓ.rule? = some r) {t : Tree} (means : t.Means e) (source : List Char)
    (ts : List Token) : (Tree.covering source r ts [t]).Means e := by
  obtain ⟨x, same, read⟩ := Opened.expr_means means
  have node := means.not_leaf
  have single (rest : Outcome Expr) : ((Tree.covering source r ts [t]).opened .exact).level rest = .ok x := by
    cases t with
    | leaf => cases node
    | node => exact read _ rfl
  refine ⟨by cases ℓ <;> cases rule <;> rfl, x, ?_, same⟩
  rw [Tree.read_eq]
  cases ℓ <;> cases rule <;> exact single _

/-! ### Standing on a level -/

/-- In front of tokens that end it, the tokens `ts` are read on the level `ℓ` as the formula `e`. The
last condition is on how deep productions may be nested. -/
def Stands (source : List Char) (ℓ : Level) (ts : List Token) (e : Formula .single) : Prop :=
  ∀ rest, Ends ℓ rest → ∀ d, 32 * ts.length + (18 - ℓ.rank) ≤ d →
    ∃ t, (Symbol.run source d ℓ.symbol).Yields ts rest [t] ∧ (∀ r, ℓ.rule? = some r → t.rule? = some r) ∧ t.Means e

/-- A level stands on what its production reads under its node. -/
theorem Stands.of_node {ℓ : Level} {body : Symbol.Production} (rule : ℓ.rule? = some r)
    (production : Symbol.production ℓ.symbol = .node r body) (some : ts ≠ [])
    (reads : ∀ rest, Ends ℓ rest → ∀ d, 32 * ts.length + (18 - ℓ.rank) ≤ d + 1 →
      ∃ kids, Part.Yields source (Symbol.run source d) body ts rest kids ∧
        ∃ x, x.unplaced = e.expr ∧ ((Tree.covering source r ts kids).opened .exact).readExpr = .ok x) :
    Stands source ℓ ts e := by
  intro rest ends d deep
  have positive := length_pos_iff.2 some
  obtain ⟨d, rfl⟩ : ∃ n, d = n + 1 := ⟨d - 1, by omega⟩
  obtain ⟨kids, yields, x, same, read⟩ := reads rest ends d deep
  refine ⟨.covering source r ts kids, ?_, ?_, ?_, x, ?_, same⟩
  · intro acc read last
    change (Symbol.production ℓ.symbol).run source (Symbol.run source d) acc _ = _
    rw [production]
    exact Part.Yields.node yields some acc read last
  · intro r' same
    rw [← same, rule]
    rfl
  · cases ℓ <;> cases rule <;> rfl
  · rw [Tree.read_eq]
    exact read

namespace Grammar.Part.Yields

variable {enter : Symbol → Step} {p q : Symbol.Production} {ks : List Tree}

theorem alone (first : Yields source enter p ts rest ks) (none : Yields source enter q [] rest []) :
    Yields source enter (.seq p q) ts rest ks := by
  have both : Yields source enter (.seq p q) (ts ++ []) rest (ks ++ []) := seq first none
  rwa [append_nil, append_nil] at both

/-- An operand without the operators that might follow it. -/
theorem skip_loop {l : Look} (first : Yields source enter p ts rest ks) (stopped : l.holds rest = false) :
    Yields source enter (.seq p (.loop l q)) ts rest ks :=
  first.alone (.loop (.stop stopped))

theorem skip_branch {l : Look} {r : Symbol.Production} (first : Yields source enter p ts rest ks)
    (stopped : l.holds rest = false) (none : Yields source enter r [] rest []) :
    Yields source enter (.seq p (.branch l q r)) ts rest ks :=
  first.alone (.branch_neg stopped none)

end Grammar.Part.Yields

/-- A level passes an operand of the next one on. -/
theorem Level.passes {enter : Symbol → Step} {ℓ : Level} {tree : Tree} (rule : ℓ.rule? = some r) (ends : Ends ℓ rest)
    (starts : ℓ.next.Starts t.kind) (operand : (enter ℓ.next.symbol).Yields (t :: us) rest [tree]) :
    Part.Yields source enter (Symbol.production ℓ.symbol) (t :: us) rest [.covering source r (t :: us) [tree]] := by
  have stops := ends.stops ℓ (Nat.le_refl _)
  have some : t :: us ≠ [] := cons_ne_nil _ _
  cases ℓ <;> cases rule
  case or | and | isNull | is | custom | add | multiply | caret | timeZone | cast =>
    exact .node (.skip_loop operand stops) some
  case between | within | compare | collate => exact .node (.skip_branch operand stops .done) some
  case like =>
    obtain ⟨plain, similar⟩ := Bool.or_eq_false_iff.1 (Bool.or_eq_false_iff.1 stops).1
    exact .node (.skip_branch operand plain (.branch_neg similar .done)) some
  case not =>
    have other : t.kind ≠ .keyword .NOT := starts.ne rfl (by decide)
    exact .node (.branch_neg (by simpa using other) operand) some
  case sign =>
    have plus : t.kind ≠ .plus := starts.ne rfl (by decide)
    have minus : t.kind ≠ .minus := starts.ne rfl (by decide)
    exact .node (.branch_neg (by simp [plus, minus]) operand) some
  case customFront =>
    have plain : t.kind ≠ .op := starts.ne rfl (by decide)
    have qualified : t.kind ≠ .keyword .OPERATOR := starts.ne rfl (by decide)
    have ahead : qualOpAhead.holds (t :: us ++ rest) = false := by
      simp [qualOpAhead, Look.holds, plain, qualified]
    have none : Part.Yields source enter (Part.opt qualOpAhead (.call .qualOp)) [] (t :: us ++ rest) [] :=
      .branch_neg ahead .done
    exact .node (.seq none operand) some

theorem Stands.descend {ℓ : Level} (stands : Stands source ℓ.next ts e) (inner : ℓ ≠ .primary) (head : ts = t :: us)
    (starts : ℓ.next.Starts t.kind) : Stands source ℓ ts e := by
  intro rest ends d deep
  subst head
  have rank := ℓ.rank_next_of_ne inner
  have least := ℓ.next.rank_le
  obtain ⟨d, rfl⟩ : ∃ n, d = n + 1 := ⟨d - 1, by omega⟩
  obtain ⟨tree, yields, _, means⟩ := stands rest (ends.mono ℓ.rank_next) d (by omega)
  obtain ⟨r, rule⟩ : ∃ r, ℓ.rule? = some r := by cases ℓ <;> first | exact ⟨_, rfl⟩ | exact absurd rfl inner
  refine ⟨_, ℓ.passes rule ends starts yields, ?_, Tree.means_single rule means source _⟩
  intro r' same
  rw [← same, rule]
  rfl

/-- What stands on a level stands on every weaker one. -/
theorem Stands.lower {ℓ k : Level} (stands : Stands source k ts e) (head : ts = t :: us) (starts : k.Starts t.kind)
    (below : ℓ.rank ≤ k.rank) : Stands source ℓ ts e := by
  generalize distance : k.rank - ℓ.rank = n
  induction n generalizing ℓ with
  | zero =>
    obtain rfl := Level.rank_inj (show ℓ.rank = k.rank by omega)
    exact stands
  | succ n ih =>
    have inner : ℓ ≠ .primary := by
      rintro rfl
      have least := k.rank_le
      have top : Level.primary.rank = 18 := rfl
      omega
    have next := Level.rank_next_of_ne inner
    have above : Stands source ℓ.next ts e := ih (by omega) (by omega)
    exact above.descend inner head (starts.mono (by omega))

end TableLineage
