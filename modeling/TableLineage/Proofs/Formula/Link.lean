import TableLineage.Proofs.Formula.Chain
import TableLineage.Proofs.Formula.Names

/-! The links of chains: each operator that chains, with what it takes. -/
namespace TableLineage

open List
open Grammar (Symbol Look Step Part Class)
open Grammar.Look (nextKey next isAny isAnyKey)

variable {source : List Char} {ℓ : Level} {rest ts us : List Token} {l r e : Formula .single}

/-- A word that may be left out. -/
theorem optional_cases {k : Keyword} {present : Bool}
    (same : ts.map Token.toLexeme = if present then [(Kind.keyword k).lexeme] else []) :
    (present = false ∧ ts = []) ∨ (present = true ∧ ∃ t : Token, ts = [t] ∧ t.toLexeme = (Kind.keyword k).lexeme) := by
  cases present with
  | false => exact .inl ⟨rfl, map_eq_nil_iff.1 same⟩
  | true =>
    obtain ⟨t, rfl, here⟩ := map_eq_singleton_iff.1 same
    exact .inr ⟨rfl, t, rfl, here⟩

theorem yields_optKey {k : Keyword} {present : Bool}
    (same : ts.map Token.toLexeme = if present then [(Kind.keyword k).lexeme] else []) (more : rest ≠ [])
    (other : (isAnyKey [k]).holds rest = false) {enter : Symbol → Step} :
    Part.Yields source enter (Symbol.optKey [k]) ts rest (ts.map .leaf) := by
  obtain ⟨_, rfl⟩ | ⟨_, t, rfl, here⟩ := optional_cases same
  · exact .branch_neg other .done
  · have kind : t.kind = .keyword k := congrArg Lexeme.kind here
    exact .branch_pos (by simp [isAnyKey, kind]) (.take (by simp [kind]) more)

/-- A link that ends in an operand makes one operation of all before it and that operand. -/
theorem Level.applies_binary {link : List Tree} {t : Tree} {op : BinarySign} (means : t.Means r)
    (step : ∀ (o : Opened) (old : String) (x y : Expr), x.isHole = false →
      (∀ next, o.operand (t.kid .exact) next = next y) → ∃ new, ∀ more,
        ℓ.apply o old (link.map (Tree.kid .exact) ++ more) x =
          ℓ.apply o new more (.binary (x.span.cover y.span) x op.op y)) :
    ℓ.Applies link l (.binary l op r) := by
  obtain ⟨y, second, reads⟩ := Level.operand_of_means means
  intro o mode old x first
  obtain ⟨new, same⟩ := step o old x y (Formula.not_hole first) (reads o mode).2
  refine ⟨new, .binary (x.span.cover y.span) x op.op y, ?_, same⟩
  change Phrase.binary .none x.unplaced _ y.unplaced = _
  rw [first, second]
  rfl

namespace CustomSign

theorem ahead {sign : CustomSign} (same : ts.map Token.toLexeme = sign.lexemes) :
    Symbol.qualOpAhead.holds (ts ++ rest) = true := by
  cases sign with
  | plain sign =>
    obtain ⟨t, _, rfl, here, _⟩ := map_eq_cons_iff.1 same
    have kind : t.kind = .op := of_decide_eq_true (Atom.holds here)
    simp [Symbol.qualOpAhead, Look.holds, kind]
  | qualified path sign =>
    obtain ⟨word, _, rfl, mark, after⟩ := map_eq_cons_iff.1 same
    obtain ⟨left, _, rfl, opening, _⟩ := map_eq_cons_iff.1 after
    have operator : word.kind = .keyword .OPERATOR := congrArg Lexeme.kind mark
    have opens : left.kind = .lparen := congrArg Lexeme.kind opening
    simp [Symbol.qualOpAhead, Look.holds, Look.next, Class.holds, Grammar.peek, operator, opens]

theorem ends {sign : CustomSign} (same : ts.map Token.toLexeme = sign.lexemes) : Ends .customFront (ts ++ rest) := by
  cases sign with
  | plain sign =>
    obtain ⟨t, _, rfl, here, _⟩ := map_eq_cons_iff.1 same
    have kind : t.kind = .op := of_decide_eq_true (Atom.holds here)
    exact .of_sign (by rw [kind]; rfl) (by simp [Lexeme.isLabel, kind, Kind.isKeyword])
  | qualified path sign =>
    obtain ⟨word, _, rfl, mark, _⟩ := map_eq_cons_iff.1 same
    exact .of_mark mark (by decide) rfl

end CustomSign

namespace Link

/-- A sign or a word between two operands. -/
theorem sign {t : Token} {k : Kind} {op : BinarySign} {ks : List Kind} {ops : Kind → Option BinaryOp}
    (mark : t.toLexeme = k.lexeme) (known : k ∈ marks) (right : Stands source ℓ.next us r)
    (chains : ℓ.link? = .some (.seq .take (.call ℓ.next.symbol)))
    (fold : ∀ o text links x, ℓ.apply o text links x = o.foldBinary ops links (.some x) none)
    (looks : ℓ.goesOn = isAny ks) (among : k ∈ ks) (stops : k.mayFollow ℓ.next = false) (code : ops k = .some op.op) :
    Link source ℓ (t :: us) l (.binary l op r) := by
  have kind : t.kind = k := congrArg Lexeme.kind mark
  have legal : t.kind ≠ .illegal := by
    rw [kind]
    rintro rfl
    exact absurd known (by decide)
  refine ⟨cons_ne_nil _ _, fun rest => ?_, fun rest => .of_mark mark known stops, ?_⟩
  · rw [looks]
    simpa [kind] using among
  · intro p chain rest ends d deep
    rw [chains] at chain
    cases chain
    rw [length_cons] at deep
    obtain ⟨tree, yields, _, means⟩ := right rest ends d (by omega)
    refine ⟨[.leaf t, tree], by simp, .seq (.take legal (by simp [ends.more])) (.call yields), ?_⟩
    refine Level.applies_binary means fun o text x y _ operand => ⟨text, fun more => ?_⟩
    rw [fold, fold]
    simp [Opened.foldBinary, means.not_leaf, operand, Tree.token, kind, code]

variable {nots : List Token} {negated : Bool} {word : Token}

/-- `IS`, maybe `NOT`, and a test `vs`. -/
theorem tested {vs : List Token} (mark : word.toLexeme = (Kind.keyword .IS).lexeme)
    (same : nots.map Token.toLexeme = Formula.negation negated)
    (other : ∀ rest, (isAnyKey [.NOT]).holds (vs ++ rest) = false)
    (test : ∀ rest, Ends .compare rest → ∀ d, 32 * vs.length + 11 ≤ d →
      ∃ kids, Part.Yields source (Symbol.run source d) Level.test vs rest kids ∧
        Level.is.Applies (.leaf word :: (nots.map .leaf ++ kids)) l e) :
    Link source .is (word :: (nots ++ vs)) l e := by
  have kind : word.kind = .keyword .IS := congrArg Lexeme.kind mark
  refine ⟨cons_ne_nil _ _, fun rest => by simp [Level.goesOn, kind],
    fun rest => .of_mark mark (by decide) rfl, ?_⟩
  rintro p ⟨⟩ rest ends d deep
  rw [length_cons, length_append] at deep
  have rank : 18 - Level.is.next.rank = 11 := rfl
  obtain ⟨kids, yields, applies⟩ := test rest ends d (by omega)
  have more : vs ++ rest ≠ [] := by simp [ends.more]
  have first : Part.Yields source (Symbol.run source d) .take [word] (nots ++ vs ++ rest) [.leaf word] :=
    .take (by simp [kind]) (by simp [ends.more])
  exact ⟨_, cons_ne_nil _ _, .seq first (.seq (yields_optKey same more (other rest)) yields), applies⟩

theorem distinct {distinctWord fromWord : Token} (mark : word.toLexeme = (Kind.keyword .IS).lexeme)
    (same : nots.map Token.toLexeme = Formula.negation negated)
    (first : distinctWord.toLexeme = (Kind.keyword .DISTINCT).lexeme)
    (second : fromWord.toLexeme = (Kind.keyword .FROM).lexeme) (right : Stands source .compare us r) :
    Link source .is (word :: (nots ++ distinctWord :: fromWord :: us)) l (.binary l (.distinctFrom negated) r) := by
  have isKind : word.kind = .keyword .IS := congrArg Lexeme.kind mark
  have distinctKind : distinctWord.kind = .keyword .DISTINCT := congrArg Lexeme.kind first
  have fromKind : fromWord.kind = .keyword .FROM := congrArg Lexeme.kind second
  refine tested mark same (fun rest => by simp [isAnyKey, distinctKind]) fun rest ends d deep => ?_
  rw [length_cons, length_cons] at deep
  have rank : 18 - Level.compare.rank = 11 := rfl
  obtain ⟨tree, yields, _, means⟩ := right rest ends d (by omega)
  have test : Part.Yields source (Symbol.run source d) Level.test (distinctWord :: fromWord :: us) rest
      [.leaf distinctWord, .leaf fromWord, tree] :=
    .branch_neg (by simp [isAnyKey, distinctKind]) (.branch_pos (by simp [distinctKind])
      (.seq (.take (by simp [distinctKind]) (by simp))
        (.seq (.tok fromKind (by simp) (by simp [ends.more])) (.call yields))))
  refine ⟨_, test, ?_⟩
  refine Level.applies_binary means fun o text x y filled operand => ⟨text, fun more => ?_⟩
  have leaf := means.not_leaf
  change o.isTests _ x = o.isTests more _
  conv => lhs; unfold Opened.isTests
  obtain ⟨rfl, rfl⟩ | ⟨rfl, t, rfl, here⟩ := optional_cases same
  · simp [Opened.distinctTest, Tree.is, isKind, distinctKind, fromKind, leaf, filled, operand, bind, Except.bind,
      BinarySign.op]
  · have kind : t.kind = .keyword .NOT := congrArg Lexeme.kind here
    simp [Opened.distinctTest, Tree.is, isKind, distinctKind, fromKind, kind, leaf, filled, operand, bind,
      Except.bind, BinarySign.op]

theorem worded {test : Token} {asked : TestWord} (mark : word.toLexeme = (Kind.keyword .IS).lexeme)
    (same : nots.map Token.toLexeme = Formula.negation negated)
    (question : test.toLexeme = (Kind.keyword asked.keyword).lexeme) :
    Link source .is (word :: (nots ++ [test])) l (.test l negated asked) := by
  have isKind : word.kind = .keyword .IS := congrArg Lexeme.kind mark
  have testKind : test.kind = .keyword asked.keyword := congrArg Lexeme.kind question
  have other : asked.keyword ≠ .NOT ∧ asked.keyword ≠ .DISTINCT := by cases asked <;> decide
  have coded : Opened.isTest negated (.keyword asked.keyword) = .some (asked.op negated) := by
    cases asked <;> cases negated <;> rfl
  refine tested mark same (fun rest => by simp [isAnyKey, testKind, other]) fun rest ends d deep => ?_
  refine ⟨[.leaf test], .branch_pos ?_ (.take (by simp [testKind]) ends.more), ?_⟩
  · cases asked <;> simp [isAnyKey, testKind, TestWord.keyword]
  intro o mode text x first
  refine ⟨text, .unary (x.span.cover (Tree.leaf test).span) (asked.op negated) x, ?_, fun more => ?_⟩
  · change Phrase.unary .none _ x.unplaced = _
    rw [first]
    rfl
  · have filled := Formula.not_hole first
    change o.isTests _ x = o.isTests more _
    conv => lhs; unfold Opened.isTests
    obtain ⟨rfl, rfl⟩ | ⟨rfl, t, rfl, here⟩ := optional_cases same
    · simp [Opened.wordTest, Tree.is, Tree.token, isKind, testKind, other, filled, coded, bind, Except.bind]
    · have kind : t.kind = .keyword .NOT := congrArg Lexeme.kind here
      simp [Opened.wordTest, Tree.is, Tree.token, isKind, testKind, other, filled, coded, kind, bind, Except.bind]

theorem custom {sign : CustomSign} (same : ts.map Token.toLexeme = sign.lexemes)
    (right : Stands source .customFront us r) : Link source .custom (ts ++ us) l (.binary l (.custom sign) r) := by
  have some := sign.tokens_ne_nil same
  have positive := length_pos_iff.2 some
  refine ⟨by simp [some], fun rest => ?_, fun rest => ?_, ?_⟩
  · rw [append_assoc]
    exact sign.ahead same
  · rw [append_assoc]
    exact sign.ends same
  · rintro p ⟨⟩ rest ends d deep
    rw [length_append] at deep
    obtain ⟨tree, yields, rule, means⟩ := right rest ends d (by omega)
    obtain ⟨d, rfl⟩ : ∃ n, d = n + 1 := ⟨d - 1, by omega⟩
    have more : us ++ rest ≠ [] := by simp [ends.more]
    obtain ⟨op, named, opRule, opText⟩ := sign.yields source same more d
    refine ⟨[op, tree], by simp, .seq (.call named) (.call yields), ?_⟩
    have found : op.hasRule .qualOp = true := by simp [Tree.hasRule, opRule]
    have other : tree.hasRule .qualOp = false := by simp [Tree.hasRule, rule _ rfl]
    refine Level.applies_binary means fun o text x y _ operand => ⟨sign.text, fun more => ?_⟩
    simp [Level.apply, Opened.foldCustom, Opened.customOp, BinarySign.op, found, other, operand, opText]

theorem zoned {at' time zone : Token} (first : at'.toLexeme = (Kind.keyword .AT).lexeme)
    (second : time.toLexeme = (Kind.keyword .TIME).lexeme) (third : zone.toLexeme = (Kind.keyword .ZONE).lexeme)
    (right : Stands source .collate us r) :
    Link source .timeZone (at' :: time :: zone :: us) l (.binary l .atTimeZone r) := by
  have atKind : at'.kind = .keyword .AT := congrArg Lexeme.kind first
  have timeKind : time.kind = .keyword .TIME := congrArg Lexeme.kind second
  have zoneKind : zone.kind = .keyword .ZONE := congrArg Lexeme.kind third
  refine ⟨cons_ne_nil _ _, fun rest => ?_, fun rest => .of_mark first (by decide) rfl, ?_⟩
  · simp [Level.goesOn, Look.holds, nextKey, Look.next, Class.holds, Grammar.peek, atKind, timeKind]
  · rintro p ⟨⟩ rest ends d deep
    simp only [length_cons] at deep
    obtain ⟨tree, yields, _, means⟩ := right rest ends d (by omega)
    have pair : Part.Yields source (Symbol.run source d) Part.two [at', time] (zone :: us ++ rest) _ :=
      .two (by simp [atKind]) (by simp [timeKind]) (by simp)
    refine ⟨_, by simp, .seq pair (.seq (.tok zoneKind (by simp) (by simp [ends.more])) (.call yields)), ?_⟩
    refine Level.applies_binary means fun o text x y _ operand => ⟨text, fun more => ?_⟩
    simp [Level.apply, Opened.foldZones, Tree.is, atKind, timeKind, zoneKind, means.not_leaf, operand, BinarySign.op]

theorem cast {t : Token} {type : TypeName} (mark : t.toLexeme = Kind.typecast.lexeme)
    (same : us.map Token.toLexeme = type.lexemes) (spelled : Spelled source us) :
    Link source .cast (t :: us) l (.cast l type) := by
  have kind : t.kind = .typecast := congrArg Lexeme.kind mark
  refine ⟨cons_ne_nil _ _, fun rest => by simp [Level.goesOn, kind], fun rest => .of_mark mark (by decide) rfl, ?_⟩
  rintro p ⟨⟩ rest ends d deep
  rw [length_cons] at deep
  obtain ⟨tree, yields, rule, named⟩ := type.yields same spelled ends (d := d) (by omega)
  refine ⟨[.leaf t, tree], by simp, .seq (.take (by simp [kind]) (by simp [ends.more])) (.call yields), ?_⟩
  intro o mode text x first
  refine ⟨text, .cast (x.span.cover tree.span) x tree.text, ?_, fun more => ?_⟩
  · change Phrase.cast .none x.unplaced _ = _
    rw [first, named]
    rfl
  · have filled := Formula.not_hole first
    have found : tree.hasRule .typename = true := by simp [Tree.hasRule, rule]
    have node : tree.is .typecast = false := Tree.is_of_node (Grammar.Form.isLeaf_of_rule rule) _
    have sign : (Tree.leaf t).is .typecast = true := decide_eq_true kind
    have hole : ¬ x.isHole = true := by simp [filled]
    change Opened.casts (Tree.kid .exact (.leaf t) :: Tree.kid .exact tree :: more) x = Opened.casts more _
    rw [Opened.casts, if_neg hole, Tree.kid_tree, sign, if_pos rfl]
    rw [Opened.casts, if_neg hole, Tree.kid_tree, node, if_neg Bool.false_ne_true, found, if_pos rfl]

end Link

end TableLineage
