import TableLineage.Proofs.Formula.Link

/-! Operators that do not chain: each stands on its level with its operands. -/
namespace TableLineage

open List
open Grammar (Symbol Look Part Class)
open Grammar.Look (isKey next isAny isAnyKey)

variable {source : List Char} {ℓ : Level} {ts us vs rest : List Token} {e l r : Formula .single}

/-! ### Words in front and behind -/

/-- A word that may be left out is found where it was not. -/
theorem any_optional {k : Keyword} {present : Bool}
    (same : ts.map Token.toLexeme = if present then [(Kind.keyword k).lexeme] else []) (j : Keyword) :
    (ts.map Tree.leaf).any (·.is (.keyword j)) = (present && decide (k = j)) := by
  obtain ⟨rfl, rfl⟩ | ⟨rfl, t, rfl, here⟩ := optional_cases same
  · rfl
  · have kind : t.kind = .keyword k := congrArg Lexeme.kind here
    simp [Tree.is, kind]

theorem filter_leaves (ts : List Token) : (ts.map Tree.leaf).filter (!·.isLeaf) = [] := by
  rw [filter_eq_nil_iff]
  intro c member
  obtain ⟨t, _, rfl⟩ := mem_map.1 member
  simp

theorem Ends.of_negation {negated : Bool} {nots : List Token} (ends : Ends ℓ us)
    (same : nots.map Token.toLexeme = Formula.negation negated) : Ends ℓ (nots ++ us) := by
  obtain ⟨_, rfl⟩ | ⟨_, t, rfl, here⟩ := optional_cases same
  · exact ends
  · exact ends.of_not here

theorem negatable_holds {ks : List Keyword} {k : Keyword} (among : k ∈ ks) {negated : Bool} {nots : List Token}
    (same : nots.map Token.toLexeme = Formula.negation negated) {t : Token} (kind : t.kind = .keyword k) :
    (Symbol.negatable ks).holds (nots ++ t :: rest) = true := by
  obtain ⟨_, rfl⟩ | ⟨_, n, rfl, here⟩ := optional_cases same
  · exact Bool.or_eq_true_iff.2 (.inl (by simp [isAnyKey, kind, among]))
  · have first : n.kind = .keyword .NOT := congrArg Lexeme.kind here
    refine Bool.or_eq_true_iff.2 (.inr ?_)
    simp [Look.holds, Class.holds, Grammar.peek, first, kind, among]

/-- Words that start no expression are not found where one starts. -/
theorem Opens.no_key (opens : Opens ℓ (us.map Token.toLexeme)) {ks : List Keyword}
    (none : ∀ k ∈ ks, (Kind.keyword k).opens? = .none) : (isAnyKey ks).holds (us ++ rest) = false := by
  obtain ⟨l, ms, same, m, start, _⟩ := opens.head
  obtain ⟨t, us', rfl, rfl, _⟩ := map_eq_cons_iff.1 same
  refine Bool.eq_false_iff.2 fun holds => ?_
  have among : t.kind ∈ ks.map .keyword := by simpa [isAnyKey] using holds
  obtain ⟨k, member, kind⟩ := mem_map.1 among
  rw [← kind, none k member] at start
  cases start

namespace Stands

/-- A word or a sign in front of an operand of the same level. -/
theorem unary {t : Token} {k : Kind} {op : UnarySign} {look : Look} {rule : Rule} {other : Symbol.Production}
    (kind : t.kind = k) (known : k ≠ .illegal) (code : Opened.signOp k = some op.op) (level : ℓ.rule? = some rule)
    (production : Symbol.production ℓ.symbol = .node rule (.branch look (.seq .take (.call ℓ.symbol)) other))
    (goes : ∀ ts, look.holds (t :: ts) = true)
    (reading : ∀ ts kids, ((Tree.covering source rule ts kids).opened .exact).readExpr =
      ((Tree.covering source rule ts kids).opened .exact).unaryLevel rule)
    (operand : Stands source ℓ us e) : Stands source ℓ (t :: us) (.unary op e) := by
  refine .of_node level production (cons_ne_nil _ _) fun rest ends d deep => ?_
  rw [length_cons] at deep
  obtain ⟨tree, yields, ruled, means⟩ := operand rest ends d (by omega)
  refine ⟨[.leaf t, tree], .branch_pos (goes _) (.seq (.take (by rwa [kind]) (by simp [ends.more])) (.call yields)), ?_⟩
  obtain ⟨x, same, reads⟩ := Level.operand_of_means means
  let node := Tree.covering source rule (t :: us) [.leaf t, tree]
  refine ⟨.unary node.span op.op x, ?_, ?_⟩
  · change Phrase.unary .none _ x.unplaced = _
    rw [same]
    rfl
  · have self : tree.hasRule rule = true := by simp [Tree.hasRule, ruled rule level]
    rw [reading, Opened.unaryLevel, Tree.level_eq (m := .exact) rfl (cons_ne_nil _ _)]
    simp only [Tree.opened_kids, Tree.children_covering, map_cons, map_nil, Tree.kid_tree, Tree.isLeaf_leaf,
      self, Tree.token, kind, code, Bool.not_true, Bool.or_self, Bool.false_eq_true, if_false]
    exact (reads (node.opened .exact) rfl).2 _

theorem customFront {sign : CustomSign} (same : ts.map Token.toLexeme = sign.lexemes)
    (operand : Stands source .add us e) : Stands source .customFront (ts ++ us) (.unary (.custom sign) e) := by
  have some := sign.tokens_ne_nil same
  have positive := length_pos_iff.2 some
  have rank : 18 - Level.add.rank = 7 := rfl
  refine .of_node rfl rfl (by simp [some]) fun rest ends d deep => ?_
  rw [length_append] at deep
  obtain ⟨tree, yields, _, means⟩ := operand rest (ends.mono (Level.rank_next .customFront)) d (by omega)
  obtain ⟨d, rfl⟩ : ∃ n, d = n + 1 := ⟨d - 1, by omega⟩
  have more : us ++ rest ≠ [] := by simp [ends.more]
  obtain ⟨op, named, ruled, text⟩ := sign.yields source same more d
  have front : Part.Yields source (Symbol.run source (d + 1)) (Part.opt Symbol.qualOpAhead (.call .qualOp)) ts
      (us ++ rest) [op] := .branch_pos (sign.ahead same) (.call named)
  refine ⟨[op, tree], .seq front (.call yields), ?_⟩
  obtain ⟨x, here, reads⟩ := Level.operand_of_means means
  let node := Tree.covering source .aExprUnaryQualOp (ts ++ us) [op, tree]
  refine ⟨.unary node.span (.custom sign.text) x, ?_, ?_⟩
  · change Phrase.unary .none _ x.unplaced = _
    rw [here]
    rfl
  · have found : op.hasRule .qualOp = true := by simp [Tree.hasRule, ruled]
    change (node.opened .exact).prefixCustom = _
    rw [Opened.prefixCustom, Tree.level_eq (m := .exact) rfl (cons_ne_nil _ _)]
    simp only [Tree.opened_kids, node, Tree.children_covering, map_cons, map_nil, Tree.kid_tree, found,
      Bool.not_true, Bool.false_eq_true, if_false, text]
    exact (reads (node.opened .exact) rfl).2 _

theorem collate {t : Token} {name : Collation} (operand : Stands source .cast ts e)
    (mark : t.toLexeme = (Kind.keyword .COLLATE).lexeme) (same : us.map Token.toLexeme = name.lexemes)
    (spelled : Spelled source us) : Stands source .collate (ts ++ t :: us) (.collate e name) := by
  have kind : t.kind = .keyword .COLLATE := congrArg Lexeme.kind mark
  have rank : 18 - Level.cast.rank = 1 := rfl
  refine .of_node rfl rfl (by simp) fun rest ends d deep => ?_
  rw [length_append, length_cons] at deep
  obtain ⟨tree, yields, level, means⟩ := operand (t :: us ++ rest) (.of_mark mark (by decide) rfl) d (by omega)
  obtain ⟨d, rfl⟩ : ∃ n, d = n + 1 := ⟨d - 1, by omega⟩
  obtain ⟨named, reading, ruled, text⟩ := name.yields same spelled (ends.mono (by decide)) d
  have back : Part.Yields source (Symbol.run source (d + 1)) (Part.opt (isKey .COLLATE) (.seq .take (.call .anyName)))
      (t :: us) rest [.leaf t, named] :=
    .branch_pos (by simp [kind]) (.seq (.take (by simp [kind]) (by simp [ends.more])) (.call reading))
  refine ⟨[tree, .leaf t, named], .seq (.call yields) back, ?_⟩
  obtain ⟨x, here, reads⟩ := Level.operand_of_means means
  let node := Tree.covering source .aExprCollate (ts ++ t :: us) [tree, .leaf t, named]
  refine ⟨.collate node.span x named.text, ?_, ?_⟩
  · change Phrase.collate .none x.unplaced _ = _
    rw [here, text]
    rfl
  · have found : (node.opened .exact).kid? .anyName = some (named.kid .exact) := by
      have other : tree.hasRule .anyName = false := by simp [Tree.hasRule, level _ rfl]
      have leaf : (Tree.leaf t).hasRule .anyName = false := rfl
      have name : named.hasRule .anyName = true := by simp [Tree.hasRule, ruled]
      simp [Opened.kid?, node, other, leaf, name]
    have word : (node.opened .exact).has .COLLATE = true := by
      simp [node, Tree.has, Tree.is, kind]
    change (node.opened .exact).collate = _
    rw [Opened.collate, Tree.level_eq (m := .exact) rfl (cons_ne_nil _ _), found]
    simp only [word, Bool.not_true, Bool.false_eq_true, if_false]
    exact (reads (node.opened .exact) rfl).2 _

theorem compare {t : Token} {k : Kind} {op : BinarySign} (left : Stands source .like ts l)
    (mark : t.toLexeme = k.lexeme) (among : k ∈ Symbol.comparisons) (code : Opened.compareOp k = some op.op)
    (right : Stands source .like us r) (opens : Opens .like (us.map Token.toLexeme)) :
    Stands source .compare (ts ++ t :: us) (.binary l op r) := by
  have kind : t.kind = k := congrArg Lexeme.kind mark
  have facts : ∀ k ∈ Symbol.comparisons, k ∈ marks ∧ k ≠ .illegal ∧ k.mayFollow .like = false := by decide
  obtain ⟨known, legal, stops⟩ := facts k among
  have rank : 18 - Level.like.rank = 10 := rfl
  refine .of_node rfl rfl (by simp) fun rest ends d deep => ?_
  rw [length_append, length_cons] at deep
  obtain ⟨a, first, _, leftMeans⟩ := left (t :: us ++ rest) (.of_mark mark known stops) d (by omega)
  obtain ⟨b, second, ruled, rightMeans⟩ := right rest (ends.mono (Level.rank_next .compare)) d (by omega)
  have plain : (Look.both (isAnyKey [.ANY, .ALL, .SOME]) (next .lparen)).holds (us ++ rest) = false :=
    Bool.and_eq_false_imp.2 fun holds => absurd ((opens.no_key (by decide)).symm.trans holds) Bool.false_ne_true
  have back : Part.Yields source (Symbol.run source d) (Part.opt (isAny Symbol.comparisons) (.seq .take
      (.branch (.both (isAnyKey [.ANY, .ALL, .SOME]) (next .lparen)) (.call .quantifier) (.call .likeExpr))))
      (t :: us) rest [.leaf t, b] :=
    .branch_pos (by simpa [kind] using among)
      (.seq (.take (by rwa [kind]) (by simp [ends.more])) (.branch_neg plain (.call second)))
  refine ⟨[a, .leaf t, b], .seq (.call first) back, ?_⟩
  obtain ⟨x, leftSame, leftReads⟩ := Opened.expr_means leftMeans
  obtain ⟨y, rightSame, rightReads⟩ := Opened.expr_means rightMeans
  let node := Tree.covering source .aExprCompare (ts ++ t :: us) [a, .leaf t, b]
  refine ⟨.binary node.span x op.op y, ?_, ?_⟩
  · change Phrase.binary .none x.unplaced _ y.unplaced = _
    rw [leftSame, rightSame]
    rfl
  · have simple : b.hasRule .subqueryQuantifier = false := by simp [Tree.hasRule, ruled _ rfl]
    change (node.opened .exact).compare = _
    rw [Opened.compare, Tree.level_eq (m := .exact) rfl (cons_ne_nil _ _)]
    simp only [Tree.opened_kids, node, Tree.children_covering, map_cons, map_nil, Tree.kid_tree,
      Tree.isLeaf_leaf, Tree.token, kind, code, simple, Bool.not_true, Bool.false_eq_true, if_false]
    have filled : ¬ (x.isHole || y.isHole) = true := by
      simp [Formula.not_hole leftSame, Formula.not_hole rightSame]
    rw [leftReads _ rfl, rightReads _ rfl]
    exact if_neg filled

/-- An operand, maybe `NOT`, and a word with what it takes. -/
theorem negatable {nots : List Token} {word : Token} {negated : Bool} {k : Keyword} {ks : List Keyword}
    {p : Symbol.Production} {d : Nat} {kids : List Tree} (target : Stands source ℓ ts e)
    (same : nots.map Token.toLexeme = Formula.negation negated) (mark : word.toLexeme = (Kind.keyword k).lexeme)
    (among : k ∈ ks) (known : .keyword k ∈ marks) (other : k ≠ .NOT) (stops : (Kind.keyword k).mayFollow ℓ = false)
    (deep : 32 * ts.length + (18 - ℓ.rank) ≤ d)
    (yields : Part.Yields source (Symbol.run source d) p (word :: us) rest kids) :
    ∃ a, a.Means e ∧ ∀ q, Part.Yields source (Symbol.run source d) (.seq (.call ℓ.symbol)
      (.branch (Symbol.negatable ks) (.seq (Symbol.optKey [.NOT]) p) q)) (ts ++ (nots ++ word :: us)) rest
        (a :: (nots.map .leaf ++ kids)) := by
  have kind : word.kind = .keyword k := congrArg Lexeme.kind mark
  have ending : Ends ℓ (nots ++ word :: us ++ rest) := by
    rw [append_assoc]
    exact .of_negation (.of_mark mark known stops) same
  obtain ⟨a, first, _, means⟩ := target _ ending d deep
  have look : (Symbol.negatable ks).holds (nots ++ word :: us ++ rest) = true := by
    rw [append_assoc]
    exact negatable_holds among same kind
  have negation : Part.Yields source (Symbol.run source d) (Symbol.optKey [.NOT]) nots (word :: us ++ rest)
      (nots.map .leaf) := yields_optKey same (by simp) (by simp [isAnyKey, kind, other])
  exact ⟨a, means, fun _ => .seq (.call first) (.branch_pos look (.seq negation yields))⟩

theorem like {nots : List Token} {t : Token} {negated ignoreCase : Bool} (target : Stands source .custom ts l)
    (same : nots.map Token.toLexeme = Formula.negation negated)
    (mark : t.toLexeme = (Kind.keyword (if ignoreCase then .ILIKE else .LIKE)).lexeme)
    (pattern : Stands source .custom us r) :
    Stands source .like (ts ++ (nots ++ t :: us)) (.like l negated ignoreCase r) := by
  have kind : t.kind = .keyword (if ignoreCase then .ILIKE else .LIKE) := congrArg Lexeme.kind mark
  have among : (if ignoreCase then Keyword.ILIKE else .LIKE) ∈ [Keyword.LIKE, .ILIKE] := by cases ignoreCase <;> decide
  have known : Kind.keyword (if ignoreCase then .ILIKE else .LIKE) ∈ marks := by cases ignoreCase <;> decide
  have other : (if ignoreCase then Keyword.ILIKE else .LIKE) ≠ .NOT := by cases ignoreCase <;> decide
  have stops : (Kind.keyword (if ignoreCase then .ILIKE else .LIKE)).mayFollow .custom = false := by
    cases ignoreCase <;> decide
  have rank : 18 - Level.custom.rank = 9 := rfl
  refine .of_node rfl rfl (by simp) fun rest ends d deep => ?_
  rw [length_append, length_append, length_cons] at deep
  obtain ⟨b, second, _, rightMeans⟩ := pattern rest (ends.mono (Level.rank_next .like)) d (by omega)
  have bare : (isKey .ESCAPE).holds rest = false := (Bool.or_eq_false_iff.1 (ends.stops .like (Nat.le_refl _))).2
  have last : Part.Yields source (Symbol.run source d)
      (.seq (.call .qualOpExpr) (Part.opt (isKey .ESCAPE) (.seq .take (.call .qualOpExpr)))) us rest [b] :=
    .skip_branch (.call second) bare .done
  have back : Part.Yields source (Symbol.run source d) _ (t :: us) rest [.leaf t, b] :=
    .seq (.take (by simp [kind]) (by simp [ends.more])) last
  obtain ⟨a, leftMeans, whole⟩ := target.negatable same mark among known other stops (by omega) back
  refine ⟨_, whole _, ?_⟩
  obtain ⟨x, leftSame, leftReads⟩ := Opened.expr_means leftMeans
  obtain ⟨y, rightSame, rightReads⟩ := Opened.expr_means rightMeans
  let node := Tree.covering source .aExprLike (ts ++ (nots ++ t :: us)) (a :: (nots.map .leaf ++ [.leaf t, b]))
  refine ⟨.like node.span x y (if ignoreCase then .ilike else .like) negated .none, ?_, ?_⟩
  · change Phrase.like .none x.unplaced y.unplaced _ _ .none = _
    rw [leftSame, rightSame]
    rfl
  · have leaf (k : Keyword) : (Tree.leaf t).is (.keyword k) =
        decide ((if ignoreCase then Keyword.ILIKE else .LIKE) = k) := by
      simp [Tree.is, kind]
    have has (k : Keyword) : (node.opened .exact).has k =
        (negated && decide (Keyword.NOT = k) || decide ((if ignoreCase then Keyword.ILIKE else .LIKE) = k)) := by
      simp [node, Tree.has, any_optional same, Tree.is_of_node leftMeans.not_leaf, Tree.is_of_node rightMeans.not_leaf,
        leaf]
    have nodes : (node.opened .exact).nodes = [a.kid .exact, b.kid .exact] := by
      rw [Tree.nodes_opened]
      simp [node, Tree.nodes, filter_leaves, leftMeans.not_leaf, rightMeans.not_leaf]
    have word : (node.opened .exact).likeOp? = some (if ignoreCase then .ilike else .like) := by
      simp only [Opened.likeOp?, has]
      cases ignoreCase <;> simp
    have not : (node.opened .exact).has .NOT = negated := by
      rw [has]
      cases ignoreCase <;> simp
    change (node.opened .exact).like = _
    rw [Opened.like, Tree.level_eq (m := .exact) rfl (by simp), nodes]
    dsimp only
    rw [Opened.likeOf, leftReads _ rfl, rightReads _ rfl, word, not]
    rfl

theorem between {nots mids : List Token} {word and' : Token} {negated symmetric : Bool} {lower upper : Formula .single}
    (target : Stands source .within ts e) (same : nots.map Token.toLexeme = Formula.negation negated)
    (mark : word.toLexeme = (Kind.keyword .BETWEEN).lexeme)
    (middle : mids.map Token.toLexeme = if symmetric then [(Kind.keyword .SYMMETRIC).lexeme] else [])
    (low : Stands source .within us lower) (opens : Opens .within (us.map Token.toLexeme))
    (also : and'.toLexeme = (Kind.keyword .AND).lexeme) (high : Stands source .within vs upper) :
    Stands source .between (ts ++ (nots ++ word :: (mids ++ (us ++ and' :: vs))))
      (.between e negated symmetric lower upper) := by
  have wordKind : word.kind = .keyword .BETWEEN := congrArg Lexeme.kind mark
  have andKind : and'.kind = .keyword .AND := congrArg Lexeme.kind also
  have rank : 18 - Level.within.rank = 15 := rfl
  refine .of_node rfl rfl (by simp) fun rest ends d deep => ?_
  simp only [length_append, length_cons] at deep
  have above := ends.mono (Level.rank_next .between)
  obtain ⟨b, second, _, lowMeans⟩ := low (and' :: vs ++ rest) (.of_mark also (by decide) rfl) d (by omega)
  obtain ⟨c, third, _, highMeans⟩ := high rest above d (by omega)
  have mirrored : Part.Yields source (Symbol.run source d) (Symbol.optKey [.SYMMETRIC]) mids
      (us ++ and' :: vs ++ rest) (mids.map .leaf) := by
    refine yields_optKey middle (by simp) ?_
    rw [append_assoc]
    exact opens.no_key (by decide)
  have bounds : Part.Yields source (Symbol.run source d) (Part.all [.call .inExpr, Part.key .AND, .call .inExpr])
      (us ++ and' :: vs) rest [b, .leaf and', c] :=
    .seq (.call second) (.seq (.tok andKind (by simp) (by simp [ends.more])) (.call third))
  have start : Part.Yields source (Symbol.run source d) .take [word] (mids ++ (us ++ and' :: vs) ++ rest)
      [.leaf word] := .take (by simp [wordKind]) (by simp)
  have tail : Part.Yields source (Symbol.run source d)
      (Part.all [.take, Symbol.optKey [.SYMMETRIC], .call .inExpr, Part.key .AND, .call .inExpr])
      (word :: (mids ++ (us ++ and' :: vs))) rest (.leaf word :: (mids.map .leaf ++ [b, .leaf and', c])) :=
    .seq start (.seq mirrored bounds)
  obtain ⟨a, targetMeans, whole⟩ :=
    target.negatable same mark (mem_singleton_self _) (by decide) (by decide) rfl (by omega) tail
  refine ⟨_, whole _, ?_⟩
  obtain ⟨x, targetSame, targetReads⟩ := Opened.expr_means targetMeans
  obtain ⟨y, lowSame, lowReads⟩ := Opened.expr_means lowMeans
  obtain ⟨z, highSame, highReads⟩ := Opened.expr_means highMeans
  let node := Tree.covering source .aExprBetween (ts ++ (nots ++ word :: (mids ++ (us ++ and' :: vs))))
    (a :: (nots.map .leaf ++ (.leaf word :: (mids.map .leaf ++ [b, .leaf and', c]))))
  refine ⟨.between node.span x y z negated symmetric, ?_, ?_⟩
  · change Phrase.between .none x.unplaced y.unplaced z.unplaced _ _ = _
    rw [targetSame, lowSame, highSame]
    rfl
  · have leaf (k : Keyword) : (Tree.leaf word).is (.keyword k) = decide (Keyword.BETWEEN = k) ∧
        (Tree.leaf and').is (.keyword k) = decide (Keyword.AND = k) := by
      simp [Tree.is, wordKind, andKind]
    have has (k : Keyword) : (node.opened .exact).has k =
        (negated && decide (Keyword.NOT = k) || (decide (Keyword.BETWEEN = k) ||
          (symmetric && decide (Keyword.SYMMETRIC = k) || decide (Keyword.AND = k)))) := by
      simp [node, Tree.has, any_optional same, any_optional middle, leaf, Tree.is_of_node targetMeans.not_leaf,
        Tree.is_of_node lowMeans.not_leaf, Tree.is_of_node highMeans.not_leaf]
    have nodes : (node.opened .exact).nodes = [a.kid .exact, b.kid .exact, c.kid .exact] := by
      rw [Tree.nodes_opened]
      simp [node, Tree.nodes, filter_leaves, targetMeans.not_leaf, lowMeans.not_leaf, highMeans.not_leaf]
    change (node.opened .exact).between = _
    rw [Opened.between, Tree.level_eq (m := .exact) rfl (by simp), nodes]
    dsimp only
    have found : (node.opened .exact).has .BETWEEN = true := by simp [has]
    have not : (node.opened .exact).has .NOT = negated := by simp [has]
    have mirror : (node.opened .exact).has .SYMMETRIC = symmetric := by simp [has]
    rw [targetReads _ rfl, lowReads _ rfl, highReads _ rfl, found, not, mirror]
    rfl

/-- A row in parentheses, where a query might stand. -/
theorem inSource {left right : Token} {es : Formula .row} (lists : Lists source us es) (opening : left.kind = .lparen)
    (opens : Opens .or (us.map Token.toLexeme)) (closing : right.toLexeme = Kind.rparen.lexeme) (more : rest ≠ [])
    {d : Nat} (deep : 32 * us.length + 22 ≤ d) :
    ∃ t, (Symbol.run source d .inSource).Yields (left :: (us ++ [right])) rest [t] ∧ t.rule? = some .inList ∧
      ∃ xs, xs.unplaced = es.expr ∧ t.read .exact (.many .expr) = .ok xs := by
  have closes : right.kind = .rparen := congrArg Lexeme.kind closing
  have nonempty := opens.ne_nil
  obtain ⟨d, rfl⟩ : ∃ n, d = n + 2 := ⟨d - 2, by omega⟩
  have ending : Ends .or ([right] ++ rest) := .of_mark closing (by decide) rfl
  obtain ⟨list, yields, ruled, xs, same, read⟩ := lists.exprList nonempty ending (by simp [closes]) (d := d) (by omega)
  let tree := Tree.covering source .inList (left :: (us ++ [right])) [.leaf left, list, .leaf right]
  have inner : (Symbol.run source (d + 1) .inList).Yields (left :: (us ++ [right])) rest [tree] :=
    Part.Yields.node (.seq (.tok opening (by simp) (by simp)) (.seq (.call yields) (.tok closes (by simp) more)))
      (cons_ne_nil _ _)
  have noQuery := opens.no_query_inside opening right rest
  refine ⟨tree, Part.Yields.branch_pos (by simp [opening]) (.branch_neg noQuery (.call inner)), rfl, xs, same, ?_⟩
  have found : (tree.opened .exact).kid? .exprList = some (list.kid .exact) := by
    have first : (Tree.leaf left).hasRule .exprList = false := rfl
    have second : list.hasRule .exprList = true := by simp [Tree.hasRule, ruled]
    simp [Opened.kid?, tree, first, second]
  rw [Tree.read_eq]
  change (tree.opened .exact).listed = _
  rw [Opened.listed, found]
  exact read

theorem within {nots : List Token} {word left right : Token} {negated : Bool} {es : Formula .row}
    (target : Stands source .not ts e) (same : nots.map Token.toLexeme = Formula.negation negated)
    (mark : word.toLexeme = (Kind.keyword .IN).lexeme) (opening : left.kind = .lparen) (lists : Lists source us es)
    (opens : Opens .or (us.map Token.toLexeme)) (closing : right.toLexeme = Kind.rparen.lexeme) :
    Stands source .within (ts ++ (nots ++ word :: left :: (us ++ [right]))) (.within e negated es) := by
  have wordKind : word.kind = .keyword .IN := congrArg Lexeme.kind mark
  have rank : 18 - Level.not.rank = 14 := rfl
  refine .of_node rfl rfl (by simp) fun rest ends d deep => ?_
  simp only [length_append, length_cons, length_nil] at deep
  obtain ⟨list, second, ruled, xs, listed, values⟩ := inSource lists opening opens closing ends.more (d := d) (by omega)
  have back : Part.Yields source (Symbol.run source d) (.seq .take (.call .inSource)) (word :: left :: (us ++ [right]))
      rest [.leaf word, list] := .seq (.take (by simp [wordKind]) (by simp)) (.call second)
  obtain ⟨a, means, whole⟩ :=
    target.negatable same mark (mem_singleton_self _) (by decide) (by decide) rfl (by omega) back
  refine ⟨_, whole _, ?_⟩
  obtain ⟨x, targetSame, targetReads⟩ := Opened.expr_means means
  let node := Tree.covering source .aExprIn (ts ++ (nots ++ word :: left :: (us ++ [right])))
    (a :: (nots.map .leaf ++ [.leaf word, list]))
  refine ⟨.within node.span x (.inValues list.span xs) negated, ?_, ?_⟩
  · change Phrase.within .none x.unplaced (.inValues .none xs.unplaced) _ = _
    rw [targetSame, listed]
    rfl
  · have branch := Grammar.Form.isLeaf_of_rule ruled
    have leaf (k : Keyword) : (Tree.leaf word).is (.keyword k) = decide (Keyword.IN = k) := by simp [Tree.is, wordKind]
    have has (k : Keyword) : (node.opened .exact).has k =
        (negated && decide (Keyword.NOT = k) || decide (Keyword.IN = k)) := by
      simp [node, Tree.has, any_optional same, leaf, Tree.is_of_node means.not_leaf, Tree.is_of_node branch]
    have nodes : (node.opened .exact).nodes = [a.kid .exact, list.kid .exact] := by
      rw [Tree.nodes_opened]
      simp [node, Tree.nodes, filter_leaves, means.not_leaf, branch]
    have found : (node.opened .exact).has .IN = true := by simp [has]
    have not : (node.opened .exact).has .NOT = negated := by simp [has]
    have query : list.hasRule .selectWithParens = false := by simp [Tree.hasRule, ruled]
    have row : list.hasRule .inList = true := by simp [Tree.hasRule, ruled]
    change (node.opened .exact).within = _
    rw [Opened.within, Tree.level_eq (m := .exact) rfl (by simp), nodes]
    dsimp only
    rw [targetReads _ rfl, found, not, Tree.kid_tree, Tree.kid_read, query, row, values]
    rfl

end Stands
end TableLineage
