import TableLineage.Proofs.Formula.Written

/-! Columns, constants and formulas in parentheses, which stand on the last level, and rows. -/
namespace TableLineage

open List
open Grammar (Symbol Look Step Part)

variable {source : List Char} {ts : List Token}

theorem Tree.text_covering (spelled : Spelled source ts) (some : ts ≠ []) (r : Rule) (kids : List Tree) :
    (Tree.covering source r ts kids).text = Lexeme.spaced (ts.map Token.toLexeme) := by
  change String.ofList _ = _
  rw [spelled ts infix_rfl some, String.ofList_toList]

namespace Stands

variable {t : Token}

theorem constant {value : Atom Lexeme.isLiteral} (same : t.toLexeme = value.lexeme) (spelled : Spelled source [t]) :
    Stands source .primary [t] (.constant value) := by
  intro rest ends d deep
  obtain ⟨d, rfl⟩ : ∃ n, d = n + 2 := ⟨d - 2, by simp at deep; omega⟩
  have kind : t.kind = .number ∨ t.kind = .string := by
    have fit := value.fit
    rw [← same] at fit
    simpa [Lexeme.isLiteral, Lexeme.isNumber, Lexeme.isString] using fit
  have known : t.kind ≠ .illegal := by rcases kind with kind | kind <;> simp [kind]
  have inner : (Symbol.run source (d + 1) .constant).Yields [t] rest [.covering source .constant [t] [.leaf t]] :=
    Part.Yields.node (.take known ends.more) (cons_ne_nil _ _)
  have ahead : (Look.isAny [.number, .string, .keyword .TRUE, .keyword .FALSE, .keyword .NULL, .keyword .DEFAULT]).holds
      ([t] ++ rest) = true := by
    rcases kind with kind | kind <;> simp [kind]
  let tree := Tree.covering source .constant [t] [.leaf t]
  let code : ConstantKind := if value.lexeme.isNumber then .number else .string
  have coded : Opened.constantKind? t.kind = some code := by
    simp only [code, ← same, Lexeme.isNumber]
    rcases kind with kind | kind <;> simp [kind, Opened.constantKind?]
  refine ⟨tree, Part.Yields.branch_pos ahead (.call inner), by rintro r ⟨⟩, rfl,
    .constant tree.span code tree.text "", ?_, ?_⟩
  · rw [Tree.read_eq]
    change (tree.opened .exact).constant = _
    simp [Opened.constant, tree, Tree.covering, Tree.children, Tree.token, coded]
  · have text : tree.text = _ := Tree.text_covering spelled (cons_ne_nil _ _) .constant [.leaf t]
    rw [map_singleton, Lexeme.spaced_singleton, same] at text
    rw [text]
    rfl

theorem column {name : Atom Lexeme.isColumn} (same : t.toLexeme = name.lexeme) :
    Stands source .primary [t] (.column name) := by
  intro rest ends d deep
  obtain ⟨d, rfl⟩ : ∃ n, d = n + 2 := ⟨d - 2, by simp at deep; omega⟩
  have fit := name.fit
  rw [← same, Lexeme.isColumn, Bool.and_eq_true, decide_eq_true_eq, Bool.not_eq_true'] at fit
  obtain ⟨kind, plain⟩ := fit
  have known : t.kind ≠ .illegal := by simp [kind]
  obtain ⟨next, others, rfl⟩ := exists_cons_of_ne_nil ends.more
  obtain ⟨marks, _⟩ := Bool.or_eq_false_iff.1 (ends.stops .primary (Nat.le_refl _))
  have other : next.kind ∉ [Kind.dot, .lbracket, .lparen, .string, .keyword .WITH] := by
    simpa using marks
  simp only [mem_cons, not_or] at other
  obtain ⟨dot, bracket, paren, string, _⟩ := other
  let tree := Tree.covering source .columnRef [t] [.leaf t]
  have inner : (Symbol.run source (d + 1) .columnRef).Yields [t] (next :: others) [tree] := by
    have path : (Look.either Look.dotLabel (Look.is .lbracket)).holds (next :: others) = false := by
      simp [Look.holds, Look.dotLabel, dot, bracket]
    have star : (Look.both (Look.is .dot) (Look.next .star)).holds (next :: others) = false := by
      simp [Look.holds, dot]
    have end' : Part.Yields source (Symbol.run source d) (Part.opt (.both (Look.is .dot) (Look.next .star)) Part.two) []
        (next :: others) [] := .branch_neg star .done
    exact Part.Yields.node (.alone (.take known ends.more) (.alone (.loop (.stop path)) end')) (cons_ne_nil _ _)
  refine ⟨tree, ?_, by rintro r ⟨⟩, rfl, .column tree.span [t.raw] false .nil, ?_, ?_⟩
  · change Part.Yields _ _ (Symbol.production .primary) _ _ _
    have call : Look.funcCall.holds ([t] ++ next :: others) = false := by
      cases others <;> simp [Look.holds, Grammar.endsInCall, dot, paren]
    have bare : (Look.both (.ahead 0 (.amongWords Symbol.bareFunctions)) (.not (Look.next .lparen))).holds
        ([t] ++ next :: others) = false := Bool.and_eq_false_imp.2 fun word => absurd (plain.symm.trans word) (by simp)
    have typed : (Look.both (.ahead 0 .bareName) (Look.next .string)).holds ([t] ++ next :: others) = false := by
      have last : (Look.next .string).holds ([t] ++ next :: others) = false := by
        simpa [Look.next, Look.holds, Grammar.peek, Grammar.Class.holds] using string
      rw [Look.holds, last, Bool.and_false]
    have named : (Look.ahead 0 .name).holds ([t] ++ next :: others) = true := by
      simp [Look.holds, Grammar.Class.holds, Grammar.peek, Lexeme.isName, kind]
    iterate 5 refine .branch_neg (by simp [kind]) ?_
    iterate 4 refine .branch_neg (by simp [Look.holds, Look.isAnyKey, kind]) ?_
    exact .branch_neg bare (.branch_neg call (.branch_neg typed (.branch_pos named (.call inner))))
  · rw [Tree.read_eq]
    change (tree.opened .exact).columnRef = _
    have plain (k : Kind) (other : k ≠ .ident) : (Tree.leaf t).is k = false := by simp [Tree.is, kind, other.symm]
    have names : (tree.children.filter fun c => !c.hasRule .indirection && !c.is .dot && !c.is .star).map
        (fun c => ReadMode.exact.name c.token) = [t.raw] := by
      have leaf : (Tree.leaf t).hasRule .indirection = false := rfl
      simp only [tree, Tree.children_covering, List.filter, leaf, plain .dot (by decide), plain .star (by decide)]
      rfl
    have star : tree.has .star = false := by
      simp only [Tree.has, tree, Tree.children_covering, any_cons, any_nil,
        plain .star (by decide), Bool.or_false]
    have columns : (tree.opened .exact).columnRef = .ok (.column tree.span
        ((tree.children.filter fun c => !c.hasRule .indirection && !c.is .dot && !c.is .star).map
          fun c => ReadMode.exact.name c.token) (tree.has .star) .nil) := rfl
    rw [columns, names, star]
  · rw [same]
    rfl

theorem parenthesized {e : Formula .single} (stands : Stands source .or ts e)
    (opens : Opens .or (ts.map Token.toLexeme)) {left right : Token} (opening : left.kind = .lparen)
    (closing : right.toLexeme = Kind.rparen.lexeme) : Stands source .primary (left :: (ts ++ [right])) e := by
  intro rest ends d deep
  rw [length_cons, length_append] at deep
  have bottom : Level.primary.rank = 18 := rfl
  have top : Level.or.rank = 0 := rfl
  obtain ⟨d, rfl⟩ : ∃ n, d = n + 3 := ⟨d - 3, by simp at deep; omega⟩
  have closes : right.kind = .rparen := congrArg Lexeme.kind closing
  obtain ⟨tree, inner, _, means⟩ := stands (right :: rest) (.of_mark closing (by decide) rfl) d
    (by simp at deep; omega)
  let node := Tree.covering source .parenExpr (left :: (ts ++ [right])) [.leaf left, tree, .leaf right]
  have wrapped : (Symbol.run source (d + 1) .rowOrParen).Yields (left :: (ts ++ [right])) rest [node] := by
    have comma : (Look.is .comma).holds ([right] ++ rest) = false := by simp [closes]
    have item : Part.Yields source (Symbol.run source d) (.call .orExpr) ts ([right] ++ rest) [tree] := inner
    exact Part.Yields.bracketed (.tok opening (by simp) (by simp)) item comma (.tok closes (by simp) ends.more)
  have paren : (Symbol.run source (d + 2) .parenPrimary).Yields (left :: (ts ++ [right])) rest [node] :=
    Part.Yields.branch_neg (opens.no_query_inside opening right rest) (.call wrapped)
  obtain ⟨x, same, read⟩ := Opened.expr_means means
  refine ⟨node, ?_, by rintro r ⟨⟩, rfl, x, ?_, same⟩
  · change Part.Yields _ _ (Symbol.production .primary) _ _ _
    iterate 4 refine .branch_neg (by simp [opening]) ?_
    exact .branch_pos (by simp [opening]) (.call paren)
  · rw [Tree.read_eq]
    change (node.opened .exact).firstExpr _ = _
    have nodes : (node.opened .exact).nodes = [tree.kid .exact] := by
      rw [Tree.nodes_opened]
      simp [node, Tree.nodes, means.not_leaf]
    rw [Opened.firstExpr, nodes]
    exact read _ rfl

end Stands

/-! ### Rows -/

theorem readEach_cons {c : Category} {read : Kid → Outcome (Phrase c)} {k : Kid} {ks : List Kid} {x : Phrase c}
    {xs : Phrase (.many c)} (first : read k = .ok x) (others : readEach read ks = .ok xs) :
    readEach read (k :: ks) = .ok (.cons x xs) := by
  rw [readEach, first, others]
  rfl

/-- The nodes among the trees read as the formulas of a row. -/
def RowMeans (kids : List Tree) (es : Formula .row) : Prop :=
  ∃ xs, xs.unplaced = es.expr ∧ ∀ o : Opened, o.mode = .exact →
    readEach o.expr ((kids.filter (!·.isLeaf)).map (Tree.kid .exact)) = .ok xs

/-- In front of tokens that end it, the tokens `ts` are read as the row `es`: the first formula on its
own, and each other one with the comma in front of it. -/
def Lists (source : List Char) (ts : List Token) (es : Formula .row) : Prop :=
  ∀ rest, Ends .or rest → (Look.is .comma).holds rest = false → ∀ d, 32 * ts.length + 18 ≤ d →
    ∃ us vs t kids, ts = us ++ vs ∧ (Symbol.run source d .orExpr).Yields us (vs ++ rest) [t] ∧
      Step.Repeats (Look.is .comma) ((Part.seq .take (.call .orExpr)).run source (Symbol.run source d)) vs rest kids ∧
      RowMeans (t :: kids) es

namespace Lists

variable {us : List Token} {e : Formula .single} {es : Formula .row}

theorem last (stands : Stands source .or ts e) : Lists source ts (.last e) := by
  intro rest ends comma d deep
  obtain ⟨t, yields, _, means⟩ := stands rest ends d deep
  obtain ⟨x, same, read⟩ := Opened.expr_means means
  refine ⟨ts, [], t, [], (append_nil ts).symm, yields, .stop comma, .cons x .nil, ?_, fun o mode => ?_⟩
  · change Phrase.cons x.unplaced .nil = _
    rw [same]
    rfl
  · have node : [t].filter (!·.isLeaf) = [t] := by simp [means.not_leaf]
    rw [node]
    exact readEach_cons (read o mode) rfl

theorem cons (stands : Stands source .or ts e) {t : Token} (mark : t.toLexeme = Kind.comma.lexeme)
    (lists : Lists source us es) : Lists source (ts ++ t :: us) (.cons e es) := by
  intro rest ends comma d deep
  rw [length_append, length_cons] at deep
  have kind : t.kind = .comma := congrArg Lexeme.kind mark
  obtain ⟨first, others, second, kids, rfl, yields, repeats, xs, listed, reads⟩ :=
    lists rest ends comma d (by omega)
  obtain ⟨tree, item, _, means⟩ := stands (t :: (first ++ others) ++ rest) (.of_mark mark (by decide) rfl) d
    (by change 32 * ts.length + 18 ≤ d; omega)
  obtain ⟨x, same, read⟩ := Opened.expr_means means
  have next : Part.Yields source (Symbol.run source d) (.seq .take (.call .orExpr)) (t :: first) (others ++ rest)
      [.leaf t, second] := .seq (.take (by simp [kind]) (by simp [ends.more])) yields
  have goes : (Look.is .comma).holds (t :: first ++ (others ++ rest)) = true := by simp [kind]
  refine ⟨ts, t :: (first ++ others), tree, .leaf t :: second :: kids, rfl, item,
    .step goes (cons_ne_nil _ _) next repeats, .cons x xs, ?_, fun o mode => ?_⟩
  · change Phrase.cons x.unplaced xs.unplaced = _
    rw [same, listed]
    rfl
  · have nodes : (tree :: .leaf t :: second :: kids).filter (!·.isLeaf) =
        tree :: (second :: kids).filter (!·.isLeaf) := by
      simp [means.not_leaf]
    rw [nodes]
    exact readEach_cons (read o mode) (reads o mode)

/-- A row is the list of expressions that it is read as. -/
theorem exprList (lists : Lists source ts es) (some : ts ≠ []) {rest : List Token} (ends : Ends .or rest)
    (comma : (Look.is .comma).holds rest = false) {d : Nat} (deep : 32 * ts.length + 19 ≤ d) :
    ∃ t, (Symbol.run source d .exprList).Yields ts rest [t] ∧ t.rule? = .some .exprList ∧
      ∃ xs, xs.unplaced = es.expr ∧ t.read .exact (.many .expr) = .ok xs := by
  obtain ⟨d, rfl⟩ : ∃ n, d = n + 1 := ⟨d - 1, by omega⟩
  obtain ⟨us, vs, t, kids, rfl, yields, repeats, xs, listed, reads⟩ := lists rest ends comma d (by omega)
  let tree := Tree.covering source .exprList (us ++ vs) (t :: kids)
  have list : Part.Yields source (Symbol.run source d) (Symbol.commaList .orExpr) (us ++ vs) rest (t :: kids) :=
    .seq (.call yields) (.loop repeats)
  refine ⟨tree, Part.Yields.node list some, rfl, xs, listed, ?_⟩
  rw [Tree.read_eq]
  change readEach _ (tree.opened .exact).nodes = _
  rw [Tree.nodes_opened]
  exact reads _ rfl

end Lists
end TableLineage
