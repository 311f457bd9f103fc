import TableLineage.Proofs.Formula.Recovered
import TableLineage.Statement.Script

/-! The round trip of formulas: written after `SELECT`, scanned, parsed and read, each comes back as
the only target of the only statement. -/
namespace TableLineage

open List
open Grammar (Symbol Look Part Class)
open Grammar.Look (isKey isAny isAnyKey)

/-- The statement that selects a formula and nothing else, nowhere in a text. -/
def Formula.selected (e : Formula .single) : Statement :=
  .select (.query .none .none
    (.core .none false .nil .none (.cons (.labelled .none e.expr "") .nil) none .none .none .nil .none .none .nil)
    .none .none .none)

/-- At the end of the text, the symbol reads the tokens `ts` as a node from the rule `r` that reads as
the phrase, productions being nested at most `n` deep. -/
def Covers (source : List Char) (final : Token) (n : Nat) (s : Symbol) (r : Rule) (ts : List Token) {c : Category}
    (phrase : Phrase c) : Prop :=
  ∀ d, n ≤ d → ∃ t, (Symbol.run source d s).Yields ts [final] [t] ∧ t.rule? = some r ∧
    ∃ x, t.read .exact c = .ok x ∧ x.unplaced = phrase

variable {word : Token} {ts : List Token} {r : Rule}

/-- No star, qualified or not, stands where an expression starts. -/
theorem Opens.no_star {ℓ : Level} (opens : Opens ℓ (ts.map Token.toLexeme)) (final : Token) :
    (Look.either (Look.is .star) .star).holds (ts ++ [final]) = false := by
  generalize same : ts.map Token.toLexeme = ls at opens
  cases opens with
  | direct starts other follows =>
    obtain ⟨t, us, rfl, rfl, rest⟩ := map_eq_cons_iff.1 same
    obtain ⟨m, start, _⟩ := starts
    have sign : t.kind ≠ .star := by
      intro star
      rw [star] at start
      cases start
    have unqualified : Grammar.endsInStar (us ++ [final]) = false := by
      subst rest
      cases us with
      | nil => rfl
      | cons u us =>
        have dot : u.kind ≠ .dot := follows u.toLexeme rfl
        cases us <;> simp [Grammar.endsInStar, dot]
    simp [Look.holds, sign, unqualified]
  | nested inner =>
    obtain ⟨t, us, rfl, mark, _⟩ := map_eq_cons_iff.1 same
    have paren : t.kind = .lparen := congrArg Lexeme.kind mark
    simp [Look.holds, Grammar.peek, Lexeme.isName, paren, Kind.isKeyword]

/-- A select clause of nothing but its targets. -/
theorem Opened.core_of_targets {t list : Tree} {x : Phrase (.many .target)} (children : t.children = [.leaf word, list])
    (mark : word.kind = .keyword .SELECT) (rule : list.rule? = some .targetList)
    (read : list.read .exact (.many .target) = .ok x) :
    (t.opened .exact).core = .ok (.core t.span false .nil .none x none .none .none .nil .none .none .nil) := by
  have ruled (r : Rule) : list.hasRule r = decide (Rule.targetList = r) := by simp [Tree.hasRule, rule]
  have bare (r : Rule) : (Tree.leaf word).hasRule r = false := rfl
  have child (r : Rule) : t.child? r = if Rule.targetList = r then some list else none := by
    rw [Tree.child?, children]
    by_cases same : Rule.targetList = r <;> simp [bare, ruled, same]
  have absent : (t.opened .exact).has .DISTINCT = false := by
    have sign : (Tree.leaf word).is (.keyword .DISTINCT) = false := by simp [Tree.is, mark]
    simp [Tree.has, children, sign, Tree.is_of_node (Grammar.Form.isLeaf_of_rule rule)]
  simp only [Opened.core, Opened.optional, Opened.manyOf, Opened.need, Opened.into, Tree.kid?_opened, Tree.opened_tree,
    child, absent]
  change (list.read .exact (.many .target) >>= fun targets =>
    Except.ok (Phrase.core t.span false .nil .none targets none .none .none .nil .none .none .nil)) = _
  rw [read]
  rfl

/-- One operand without a set operator. -/
theorem Opened.foldBodies_single {o : Opened} {k : Kid} (operand : Kid → Outcome (Phrase .body))
    (plain : k.tree.hasRule .setOperator = false) : o.foldBodies operand [k] none none = operand k := by
  rw [Opened.foldBodies, if_neg (by simp [plain])]
  cases operand k <;> rfl

theorem Opened.body_of_single {t below : Tree} {q : Rule} (rule : t.rule? = some r) (children : t.children = [below])
    (inner : below.rule? = some q)
    (clause : (r, q) ∈ [(.selectClause, .simpleSelectIntersect), (Rule.simpleSelectIntersect, Rule.simpleSelect)]) :
    (t.opened .exact).body = below.read .exact .body := by
  have nodes : (t.opened .exact).nodes = [below.kid .exact] := by
    rw [Tree.nodes_opened]
    simp [Tree.nodes, children, Grammar.Form.isLeaf_of_rule inner]
  simp only [mem_cons, Prod.mk.injEq, not_mem_nil, or_false] at clause
  rcases clause with ⟨rfl, rfl⟩ | ⟨rfl, rfl⟩
  · have plain : below.hasRule .setOperator = false := by simp [Tree.hasRule, inner]
    have term : below.hasRule .simpleSelectIntersect = true := by simp [Tree.hasRule, inner]
    rw [Opened.body, Tree.opened_tree, rule, nodes]
    dsimp only
    rw [Opened.foldBodies_single _ plain, Opened.unionOperand, Tree.kid_tree, term, if_pos rfl, Tree.kid_read]
  · have plain : below.hasRule .setOperator = false := by simp [Tree.hasRule, inner]
    rw [Opened.body, Tree.opened_tree, rule, nodes]
    dsimp only
    rw [Opened.foldBodies_single _ plain, Opened.intersectOperand, Tree.kid_tree, inner]
    rfl

/-- A query of nothing but its select clause. -/
theorem Opened.statement_of_clause {t clause : Tree} {x : Phrase .body} (rule : t.rule? = some .selectStmt)
    (children : t.children = [clause]) (inner : clause.rule? = some .selectClause)
    (read : clause.read .exact .body = .ok x) :
    (t.opened .exact).statement = .ok (.select (.query t.span .none x .none .none .none)) := by
  have ruled (r : Rule) : clause.hasRule r = decide (Rule.selectClause = r) := by simp [Tree.hasRule, inner]
  have child (r : Rule) : t.child? r = if Rule.selectClause = r then some clause else none := by
    rw [Tree.child?, children]
    by_cases same : Rule.selectClause = r <;> simp [ruled, same]
  simp only [Opened.statement, Opened.query, Tree.opened_tree, rule, Opened.optional, Opened.need, Opened.limit,
    Tree.kid?_opened, child]
  change ((clause.read .exact .body >>= fun body => Except.ok (Phrase.query t.span .none body .none .none .none)) >>=
    fun query => Except.ok (Phrase.select query)) = _
  rw [read]
  rfl

/-- A script of nothing but one statement. -/
theorem Script.of_only_statement {source : List Char} {final : Token} {d : Nat} {tree : Tree} {x : Statement}
    (ended : final.toLexeme = Grammar.endLexeme) (some : word.kind ≠ .semicolon) (more : word.kind ≠ .eof)
    (deep : Symbol.count * ((word :: ts ++ [final]).length + 1) = d + 3)
    (body : (Symbol.run source (d + 1) .statementBody).Yields (word :: ts) [final] [tree]) (rule : tree.rule? = .some r)
    (kept : r ≠ .otherStmt) (read : tree.read .exact .statement = .ok x) :
    ∃ root, Grammar.parseTokens source (word :: ts ++ [final]) = .ok root ∧
      Script.ofTree false (.some root) = .ok ⟨[x], []⟩ := by
  have kind : final.kind = .eof := congrArg Lexeme.kind ended
  have nonempty : word :: ts ≠ [] := cons_ne_nil _ _
  let stmt := Tree.covering source .stmt (word :: ts) [tree]
  let root := Tree.covering source .root (word :: ts) [stmt]
  have statement : (Symbol.run source (d + 2) .statement).Yields (word :: ts) [final] [stmt] :=
    Part.Yields.node (.call body) nonempty
  have semicolons (rest : List Token) (other : (Look.is .semicolon).holds rest = false) : Part.Yields source
      (Symbol.run source (d + 2)) (.loop (Look.is .semicolon) .take) [] rest [] := .loop (.stop other)
  have item : Part.Yields source (Symbol.run source (d + 2)) (Part.all [.call .statement,
      .branch Look.statementEnd .done (.fail .unexpected), .loop (Look.is .semicolon) .take])
      (word :: ts) ([] ++ [final]) [stmt] :=
    .alone (.call statement) (.alone (.branch_pos (by simp [Look.statementEnd, kind]) .done)
      (semicolons _ (by simp [kind])))
  have goes : (Look.not (Look.is .eof)).holds (word :: ts ++ ([] ++ [final])) = true := by simp [Look.holds, more]
  have items : Part.Yields source (Symbol.run source (d + 2)) _ (word :: ts ++ []) [final] ([stmt] ++ []) :=
    .loop (.step goes nonempty item (.stop (by simp [Look.holds, kind])))
  rw [append_nil, append_nil] at items
  have whole : (Symbol.run source (d + 3) .script).Yields (word :: ts) [final] [root] :=
    Part.Yields.node (.seq (semicolons _ (by simp [some])) items) nonempty
  refine ⟨root, ?_, ?_⟩
  · rw [Grammar.parseTokens, deep, whole]
    rfl
  · have statements : root.childrenOf .stmt = [stmt] := rfl
    have inner : stmt.statementBody = .ok tree := by
      simp [Tree.statementBody, stmt, Tree.hasRule, Tree.nodes, Grammar.Form.isLeaf_of_rule rule]
    have item : stmt.item .exact = .ok (.statement x) := by
      have other : ¬ tree.hasRule .otherStmt = true := by simp [Tree.hasRule, rule, kept]
      rw [Tree.item, inner]
      refine (if_neg other).trans ?_
      rw [read]
      rfl
    change Script.ofTrees false (root.childrenOf .stmt) = _
    rw [statements, Script.ofTrees]
    change (stmt.item .exact >>= _) = _
    rw [item]
    rfl

namespace Covers

variable {source : List Char} {final : Token} {n : Nat} {s : Symbol} {c : Category} {phrase : Phrase c}
  {e : Formula .single}

/-- A symbol whose production is a node. -/
theorem node {body : Symbol.Production} (production : Symbol.production s = .node r body) (some : ts ≠ [])
    (reads : ∀ d, n ≤ d → ∃ kids, Part.Yields source (Symbol.run source d) body ts [final] kids ∧
      ∃ x, ((Tree.covering source r ts kids).opened .exact).read c = .ok x ∧ x.unplaced = phrase) :
    Covers source final (n + 1) s r ts phrase := by
  intro d deep
  obtain ⟨d, rfl⟩ : ∃ m, d = m + 1 := ⟨d - 1, by omega⟩
  obtain ⟨kids, yields, x, read, same⟩ := reads d (by omega)
  refine ⟨.covering source r ts kids, ?_, rfl, x, ?_, same⟩
  · intro acc read last
    change (Symbol.production s).run source (Symbol.run source d) acc _ = _
    rw [production]
    exact Part.Yields.node yields some acc read last
  · rw [Tree.read_eq]
    exact read

theorem target (ended : final.toLexeme = Grammar.endLexeme) (stands : Stands source .or ts e)
    (opens : Opens .or (ts.map Token.toLexeme)) :
    Covers source final (32 * ts.length + 19) .target .targetLabel ts (.labelled .none e.expr "") := by
  intro d deep
  obtain ⟨d, rfl⟩ : ∃ m, d = m + 1 := ⟨d - 1, by omega⟩
  have kind : final.kind = .eof := congrArg Lexeme.kind ended
  have ends : Ends .or [final] := .of_sign (by rw [kind]; rfl) (by simp [Lexeme.isLabel, kind, Kind.isKeyword])
  obtain ⟨tree, yields, _, means⟩ := stands [final] ends d (by change 32 * ts.length + 18 ≤ d; omega)
  have some := opens.ne_nil
  let label := Tree.covering source .targetLabel ts [tree]
  have unnamed : Part.Yields source (Symbol.run source d)
      (.branch (isKey .AS) (.seq .take (.need .label .noName)) (Part.opt (.ahead 0 .name) .take)) [] [final] [] :=
    .branch_neg (by simp [kind]) (.branch_neg (by simp [Look.holds, Class.holds, Grammar.peek, Lexeme.isName, kind,
      Kind.isKeyword]) .done)
  obtain ⟨x, same, read⟩ := Opened.expr_means means
  refine ⟨label, Part.Yields.branch_neg (opens.no_star final) (.node (.alone (.call yields) unnamed) some), rfl,
    .labelled label.span x "", ?_, ?_⟩
  · have nodes : (label.opened .exact).nodes = [tree.kid .exact] := by
      rw [Tree.nodes_opened]
      simp [label, Tree.nodes, means.not_leaf]
    have first : (label.opened .exact).firstExpr "target" = .ok x := by
      rw [Opened.firstExpr, nodes]
      exact read _ rfl
    rw [Tree.read_eq]
    change ((label.opened .exact).firstExpr "target" >>= fun e => Except.ok (Phrase.labelled label.span e
      (if tree.isLeaf && !tree.is (.keyword .AS) then ReadMode.exact.name tree.token else ""))) = _
    rw [first, means.not_leaf]
    rfl
  · change Phrase.labelled .none x.unplaced "" = _
    rw [same]

theorem targetList (ended : final.toLexeme = Grammar.endLexeme) (some : ts ≠ []) {phrase : Phrase .target}
    (target : Covers source final n .target .targetLabel ts phrase) :
    Covers source final (n + 1) .targetList .targetList ts (.cons phrase .nil) := by
  have kind : final.kind = .eof := congrArg Lexeme.kind ended
  refine node rfl some fun d deep => ?_
  obtain ⟨tree, yields, rule, x, read, same⟩ := target d deep
  refine ⟨[tree], .skip_loop (.call yields) (by simp [kind]), .cons x .nil, ?_, ?_⟩
  · have nodes : [tree].filter (!·.isLeaf) = [tree] := by simp [Grammar.Form.isLeaf_of_rule rule]
    change readEach _ (Opened.nodes _) = _
    rw [Tree.nodes_opened, Tree.nodes, Tree.children_covering, nodes]
    exact readEach_cons read rfl
  · change Phrase.cons x.unplaced .nil = _
    rw [same]

theorem simpleSelect (ended : final.toLexeme = Grammar.endLexeme) (mark : word.kind = .keyword .SELECT)
    (opens : Opens .or (ts.map Token.toLexeme)) {targets : Phrase (.many .target)}
    (list : Covers source final n .targetList .targetList ts targets) :
    Covers source final (n + 1) .simpleSelect .simpleSelect (word :: ts)
      (.core .none false .nil .none targets none .none .none .nil .none .none .nil) := by
  have kind : final.kind = .eof := congrArg Lexeme.kind ended
  refine node rfl (cons_ne_nil _ _) fun d deep => ?_
  obtain ⟨tree, yields, rule, x, read, same⟩ := list d deep
  have free (k : Keyword) (none : (Kind.keyword k).opens? = .none) : (isKey k).holds (ts ++ [final]) = false := by
    have absent : (isAnyKey [k]).holds (ts ++ [final]) = false := opens.no_key (by simpa using none)
    simpa [isAnyKey, isAny, isKey, Look.is, Look.holds, Class.holds] using absent
  have stopped (k : Keyword) (p : Symbol.Production) :
      Part.Yields source (Symbol.run source d) (Part.opt (isKey k) p) [] [final] [] :=
    .branch_neg (by simp [kind]) .done
  have all : Part.Yields source (Symbol.run source d)
      (.branch (isKey .TOP) (.seq (.call .topClause) (.branch (isKey .ALL) .take (Part.opt (isKey .DISTINCT)
        (.seq .take (Part.opt (isKey .ON) (.seq .take (Symbol.parens (.call .exprList))))))))
        (.seq (.branch (isKey .ALL) .take (Part.opt (isKey .DISTINCT)
          (.seq .take (Part.opt (isKey .ON) (.seq .take (Symbol.parens (.call .exprList)))))))
          (Part.opt (isKey .TOP) (.call .topClause)))) [] (ts ++ [final]) [] :=
    .branch_neg (free .TOP rfl) (.alone (.branch_neg (free .ALL rfl) (.branch_neg (free .DISTINCT rfl) .done))
      (.branch_neg (free .TOP rfl) .done))
  have clauses : Part.Yields source (Symbol.run source d) (Part.all
      [.call .targetList, Part.opt (isKey .INTO) (.call .intoClause), Part.opt (isKey .FROM) (.call .fromClause),
       Part.opt (isKey .WHERE) (.call .whereClause), Part.opt (isKey .GROUP) (.call .groupClause),
       Part.opt (isKey .HAVING) (.call .havingClause), Part.opt (isKey .QUALIFY) (.call .qualifyClause),
       Part.opt (isKey .WINDOW) (.call .windowClause)]) ts [final] [tree] :=
    .alone (.call yields) (.alone (stopped _ _) (.alone (stopped _ _) (.alone (stopped _ _) (.alone (stopped _ _)
      (.alone (stopped _ _) (.alone (stopped _ _) (stopped _ _)))))))
  refine ⟨[.leaf word, tree], .seq (.tok mark (by simp) (by simp)) (.seq all clauses), ?_⟩
  exact ⟨_, Opened.core_of_targets rfl mark rule read, congrArg
    (Phrase.core .none false .nil .none · none .none .none .nil .none .none .nil) same⟩

/-- A clause of one operand, with no set operator. -/
theorem unaccompanied {operand : Symbol} {q : Rule} {look : Look} {link : Symbol.Production} {phrase : Phrase .body}
    (production : Symbol.production s = .node r (.seq (.call operand) (.loop look link))) (some : ts ≠ [])
    (stopped : look.holds [final] = false) (clause : (r, q) ∈ [(.selectClause, .simpleSelectIntersect),
      (Rule.simpleSelectIntersect, Rule.simpleSelect)])
    (inner : Covers source final n operand q ts phrase) : Covers source final (n + 1) s r ts phrase := by
  refine node production some fun d deep => ?_
  obtain ⟨tree, yields, rule, x, read, same⟩ := inner d deep
  have body := Opened.body_of_single (t := .covering source r ts [tree]) rfl rfl rule clause
  exact ⟨[tree], .skip_loop (.call yields) stopped, x, body.trans read, same⟩

theorem query {word : Token} (ended : final.toLexeme = Grammar.endLexeme) (mark : word.kind = .keyword .SELECT)
    {phrase : Phrase .body} (clause : Covers source final n .selectClause .selectClause (word :: ts) phrase) :
    Covers source final (n + 2) .query .selectStmt (word :: ts)
      (.select (.query .none .none phrase .none .none .none) : Statement) := by
  have kind : final.kind = .eof := congrArg Lexeme.kind ended
  refine node rfl (cons_ne_nil _ _) fun d deep => ?_
  obtain ⟨d, rfl⟩ : ∃ m, d = m + 1 := ⟨d - 1, by omega⟩
  obtain ⟨tree, yields, rule, x, read, same⟩ := clause d (by omega)
  have stopped (k : Keyword) (p : Symbol.Production) :
      Part.Yields source (Symbol.run source d) (Part.opt (isKey k) p) [] [final] [] :=
    .branch_neg (by simp [kind]) .done
  have rest : (Symbol.run source (d + 1) .queryRest).Yields (word :: ts) [final] [tree] :=
    Part.Yields.alone (.call yields) (.alone (stopped _ _) (.branch_neg (by simp [kind]) (stopped _ _)))
  have front : Part.Yields source (Symbol.run source (d + 1)) (Part.opt (isKey .WITH) (.call .withClause)) []
      (word :: ts ++ [final]) [] := .branch_neg (by simp [mark]) .done
  have whole := Opened.statement_of_clause (t := .covering source .selectStmt (word :: ts) [tree]) rfl rfl rule read
  refine ⟨[tree], .seq front (.call rest), _, whole, ?_⟩
  exact congrArg (fun body => (.select (.query .none .none body .none .none .none) : Statement)) same

theorem selectPrimary (mark : word.kind = .keyword .SELECT)
    (select : Covers source final n .simpleSelect .simpleSelect (word :: ts) phrase) :
    Covers source final (n + 1) .selectPrimary .simpleSelect (word :: ts) phrase := by
  intro d deep
  obtain ⟨d, rfl⟩ : ∃ m, d = m + 1 := ⟨d - 1, by omega⟩
  obtain ⟨tree, yields, reads⟩ := select d (by omega)
  exact ⟨tree, Part.Yields.branch_pos (by simp [mark]) (.call yields), reads⟩

/-- The whole way from a target to its query. -/
theorem selected (ended : final.toLexeme = Grammar.endLexeme) (mark : word.kind = .keyword .SELECT)
    (stands : Stands source .or ts e) (opens : Opens .or (ts.map Token.toLexeme)) :
    Covers source final (32 * ts.length + 26) .query .selectStmt (word :: ts) e.selected := by
  have kind : final.kind = .eof := congrArg Lexeme.kind ended
  have some := opens.ne_nil
  have targets := (target ended stands opens).targetList ended some
  have primary := (targets.simpleSelect ended mark opens).selectPrimary mark
  have term := primary.unaccompanied (s := .intersectTerm) rfl (cons_ne_nil _ _) (by simp [kind]) (by decide)
  have clause := term.unaccompanied (s := .selectClause) rfl (cons_ne_nil _ _) (by simp [isAnyKey, kind])
    (by decide)
  exact clause.query ended mark

/-- The query as the only statement of a script. -/
theorem script {word : Token} {q : Statement} (ended : final.toLexeme = Grammar.endLexeme)
    (mark : word.kind = .keyword .SELECT) (query : Covers source final n .query .selectStmt (word :: ts) q)
    (shallow : n + 3 ≤ Symbol.count * ((word :: ts ++ [final]).length + 1)) :
    ∃ root, Grammar.parseTokens source (word :: ts ++ [final]) = .ok root ∧
      ∃ s : Statement, Script.ofTree false (some root) = .ok ⟨[s], []⟩ ∧ s.unplaced = q := by
  obtain ⟨d, deep⟩ : ∃ d, Symbol.count * ((word :: ts ++ [final]).length + 1) = d + 3 :=
    ⟨Symbol.count * ((word :: ts ++ [final]).length + 1) - 3, by omega⟩
  obtain ⟨tree, yields, rule, x, read, same⟩ := query d (by omega)
  have body : (Symbol.run source (d + 1) .statementBody).Yields (word :: ts) [final] [tree] :=
    Part.Yields.branch_neg (by simp [mark]) (.branch_pos (by simp [mark]) (.call yields))
  obtain ⟨root, parsed, script⟩ := Script.of_only_statement ended (by simp [mark]) (by simp [mark]) deep body rule
    (by decide) read
  exact ⟨root, parsed, x, script, same⟩

end Covers

/-! ### Texts -/

theorem Formula.select_text (e : Formula .single) :
    "SELECT " ++ e.text = Lexeme.spaced ((Kind.keyword .SELECT).lexeme :: e.lexemes) := by
  obtain ⟨l, ls, head, _⟩ := e.opens.head
  have more : e.lexemes ≠ [] := by simp [head]
  have word : "SELECT ".toList = (Kind.keyword .SELECT).lexeme.raw.toList ++ [' '] := by decide
  rw [← String.toList_inj, String.toList_append, Lexeme.toList_spaced_cons _ more, word, append_assoc]
  rfl

/-- A formula comes back from its text: written after `SELECT`, with parentheses just where its
operands need them, it is the only target of the only statement. -/
theorem formula_round_trip (e : Formula .single) :
    ∃ s : Statement, Script.ofText false ("SELECT " ++ e.text) = .ok ⟨[s], []⟩ ∧ s.unplaced = e.selected := by
  let ls := (Kind.keyword .SELECT).lexeme :: e.lexemes
  let source := (Lexeme.spaced ls).toList
  have whole : Whole ls := whole_cons.2 ⟨whole_marks _ (by decide), e.whole⟩
  have scanned := Scan.pieces_spaced whole (Nat.le_refl _) []
  obtain ⟨word, ts, placed, mark, same⟩ := List.map_eq_cons_iff.1 (Lexeme.map_placed [] ls)
  have spelled : Spelled source ts := (placed ▸ Spelled.placed ls).part ⟨[word], [], by simp⟩
  have stands : Stands source .or ts e := e.recovered.lower same spelled (Nat.zero_le _)
  have opens : Opens .or (ts.map Token.toLexeme) := same ▸ e.opens.mono (Nat.zero_le _)
  let final : Token := ⟨Grammar.endLexeme, ⟨.past source, .past source⟩⟩
  have tokens : Scan.ofText source = ⟨word :: ts ++ [final], [], []⟩ := by
    rw [Scan.ofText, Position.start_eq_past, scanned, placed]
    rfl
  have query : Covers source final _ .query .selectStmt (word :: ts) e.selected :=
    .selected rfl (congrArg Lexeme.kind mark) stands opens
  have shallow : 32 * ts.length + 26 + 3 ≤ Symbol.count * ((word :: ts ++ [final]).length + 1) := by
    simp [Symbol.count]
    omega
  obtain ⟨root, parsed, s, read, selected⟩ := query.script rfl (congrArg Lexeme.kind mark) shallow
  refine ⟨s, ?_, selected⟩
  have tree : parse ("SELECT " ++ e.text) = .ok root := by
    rw [e.select_text, parse, parseText, tokens]
    dsimp only
    rw [parsed]
  rw [Script.ofText, tree]
  dsimp only
  rw [read]

example :
    let a : Formula .single := .column ⟨⟨.ident, "a", "a", false⟩, by decide +kernel, by decide +kernel⟩
    let one : Formula .single := .constant ⟨⟨.number, "1", "1", false⟩, by decide +kernel, by decide +kernel⟩
    (Formula.binary (.binary a .or (.unary .not a)) .and (.binary one .minus (.binary a .minus one))).text =
      "( a OR NOT a ) AND 1 - ( a - 1 )" := by
  decide +kernel

end TableLineage
