import TableLineage.Proofs.Statement.DrawTree

/-! Shaped expressions can be read and are drawn from their trees, level by level. -/
namespace TableLineage

open List
open Grammar (Form IsNode)

variable {us vs : List Tree} {e f : Expr} {m : ReadMode} {u : Tree}

namespace Phrase

/-- An expression has one part at its top, with its range. -/
theorem outline_expr (whole : e.isHole = false) : ∃ m os, e.outline = [.node m os] ∧ m.span = e.span := by
  cases e with
  | hole => cases whole
  | _ => exact ⟨_, _, rfl, rfl⟩

theorem outline_ne_nil (whole : e.isHole = false) : e.outline ≠ [] := by
  obtain ⟨m, os, outline, -⟩ := outline_expr whole
  simp [outline]

theorem outline_body (b : Phrase .body) : ∃ m os, b.outline = [.node m os] ∧ m.span = b.span := by
  cases b <;> exact ⟨_, _, rfl, rfl⟩

namespace Traced

theorem whole (traced : e.Traced m us) : e.isHole = false := traced.complete.not_hole

/-- An expression goes under a part that covers it and a tree behind it. -/
theorem tail (traced : e.Traced m us) (still : u.Still m) (some : u.leaves ≠ []) {kind : PartKind}
    (other : kind ≠ .tableRef) : Sketched m (us ++ [u]) [.node (.plain kind (e.span.cover u.span)) e.outline] := by
  obtain ⟨mark, os, outline, range⟩ := outline_expr traced.whole
  have one := traced.drawn
  rw [outline] at one ⊢
  exact one.tail still some (by simp [Mark.plainSpan?, Mark.plain, other, Outline.mark, range])

/-- The tree behind it may be a word. -/
theorem unary (traced : e.Traced m us) (tok : Token) (op : UnaryOp) :
    Traced m (us ++ [.leaf tok]) (.unary (e.span.cover (Tree.leaf tok).span) op e) :=
  ⟨traced.complete, traced.tail (.of_isLeaf rfl) (by simp [Tree.leaves]) (by decide)⟩

/-- Two expressions side by side under one that covers them. -/
theorem binary (traced : e.Traced m us) (traced' : f.Traced m vs) (op : BinaryOp) :
    Traced m (us ++ vs) (.binary (e.span.cover f.span) e op f) := by
  obtain ⟨mark, os, outline, range⟩ := outline_expr traced.whole
  obtain ⟨mark', os', outline', range'⟩ := outline_expr traced'.whole
  have one := traced.drawn
  have two := traced'.drawn
  refine ⟨⟨traced.complete, traced'.complete⟩, ?_⟩
  rw [outline] at one
  rw [outline'] at two
  change Sketched m (us ++ vs) [.node (.plain .binaryExpr (e.span.cover f.span)) (e.outline ++ f.outline)]
  rw [outline, outline']
  exact one.pair two (by rw [Mark.plain, Outline.mark, Outline.mark, range, range']; rfl)

end Traced
end Phrase

namespace Tree.Prepared

variable {t a d : Tree} {r s : Rule} (prepared : t.Prepared m) {rs : List Rule} {tok : Token} {tail ts : List Tree}

theorem draws_operand {k : Kid} {next : Expr → Outcome Expr} (given : Draws m ((t.opened m).expr k) us)
    (rest : ∀ e, e.Traced m us → Draws m (next e) ts) : Draws m ((t.opened m).operand k next) ts := by
  refine given.bind fun e traced => ?_
  rw [traced.whole]
  exact rest e traced

include prepared

/-- A level without an operator reads as its child. -/
theorem draws_single (rule : t.rule? = some r) (expression : r.isExpression) (children : t.children = [d])
    (node : IsNode rs d) (all : rs.all Rule.isExpression) (read : Outcome Expr) :
    Draws m ((t.opened m).level read) [t] := by
  have given := prepared.draws_node (by simp [children]) node all
  have whole {os : List Outline} (drawn : Sketched m [d] os) : Sketched m [t] os :=
    drawn_children rule (Rule.walked_of_isExpression expression).1 (children ▸ drawn)
  obtain ⟨_, f, l, x, cs, _, rfl⟩ := exists_node node
  simpa [Opened.level, Opened.single?, children] using given.imp whole

/-! ### Levels that fold their operators

Behind the first operand come groups of an operator and an operand. The induction is over these. -/

/-- `start` reads the first operand and `step` one group; `Q` says of the groups to come what is drawn with
them from all trees, after an expression that was drawn from those before. -/
theorem draws_groups {g : Form} {read : Outcome Expr} (Q : List Kid → Expr → List Tree → Prop)
    (rule : t.rule? = some r) (expression : r.isExpression) (table : r.forms = [.seq (.node rs) (.many g)])
    (all : rs.all Rule.isExpression)
    (start : ∀ a ks ts, IsNode rs a → (t.opened m).kids = a.kid m :: ks → Draws m ((t.opened m).expr (a.kid m)) [a] →
      (∀ e, e.Traced m [a] → Q ks e ts) → Draws m read ts)
    (done : ∀ us e, e.Traced m us → Q [] e us)
    (step : ∀ us vs ks ts e, g.Matches vs → (∀ c ∈ vs, c ∈ t.children) → e.Traced m us →
      (∀ e, e.Traced m (us ++ vs) → Q ks e ts) → Q (vs.map (kid m) ++ ks) e ts) :
    Draws m ((t.opened m).level read) [t] := by
  obtain ⟨_, _, children, ⟨a, rfl, node⟩, tss, rfl, each⟩ := prepared.shaped.only rule table
  by_cases more : tss.flatten = []
  · exact prepared.draws_single rule expression (by simpa [more] using children) node all read
  · have groups : ∀ uss : List (List Tree), uss ⊆ tss → ∀ us e, e.Traced m us →
        Q (uss.flatten.map (kid m)) e (us ++ uss.flatten) := by
      intro uss part
      induction uss with
      | nil => exact fun us e traced => by simpa using done us e traced
      | cons vs uss ih =>
        intro us e traced
        obtain ⟨among, rest⟩ := cons_subset.1 part
        have inside (c : Tree) (member : c ∈ vs) : c ∈ t.children := by
          rw [children]
          exact mem_append_right _ (mem_flatten.2 ⟨vs, among, member⟩)
        rw [flatten_cons, map_append, ← append_assoc]
        exact step us vs _ _ e (each vs among) inside traced (ih rest (us ++ vs))
    rw [level_eq children more]
    have whole := start a (tss.flatten.map (kid m)) ([a] ++ tss.flatten) node (by rw [opened_kids, children]; rfl)
      (prepared.draws_node (by simp [children]) node all) (groups tss (fun _ => id) [a])
    exact whole.imp fun drawn => drawn_children rule (Rule.walked_of_isExpression expression).1 (children ▸ drawn)

theorem draws_folded {ops : Kind → Option BinaryOp} {c : Option Grammar.Class} (rule : t.rule? = some r)
    (expression : r.isExpression) (table : r.forms = [.separated (.one s) (.leaf c)]) (operand : s.isExpression)
    (ks : List Kind) (kinds : among ks c) (known : ks.all fun k => (ops k).isSome) :
    Draws m ((t.opened m).folded ops) [t] := by
  have all : [s].all Rule.isExpression := by simpa using operand
  apply prepared.draws_groups (fun ks left ts => Draws m ((t.opened m).foldBinary ops ks (some left) none) ts) rule
    expression table all
  · intro a ks ts node kids given rest
    obtain ⟨_, f, l, x, cs, _, rfl⟩ := exists_node node
    rw [kids]
    exact draws_operand given rest
  · exact fun us left one => ⟨left, rfl, one⟩
  · rintro us _ tail ts left ⟨_, _, rfl, ⟨_, rfl, tok, rfl, fits⟩, d, rfl, node⟩ inside one rest
    obtain ⟨code, found⟩ := exists_known ks kinds known fits
    have given := prepared.draws_node (inside d (by simp)) node all
    have step (right : Expr) (two : right.Traced m [d]) :=
      rest _ (by simpa using (one.past (.of_isLeaf rfl)).binary two code)
    obtain ⟨_, f, l, x, cs, _, rfl⟩ := exists_node node
    simpa [Opened.foldBinary, isLeaf, token, found] using draws_operand given step

theorem draws_isNull (rule : t.rule? = some .aExprIsNull) : Draws m (t.opened m).isNull [t] := by
  apply prepared.draws_groups (fun ks e ts => Draws m (Opened.nullTests ks e) ts) rule rfl rfl rfl
  · intro a ks ts _ kids given rest
    rw [kids]
    exact given.bind rest
  · exact fun us e one => ⟨e, rfl, one⟩
  · rintro us _ ks ts e ⟨_, rfl, tok, rfl, fits⟩ - one rest
    obtain ⟨op, found⟩ : ∃ op, Opened.nullTest tok.kind = some op :=
      exists_known [.keyword .ISNULL, .keyword .NOTNULL] rfl rfl fits
    simpa [Opened.nullTests, one.whole, token, found] using rest _ (one.unary tok op)

theorem draws_customLevel (rule : t.rule? = some .aExprQualOp) : Draws m (t.opened m).customLevel [t] := by
  apply prepared.draws_groups (fun ks left ts => ∀ op, Draws m ((t.opened m).foldCustom ks (some left) op) ts) rule
    rfl rfl rfl
  · intro a ks ts node kids given rest
    obtain ⟨_, f, l, x, cs, member, rfl⟩ := exists_node node
    obtain rfl := mem_singleton.1 member
    rw [kids]
    exact draws_operand given fun left one => rest left one ""
  · exact fun us left one op => ⟨left, rfl, one⟩
  · rintro us _ ks ts left ⟨_, _, rfl, ⟨q, rfl, mark⟩, d, rfl, node⟩ inside one rest op
    have given := prepared.draws_node (inside d (by simp)) node rfl
    obtain ⟨_, _, _, _, _, also, rfl⟩ := exists_node mark
    obtain rfl := mem_singleton.1 also
    have still := (prepared.shaped.child (inside _ mem_cons_self)).still_of_silent (m := m) rfl rfl
    have step (right : Expr) (two : right.Traced m [d]) (op : BinaryOp) :=
      rest _ (by simpa using (one.past still).binary two op)
    obtain ⟨_, f, l, x, cs, member, rfl⟩ := exists_node node
    obtain rfl := mem_singleton.1 member
    exact draws_operand given fun right two => step right two _ _

theorem draws_atTimeZone (rule : t.rule? = some .aExprAtTimeZone) : Draws m (t.opened m).atTimeZone [t] := by
  apply prepared.draws_groups (fun ks left ts => Draws m ((t.opened m).foldZones ks (some left)) ts) rule rfl rfl rfl
  · intro a ks ts node kids given rest
    obtain ⟨_, f, l, x, cs, _, rfl⟩ := exists_node node
    rw [kids]
    exact draws_operand given rest
  · exact fun us left one => ⟨left, rfl, one⟩
  · rintro us _ ks ts left ⟨_, _, rfl, ⟨_, rfl, one, rfl, at_fits⟩, _, _, rfl, ⟨_, rfl, two, rfl, time_fits⟩, _, _, rfl,
      ⟨_, rfl, three, rfl, zone_fits⟩, d, rfl, node⟩ inside traced rest
    have first : one.kind = .keyword .AT := kind_of_kind at_fits
    have second : two.kind = .keyword .TIME := kind_of_kind time_fits
    have third : three.kind = .keyword .ZONE := kind_of_kind zone_fits
    have words := ((traced.past (u := .leaf one) (.of_isLeaf rfl)).past (u := .leaf two) (.of_isLeaf rfl)).past
      (u := .leaf three) (.of_isLeaf rfl)
    have given := prepared.draws_node (inside d (by simp)) node rfl
    have step (right : Expr) (more : right.Traced m [d]) := rest _ (by simpa using words.binary more .atTimeZone)
    obtain ⟨_, f, l, x, cs, _, rfl⟩ := exists_node node
    simpa [Opened.foldZones, isLeaf, is, first, second, third] using draws_operand given step

theorem draws_typecast (rule : t.rule? = some .aExprTypecast) : Draws m (t.opened m).typecast [t] := by
  apply prepared.draws_groups (fun ks e ts => Draws m (Opened.casts ks e) ts) rule rfl rfl rfl
  · intro a ks ts _ kids given rest
    rw [kids]
    exact given.bind rest
  · exact fun us e one => ⟨e, rfl, one⟩
  · rintro us _ ks ts e ⟨_, _, rfl, ⟨_, rfl, tok, rfl, fits⟩, d, rfl, type⟩ inside one rest
    have kind : tok.kind = .typecast := kind_of_kind fits
    have shaped := prepared.shaped.child (inside d (by simp))
    obtain ⟨_, f, l, x, cs, member, rfl⟩ := exists_node type
    obtain rfl := mem_singleton.1 member
    have below := (one.past (u := .leaf tok) (.of_isLeaf rfl)).tail (shaped.still_of_silent rfl rfl)
      (shaped.leaves_ne_nil rfl rfl) (by decide : PartKind.castExpr ≠ .tableRef)
    have step := rest (.cast (e.span.cover (Tree.node .typename f l x cs).span) e x)
      ⟨one.complete, by rwa [append_assoc] at below⟩
    simpa [Opened.casts, one.whole, is, kind, hasRule, rule?, text] using step

/-! ### Tests after `IS` -/

omit prepared in
theorem draws_wordTest
    (fits : ∀ c ∈ some (Grammar.Class.anyOf ([.NULL, .TRUE, .FALSE, .UNKNOWN].map .keyword)), c.holds tok.toLexeme)
    (negated : Bool) (traced : e.Traced m us) : Draws m (Opened.wordTest e negated (.leaf tok)) (us ++ [.leaf tok]) := by
  obtain ⟨op, found⟩ : ∃ op, Opened.isTest negated tok.kind = some op :=
    exists_known ([.NULL, .TRUE, .FALSE, .UNKNOWN].map .keyword) rfl (by cases negated <;> rfl) fits
  exact ⟨_, by simp [Opened.wordTest, token, found], traced.unary tok op⟩

theorem draws_distinctTest {mark : Token} (kind : mark.kind = .keyword .FROM) (member : d ∈ t.children)
    (node : IsNode [.aExprCompare] d) (test : Tree) (negated : Bool) (traced : e.Traced m us) :
    Draws m ((t.opened m).distinctTest e negated test (.leaf mark) (d.kid m)) (us ++ [.leaf mark, d]) := by
  have given := prepared.draws_node member node rfl
  have step (right : Expr) (two : right.Traced m [d]) : Draws m (.ok (.binary (e.span.cover right.span) e
      (if negated then .notDistinctFrom else .distinctFrom) right)) (us ++ [.leaf mark, d]) :=
    ⟨_, rfl, by simpa using (traced.past (.of_isLeaf rfl)).binary two _⟩
  obtain ⟨_, f, l, x, cs, _, rfl⟩ := exists_node node
  simpa [Opened.distinctTest, is, kind, isLeaf] using draws_operand given step

theorem draws_isTest {ks : List Kid} (shape : Rule.isTest.Matches vs) (inside : ∀ c ∈ vs, c ∈ t.children)
    (traced : e.Traced m us) (rest : ∀ e, e.Traced m (us ++ vs) → Draws m ((t.opened m).isTests ks e) ts) :
    Draws m ((t.opened m).isTests (vs.map (kid m) ++ ks) e) ts := by
  obtain ⟨_, _, rfl, ⟨_, rfl, tok, rfl, fits⟩, _, _, rfl, negation, test⟩ := shape
  have first : tok.kind = .keyword .IS := kind_of_kind fits
  have one := traced.past (u := .leaf tok) (.of_isLeaf rfl)
  -- Four cases: with `NOT` or without it, a word or `DISTINCT FROM`.
  unfold Opened.isTests
  obtain ⟨_, rfl, not, rfl, fits⟩ | rfl := negation
  · have second : not.kind = .keyword .NOT := kind_of_kind fits
    have two := one.past (u := .leaf not) (.of_isLeaf rfl)
    obtain ⟨_, rfl, word, rfl, fits⟩ | ⟨_, _, rfl, ⟨_, rfl, word, rfl, fits⟩, _, _, rfl,
      ⟨_, rfl, mark, rfl, also⟩, d, rfl, node⟩ := test
    · have other : word.kind ≠ .keyword .DISTINCT := fun same => by simpa [Grammar.Class.holds, same] using fits _ rfl
      have given := draws_wordTest fits true two
      simpa [traced.whole, is, first, second, other] using given.bind fun e more => rest e (by simpa using more)
    · have third : word.kind = .keyword .DISTINCT := kind_of_kind fits
      have given := prepared.draws_distinctTest (kind_of_kind also) (inside d (by simp)) node (.leaf word) true
        (two.past (u := .leaf word) (.of_isLeaf rfl))
      simpa [traced.whole, is, first, second, third] using given.bind fun e more => rest e (by simpa using more)
  · obtain ⟨_, rfl, word, rfl, fits⟩ | ⟨_, _, rfl, ⟨_, rfl, word, rfl, fits⟩, _, _, rfl,
      ⟨_, rfl, mark, rfl, also⟩, d, rfl, node⟩ := test
    · have other : word.kind ≠ .keyword .DISTINCT := fun same => by simpa [Grammar.Class.holds, same] using fits _ rfl
      have plain : word.kind ≠ .keyword .NOT := fun same => by simpa [Grammar.Class.holds, same] using fits _ rfl
      have given := draws_wordTest fits false one
      simpa [traced.whole, is, first, other, plain] using given.bind fun e more => rest e (by simpa using more)
    · have second : word.kind = .keyword .DISTINCT := kind_of_kind fits
      have given := prepared.draws_distinctTest (kind_of_kind also) (inside d (by simp)) node (.leaf word) false
        (one.past (u := .leaf word) (.of_isLeaf rfl))
      simpa [traced.whole, is, first, second] using given.bind fun e more => rest e (by simpa using more)

theorem draws_isNot (rule : t.rule? = some .aExprIsNot) : Draws m (t.opened m).isNot [t] := by
  apply prepared.draws_groups (fun ks e ts => Draws m ((t.opened m).isTests ks e) ts) rule rfl rfl rfl
  · intro a ks ts _ kids given rest
    rw [kids]
    exact given.bind rest
  · exact fun us e one => ⟨e, rfl, one⟩
  · exact fun us vs ks ts e shape inside traced rest => prepared.draws_isTest shape inside traced rest

/-! ### Levels that take an operator once -/

theorem draws_between (rule : t.rule? = some .aExprBetween) : Draws m (t.opened m).between [t] := by
  obtain ⟨_, tail, children, ⟨a, rfl, first⟩, operator | none⟩ := prepared.shaped.only rule rfl
  · obtain ⟨tok, member, kind⟩ := exists_leaf [.keyword .BETWEEN] rfl operator
    obtain ⟨_, _, inner, ⟨b, rfl, second⟩, c, rfl, third⟩ := operator.bare
    have nodes := nodes_cons children first inner
    have mark : t.has (.keyword .BETWEEN) :=
      has_of_leaf (by rw [children]; exact mem_append_right _ member) (mem_singleton.1 kind)
    rw [Opened.between, level_eq children (ne_nil_of_mem member), nodes_opened, nodes]
    simp only [cons_append, nil_append, map_cons, map_nil, opened_has, mark, Bool.not_true,
      Bool.false_eq_true, if_false]
    refine (prepared.draws_node (mem_of_nodes nodes (by simp)) first rfl).bind fun target one => ?_
    refine (prepared.draws_node (mem_of_nodes nodes (by simp)) second rfl).bind fun lower two => ?_
    refine (prepared.draws_node (mem_of_nodes nodes (by simp)) third rfl).bind fun upper three => ?_
    exact .ok ⟨one.1, two.1, three.1⟩
      (prepared.shaped.enclose_nodes rule rfl nodes ((one.2.append two.2).append three.2) rfl)
  · exact prepared.draws_single rule rfl (by simpa [show tail = [] from none] using children) first rfl _

theorem draws_within (rule : t.rule? = some .aExprIn) : Draws m (t.opened m).within [t] := by
  obtain ⟨_, tail, children, ⟨a, rfl, first⟩, operator | none⟩ := prepared.shaped.only rule rfl
  · obtain ⟨tok, member, kind⟩ := exists_leaf [.keyword .IN] rfl operator
    obtain ⟨src, inner, s, among, source⟩ := operator.bare
    have nodes := nodes_cons children first inner
    have mark : t.has (.keyword .IN) :=
      has_of_leaf (by rw [children]; exact mem_append_right _ member) (mem_singleton.1 kind)
    rw [Opened.within, level_eq children (ne_nil_of_mem member), nodes_opened, nodes]
    simp only [map_cons, map_nil, opened_has, mark, Bool.not_true, Bool.false_eq_true, if_false, kid_tree,
      kid_read, hasRule, source]
    refine (prepared.draws_node (mem_of_nodes nodes (by simp)) first rfl).bind fun target one => ?_
    have inside : src ∈ t.children := mem_of_nodes nodes (by simp)
    have shaped := prepared.shaped.child inside
    have whole {os ps : List Outline} (one : Sketched m [a] os) (two : Sketched m [src] ps) :
        Sketched m [t] [.node (.plain .inExpr t.span) (os ++ ps)] :=
      prepared.shaped.enclose_nodes rule rfl nodes (one.append two) rfl
    obtain rfl | rfl : s = .selectWithParens ∨ s = .inList := by simpa using among
    · refine (prepared.draws inside source (by decide)).bind fun query two => ?_
      exact .ok ⟨one.1, two.1⟩ (whole one.2 (shaped.enclose source rfl two.2 rfl))
    · refine (prepared.draws inside source (by decide)).bind fun items two => ?_
      exact .ok ⟨one.1, two.1⟩ (whole one.2 (shaped.enclose source rfl two.2 rfl))
  · exact prepared.draws_single rule rfl (by simpa [show tail = [] from none] using children) first rfl _

/-- A prefix operator of a level that goes on with the level itself. -/
theorem draws_unaryLevel {c : Option Grammar.Class} {self next : Rule} (rule : t.rule? = some self)
    (table : self.forms = [.alt (.seq (.leaf c) (.one self)) (.one next)]) (expression : self.isExpression)
    (below : next.isExpression) (ks : List Kind) (kinds : among ks c)
    (known : ks.all fun k => (Opened.signOp k).isSome) : Draws m ((t.opened m).unaryLevel self) [t] := by
  obtain ⟨_, _, children, ⟨_, rfl, tok, rfl, fits⟩, d, rfl, node⟩ | ⟨d, children, node⟩ :=
    prepared.shaped.only rule table
  · obtain ⟨code, found⟩ := exists_known ks kinds known fits
    have given := prepared.draws_node (by simp [children]) node (by simpa using expression)
    have same : d.hasRule self = true := by
      obtain ⟨_, single, rule⟩ := node
      exact hasRule_iff.2 (mem_singleton.1 single ▸ rule)
    rw [Opened.unaryLevel, level_eq children (by simp)]
    simp only [opened_kids, children, cons_append, nil_append, map_cons, map_nil, kid_tree,
      isLeaf, same, token, found, Bool.not_true, Bool.or_self, Bool.false_eq_true, if_false]
    refine draws_operand given fun e one => .ok one.1 ?_
    exact prepared.shaped.enclose_children rule expression children ((Sketched.quiet (.of_isLeaf rfl)).append one.2) rfl
  · exact prepared.draws_single rule expression children node (by simpa using below) _

theorem draws_compare (rule : t.rule? = some .aExprCompare) : Draws m (t.opened m).compare [t] := by
  obtain ⟨_, tail, children, ⟨a, rfl, first⟩,
    ⟨_, _, rfl, ⟨_, rfl, tok, rfl, fits⟩, d, rfl, s, among, right⟩ | none⟩ := prepared.shaped.only rule rfl
  · obtain ⟨code, found⟩ : ∃ op, Opened.compareOp tok.kind = some op :=
      exists_known [.eq, .ne, .lt, .gt, .le, .ge] rfl rfl fits
    have inside : d ∈ t.children := by simp [children]
    have combine {left right : Expr} (one : left.Traced m [a]) (two : right.Traced m [d]) :
        Draws m (if left.isHole || right.isHole then .ok .hole else .ok (.binary t.span left code right)) [t] := by
      rw [one.whole, two.whole]
      refine .ok ⟨one.1, two.1⟩ (prepared.shaped.enclose_children rule rfl children ?_ rfl)
      exact one.2.append ((Sketched.quiet (.of_isLeaf rfl)).append two.2)
    rw [Opened.compare, level_eq children (by simp), opened_kids, children]
    simp only [cons_append, nil_append, map_cons, map_nil, kid_tree, kid_read, isLeaf, token,
      found, Bool.not_true, Bool.false_eq_true, if_false, hasRule, right]
    refine (prepared.draws_node (by simp [children]) first rfl).bind fun left one => ?_
    obtain rfl | rfl : s = .subqueryQuantifier ∨ s = .aExprLike := by simpa using among
    · exact (prepared.draws inside right (by decide)).bind fun right two => combine one two
    · exact (prepared.draws_expr inside right rfl).bind fun right two => combine one two
  · exact prepared.draws_single rule rfl (by simpa [show tail = [] from none] using children) first rfl _

theorem draws_quantified (rule : t.rule? = some .subqueryQuantifier) : Draws m (t.opened m).quantified [t] := by
  obtain ⟨_, _, children, ⟨_, rfl, tok, rfl, fits⟩, operand⟩ := prepared.shaped.only rule rfl
  obtain ⟨q, found⟩ : ∃ q, Opened.quantifier? tok.kind = some q :=
    exists_known ([.ANY, .ALL, .SOME].map .keyword) rfl rfl fits
  obtain ⟨d, inner, s, among, same⟩ := operand.bare
  have nodes : t.nodes = [d] := nodes_leaf children inner
  have member : d ∈ t.children := mem_of_nodes nodes (by simp)
  rw [Opened.quantified, kid?_opened, opened_kids, children]
  simp only [cons_append, nil_append, map_cons, kid_tree, token, found]
  obtain rfl | rfl : s = .selectWithParens ∨ s = .aExprOr := by simpa using among
  · obtain ⟨c, query, -⟩ := exists_child? member same
    obtain rfl := eq_of_nodes nodes query
    rw [query]
    refine (prepared.draws member same (by decide)).bind fun q one => .ok one.1 ?_
    exact prepared.shaped.enclose rule rfl (drawn_nodes rule rfl (nodes ▸ one.2)) rfl
  · have none : t.child? .selectWithParens = none := by simp [child?_eq_find?, nodes, hasRule, same]
    rw [none]
    refine (prepared.draws_onlyExpr rule rfl nodes same _).bind fun e one => .ok one.1 ?_
    exact prepared.shaped.enclose rule rfl one.2 rfl

/-- The operator of a pattern match is known, and behind it stand the nodes of a pattern. -/
theorem draws_pattern (rule : t.rule? = some .aExprLike) (children : t.children = [a] ++ tail)
    (first : IsNode [.aExprQualOp] a) (more : tail ≠ []) (known : ∃ op, (t.opened m).likeOp? = some op)
    (pattern : Rule.pattern.bare.Matches (tail.filter (!·.isLeaf))) : Draws m (t.opened m).like [t] := by
  obtain ⟨op, found⟩ := known
  obtain ⟨_, _, inner, ⟨b, rfl, second⟩, ⟨c, rfl, third⟩ | rfl⟩ := pattern
  · have nodes := nodes_cons children first inner
    rw [Opened.like, level_eq children more, nodes_opened, nodes]
    refine (prepared.draws_node (mem_of_nodes nodes (by simp)) first rfl).bind fun target one => ?_
    refine (prepared.draws_node (mem_of_nodes nodes (by simp)) second rfl).bind fun pattern two => ?_
    rw [found]
    refine (prepared.draws_node (mem_of_nodes nodes (by simp)) third rfl).bind fun escape three => ?_
    exact .ok ⟨one.1, two.1, three.1⟩
      (prepared.shaped.enclose_nodes rule rfl nodes ((one.2.append two.2).append three.2) rfl)
  · have nodes := nodes_cons children first inner
    rw [Opened.like, level_eq children more, nodes_opened, nodes]
    refine (prepared.draws_node (mem_of_nodes nodes (by simp)) first rfl).bind fun target one => ?_
    refine (prepared.draws_node (mem_of_nodes nodes (by simp)) second rfl).bind fun pattern two => ?_
    rw [found]
    exact .ok ⟨one.1, two.1, trivial⟩
      (prepared.shaped.enclose_nodes rule rfl nodes ((one.2.append two.2).append .nil) rfl)

theorem draws_like (rule : t.rule? = some .aExprLike) : Draws m (t.opened m).like [t] := by
  obtain ⟨_, tail, children, ⟨a, rfl, first⟩, operator | operator | none⟩ := prepared.shaped.only rule rfl
  · obtain ⟨tok, member, kind⟩ := exists_leaf [.keyword .LIKE, .keyword .ILIKE] rfl operator
    have inside : .leaf tok ∈ t.children := by simp [children, member]
    have known : ∃ op, (t.opened m).likeOp? = some op := by
      obtain same | same : tok.kind = .keyword .LIKE ∨ tok.kind = .keyword .ILIKE := by simpa using kind
      · exact ⟨.like, by simp [Opened.likeOp?, has_of_leaf inside same]⟩
      · cases plain : t.has (.keyword .LIKE)
        · exact ⟨.ilike, by simp [Opened.likeOp?, plain, has_of_leaf inside same]⟩
        · exact ⟨.like, by simp [Opened.likeOp?, plain]⟩
    exact prepared.draws_pattern rule children first (ne_nil_of_mem member) known operator.bare
  · obtain ⟨tok, member, kind⟩ := exists_leaf [.keyword .SIMILAR] rfl operator
    have mark : t.has (.keyword .SIMILAR) := has_of_leaf (by simp [children, member]) (mem_singleton.1 kind)
    have known : ∃ op, (t.opened m).likeOp? = some op := by
      simp only [Opened.likeOp?, opened_has, mark]
      split
      · exact ⟨_, rfl⟩
      · split
        · exact ⟨_, rfl⟩
        · exact ⟨_, rfl⟩
    exact prepared.draws_pattern rule children first (ne_nil_of_mem member) known operator.bare
  · exact prepared.draws_single rule rfl (by simpa [show tail = [] from none] using children) first rfl _

theorem draws_prefixCustom (rule : t.rule? = some .aExprUnaryQualOp) : Draws m (t.opened m).prefixCustom [t] := by
  obtain ⟨_, _, children, ⟨q, rfl, r, among, mark⟩ | rfl, d, rfl, node⟩ := prepared.shaped.only rule rfl
  · obtain rfl := mem_singleton.1 among
    have given := prepared.draws_node (by simp [children]) node rfl
    have still := (prepared.shaped.child (by simp [children])).still_of_silent (m := m) mark rfl
    rw [Opened.prefixCustom, level_eq children (by simp), opened_kids, children]
    simp only [cons_append, nil_append, map_cons, map_nil, kid_tree, hasRule_iff.2 mark,
      Bool.not_true, Bool.false_eq_true, if_false]
    refine draws_operand given fun e one => .ok one.1 ?_
    exact prepared.shaped.enclose_children rule rfl children ((Sketched.quiet still).append one.2) rfl
  · exact prepared.draws_single rule rfl (by simpa using children) node rfl _

theorem draws_collate (rule : t.rule? = some .aExprCollate) : Draws m (t.opened m).collate [t] := by
  obtain ⟨_, tail, children, ⟨a, rfl, first⟩, ⟨_, _, rfl, ⟨_, rfl, tok, rfl, fits⟩, n, rfl, r, among, name⟩ | none⟩ :=
    prepared.shaped.only rule rfl
  · obtain rfl := mem_singleton.1 among
    have mark : t.has (.keyword .COLLATE) := has_of_leaf (by simp [children]) (kind_of_kind fits)
    obtain ⟨_, found, _⟩ := exists_child? (t := t) (by simp [children]) name
    have given := prepared.draws_node (by simp [children]) first rfl
    have still := (prepared.shaped.child (by simp [children])).still_of_silent (m := m) name rfl
    rw [Opened.collate, level_eq children (by simp), kid?_opened, found, opened_kids, children, opened_has, mark]
    refine draws_operand given fun e one => .ok one.1 ?_
    refine prepared.shaped.enclose_children rule rfl children ?_ rfl
    simpa using (one.2.past (u := .leaf tok) (.of_isLeaf rfl)).past still
  · exact prepared.draws_single rule rfl (by simpa [show tail = [] from none] using children) first rfl _

end Tree.Prepared
end TableLineage
