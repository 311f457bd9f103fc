import TableLineage.Proofs.Statement.Ready
import TableLineage.Statement.Script

/-! Statements read without their expressions. Wherever a statement can be read, it can be read so,
and what comes out is the same statement with a hole for each expression. -/
namespace TableLineage

open List

/-- If the first computation gives a result, the second gives a related one. -/
def Follows {α β : Type} (R : α → β → Prop) (x : Outcome α) (y : Outcome β) : Prop := ∀ a, x = .ok a → ∃ b, y = .ok b ∧ R a b

namespace Follows

variable {α β γ κ : Type} {R : α → β → Prop} {S : γ → κ → Prop} {x : Outcome α} {y : Outcome β}

theorem ok {a : α} {b : β} (related : R a b) : Follows R (.ok a) (.ok b) := by
  intro a' same
  cases same
  exact ⟨b, rfl, related⟩

theorem error {e : Mismatch} : Follows R (.error e) y := by
  intro a same
  cases same

theorem bind {f : α → Outcome γ} {g : β → Outcome κ} (first : Follows R x y)
    (rest : ∀ a b, R a b → Follows S (f a) (g b)) : Follows S (x >>= f) (y >>= g) := by
  cases x with
  | error => exact .error
  | ok a =>
    obtain ⟨b, rfl, related⟩ := first a rfl
    exact rest a b related

/-- A computation that both sides share. -/
theorem after {z : Outcome α} {f : α → Outcome γ} {g : α → Outcome κ} (rest : ∀ a, Follows S (f a) (g a)) :
    Follows S (z >>= f) (z >>= g) := by
  cases z with
  | error => exact .error
  | ok a => exact rest a

/-- A choice that both sides make alike. -/
theorem branch {b : Prop} [Decidable b] {x' : Outcome α} {y' : Outcome β} (yes : Follows R x y) (no : Follows R x' y') :
    Follows R (if b then x else x') (if b then y else y') := by
  split
  · exact yes
  · exact no

end Follows

namespace Phrase

/-- The second phrase is the first with its expressions left out. All else is the same: names,
places, options and the order of things. -/
inductive Muted : {c : Category} → Phrase c → Phrase c → Prop
  | none {c : Category} : Muted (.none : Phrase (.maybe c)) .none
  | some {c : Category} {x x' : Phrase c} : Muted x x' → Muted (.some x) (.some x')
  | nil {c : Category} : Muted (.nil : Phrase (.many c)) .nil
  | cons {c : Category} {x x' : Phrase c} {xs xs' : Phrase (.many c)} : Muted x x' → Muted xs xs' →
      Muted (.cons x xs) (.cons x' xs')
  -- Statements
  | select {q q' : Query} : Muted q q' → Muted (.select q) (.select q')
  | insert {s w w' t q q' d} : Muted w w' → Muted q q' → Muted (.insert s w t q d) (.insert s w' t q' d)
  | delete {s w w' t o o' f f'} : Muted w w' → Muted o o' → Muted f f' →
      Muted (.delete s w t o f) (.delete s w' t o' f')
  | createTableAs {s n t e cs x q q'} : Muted q q' →
      Muted (.createTableAs s n t e cs x q) (.createTableAs s n t e cs x q')
  | createView {s n r m cs x q q'} : Muted q q' → Muted (.createView s n r m cs x q) (.createView s n r m cs x q')
  | createTable {s n t e x y} : Muted (.createTable s n t e x y) (.createTable s n t e x y)
  | alterRename {s n m} : Muted (.alterRename s n m) (.alterRename s n m)
  | drop {s k ns e b} : Muted (.drop s k ns e b) (.drop s k ns e b)
  -- Queries
  | query {s w w' b b' o o' l l' f f'} : Muted w w' → Muted b b' → Muted o o' → Muted l l' → Muted f f' →
      Muted (.query s w b o l f) (.query s w' b' o' l' f')
  | withs {s r ts ts'} : Muted ts ts' → Muted (.withs s r ts) (.withs s r ts')
  | cte {s n cs q q'} : Muted q q' → Muted (.cte s n cs q) (.cte s n cs q')
  | core {s d on on' top top' ts ts' i src src' f f' g g' h h' q q' ws ws'} :
      Muted on on' → Muted top top' → Muted ts ts' → Muted src src' → Muted f f' → Muted g g' → Muted h h' →
      Muted q q' → Muted ws ws' →
      Muted (.core s d on top ts i src f g h q ws) (.core s d on' top' ts' i src' f' g' h' q' ws')
  | combine {s op m l l' r r'} : Muted l l' → Muted r r' → Muted (.combine s op m l r) (.combine s op m l' r')
  | values {s rows rows'} : Muted rows rows' → Muted (.values s rows) (.values s rows')
  | nested {s q q'} : Muted q q' → Muted (.nested s q) (.nested s q')
  | star {s q} : Muted (.star s q) (.star s q)
  | labelled {s e e' a} : Muted e e' → Muted (.labelled s e a) (.labelled s e' a)
  | sort {s xs xs'} : Muted xs xs' → Muted (.sort s xs) (.sort s xs')
  | sortItem {s e e' o n} : Muted e e' → Muted (.sortItem s e o n) (.sortItem s e' o n)
  | windowDef {s n w w'} : Muted w w' → Muted (.windowDef s n w) (.windowDef s n w')
  | window {s n p p' o o' f} : Muted p p' → Muted o o' → Muted (.window s n p o f) (.window s n p' o' f)
  -- Sources
  | sources {s xs xs'} : Muted xs xs' → Muted (.sources s xs) (.sources s xs')
  | sourceItem {s x x' js js'} : Muted x x' → Muted js js' → Muted (.sourceItem s x js) (.sourceItem s x' js')
  | table {t} : Muted (.table t) (.table t)
  | subquery {s q q' a} : Muted q q' → Muted (.subquery s q a) (.subquery s q' a)
  | parens {s i i' a} : Muted i i' → Muted (.parens s i a) (.parens s i' a)
  | crossJoin {s t t'} : Muted t t' → Muted (.crossJoin s t) (.crossJoin s t')
  | qualifiedJoin {s k o n t t' c c'} : Muted t t' → Muted c c' →
      Muted (.qualifiedJoin s k o n t c) (.qualifiedJoin s k o n t' c')
  | joinOn {s e e'} : Muted e e' → Muted (.joinOn s e) (.joinOn s e')
  | joinUsing {s cs} : Muted (.joinUsing s cs) (.joinUsing s cs)
  -- Expressions
  | hole {e : Expr} : Muted e .hole
  /-- The number after `TOP` is a word of its own. -/
  | number {s x t} : Muted (.constant s .number x t) (.constant s .number x t)

theorem Muted.span_eq {b b' : Phrase .body} (muted : b.Muted b') : b'.span = b.span := by
  cases muted <;> rfl

end Phrase

open Phrase (Muted)

namespace Tree

/-- The clauses that are read for their expression. -/
def isClause (t : Tree) : Bool :=
  [.whereClause, .havingClause, .qualifyClause, .topClause, .limitClause, .offsetClause].any t.hasRule

/-- The categories in which a tree is read outside of expressions. -/
def speaks (t : Tree) : Category → Bool
  | .expr => t.isClause
  | .when | .overClause | .source | .inSource | .maybe _ => false
  | .many c => c = .expr || c = .target || c = .windowDef || c = .sourceItem
  | _ => true

/-- The tree can be read without expressions wherever it can be read. -/
def Mutes (n : Bool) (t : Tree) : Prop := ∀ c, t.speaks c → Follows Muted (t.read ⟨n, false⟩ c) (t.read ⟨n, true⟩ c)

/-- What the reader `f` gives at the tree, it also gives without expressions. -/
abbrev MutesBy (n : Bool) (t : Tree) {c : Category} (f : Opened → Outcome (Phrase c)) : Prop :=
  Follows Muted (f (t.opened ⟨n, false⟩)) (f (t.opened ⟨n, true⟩))

theorem follows_readEach {n : Bool} {c : Category} {read read' : Kid → Outcome (Phrase c)} {ts : List Tree}
    (each : ∀ t ∈ ts, Follows Muted (read (t.kid ⟨n, false⟩)) (read' (t.kid ⟨n, true⟩))) :
    Follows Muted (readEach read (ts.map (kid ⟨n, false⟩))) (readEach read' (ts.map (kid ⟨n, true⟩))) := by
  induction ts with
  | nil => exact .ok .nil
  | cons t ts ih =>
    refine (each t mem_cons_self).bind fun _ _ one => ?_
    exact (ih fun t member => each t (mem_cons_of_mem _ member)).bind fun _ _ rest => .ok (.cons one rest)

section

variable {n : Bool} {t : Tree}

theorem follows_expr {d : Tree} : Follows Muted ((t.opened ⟨n, false⟩).expr (d.kid ⟨n, false⟩))
    ((t.opened ⟨n, true⟩).expr (d.kid ⟨n, true⟩)) := fun _ _ => ⟨.hole, rfl, .hole⟩

theorem follows_exprs : t.MutesBy n Opened.exprs := by
  simp only [MutesBy, Opened.exprs, nodes_opened]
  exact follows_readEach fun d _ => follows_expr

theorem follows_firstExpr (construct : String) : t.MutesBy n (·.firstExpr construct) := by
  simp only [MutesBy, Opened.firstExpr, nodes_opened]
  cases t.nodes with
  | nil => exact .error
  | cons d _ => exact follows_expr

theorem follows_readExpr (clause : t.isClause) : t.MutesBy n Opened.readExpr := by
  simp only [MutesBy, Opened.readExpr, opened_tree]
  cases rule : t.rule? with
  | none => simp [isClause, hasRule, rule] at clause
  | some r =>
    cases r with
    | topClause =>
      dsimp only
      cases t.leaf? .number with
      | some number => exact .ok .number
      | none => exact follows_firstExpr _
    | whereClause | havingClause | qualifyClause | limitClause | offsetClause => exact follows_firstExpr _
    | _ => simp [isClause, hasRule, rule] at clause

theorem follows_sortItem : t.MutesBy n Opened.sortItem :=
  (follows_firstExpr "sort item").bind fun _ _ e => .ok (.sortItem e)

theorem follows_condition : t.MutesBy n Opened.condition := by
  simp only [MutesBy, Opened.condition, opened_tree]
  split
  · exact .ok .joinUsing
  · exact (follows_firstExpr "join condition").bind fun _ _ e => .ok (.joinOn e)

theorem follows_target : t.MutesBy n Opened.target := by
  simp only [MutesBy, Opened.target, opened_tree]
  split
  · exact .ok .star
  · cases t.children.getLast? with
    | none => exact .error
    | some c => exact (follows_firstExpr "target").bind fun _ _ e => .ok (.labelled e)
  · exact .error

theorem follows_combine (op : Tree) {l l' b b' : Phrase .body} (left : l.Muted l') (right : b.Muted b') :
    Follows Muted (Opened.combine op l b) (Opened.combine op l' b') := by
  unfold Opened.combine
  cases op.children with
  | nil => exact .error
  | cons c _ =>
    dsimp only
    cases Opened.setOp? c.token.kind with
    | none => exact .error
    | some code =>
      rw [left.span_eq, right.span_eq]
      exact .ok (.combine left right)

end

namespace Mutes

variable {n : Bool} {t d : Tree} {r : Rule} {c : Category} (mutes : ∀ d ∈ t.children, d.Mutes n)

theorem speaks_of_hasRule {d : Tree} (rule : d.hasRule r) (speaks : (Tree.node r .none .none "" []).speaks c) : d.speaks c := by
  rw [hasRule_iff] at rule
  cases c <;> simp_all [Tree.speaks, isClause, hasRule, rule?]

include mutes

/-! ### Clauses -/

theorem child (found : t.child? r = some d) (speaks : (Tree.node r .none .none "" []).speaks c) :
    Follows Muted (d.read ⟨n, false⟩ c) (d.read ⟨n, true⟩ c) := by
  obtain ⟨member, rule⟩ := mem_of_child? found
  exact mutes d member c (speaks_of_hasRule (hasRule_iff.2 rule) speaks)

theorem need (r : Rule) (construct : String) (c : Category) (speaks : (Tree.node r .none .none "" []).speaks c) :
    t.MutesBy n (·.need r construct >>= (·.read c)) := by
  simp only [MutesBy, Opened.need, kid?_opened]
  cases found : t.child? r with
  | none => exact .error
  | some d => exact child mutes found speaks

theorem needed {γ κ : Type} {S : γ → κ → Prop} {f : Phrase c → Outcome γ} {g : Phrase c → Outcome κ} (r : Rule)
    (construct : String) (speaks : (Tree.node r .none .none "" []).speaks c)
    (rest : ∀ p q, Muted p q → Follows S (f p) (g q)) :
    Follows S ((t.opened ⟨n, false⟩).need r construct >>= fun k => k.read c >>= f)
      ((t.opened ⟨n, true⟩).need r construct >>= fun k => k.read c >>= g) := by
  rw [← bind_assoc, ← bind_assoc]
  exact (need mutes r construct c speaks).bind rest

theorem optional (r : Rule) (c : Category) (speaks : (Tree.node r .none .none "" []).speaks c) :
    t.MutesBy n (·.optional r c) := by
  simp only [MutesBy, Opened.optional, kid?_opened]
  cases found : t.child? r with
  | none => exact .ok .none
  | some d => exact (child mutes found speaks).bind fun _ _ one => .ok (.some one)

theorem manyOf (r : Rule) (c : Category) (speaks : (Tree.node r .none .none "" []).speaks (.many c)) :
    t.MutesBy n (·.manyOf r c) := by
  simp only [MutesBy, Opened.manyOf, kid?_opened]
  cases found : t.child? r with
  | none => exact .ok .nil
  | some d => exact child mutes found speaks

theorem each (r : Rule) (c : Category) (speaks : (Tree.node r .none .none "" []).speaks c) :
    t.MutesBy n fun o => readEach (·.read c) (o.kidsOf r) := by
  simp only [MutesBy, kidsOf_opened]
  refine follows_readEach fun d inside => ?_
  obtain ⟨member, rule⟩ := mem_filter.1 inside
  exact mutes d member c (speaks_of_hasRule rule speaks)

theorem listed : t.MutesBy n Opened.listed :=
  manyOf mutes .exprList .expr rfl

theorem readExprs : t.MutesBy n Opened.readExprs := by
  simp only [MutesBy, Opened.readExprs, opened_tree]
  split
  case h_5 => exact follows_exprs
  all_goals exact listed mutes

theorem sort : t.MutesBy n Opened.sort := by
  simp only [MutesBy, Opened.sort, opened_tree]
  split
  · exact need mutes .sortClause "within group" .sort rfl
  · exact (each mutes .sortBy .sortItem rfl).bind fun _ _ items => .ok (.sort items)

theorem window : t.MutesBy n Opened.window := by
  have order := optional mutes .sortClause .sort rfl
  simp only [MutesBy, Opened.window, kid?_opened]
  cases found : t.child? .partitionClause with
  | none => exact order.bind fun _ _ order => .ok (.window .nil order)
  | some d =>
    refine (child mutes found (c := .many .expr) rfl).bind fun _ _ parts => ?_
    exact order.bind fun _ _ order => .ok (.window parts order)

theorem windowDef : t.MutesBy n Opened.windowDef := by
  simp only [MutesBy, Opened.windowDef, opened_kids]
  cases t.children with
  | nil => exact .error
  | cons d _ =>
    exact needed mutes .windowSpec "window definition" rfl fun _ _ w => .ok (.windowDef w)

/-! ### Sources -/

theorem source (member : d ∈ t.children) :
    Follows Muted ((t.opened ⟨n, false⟩).source (d.kid ⟨n, false⟩)) ((t.opened ⟨n, true⟩).source (d.kid ⟨n, true⟩)) := by
  simp only [Opened.source, opened_tree, kid_tree]
  split
  · exact .after fun name => .ok .table
  · exact (mutes d member .query rfl).bind fun _ _ q => .ok (.subquery q)
  · exact (mutes d member .sourceItem rfl).bind fun _ _ i => .ok (.parens i)
  · exact .error

theorem joins {ts : List Tree} (inside : ∀ d ∈ ts, d ∈ t.children) :
    Follows Muted (Opened.joins (ts.map (kid ⟨n, false⟩))) (Opened.joins (ts.map (kid ⟨n, true⟩))) := by
  induction ts with
  | nil => exact .ok .nil
  | cons d ts ih =>
    have rest := ih fun c member => inside c (mem_cons_of_mem _ member)
    have both := (mutes d (inside d mem_cons_self) .join rfl).bind fun j j' (one : j.Muted j') =>
      rest.bind fun js js' (more : js.Muted js') => Follows.ok (R := Muted) (.cons one more)
    simp only [map_cons, Opened.joins, kid_tree]
    split
    case h_1 => exact rest
    case h_5 => exact .error
    all_goals exact both

theorem sourceItem : t.MutesBy n Opened.sourceItem := by
  simp only [MutesBy, Opened.sourceItem, opened_tree, nodes_opened]
  split
  · exact need mutes .tableRef "parenthesized join" .sourceItem rfl
  · cases nodes : t.nodes with
    | nil => exact .error
    | cons d ds =>
      have inside (c : Tree) (among : c ∈ d :: ds) : c ∈ t.children := (mem_filter.1 (nodes ▸ among)).1
      refine (source mutes (inside d mem_cons_self)).bind fun _ _ s => ?_
      refine (joins mutes fun c later => inside c (mem_cons_of_mem _ later)).bind fun _ _ js => ?_
      exact .ok (.sourceItem s js)

theorem join : t.MutesBy n Opened.join := by
  refine needed mutes .tableRef "join" rfl fun _ _ joined => ?_
  refine .branch (.ok (.crossJoin joined)) (.after fun type => ?_)
  simp only [kid?_opened, ← Option.map_or]
  cases found : (t.child? .joinOn).or (t.child? .joinUsing) with
  | some d =>
    have follows : Follows Muted (d.read ⟨n, false⟩ .condition) (d.read ⟨n, true⟩ .condition) := by
      obtain first | ⟨_, second⟩ := Option.or_eq_some_iff.1 found
      · exact child mutes first rfl
      · exact child mutes second rfl
    exact follows.bind fun _ _ c => .ok (.qualifiedJoin joined (.some c))
  | none => exact .branch (.ok (.qualifiedJoin joined .none)) .error

theorem sources : t.MutesBy n Opened.sources :=
  (each mutes .tableRef .sourceItem rfl).bind fun _ _ items => .ok (.sources items)

/-! ### Select clauses -/

omit mutes in
theorem foldBodies {operand : Kid → Outcome (Phrase .body)}
    (reads : ∀ d ∈ t.children, Follows Muted (operand (d.kid ⟨n, false⟩)) (operand (d.kid ⟨n, true⟩))) {ts : List Tree}
    (inside : ∀ d ∈ ts, d ∈ t.children) {left left' : Option (Phrase .body)} (both : Option.Rel Muted left left')
    (op : Option Tree) :
    Follows Muted ((t.opened ⟨n, false⟩).foldBodies operand (ts.map (kid ⟨n, false⟩)) left op)
      ((t.opened ⟨n, true⟩).foldBodies operand (ts.map (kid ⟨n, true⟩)) left' op) := by
  induction ts generalizing left left' op with
  | nil =>
    cases both with
    | none => exact .error
    | some muted => exact .ok muted
  | cons d ts ih =>
    have later : ∀ c ∈ ts, c ∈ t.children := fun c member => inside c (mem_cons_of_mem _ member)
    simp only [map_cons, Opened.foldBodies, kid_tree]
    refine .branch (ih later both (some d)) ((reads d (inside d mem_cons_self)).bind fun _ _ right => ?_)
    cases both with
    | none => exact ih later (.some right) op
    | some muted =>
      cases op with
      | none => exact .error
      | some op => exact (follows_combine op muted right).bind fun _ _ one => ih later (.some one) none

theorem unionOperand (member : d ∈ t.children) :
    Follows Muted (Opened.unionOperand (d.kid ⟨n, false⟩)) (Opened.unionOperand (d.kid ⟨n, true⟩)) :=
  .branch (mutes d member .body rfl) .error

theorem intersectOperand (member : d ∈ t.children) :
    Follows Muted (Opened.intersectOperand (d.kid ⟨n, false⟩)) (Opened.intersectOperand (d.kid ⟨n, true⟩)) := by
  have body := mutes d member .body rfl
  simp only [Opened.intersectOperand, kid_tree]
  split
  case h_4 => exact .error
  all_goals exact body

theorem core : t.MutesBy n Opened.core := by
  have distinct {f g : Phrase (.many .expr) → Outcome (Phrase .body)}
      (rest : ∀ p q, p.Muted q → Follows Muted (f p) (g q)) (b : Bool) :
      Follows Muted (if b then (t.opened ⟨n, false⟩).listed >>= f else .ok .nil >>= f)
        (if b then (t.opened ⟨n, true⟩).listed >>= g else .ok .nil >>= g) := by
    split
    · exact (listed mutes).bind rest
    · exact rest _ _ .nil
  refine distinct (fun _ _ on => ?_) _
  refine (optional mutes .topClause .expr rfl).bind fun _ _ top => ?_
  refine needed mutes .targetList "select" rfl fun _ _ targets => ?_
  refine .after fun into => ?_
  refine (optional mutes .fromClause .sources rfl).bind fun _ _ sources => ?_
  refine (optional mutes .whereClause .expr rfl).bind fun _ _ filter => ?_
  refine (manyOf mutes .groupClause .expr rfl).bind fun _ _ groups => ?_
  refine (optional mutes .havingClause .expr rfl).bind fun _ _ having => ?_
  refine (optional mutes .qualifyClause .expr rfl).bind fun _ _ qualify => ?_
  refine (manyOf mutes .windowClause .windowDef rfl).bind fun _ _ windows => ?_
  exact .ok (.core on top targets sources filter groups having qualify windows)

theorem values : t.MutesBy n Opened.values :=
  (each mutes .valuesRow (.many .expr) rfl).bind fun _ _ rows => .ok (.values rows)

theorem parenthesized : t.MutesBy n Opened.parenthesized := by
  simp only [MutesBy, Opened.parenthesized, kid?_opened]
  cases found : t.child? .selectWithParens with
  | some d => exact child mutes found rfl
  | none => exact need mutes .selectStmt "parenthesized query" .query rfl

theorem body : t.MutesBy n Opened.body := by
  have inside (d : Tree) (among : d ∈ t.nodes) : d ∈ t.children := (mem_filter.1 among).1
  simp only [MutesBy, Opened.body, opened_tree, nodes_opened]
  split
  · exact foldBodies (fun _ => unionOperand mutes) inside .none none
  · exact foldBodies (fun _ => intersectOperand mutes) inside .none none
  · exact values mutes
  · exact (parenthesized mutes).bind fun _ _ q => .ok (.nested q)
  · exact core mutes

/-! ### Queries and statements -/

theorem cte : t.MutesBy n Opened.cte := by
  simp only [MutesBy, Opened.cte, opened_kids]
  cases t.children with
  | nil => exact .error
  | cons d _ =>
    exact .branch .error (needed mutes .selectWithParens "common table expression" rfl fun _ _ q => .ok (.cte q))

theorem withs : t.MutesBy n Opened.withs :=
  (each mutes .commonTableExpr .cte rfl).bind fun _ _ tables => .ok (.withs tables)

theorem limit : t.MutesBy n Opened.limit := by
  simp only [MutesBy, Opened.limit, kid?_opened]
  cases found : t.child? .limitClause with
  | none => exact .ok .none
  | some d =>
    exact .branch (.ok .none) ((child mutes found (c := .expr) rfl).bind fun _ _ e => .ok (.some e))

theorem query : t.MutesBy n Opened.query := by
  simp only [MutesBy, Opened.query, opened_tree]
  split
  · exact parenthesized mutes
  · refine (optional mutes .withClause .withs rfl).bind fun _ _ withs => ?_
    refine needed mutes .selectClause "select statement" rfl fun _ _ body => ?_
    refine (optional mutes .sortClause .sort rfl).bind fun _ _ order => ?_
    refine (limit mutes).bind fun _ _ limit => ?_
    exact (optional mutes .offsetClause .expr rfl).bind fun _ _ offset => .ok (.query withs body order limit offset)

theorem insert : t.MutesBy n Opened.insert := by
  refine (optional mutes .withClause .withs rfl).bind fun _ _ withs => .after fun target => ?_
  simp only [opened_tree]
  cases t.leaf? (.keyword .DEFAULT) with
  | some mark => exact .ok (.insert withs (.query .none (.values .nil) .none .none .none))
  | none =>
    exact needed mutes .selectStmt "insert statement" rfl fun _ _ q => .ok (.insert withs q)

theorem delete : t.MutesBy n Opened.delete := by
  refine (optional mutes .withClause .withs rfl).bind fun _ _ withs => .after fun target => .after fun name => ?_
  refine (manyOf mutes .deleteUsing .sourceItem rfl).bind fun _ _ others => ?_
  exact (optional mutes .whereClause .expr rfl).bind fun _ _ filter => .ok (.delete withs others filter)

theorem createTableAs : t.MutesBy n Opened.createTableAs :=
  .after fun _ => needed mutes .selectStmt "create table as" rfl fun _ _ q => .ok (.createTableAs q)

theorem createView : t.MutesBy n Opened.createView :=
  .after fun _ => needed mutes .selectStmt "create view" rfl fun _ _ q => .ok (.createView q)

omit mutes in
theorem alterRename : t.MutesBy n Opened.alterRename := by
  simp only [MutesBy, Opened.alterRename, opened_tree]
  cases t.children.getLast? with
  | none => exact .error
  | some c =>
    refine .after fun name => ?_
    split
    · exact .error
    · exact .ok .alterRename

omit mutes in
theorem drop : t.MutesBy n Opened.drop := by
  have same : (t.opened ⟨n, true⟩).dropKind? = (t.opened ⟨n, false⟩).dropKind? := rfl
  rw [MutesBy, Opened.drop, Opened.drop, same]
  cases (t.opened ⟨n, false⟩).dropKind? with
  | none => exact .error
  | some kind => exact .ok .drop

theorem statement : t.MutesBy n Opened.statement := by
  simp only [MutesBy, Opened.statement, opened_tree]
  split
  · exact (query mutes).bind fun _ _ q => .ok (.select q)
  · exact insert mutes
  · exact delete mutes
  · exact createTableAs mutes
  · exact createView mutes
  · exact .after fun name => .after fun definitions => .ok .createTable
  · exact alterRename
  · exact drop
  · exact .error

theorem of_children : t.Mutes n := by
  intro c speaks
  rw [read_eq, read_eq]
  cases c with
  | statement => exact statement mutes
  | query => exact query mutes
  | withs => exact withs mutes
  | cte => exact cte mutes
  | body => exact body mutes
  | target => exact follows_target
  | sort => exact sort mutes
  | sortItem => exact follows_sortItem
  | windowDef => exact windowDef mutes
  | window => exact window mutes
  | sources => exact sources mutes
  | sourceItem => exact sourceItem mutes
  | join => exact join mutes
  | condition => exact follows_condition
  | expr => exact follows_readExpr speaks
  | many c =>
    cases c with
    | expr => exact readExprs mutes
    | target =>
      simp only [Opened.read, nodes_opened]
      exact follows_readEach fun d among => mutes d (mem_filter.1 among).1 .target rfl
    | windowDef => exact each mutes .windowDefinition .windowDef rfl
    | sourceItem => exact each mutes .tableRef .sourceItem rfl
    | _ => cases speaks
  | overClause | source | inSource | when | maybe => cases speaks

end Mutes

mutual

theorem mutes (n : Bool) : (t : Tree) → t.Mutes n
  | .leaf _ => .of_children (by simp [children])
  | .node _ _ _ _ cs => .of_children (mutes_all n cs)

theorem mutes_all (n : Bool) : (ts : List Tree) → ∀ t ∈ ts, t.Mutes n
  | [] => by simp
  | t :: ts => forall_mem_cons.2 ⟨mutes n t, mutes_all n ts⟩

end

end Tree
end TableLineage
