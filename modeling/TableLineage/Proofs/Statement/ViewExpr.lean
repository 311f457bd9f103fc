import TableLineage.Proofs.Statement.View

/-! Expressions under a view: operators, and the columns, literals and calls that they stand between. -/
namespace TableLineage

open List
open Phrase (Alike Complete Twin)

namespace Opened

variable {firm : Prop} {v : Grammar.View}

/-! ### Tests and casts behind an operand -/

theorem tally_nullTests {ks ks' : List Kid} (kids : List.Forall₂ (Kid.Seen firm v) ks ks') {e e' : Expr}
    (twin : e.Twin firm e') : Tally firm (nullTests ks e) (nullTests ks' e') := by
  induction kids generalizing e e' with
  | nil => exact .ok twin
  | cons pair _ ih =>
    rw [nullTests, nullTests, twin.1.isHole_eq, pair.tree, Tree.kind_seen]
    split
    · next hole => exact .hole twin hole
    · cases nullTest _ with
      | none => exact .refused
      | some op => exact ih ⟨.unary twin.1, twin.2⟩

theorem tally_casts {ks ks' : List Kid} (kids : List.Forall₂ (Kid.Seen firm v) ks ks') {e e' : Expr}
    (twin : e.Twin firm e') : Tally firm (casts ks e) (casts ks' e') := by
  induction kids generalizing e e' with
  | nil => exact .ok twin
  | cons pair _ ih =>
    rw [casts, casts, twin.1.isHole_eq, pair.tree, Tree.is_seen, Tree.hasRule_seen]
    split
    · next hole => exact .hole twin hole
    · split
      · exact ih twin
      · split
        · exact ih ⟨.cast twin.1, twin.2⟩
        · exact .refused

theorem tally_wordTest {e e' : Expr} (twin : e.Twin firm e') (negated : Bool) (test : Tree) :
    Tally firm (wordTest e negated test) (wordTest e' negated (test.seen v)) := by
  rw [wordTest, wordTest, Tree.kind_seen]
  cases isTest negated test.token.kind with
  | none => exact .refused
  | some op => exact .ok ⟨.unary twin.1, twin.2⟩

/-- What was folded so far, a hole if there is nothing. In firm nodes there is something. -/
theorem tally_folded {left left' : Option Expr} (twins : Option.Rel (Twin firm) left left') (some : firm → left.isSome) :
    Tally firm (.ok (left.getD .hole) : Outcome Expr) (.ok (left'.getD .hole) : Outcome Expr) := by
  cases twins with
  | none => exact .ok ⟨.hole, fun firm => absurd (some firm) (by simp)⟩
  | some twin => exact .ok twin

namespace Seen

variable {o o' : Opened} (seen : o.Seen firm v o')

include seen

theorem level {read read' : Outcome Expr} (others : o.kids.length ≠ 1 → Tally firm read read') :
    Tally firm (o.level read) (o'.level read') := by
  unfold Opened.level Opened.single?
  generalize o.kids = ks, o'.kids = ks', seen.kids = kids at others
  obtain _ | @⟨k, k', _, _, pair, _ | _⟩ := kids
  · exact others (by simp)
  · have tree := pair.tree
    have expr := seen.expr pair
    obtain ⟨t, read⟩ := k
    obtain ⟨t', read'⟩ := k'
    cases tree
    cases t with
    | leaf => exact .refused
    | node => exact expr
  · exact others (by simp)

theorem distinctTest {e e' : Expr} (twin : e.Twin firm e') (negated : Bool) (test mark : Tree) {k k' : Kid}
    (pair : k.Seen firm v k') :
    Tally firm (o.distinctTest e negated test mark k) (o'.distinctTest e' negated (test.seen v) (mark.seen v) k') := by
  rw [Opened.distinctTest, Opened.distinctTest, pair.tree, Tree.is_seen, Tree.isLeaf_seen]
  split
  · exact .refused
  · exact seen.operand pair fun _ _ right => .ok (twin.binary right)

/-- The recursion is that of the tests: each takes two to five children. -/
theorem isTests {ks ks' : List Kid} (kids : List.Forall₂ (Kid.Seen firm v) ks ks') {e e' : Expr} (twin : e.Twin firm e') :
    Tally firm (o.isTests ks e) (o'.isTests ks' e') := by
  rw [Opened.isTests.eq_def, Opened.isTests.eq_def o']
  obtain _ | ⟨is, kids⟩ := kids
  · exact .ok twin
  dsimp only
  rw [twin.1.isHole_eq, is.tree, Tree.is_seen]
  split
  · next hole => exact .hole twin hole
  split
  · exact .refused
  obtain _ | ⟨test, kids⟩ := kids
  · exact .refused
  simp only [test.tree, Tree.is_seen]
  split
  · obtain _ | ⟨negated, kids⟩ := kids
    · exact .refused
    simp only [negated.tree, Tree.is_seen]
    split
    · obtain _ | ⟨mark, _ | ⟨right, kids⟩⟩ := kids
      · exact .refused
      · exact .refused
      · simp only [mark.tree]
        exact (seen.distinctTest twin true _ _ right).bind fun _ _ both => isTests kids both
    · exact (tally_wordTest twin true _).bind fun _ _ both => isTests kids both
  · split
    · obtain _ | ⟨mark, _ | ⟨right, kids⟩⟩ := kids
      · exact .refused
      · exact .refused
      · simp only [mark.tree]
        exact (seen.distinctTest twin false _ _ right).bind fun _ _ both => isTests kids both
    · exact (tally_wordTest twin false _).bind fun _ _ both => isTests kids both
  termination_by ks.length

/-! ### Levels that fold their operators

The induction is over the children that are left; what was folded so far is alike on both sides. In a
firm node the first operand comes, and from then on there is one to the end. -/

/-- With a left operand at hand and no operator yet, a leaf comes first in a firm node. -/
theorem foldBinary (ops : Kind → Option BinaryOp) {ks ks' : List Kid} (kids : List.Forall₂ (Kid.Seen firm v) ks ks')
    {left left' : Option Expr} (twins : Option.Rel (Twin firm) left left') (op : Option Tree)
    (some : firm → left = none → ks ≠ []) (apart : firm → Tree.touching (ks.map Kid.tree) = false)
    (next : firm → left.isSome → op = none → ∀ t ∈ (ks.map Kid.tree).head?, t.isLeaf) :
    Tally firm (o.foldBinary ops ks left op) (o'.foldBinary ops ks' left' (op.map (Tree.seen v))) := by
  induction kids generalizing left left' op with
  | nil =>
    cases op with
    | some => exact .refused
    | none => exact tally_folded twins fun firm => Option.ne_none_iff_isSome.1 fun none => some firm none rfl
  | @cons k k' ks _ pair _ ih =>
    have later (firm : firm) := (Tree.touching_cons (apart firm)).1
    have follows (node : ¬ k.tree.isLeaf) (firm : firm) : ∀ t ∈ (ks.map Kid.tree).head?, t.isLeaf :=
      (Tree.touching_cons (apart firm)).2 (eq_false_of_ne_true node)
    rw [Opened.foldBinary, Opened.foldBinary, pair.tree, Tree.isLeaf_seen]
    split
    · cases twins with
      | none =>
        simp only [Option.isNone_none, Bool.or_true, if_true]
        exact .refused
      | some twin =>
        cases op with
        | some => exact .refused
        | none => exact ih (.some twin) (.some k.tree) (by simp) later (by simp)
    · next node =>
      refine seen.operand pair fun right right' second => ?_
      cases twins with
      | none => exact ih (.some second) op (by simp) later fun firm _ _ => follows node firm
      | some twin =>
        cases op with
        | none => exact .failed fun firm => node (next firm rfl rfl k.tree rfl)
        | some op =>
          simp only [Option.map_some, Tree.kind_seen]
          cases ops op.token.kind with
          | none => exact .refused
          | some code => exact ih (.some (twin.binary second)) none (by simp) later fun firm _ _ => follows node firm

theorem foldCustom {ks ks' : List Kid} (kids : List.Forall₂ (Kid.Seen firm v) ks ks') {left left' : Option Expr}
    (twins : Option.Rel (Twin firm) left left') (op op' : String)
    (some : firm → left.isSome ∨ ∃ k ∈ ks, k.tree.hasRule .qualOp = false) :
    Tally firm (o.foldCustom ks left op) (o'.foldCustom ks' left' op') := by
  induction kids generalizing left left' op op' with
  | nil => exact tally_folded twins fun firm => by simpa using some firm
  | cons pair _ ih =>
    rw [Opened.foldCustom, Opened.foldCustom, pair.tree, Tree.hasRule_seen]
    split
    · next mark => exact ih twins _ _ fun firm => by simpa [mark] using some firm
    · refine seen.operand pair fun right right' second => ?_
      cases twins with
      | none => exact ih (.some second) op op' fun _ => .inl rfl
      | some twin => exact ih (.some (twin.binary second)) op op' fun _ => .inl rfl

theorem foldZones {ks ks' : List Kid} (kids : List.Forall₂ (Kid.Seen firm v) ks ks') {left left' : Option Expr}
    (twins : Option.Rel (Twin firm) left left')
    (some : firm → left.isSome ∨ ∃ k ∈ ks,
      (k.tree.is (.keyword .AT) || k.tree.is (.keyword .TIME) || k.tree.is (.keyword .ZONE)) = false) :
    Tally firm (o.foldZones ks left) (o'.foldZones ks' left') := by
  induction kids generalizing left left' with
  | nil => exact tally_folded twins fun firm => by simpa using some firm
  | cons pair _ ih =>
    simp only [Opened.foldZones, pair.tree, Tree.isLeaf_seen, Tree.is_seen]
    split
    · split
      · next word =>
        refine ih twins fun firm => (some firm).imp_right ?_
        rintro ⟨c, member, other⟩
        obtain rfl | later := mem_cons.1 member
        · cases other.symm.trans word
        · exact ⟨c, later, other⟩
      · exact .refused
    · refine seen.operand pair fun right right' second => ?_
      cases twins with
      | none => exact ih (.some second) fun _ => .inl rfl
      | some twin => exact ih (.some (twin.binary second)) fun _ => .inl rfl

theorem folded (ops : Kind → Option BinaryOp) {r : Rule} (rule : o.tree.rule? = some r) (fold : r.isFold) :
    Tally firm (o.folded ops) (o'.folded ops) := by
  refine seen.level fun _ => seen.foldBinary ops seen.kids .none none ?_ ?_ (by simp)
  · intro firm _ none
    have full := seen.full firm
    have childless : o.tree.children = [] := by rw [← seen.trees, none, map_nil]
    cases r <;> simp_all [Tree.isHollow, Rule.isFold]
  · intro firm
    have steady := seen.steady firm
    rw [Tree.isAbrupt, rule] at steady
    rw [seen.trees]
    simpa [fold] using (Bool.or_eq_false_iff.1 steady).2

/-- Of several children, one is not of those that make the node hollow. -/
theorem exists_other {p : Tree → Bool} (hollow : o.tree.isHollow = (o.tree.children.length != 1 && o.tree.children.all p))
    (several : o.kids.length ≠ 1) (firm : firm) : ∃ k ∈ o.kids, p k.tree = false := by
  have count : o.tree.children.length ≠ 1 := by rwa [← seen.trees, length_map]
  obtain ⟨c, member, other⟩ : ∃ c ∈ o.tree.children, p c = false := by
    simpa [hollow, count] using seen.full firm
  obtain ⟨k, inside, rfl⟩ := mem_map.1 (seen.trees ▸ member)
  exact ⟨k, inside, other⟩

theorem customLevel (rule : o.tree.rule? = some .aExprQualOp) : Tally firm o.customLevel o'.customLevel :=
  seen.level fun several => seen.foldCustom seen.kids .none "" "" fun firm =>
    .inr (seen.exists_other (by rw [Tree.isHollow, rule]) several firm)

theorem atTimeZone (rule : o.tree.rule? = some .aExprAtTimeZone) : Tally firm o.atTimeZone o'.atTimeZone :=
  seen.level fun several => seen.foldZones seen.kids .none fun firm =>
    .inr (seen.exists_other (by rw [Tree.isHollow, rule]) several firm)

/-! ### Other levels -/

theorem isNull (rule : o.tree.rule? = some .aExprIsNull) : Tally firm o.isNull o'.isNull := by
  refine seen.level fun _ => ?_
  generalize none : o.kids = ks, o'.kids = ks', seen.kids = kids
  cases kids with
  | nil => exact seen.childless rule rfl none
  | cons pair rest => exact (seen.expr pair).bind fun _ _ => tally_nullTests rest

theorem isNot (rule : o.tree.rule? = some .aExprIsNot) : Tally firm o.isNot o'.isNot := by
  refine seen.level fun _ => ?_
  generalize none : o.kids = ks, o'.kids = ks', seen.kids = kids
  cases kids with
  | nil => exact seen.childless rule rfl none
  | cons pair rest => exact (seen.expr pair).bind fun _ _ => seen.isTests rest

theorem typecast (rule : o.tree.rule? = some .aExprTypecast) : Tally firm o.typecast o'.typecast := by
  refine seen.level fun _ => ?_
  generalize none : o.kids = ks, o'.kids = ks', seen.kids = kids
  cases kids with
  | nil => exact seen.childless rule rfl none
  | cons pair rest => exact (seen.expr pair).bind fun _ _ => tally_casts rest

theorem unaryLevel (self : Rule) : Tally firm (o.unaryLevel self) (o'.unaryLevel self) := by
  refine seen.level fun _ => ?_
  generalize o.kids = ks, o'.kids = ks', seen.kids = kids
  obtain _ | ⟨op, _ | ⟨pair, _ | _⟩⟩ := kids
  · exact .refused
  · exact .refused
  · simp only [op.tree, pair.tree, Tree.isLeaf_seen, Tree.hasRule_seen, Tree.kind_seen]
    split
    · exact .refused
    · cases signOp _ with
      | none => exact .refused
      | some code => exact seen.operand pair fun _ _ twin => .ok ⟨.unary twin.1, twin.2⟩
  · exact .refused

theorem prefixCustom : Tally firm o.prefixCustom o'.prefixCustom := by
  refine seen.level fun _ => ?_
  generalize o.kids = ks, o'.kids = ks', seen.kids = kids
  obtain _ | ⟨op, _ | ⟨pair, _ | _⟩⟩ := kids
  · exact .refused
  · exact .refused
  · simp only [op.tree, Tree.hasRule_seen]
    split
    · exact .refused
    · exact seen.operand pair fun _ _ twin => .ok ⟨.unary twin.1, twin.2⟩
  · exact .refused

theorem between : Tally firm o.between o'.between := by
  refine seen.level fun _ => ?_
  simp only [seen.has]
  generalize o.nodes = ks, o'.nodes = ks', seen.nodes = kids
  obtain _ | ⟨target, _ | ⟨lower, _ | ⟨upper, _ | _⟩⟩⟩ := kids
  · exact .refused
  · exact .refused
  · exact .refused
  · dsimp only
    split
    · exact .refused
    · refine (seen.expr target).bind fun _ _ first => ?_
      refine (seen.expr lower).bind fun _ _ second => ?_
      refine (seen.expr upper).bind fun _ _ third => ?_
      exact .ok ⟨.between first.1 second.1 third.1, fun f => ⟨first.2 f, second.2 f, third.2 f⟩⟩
  · exact .refused

theorem within : Tally firm o.within o'.within := by
  refine seen.level fun _ => ?_
  simp only [seen.has]
  generalize o.nodes = ks, o'.nodes = ks', seen.nodes = kids
  obtain _ | ⟨target, _ | ⟨source, _ | _⟩⟩ := kids
  · exact .refused
  · exact .refused
  · dsimp only
    split
    · exact .refused
    · refine (seen.expr target).bind fun _ _ first => ?_
      rw [source.tree, Tree.hasRule_seen, Tree.hasRule_seen]
      split
      · exact (source.read .query rfl).bind fun _ _ twin =>
          .ok ⟨.within first.1 (.inQuery twin.1), fun f => ⟨first.2 f, twin.2 f⟩⟩
      · split
        · exact (source.read (.many .expr) rfl).bind fun _ _ twin =>
            .ok ⟨.within first.1 (.inValues twin.1), fun f => ⟨first.2 f, twin.2 f⟩⟩
        · exact .refused
  · exact .refused

theorem compare : Tally firm o.compare o'.compare := by
  refine seen.level fun _ => ?_
  generalize o.kids = ks, o'.kids = ks', seen.kids = kids
  obtain _ | ⟨left, _ | ⟨op, _ | ⟨right, _ | _⟩⟩⟩ := kids
  · exact .refused
  · exact .refused
  · exact .refused
  · simp only [op.tree, Tree.isLeaf_seen, Tree.kind_seen]
    split
    · exact .refused
    · cases compareOp _ with
      | none => exact .refused
      | some code =>
        refine (seen.expr left).bind fun l l' first => ?_
        have close (r r' : Expr) (second : r.Twin firm r') :
            Tally firm (if l.isHole || r.isHole then pure .hole else pure (.binary o.tree.span l code r) : Outcome Expr)
              (if l'.isHole || r'.isHole then pure .hole else pure (.binary o'.tree.span l' code r') : Outcome Expr) := by
          rw [first.1.isHole_eq, second.1.isHole_eq]
          split
          · next hole => exact (Bool.or_eq_true_iff.1 hole).elim (.hole first) (.hole second)
          · exact .ok (first.binary second)
        rw [right.tree, Tree.hasRule_seen]
        split
        · exact (right.read .expr rfl).bind close
        · exact (seen.expr right).bind close
  · exact .refused

theorem quantified (rule : o.tree.rule? = some .subqueryQuantifier) : Tally firm o.quantified o'.quantified := by
  unfold Opened.quantified
  generalize none : o.kids = ks, o'.kids = ks', seen.kids = kids
  cases kids with
  | nil => exact seen.childless rule rfl none
  | cons pair _ =>
    simp only [pair.tree, Tree.kind_seen]
    cases quantifier? _ with
    | none => exact .refused
    | some q =>
      dsimp only
      generalize o.kid? .selectWithParens = x, o'.kid? .selectWithParens = y, seen.kid? .selectWithParens = both
      cases both with
      | some query => exact (query.read .query rfl).bind fun _ _ twin => .ok ⟨.quantifiedQuery twin.1, twin.2⟩
      | none => exact (seen.firstExpr "quantifier").bind fun _ _ twin => .ok ⟨.quantifiedExpr twin.1, twin.2⟩

theorem likeOf {target target' pattern pattern' : Kid} (first : target.Seen firm v target')
    (second : pattern.Seen firm v pattern') {tail tail' : List Kid}
    (rest : List.Forall₂ (Kid.Seen firm v) tail tail') :
    Tally firm (o.likeOf target pattern tail) (o'.likeOf target' pattern' tail') := by
  have op : o'.likeOp? = o.likeOp? := by
    simp only [Opened.likeOp?, seen.has]
  unfold Opened.likeOf
  rw [op, seen.has]
  refine (seen.expr first).bind fun _ _ left => ?_
  refine (seen.expr second).bind fun _ _ right => ?_
  cases o.likeOp? with
  | none => exact .refused
  | some op =>
    cases rest with
    | nil => exact .ok ⟨.like left.1 right.1 .none, fun f => ⟨left.2 f, right.2 f, trivial⟩⟩
    | cons escape _ =>
      refine (seen.expr escape).bind fun _ _ mark => ?_
      exact .ok ⟨.like left.1 right.1 (.some mark.1), fun f => ⟨left.2 f, right.2 f, mark.2 f⟩⟩

theorem like : Tally firm o.like o'.like := by
  refine seen.level fun _ => ?_
  generalize o.nodes = ks, o'.nodes = ks', seen.nodes = kids
  obtain _ | ⟨target, _ | ⟨pattern, _ | ⟨escape, _ | _⟩⟩⟩ := kids
  · exact .refused
  · exact .refused
  · exact seen.likeOf target pattern .nil
  · exact seen.likeOf target pattern (.cons escape .nil)
  · exact .refused

theorem collate : Tally firm o.collate o'.collate := by
  refine seen.level fun _ => ?_
  rw [seen.has]
  generalize found : o.kid? .anyName = x, o'.kid? .anyName = y, seen.kid? .anyName = both
  cases both with
  | none => exact .refused
  | some =>
    dsimp only
    split
    · exact .refused
    · generalize none : o.kids = ks, o'.kids = ks', seen.kids = kids
      cases kids with
      | nil => simp [Opened.kid?, none] at found
      | cons pair _ => exact seen.operand pair fun _ _ twin => .ok ⟨.collate twin.1, twin.2⟩

end Seen
end Opened

/-! ### Columns, literals and calls -/

namespace Phrase.Twin

variable {firm : Prop} {c : Category}

theorem toList : {xs xs' : Phrase (.many c)} → xs.Twin firm xs' → List.Forall₂ (Twin firm) xs.toList xs'.toList
  | _, _, ⟨.nil, _⟩ => .nil
  | _, _, ⟨.cons one rest, complete⟩ => .cons ⟨one, fun f => (complete f).1⟩ (toList ⟨rest, fun f => (complete f).2⟩)

theorem ofList {xs xs' : List (Phrase c)} (twins : List.Forall₂ (Twin firm) xs xs') :
    (Phrase.ofList xs).Twin firm (Phrase.ofList xs') := by
  induction twins with
  | nil => exact ⟨.nil, fun _ => trivial⟩
  | cons one _ ih => exact ⟨.cons one.1 ih.1, fun f => ⟨one.2 f, ih.2 f⟩⟩

theorem ofOption {x x' : Option (Phrase c)} (twins : Option.Rel (Twin firm) x x') :
    (Phrase.ofOption x).Twin firm (Phrase.ofOption x') := by
  cases twins with
  | none => exact ⟨.none, fun _ => trivial⟩
  | some inner => exact ⟨.some inner.1, inner.2⟩

end Phrase.Twin

namespace Opened

variable {firm : Prop} {v : Grammar.View}

theorem fieldsAfter_seen {m : ReadMode} (keeps : v.KeepsNames m) (afterDot : Bool) (ts : List Tree) :
    fieldsAfter m afterDot (ts.map (Tree.seen v)) = fieldsAfter m afterDot ts := by
  induction ts generalizing afterDot with
  | nil => rfl
  | cons t ts ih =>
    simp only [map_cons, fieldsAfter, Tree.is_seen, Tree.isLeaf_seen, Tree.token_seen, keeps _, ih]

theorem fields_seen {m : ReadMode} (keeps : v.KeepsNames m) (t : Tree) : fields m (t.seen v) = fields m t := by
  rw [fields, fields, Tree.children_seen, fieldsAfter_seen keeps]

theorem tally_subscripts {ks ks' : List Kid} (kids : List.Forall₂ (Kid.Seen firm v) ks ks') :
    InStep firm (List.Forall₂ (Twin firm)) (subscripts ks) (subscripts ks') := by
  induction kids with
  | nil => exact .ok .nil
  | cons pair _ ih =>
    rw [subscripts, subscripts, pair.tree, Tree.hasRule_seen]
    split
    · exact (pair.read (.many .expr) rfl).bind fun _ _ some => ih.bind fun _ _ rest =>
        .ok (rel_append some.toList rest)
    · exact ih

theorem nullTreatment_seen (ts : List Tree) : nullTreatment (ts.map (Tree.seen v)) = nullTreatment ts := by
  simp [nullTreatment, getLast?_map, Function.comp_def]

/-- Parts of a case expression that are alike. -/
structure CaseParts.Twin (firm : Prop) (p p' : CaseParts) : Prop where
  subject : Option.Rel (Phrase.Twin firm) p.subject p'.subject
  whens : List.Forall₂ (Phrase.Twin firm) p.whens p'.whens
  otherwise : Option.Rel (Phrase.Twin firm) p.otherwise p'.otherwise

theorem CaseParts.Twin.pastSubject_eq {p p' : CaseParts} (twin : p.Twin firm p') : p.pastSubject = p'.pastSubject := by
  obtain ⟨subject, whens, _⟩ := twin
  unfold pastSubject
  congr 1
  · generalize p.whens = ws, p'.whens = ws' at whens
    cases whens <;> rfl
  · generalize p.subject = x, p'.subject = x' at subject
    cases subject with
    | none => rfl
    | some inner => simp [inner.1.isHole_eq]

namespace Seen

variable {o o' : Opened} (seen : o.Seen firm v o')

include seen

theorem constant (rule : o.tree.rule? = some .constant) : Tally firm o.constant o'.constant := by
  unfold Opened.constant
  generalize none : o.kids = ks, o'.kids = ks', seen.kids = kids
  cases kids with
  | nil => exact seen.childless rule rfl none
  | cons pair _ =>
    simp only [pair.tree, Tree.kind_seen]
    cases constantKind? _ with
    | none => exact .refused
    | some => exact .ok ⟨.constant, fun _ => trivial⟩

theorem typedConstant : Tally firm o.typedConstant o'.typedConstant := by
  unfold Opened.typedConstant
  rw [seen.tree, Tree.child?_seen, Tree.leaf?_seen]
  cases o.tree.child? .typename with
  | none => exact .refused
  | some =>
    cases o.tree.leaf? .string with
    | none => exact .refused
    | some => exact .ok ⟨.constant, fun _ => trivial⟩

theorem columnRef : Tally firm o.columnRef o'.columnRef := by
  refine (tally_subscripts seen.kids).bind fun _ _ items => ?_
  simp only [seen.tree, seen.mode, Tree.children_seen, filter_map, map_map, Function.comp_def,
    Tree.hasRule_seen, Tree.is_seen, Tree.token_seen, seen.names _, Tree.has_seen]
  exact .ok ⟨.column (Twin.ofList items).1, (Twin.ofList items).2⟩

theorem selectExpr : Tally firm o.selectExpr o'.selectExpr := by
  refine seen.through .selectWithParens "scalar subquery" (fun _ => rfl) fun _ _ query => ?_
  generalize o.kid? .indirection = x, o'.kid? .indirection = y, seen.kid? .indirection = both
  cases both with
  | none => exact .ok ⟨.scalar query.1 .nil, fun f => ⟨query.2 f, trivial⟩⟩
  | some path =>
    refine (path.read (.many .expr) rfl).bind fun _ _ items => ?_
    rw [path.tree, seen.mode, fields_seen seen.names]
    exact .ok ⟨.scalar query.1 items.1, fun f => ⟨query.2 f, items.2 f⟩⟩

theorem existsExpr : Tally firm o.existsExpr o'.existsExpr :=
  seen.through .selectWithParens "exists" (fun _ => rfl) fun _ _ query => .ok ⟨.nonempty query.1, query.2⟩

theorem castFunc : Tally firm o.castFunc o'.castFunc :=
  (seen.need .typename "cast").bind fun _ _ _ => (seen.firstExpr "cast").bind fun _ _ twin =>
    .ok ⟨.cast twin.1, twin.2⟩

theorem whenClause : Tally firm o.whenClause o'.whenClause := by
  unfold Opened.whenClause
  generalize o.nodes = ks, o'.nodes = ks', seen.nodes = kids
  obtain _ | ⟨condition, _ | ⟨result, _ | _⟩⟩ := kids
  · exact .refused
  · exact .refused
  · exact (seen.expr condition).bind fun _ _ first => (seen.expr result).bind fun _ _ second =>
      .ok ⟨.when first.1 second.1, fun f => ⟨first.2 f, second.2 f⟩⟩
  · exact .refused

theorem caseParts {ks ks' : List Kid} (kids : List.Forall₂ (Kid.Seen firm v) ks ks') {p p' : CaseParts}
    (twin : p.Twin firm p') : InStep firm (CaseParts.Twin firm) (o.caseParts ks p) (o'.caseParts ks' p') := by
  induction kids generalizing p p' with
  | nil => exact .ok twin
  | cons pair _ ih =>
    rw [Opened.caseParts, Opened.caseParts, pair.tree, Tree.hasRule_seen, Tree.hasRule_seen, twin.pastSubject_eq]
    split
    · exact (pair.read .when rfl).bind fun _ _ one =>
        ih ⟨twin.subject, rel_append twin.whens (.cons one .nil), twin.otherwise⟩
    · split
      · exact (pair.read .expr rfl).bind fun _ _ one => ih ⟨twin.subject, twin.whens, .some one⟩
      · split
        · exact .refused
        · exact (seen.expr pair).bind fun _ _ one => ih ⟨.some one, twin.whens, twin.otherwise⟩

theorem caseExpr : Tally firm o.caseExpr o'.caseExpr := by
  refine (seen.caseParts seen.nodes ⟨.none, .nil, .none⟩).bind fun p p' twin => ?_
  have empty : p.whens.isEmpty = p'.whens.isEmpty := by
    generalize p.whens = ws, p'.whens = ws', twin.whens = whens
    cases whens <;> rfl
  rw [empty]
  split
  · exact .refused
  · next some =>
    have subject := Twin.ofOption twin.subject
    have whens := Twin.ofList twin.whens
    have otherwise := Twin.ofOption twin.otherwise
    refine .ok ⟨.choice subject.1 whens.1 otherwise.1, fun f => ⟨?_, subject.2 f, whens.2 f, otherwise.2 f⟩⟩
    rw [Phrase.toList_ofList]
    simpa [← empty] using some

theorem funcCall : Tally firm o.funcCall o'.funcCall := by
  refine (seen.need .funcName "function call").bind fun _ _ name => ?_
  refine (seen.need .funcArgs "function call").bind fun _ _ args => ?_
  refine (args.read (.many .expr) rfl).bind fun _ _ list => ?_
  refine (args.read (.maybe .sort) rfl).bind fun _ _ order => ?_
  refine (seen.optional .withinGroup .sort fun _ _ => rfl).bind fun _ _ group => ?_
  refine (seen.optional .filterClause .expr fun _ _ => rfl).bind fun _ _ filter => ?_
  refine (seen.optional .overClause .overClause fun _ => id).bind fun _ _ windowed => ?_
  simp only [name.tree, args.tree, seen.tree, seen.mode, Tree.childrenOf_seen, ← map_append, nullTreatment_seen,
    seen.names.qualifiedName, Tree.has_seen]
  exact .ok ⟨.call list.1 order.1 group.1 filter.1 windowed.1,
    fun f => ⟨list.2 f, order.2 f, group.2 f, filter.2 f, windowed.2 f⟩⟩

theorem readExpr : Tally firm o.readExpr o'.readExpr := by
  unfold Opened.readExpr
  rw [seen.rule?]
  cases rule : o.tree.rule? with
  | none => exact .refused
  | some r =>
    cases r
    case aExprOr | aExprAnd | aExprAdd | aExprMul | aExprCaret => exact seen.folded _ rule rfl
    case aExprBetween => exact seen.between
    case aExprIn => exact seen.within
    case aExprUnaryNot | aExprUnarySign => exact seen.unaryLevel _
    case aExprIsNull => exact seen.isNull rule
    case aExprIsNot => exact seen.isNot rule
    case aExprCompare => exact seen.compare
    case aExprLike => exact seen.like
    case aExprQualOp => exact seen.customLevel rule
    case aExprUnaryQualOp => exact seen.prefixCustom
    case aExprAtTimeZone => exact seen.atTimeZone rule
    case aExprCollate => exact seen.collate
    case aExprTypecast => exact seen.typecast rule
    case subqueryQuantifier => exact seen.quantified rule
    case columnRef => exact seen.columnRef
    case constant => exact seen.constant rule
    case typedConstant => exact seen.typedConstant
    case param => exact .ok ⟨.constant, fun _ => trivial⟩
    case implicitRow => exact seen.exprs.bind fun _ _ items => .ok ⟨.row items.1, items.2⟩
    case selectExpr => exact seen.selectExpr
    case existsExpr => exact seen.existsExpr
    case caseExpr => exact seen.caseExpr
    case funcCall => exact seen.funcCall
    case castFunc => exact seen.castFunc
    case commonFuncCall => exact seen.exprs.bind fun _ _ items => .ok ⟨.special items.1, items.2⟩
    case topClause =>
      dsimp only
      rw [seen.tree, Tree.leaf?_seen]
      cases o.tree.leaf? .number with
      | none => exact seen.firstExpr _
      | some => exact .ok ⟨.constant, fun _ => trivial⟩
    all_goals exact seen.firstExpr _

theorem readExprs : Tally firm o.readExprs o'.readExprs := by
  unfold Opened.readExprs
  rw [seen.rule?]
  split
  case h_5 => exact seen.exprs
  all_goals exact seen.listed

end Seen
end Opened
end TableLineage
