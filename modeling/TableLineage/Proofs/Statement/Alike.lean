import TableLineage.Lineage.Extract
import TableLineage.Statement.Phrase
import Mathlib.Logic.Basic

/-! Phrases that are alike differ in nothing but their places, their operators and the texts that
were copied from the source as they stand. Lineage sees none of these. -/
namespace TableLineage.Phrase

inductive Alike : {c : Category} → Phrase c → Phrase c → Prop
  | none {c : Category} : Alike (.none : Phrase (.maybe c)) .none
  | some {c : Category} {x x' : Phrase c} : Alike x x' → Alike (.some x) (.some x')
  | nil {c : Category} : Alike (.nil : Phrase (.many c)) .nil
  | cons {c : Category} {x x' : Phrase c} {xs xs' : Phrase (.many c)} : Alike x x' → Alike xs xs' →
      Alike (.cons x xs) (.cons x' xs')
  -- Statements
  | select {q q' : Query} : Alike q q' → Alike (.select q) (.select q')
  | insert {s s' u u' w w' q q' n a cs d} : Alike w w' → Alike q q' →
      Alike (.insert s w ⟨u, n, a, cs⟩ q d) (.insert s' w' ⟨u', n, a, cs⟩ q' d)
  | delete {s s' u u' w w' n a o o' f f'} : Alike w w' → Alike o o' → Alike f f' →
      Alike (.delete s w ⟨u, n, a⟩ o f) (.delete s' w' ⟨u', n, a⟩ o' f')
  | createTableAs {s s' n t e cs x x' q q'} : Alike q q' →
      Alike (.createTableAs s n t e cs x q) (.createTableAs s' n t e cs x' q')
  | createView {s s' n r m cs x x' q q'} : Alike q q' →
      Alike (.createView s n r m cs x q) (.createView s' n r m cs x' q')
  | createTable {s s' n t e x x' y y'} : Alike (.createTable s n t e x y) (.createTable s' n t e x' y')
  | alterRename {s s' n m} : Alike (.alterRename s n m) (.alterRename s' n m)
  | drop {s s' k ns e b} : Alike (.drop s k ns e b) (.drop s' k ns e b)
  -- Queries
  | query {s s' w w' b b' o o' l l' f f'} : Alike w w' → Alike b b' → Alike o o' → Alike l l' → Alike f f' →
      Alike (.query s w b o l f) (.query s' w' b' o' l' f')
  | withs {s s' r ts ts'} : Alike ts ts' → Alike (.withs s r ts) (.withs s' r ts')
  | cte {s s' n cs q q'} : Alike q q' → Alike (.cte s n cs q) (.cte s' n cs q')
  | core {s s' d on on' top top' ts ts' src src' f f' g g' h h' q q' ws ws'} {into into' : Option Into} :
      Alike on on' → Alike top top' → Alike ts ts' →
      into.map (fun i => (i.name, i.temporary)) = into'.map (fun i => (i.name, i.temporary)) →
      Alike src src' → Alike f f' → Alike g g' → Alike h h' → Alike q q' → Alike ws ws' →
      Alike (.core s d on top ts into src f g h q ws) (.core s' d on' top' ts' into' src' f' g' h' q' ws')
  | combine {s s' op m l l' r r'} : Alike l l' → Alike r r' → Alike (.combine s op m l r) (.combine s' op m l' r')
  | values {s s' rows rows'} : Alike rows rows' → Alike (.values s rows) (.values s' rows')
  | nested {s s' q q'} : Alike q q' → Alike (.nested s q) (.nested s' q')
  | star {s s' q} : Alike (.star s q) (.star s' q)
  | labelled {s s' e e' a} : Alike e e' → Alike (.labelled s e a) (.labelled s' e' a)
  | sort {s s' xs xs'} : Alike xs xs' → Alike (.sort s xs) (.sort s' xs')
  | sortItem {s s' e e' o n} : Alike e e' → Alike (.sortItem s e o n) (.sortItem s' e' o n)
  | windowDef {s s' n w w'} : Alike w w' → Alike (.windowDef s n w) (.windowDef s' n w')
  | window {s s' n p p' o o' f f'} : Alike p p' → Alike o o' → f.isSome = f'.isSome →
      Alike (.window s n p o f) (.window s' n p' o' f')
  | overName {s s' n} : Alike (.overName s n) (.overName s' n)
  | overWindow {w w' : Phrase .window} : Alike w w' → Alike (.overWindow w) (.overWindow w')
  -- Sources
  | sources {s s' xs xs'} : Alike xs xs' → Alike (.sources s xs) (.sources s' xs')
  | sourceItem {s s' x x' js js'} : Alike x x' → Alike js js' → Alike (.sourceItem s x js) (.sourceItem s' x' js')
  | table {s s' n a} : Alike (.table ⟨s, n, a⟩) (.table ⟨s', n, a⟩)
  | subquery {s s' q q' a} : Alike q q' → Alike (.subquery s q a) (.subquery s' q' a)
  | parens {s s' i i' a} : Alike i i' → Alike (.parens s i a) (.parens s' i' a)
  | crossJoin {s s' t t'} : Alike t t' → Alike (.crossJoin s t) (.crossJoin s' t')
  | qualifiedJoin {s s' k o n t t' c c'} : Alike t t' → Alike c c' →
      Alike (.qualifiedJoin s k o n t c) (.qualifiedJoin s' k o n t' c')
  | joinOn {s s' e e'} : Alike e e' → Alike (.joinOn s e) (.joinOn s' e')
  | joinUsing {s s' cs} : Alike (.joinUsing s cs) (.joinUsing s' cs)
  -- Expressions
  | hole : Alike .hole .hole
  | binary {s s' l l' op op' r r'} : Alike l l' → Alike r r' → Alike (.binary s l op r) (.binary s' l' op' r')
  | unary {s s' op op' e e'} : Alike e e' → Alike (.unary s op e) (.unary s' op' e')
  | between {s s' t t' l l' u u' n y} : Alike t t' → Alike l l' → Alike u u' →
      Alike (.between s t l u n y) (.between s' t' l' u' n y)
  | within {s s' t t' x x' n} : Alike t t' → Alike x x' → Alike (.within s t x n) (.within s' t' x' n)
  | inValues {s s' xs xs'} : Alike xs xs' → Alike (.inValues s xs) (.inValues s' xs')
  | inQuery {s s' q q'} : Alike q q' → Alike (.inQuery s q) (.inQuery s' q')
  | like {s s' t t' p p' op n e e'} : Alike t t' → Alike p p' → Alike e e' →
      Alike (.like s t p op n e) (.like s' t' p' op n e')
  | quantifiedQuery {s s' k q q'} : Alike q q' → Alike (.quantifiedQuery s k q) (.quantifiedQuery s' k q')
  | quantifiedExpr {s s' k e e'} : Alike e e' → Alike (.quantifiedExpr s k e) (.quantifiedExpr s' k e')
  | collate {s s' e e' x x'} : Alike e e' → Alike (.collate s e x) (.collate s' e' x')
  | cast {s s' e e' x x'} : Alike e e' → Alike (.cast s e x) (.cast s' e' x')
  | nonempty {s s' q q'} : Alike q q' → Alike (.nonempty s q) (.nonempty s' q')
  | scalar {s s' q q' fs xs xs'} : Alike q q' → Alike xs xs' → Alike (.scalar s q fs xs) (.scalar s' q' fs xs')
  | column {s s' ns y xs xs'} : Alike xs xs' → Alike (.column s ns y xs) (.column s' ns y xs')
  | constant {s s' k x x' t t'} : Alike (.constant s k x t) (.constant s' k x' t')
  | row {s s' xs xs'} : Alike xs xs' → Alike (.row s xs) (.row s' xs')
  | choice {s s' x x' ws ws' e e'} : Alike x x' → Alike ws ws' → Alike e e' →
      Alike (.choice s x ws e) (.choice s' x' ws' e')
  | when {s s' c c' r r'} : Alike c c' → Alike r r' → Alike (.when s c r) (.when s' c' r')
  | call {s s' n xs xs' a d y t o o' g g' f f' v v'} : Alike xs xs' → Alike o o' → Alike g g' → Alike f f' →
      Alike v v' → Alike (.call s n xs a d y t o g f v) (.call s' n xs' a d y t o' g' f' v')
  | special {s s' x x' xs xs'} : Alike xs xs' → Alike (.special s x xs) (.special s' x' xs')

namespace Alike

theorem isHole_eq {e e' : Expr} (alike : e.Alike e') : e.isHole = e'.isHole := by
  cases alike <;> rfl

/-- Phrases that are alike have the same lineage. -/
theorem trace_eq {c : Category} {p p' : Phrase c} (alike : Alike p p') : trace c p = trace c p' := by
  induction alike with
  | none => rfl
  | some _ ih => exact congrArg Option.some ih
  | nil => rfl
  | cons _ _ first rest => exact congrArg₂ List.cons first rest
  | select _ ih => exact ih
  | insert _ _ w q =>
    exact congrArg₂ (fun w (q : Record) => ((Record.writing _ q.sources).resolve (declared w)).mergeOnlySinks q) w q
  | delete _ _ _ w o f =>
    refine congrArg₂ (fun r w => (Record.writing _ r).resolve (declared w)) ?_ w
    exact congrArg₂ (fun o f => (Names.unions (o.map Record.sources)).union (namesOf f)) o f
  | createTableAs _ q | createView _ q => exact congrArg (createdFrom _) q
  | createTable | alterRename | drop | values | star | overName | table | joinUsing | hole | constant => rfl
  | query _ _ _ _ _ w b => exact congrArg₂ (fun w b => Record.resolve b (declared w)) w b
  | withs _ ts => exact congrArg (List.foldl _ _) ts
  | cte _ q =>
    funext tables
    exact congrArg (fun q : Record =>
      (tables.merge (.writing _ (q.resolve tables.sinks).sources)).merge (q.resolve tables.sinks)) q
  | @core _ _ _ _ _ _ _ _ _ _ _ _ _ _ _ _ _ _ _ _ _ i i' _ _ _ into _ _ _ _ _ _ _ _ ts src f _ h q _ =>
    have names := congrArg₂ Names.union (congrArg Names.unions ts) (congrArg₂ Names.union (congrArg namesOf f)
      (congrArg₂ Names.union (congrArg namesOf h) (congrArg namesOf q)))
    have read := congrArg₂ (fun (s : Option Record) ns => (s.getD .empty).merge (.reading ns)) src names
    cases i with
    | none =>
      cases i' with
      | none => exact read
      | some => cases into
    | some i =>
      cases i' with
      | none => cases into
      | some i' =>
        have name : i.name = i'.name := congrArg Prod.fst (Option.some.inj into)
        exact congrArg₂ (fun (r : Record) n => r.merge ⟨.single n r.sources, .empty, .none⟩) read name
  | combine _ _ l r => exact congrArg₂ Record.merge l r
  | nested _ ih | labelled _ ih | overWindow _ ih | sortItem _ ih | windowDef _ ih | parens _ ih | crossJoin _ ih
  | joinOn _ ih | unary _ ih | quantifiedExpr _ ih | collate _ ih | cast _ ih => exact ih
  | qualifiedJoin _ _ ih => exact ih
  | sort _ ih | inValues _ ih | column _ ih | row _ ih | special _ ih => exact congrArg Names.unions ih
  | window _ _ _ p o => exact congrArg₂ (fun p o => (Names.unions p).union (namesOf o)) p o
  | sources _ ih => exact congrArg merged ih
  | sourceItem _ _ x js => exact congrArg₂ (List.foldl Record.merge) x js
  | subquery _ ih => exact congrArg (fun q => Record.reading q.sources) ih
  | binary _ _ l r | within _ _ l r | when _ _ l r => exact congrArg₂ Names.union l r
  | between _ _ _ t l u => exact congrArg₂ Names.union (congrArg₂ Names.union t l) u
  | inQuery _ ih | quantifiedQuery _ ih | nonempty _ ih => exact congrArg Record.sources ih
  | like _ _ _ t p e => exact congrArg₂ Names.union (congrArg₂ Names.union t p) (congrArg namesOf e)
  | scalar _ _ q xs => exact congrArg₂ Names.union (congrArg Record.sources q) (congrArg Names.unions xs)
  | choice _ _ _ x ws e =>
    exact congrArg₂ Names.union (congrArg₂ Names.union (congrArg namesOf x) (congrArg Names.unions ws))
      (congrArg namesOf e)
  | call _ _ _ _ _ xs o g f v =>
    refine congrArg₂ Names.union (congrArg₂ Names.union (congrArg₂ Names.union ?_ ?_) ?_) (congrArg namesOf v)
    · exact congrArg₂ Names.union (congrArg Names.unions xs) (congrArg namesOf o)
    · exact congrArg namesOf g
    · exact congrArg namesOf f

end Alike
end TableLineage.Phrase
