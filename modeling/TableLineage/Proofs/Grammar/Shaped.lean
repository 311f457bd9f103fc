import TableLineage.Proofs.Grammar.Ahead
import TableLineage.Proofs.Grammar.Frontier
import TableLineage.Proofs.Grammar.Shape

/-! Parse trees keep to the table of forms: whatever the tokens are, every node of the tree
of a script has children of a form that the table has for its rule. -/
namespace TableLineage

open List

/-! ### Productions that build nodes of the forms

A production is read with forms in the place of children and with what is known of the tokens ahead. -/

namespace Grammar

namespace Symbol

/-- The kinds with which a production starts, where its callers see to that. -/
def entry : Symbol → Option (List Kind)
  | .setOperator => some ([.UNION, .EXCEPT, .MINUS, .INTERSECT].map .keyword)
  | .quantifier => some ([.ANY, .ALL, .SOME].map .keyword)
  | .constant => some [.number, .string, .keyword .TRUE, .keyword .FALSE, .keyword .NULL, .keyword .DEFAULT]
  | _ => none

/-- Whether a production leaves alone what was read before it. The body of a statement
does not: it takes in the `WITH` clause in front of it. -/
def appends (s : Symbol) : Bool := s ≠ .statementBody

/-- What a production adds to a node: mostly one node of its own. -/
def yield (s : Symbol) : Form :=
  match production s with
  | .node r _ => .one r
  | _ =>
    match s with
    | .statementBody => Rule.statement
    | .insertRest => Rule.insertParts
    | .deleteRest => Rule.deleteParts
    | .createStmt => .node [.createViewStmt, .otherStmt, .createTableAsStmt, .createTableStmt]
    | .createHead => Rule.createParts
    | .queryRest => Rule.queryParts
    | .selectPrimary => Rule.selectOperand
    | .target => Rule.target
    | .groupItem => Rule.groupItem
    | .tableSource => Rule.tableSource
    | .aliasPart => .opt (.one .aliasClause)
    | .join => Rule.joined
    | .joinType => Rule.joinParts
    | .inSource => Rule.inSource
    | .primary => Rule.primary
    | .parenPrimary => .node [.selectExpr, .implicitRow, .parenExpr]
    | .rowOrParen => .node [.implicitRow, .parenExpr]
    | .nullTreatment => .opt (.one .nullTreatment)
    | _ => .never

end Symbol

namespace Part

/-- Whether a part leaves alone what was read before it. -/
def appends : Part Symbol → Bool
  | .done | .take | .need .. | .fail _ | .swallow _ | .node .. | .group _ => true
  | .seq a b | .branch _ a b | .attempt a b => a.appends && b.appends
  | .loop _ a => a.appends
  | .call s => s.appends
  | .wrap .. => false

/-- The form of what was read once a part is read too, and what is known then. There is none
if a node would not be of a form in the table. -/
def shape : Part Symbol → Form → Ahead → Option (Form × Ahead)
  | .done, acc, k => some (acc, k)
  | .take, acc, k => some (acc.followedBy (.leaf k.class?), k.next)
  | .need c _, acc, k => some (acc.followedBy (.leaf (some c)), k.next)
  | .fail _, _, _ => some (.never, [])
  | .seq a b, acc, k => (a.shape acc k).bind fun (acc, k) => b.shape acc k
  | .branch l a b, acc, k =>
    if a.appends && b.appends then
      (a.shape .empty (k.meet l.told)).bind fun (f, i) => (b.shape .empty (l.untold k)).map fun (g, j) =>
        (acc.followedBy (f.either g), i.join j)
    else
      (a.shape acc (k.meet l.told)).bind fun (f, i) => (b.shape acc (l.untold k)).map fun (g, j) =>
        (f.either g, i.join j)
  | .loop l a, acc, k =>
    if a.appends then
      (a.shape .empty l.told).map fun (f, _) =>
        (acc.followedBy (if l.bound k then f.followedBy (.many f) else .many f), .anything)
    else none
  | .attempt a b, acc, k =>
    if a.appends && b.appends then
      (a.shape .empty k).bind fun (f, _) => (b.shape .empty k).map fun (g, _) =>
        (acc.followedBy (f.either g), .anything)
    else none
  | .swallow _, acc, _ => some (acc.followedBy (.many .any), .anything)
  | .call s, acc, k =>
    if k.entails s.entry && (s.appends || acc = .empty) then some (acc.followedBy s.yield, .anything) else none
  | .node r a, acc, k =>
    (a.shape .empty k).bind fun (f, _) =>
      if r.forms.contains f then some (acc.followedBy (.one r), .anything) else none
  | .group a, acc, k => (a.shape .empty k).map fun (f, k) => (acc.followedBy f, k)
  | .wrap r a, acc, k =>
    (a.shape acc k).bind fun (f, _) => if r.forms.contains f then some (.one r, .anything) else none

end Part

/-- Every production keeps to the table and yields what it is said to yield. -/
theorem production_conforms (s : Symbol) :
    ((s.production.shape .empty [[s.entry]]).map Prod.fst = some s.yield) ∧
      (s.appends → s.production.appends) := by
  cases s <;> decide +kernel

end Grammar

/-! ### Trees that keep to the forms -/

/-- A tree all of whose nodes keep to the table of forms. -/
inductive Tree.Shaped : Tree → Prop
  | leaf (t : Token) : Shaped (.leaf t)
  | node {r f l x cs} {form : Grammar.Form} (listed : form ∈ r.forms) (shape : form.Matches cs)
      (all : ∀ c ∈ cs, Shaped c) : Shaped (.node r f l x cs)

namespace Grammar

/-- Children of a form, each of them shaped. -/
def Built (f : Form) (ts : List Tree) : Prop := f.Matches ts ∧ ∀ t ∈ ts, t.Shaped

namespace Built

variable {f g : Form} {us vs : List Tree}

theorem nil : Built .empty [] := ⟨rfl, by simp⟩

theorem followedBy (first : Built f us) (second : Built g vs) : Built (f.followedBy g) (us ++ vs) := by
  refine ⟨first.1.followedBy second.1, ?_⟩
  intro t member
  obtain before | after := mem_append.1 member
  · exact first.2 t before
  · exact second.2 t after

theorem either (one : Built f us ∨ Built g us) : Built (f.either g) us := by
  obtain ⟨left, shaped⟩ | ⟨right, shaped⟩ := one
  · exact ⟨Form.matches_either (.inl left), shaped⟩
  · exact ⟨Form.matches_either (.inr right), shaped⟩

theorem leaf {c : Option Class} {t : Token} (fits : ∀ k ∈ c, k.holds t.toLexeme) : Built (.leaf c) [.leaf t] := by
  refine ⟨⟨_, rfl, t, rfl, fits⟩, ?_⟩
  simpa using Tree.Shaped.leaf t

theorem many_nil : Built (.many f) [] := ⟨.many_nil, by simp⟩

theorem many_append (first : Built f us) (rest : Built (.many f) vs) : Built (.many f) (us ++ vs) := by
  refine ⟨first.1.many_append rest.1, ?_⟩
  intro t member
  obtain before | after := mem_append.1 member
  · exact first.2 t before
  · exact rest.2 t after

theorem leaves (ts : List Token) : Built (.many .any) (ts.map .leaf) := by
  induction ts with
  | nil => exact .many_nil
  | cons t ts ih => exact (Built.leaf (c := none) (by simp)).many_append ih

/-- Rounds of a loop, of which there is one at least where it is `sure`. -/
theorem rounds (first : Built f us) (rest : Built (.many f) vs) (sure : Bool) :
    Built (if sure then f.followedBy (.many f) else .many f) (us ++ vs) := by
  cases sure with
  | true => exact first.followedBy rest
  | false => exact first.many_append rest

/-- What was built in front of the children stays there. -/
theorem extend {all front out added : List Tree} (built : Built f us) (split : all = front ++ us)
    (grown : out = all ++ added) (more : Built g added) : ∃ ts, out = front ++ ts ∧ Built (f.followedBy g) ts :=
  ⟨us ++ added, by rw [grown, split, append_assoc], built.followedBy more⟩

/-- Children of a form in the table go under a node. -/
theorem closeNode {r : Rule} (built : Built f us) (listed : f ∈ r.forms) (source : List Char) (first : Token)
    (isEmpty : Bool) (s : State) : Built (.one r) [closeNode source r first isEmpty s us] := by
  unfold Grammar.closeNode
  split
  all_goals
    refine ⟨⟨_, rfl, r, mem_singleton_self r, rfl⟩, ?_⟩
    simpa using Tree.Shaped.node listed built.1 built.2

end Built

namespace Part

variable {a b : Part Symbol} {f f' : Form} {k k' : Ahead} {l : Look}

/-- Parts between which a look decides start from nothing if both leave alone what was read before. -/
theorem of_shape_branch (fits : (Part.branch l a b).shape f k = some (f', k')) : ∃ x g h i j,
    a.shape x (k.meet l.told) = some (g, i) ∧ b.shape x (l.untold k) = some (h, j) ∧ k' = i.join j ∧
      ((a.appends ∧ b.appends ∧ x = .empty ∧ f' = f.followedBy (g.either h)) ∨ (x = f ∧ f' = g.either h)) := by
  simp only [shape] at fits
  split at fits
  · next free =>
    obtain ⟨⟨g, i⟩, one, rest⟩ := Option.bind_eq_some_iff.1 fits
    obtain ⟨⟨h, j⟩, two, same⟩ := Option.map_eq_some_iff.1 rest
    cases same
    obtain ⟨left, right⟩ := Bool.and_eq_true_iff.1 free
    exact ⟨_, g, h, i, j, one, two, rfl, .inl ⟨left, right, rfl, rfl⟩⟩
  · obtain ⟨⟨g, i⟩, one, rest⟩ := Option.bind_eq_some_iff.1 fits
    obtain ⟨⟨h, j⟩, two, same⟩ := Option.map_eq_some_iff.1 rest
    cases same
    exact ⟨f, g, h, i, j, one, two, rfl, .inr ⟨rfl, rfl⟩⟩

theorem of_shape_loop (fits : (Part.loop l a).shape f k = some (f', k')) : a.appends ∧ ∃ g i,
    a.shape .empty l.told = some (g, i) ∧
      f' = f.followedBy (if l.bound k then g.followedBy (.many g) else .many g) ∧ k' = .anything := by
  simp only [shape] at fits
  split at fits
  · next free =>
    obtain ⟨⟨g, i⟩, one, same⟩ := Option.map_eq_some_iff.1 fits
    cases same
    exact ⟨free, g, i, one, rfl, rfl⟩
  · cases fits

theorem of_shape_attempt (fits : (Part.attempt a b).shape f k = some (f', k')) : a.appends ∧ b.appends ∧ ∃ g h i j,
    a.shape .empty k = some (g, i) ∧ b.shape .empty k = some (h, j) ∧ f' = f.followedBy (g.either h) ∧
      k' = .anything := by
  simp only [shape] at fits
  split at fits
  · next free =>
    obtain ⟨⟨g, i⟩, one, rest⟩ := Option.bind_eq_some_iff.1 fits
    obtain ⟨⟨h, j⟩, two, same⟩ := Option.map_eq_some_iff.1 rest
    cases same
    obtain ⟨left, right⟩ := Bool.and_eq_true_iff.1 free
    exact ⟨left, right, g, h, i, j, one, two, rfl, rfl⟩
  · cases fits

/-- A part goes from children of the form `f`, with `k` known ahead, to children of the form of its shape. One that
does not append starts with these children only. -/
theorem Ran.keeps {source : List Char} {p : Part Symbol} {acc out front back : List Tree} {s s' : State}
    (ran : Ran source p acc s out s') (fits : p.shape f k = some (f', k')) (split : acc = front ++ back)
    (free : p.appends = true ∨ front = []) (built : Built f back) (known : k.Holds s.rest) :
    k'.Holds s'.rest ∧ ∃ ts, out = front ++ ts ∧ Built f' ts := by
  induction ran generalizing f f' k k' front back with
  | done =>
    cases fits
    exact ⟨known, back, split, built⟩
  | take reads =>
    cases fits
    rw [reads.rest] at known
    exact ⟨known.next, built.extend split rfl (.leaf known.holds_class)⟩
  | need suits reads =>
    cases fits
    rw [reads.rest] at known
    exact ⟨known.next, built.extend split rfl (.leaf (by simpa using suits))⟩
  | seq _ _ first second =>
    obtain ⟨⟨g, i⟩, one, two⟩ := Option.bind_eq_some_iff.1 fits
    obtain ⟨known', middle, same, built'⟩ := first one split (free.imp_left fun both => (Bool.and_eq_true_iff.1 both).1)
      built known
    exact second two same (free.imp_left fun both => (Bool.and_eq_true_iff.1 both).2) built' known'
  | goes success _ ih =>
    obtain ⟨x, g, h, i, j, one, _, rfl, ⟨appends, _, rfl, rfl⟩ | ⟨rfl, rfl⟩⟩ := of_shape_branch fits
    · obtain ⟨known', added, same, more⟩ := ih one (append_nil _).symm (.inl appends) .nil
        (known.meet (Look.holds_told success))
      exact ⟨.join (.inl known'), built.extend split same (.either (.inl more))⟩
    · obtain ⟨known', ts, same, more⟩ := ih one split (free.imp_left fun both => (Bool.and_eq_true_iff.1 both).1) built
        (known.meet (Look.holds_told success))
      exact ⟨.join (.inl known'), ts, same, .either (.inl more)⟩
  | turns failure _ ih =>
    obtain ⟨x, g, h, i, j, _, two, rfl, ⟨_, appends, rfl, rfl⟩ | ⟨rfl, rfl⟩⟩ := of_shape_branch fits
    · obtain ⟨known', added, same, more⟩ := ih two (append_nil _).symm (.inl appends) .nil
        (Look.holds_untold known failure)
      exact ⟨.join (.inr known'), built.extend split same (.either (.inr more))⟩
    · obtain ⟨known', ts, same, more⟩ := ih two split (free.imp_left fun both => (Bool.and_eq_true_iff.1 both).2) built
        (Look.holds_untold known failure)
      exact ⟨.join (.inr known'), ts, same, .either (.inr more)⟩
  | stop ends =>
    obtain ⟨_, g, i, _, rfl, rfl⟩ := of_shape_loop fits
    refine ⟨Ahead.holds_anything _, built.extend split (append_nil _).symm ?_⟩
    split
    · next sure =>
      obtain ⟨success, inside⟩ := Look.holds_of_bound known sure
      obtain failure | none := ends
      · rw [success] at failure
        cases failure
      · exact absurd none inside
    · exact .many_nil
  | last success _ ih =>
    obtain ⟨appends, g, i, one, rfl, rfl⟩ := of_shape_loop fits
    obtain ⟨_, added, same, more⟩ := ih one (append_nil _).symm (.inl appends) .nil (Look.holds_told success)
    rw [← append_nil added] at same
    exact ⟨Ahead.holds_anything _, built.extend split same (more.rounds .many_nil _)⟩
  | @round l a _ _ _ _ _ _ success _ _ first second =>
    obtain ⟨appends, g, i, one, rfl, rfl⟩ := of_shape_loop fits
    obtain ⟨_, added, rfl, more⟩ := first one (append_nil _).symm (.inl appends) .nil (Look.holds_told success)
    -- Nothing is sure of the rounds after the first one.
    have loose : ¬ l.bound .anything := fun sure => (Look.holds_of_bound (Ahead.holds_anything []) sure).2 rfl
    have fits' : (Part.loop l a).shape .empty .anything = some (.many g, .anything) := by
      simp [shape, appends, one, loose, Form.followedBy]
    obtain ⟨_, others, same, rest⟩ := second fits' (append_nil _).symm (.inl appends) .nil (Ahead.holds_anything _)
    rw [append_assoc] at same
    exact ⟨Ahead.holds_anything _, built.extend split same (more.rounds rest _)⟩
  | tried _ ih =>
    obtain ⟨appends, _, g, h, i, j, one, _, rfl, rfl⟩ := of_shape_attempt fits
    obtain ⟨_, added, same, more⟩ := ih one (append_nil _).symm (.inl appends) .nil known
    exact ⟨Ahead.holds_anything _, built.extend split same (.either (.inl more))⟩
  | instead _ ih =>
    obtain ⟨_, appends, g, h, i, j, _, two, rfl, rfl⟩ := of_shape_attempt fits
    obtain ⟨_, added, same, more⟩ := ih two (append_nil _).symm (.inl appends) .nil known
    exact ⟨Ahead.holds_anything _, built.extend split same (.either (.inr more))⟩
  | swallow reads =>
    cases fits
    exact ⟨Ahead.holds_anything _, built.extend split rfl (.leaves _)⟩
  | @call u _ _ _ _ _ ih =>
    simp only [shape] at fits
    split at fits
    · next checked =>
      cases fits
      obtain ⟨entailed, alone⟩ := Bool.and_eq_true_iff.1 checked
      obtain ⟨shape, appends⟩ := production_conforms u
      obtain ⟨⟨g, i⟩, one, same⟩ := Option.map_eq_some_iff.1 shape
      cases same
      -- A production that does not append starts with nothing before it.
      have enters : u.production.appends = true ∨ front ++ back = [] := by
        by_cases keeps : u.appends
        · exact .inl (appends keeps)
        · have none : f = .empty := by simpa [keeps] using alone
          rw [none] at built
          exact .inr (append_eq_nil_iff.2 ⟨free.resolve_left keeps, built.1⟩)
      rw [← split] at enters
      obtain ⟨_, added, same, more⟩ := ih one (append_nil _).symm enters .nil
        ⟨_, mem_singleton_self _, known.of_entails entailed, trivial⟩
      exact ⟨Ahead.holds_anything _, built.extend split same more⟩
    · cases fits
  | node _ _ ih =>
    obtain ⟨⟨g, i⟩, one, rest⟩ := Option.bind_eq_some_iff.1 fits
    dsimp only at rest
    split at rest
    · next listed =>
      cases rest
      obtain ⟨_, _, rfl, more⟩ := ih one (append_nil []).symm (.inr rfl) .nil known
      exact ⟨Ahead.holds_anything _, built.extend split rfl (more.closeNode (by simpa using listed) ..)⟩
    · cases rest
  | group _ ih =>
    obtain ⟨⟨g, i⟩, one, same⟩ := Option.map_eq_some_iff.1 fits
    cases same
    obtain ⟨known', _, rfl, more⟩ := ih one (append_nil []).symm (.inr rfl) .nil known
    exact ⟨known', built.extend split rfl more⟩
  | wrap _ ih =>
    obtain ⟨⟨g, i⟩, one, rest⟩ := Option.bind_eq_some_iff.1 fits
    dsimp only at rest
    split at rest
    · next listed =>
      cases rest
      obtain rfl : front = [] := free.resolve_left (by simp [appends])
      obtain ⟨_, _, rfl, more⟩ := ih one split (.inr rfl) built known
      exact ⟨Ahead.holds_anything _, _, rfl, more.closeNode (by simpa using listed) ..⟩
    · cases rest

end Part

theorem parseTokens_shaped {source : List Char} {tokens : List Token} {t : Tree}
    (parsed : parseTokens source tokens = .ok t) : t.Shaped ∧ t.rule? = some .root := by
  unfold parseTokens at parsed
  dsimp only at parsed
  split at parsed
  · next ran =>
    cases parsed
    have fits : (Part.call .script).shape .empty .anything = some (_, _) := rfl
    obtain ⟨_, _, same, ⟨u, rfl, r, member, rule⟩, shaped⟩ :=
      (Symbol.ran_of_run ran).keeps fits (append_nil []).symm (.inr rfl) .nil (Ahead.holds_anything _)
    cases same
    rw [mem_singleton.1 member] at rule
    exact ⟨shaped _ (mem_singleton_self _), rule⟩
  · cases parsed
  · cases parsed

end Grammar

/-- The tree of a text is a shaped script. -/
theorem parse_shaped {text : String} {t : Tree} (parsed : parse text = .ok t) :
    t.Shaped ∧ t.rule? = some .root := by
  unfold parse parseText at parsed
  dsimp only at parsed
  split at parsed
  · cases parsed
  · split at parsed
    · next tokens =>
      cases parsed
      exact Grammar.parseTokens_shaped tokens
    · cases parsed

end TableLineage
