import TableLineage.Proofs.Grammar.Joined
import TableLineage.Proofs.Lineage.Layout
import TableLineage.Proofs.Token.Joined

/-! Scripts compose: a text, a semicolon on a line of its own and another text parse if both texts do,
and what they say is what the one says and then what the other says, further down. -/
namespace TableLineage

open List
open Position (past)

/-! ### Trees of texts one after the other -/

variable {tokens : List Token} {text : String} {t : Tree}

namespace Tree

/-- Tokens of a text stand in it also when the text goes on. -/
theorem sameSlices_append {text : List Char} (stand : ∀ t ∈ tokens, t.span.Holds text t.raw) (more : List Char) :
    SameSlices id text (text ++ more) tokens := by
  intro f among l among'
  obtain ⟨front, rest, split, place⟩ := stand f among
  obtain ⟨before, back, split', place'⟩ := stand l among'
  rw [← append_assoc] at split'
  simp only [id_eq, place, place', past]
  exact Text.slice_append split split' more

theorem sameSlices_shift (lines : Nat) (front text : List Char) (tokens : List Token) :
    SameSlices (Token.shift lines (Text.bytesOf front).length) text (front ++ text) tokens := by
  intro f _ l _
  exact Text.slice_add front text f.span.start.offset l.span.stop.offset

end Tree

/-- As many parentheses are opened as are closed. -/
def Scan.Level (s : Scan) : Prop := s.tokens.countP (·.kind = .lparen) = s.tokens.countP (·.kind = .rparen)

instance (s : Scan) : Decidable s.Level := inferInstanceAs (Decidable (_ = _))

theorem Scan.Level.net_eq {ts : List Token} {s : Scan} {eof : Token} (level : s.Level) (split : s.tokens = ts ++ [eof])
    (kind : eof.kind = .eof) : Grammar.net ts = 0 := by
  rw [Level, split, countP_append, countP_append] at level
  have none (k : Kind) (other : k ≠ .eof) : [eof].countP (·.kind = k) = 0 := by
    simp [kind, other.symm]
  rw [none .lparen (by decide), none .rparen (by decide)] at level
  rw [Grammar.net_eq_countP]
  omega

/-- A text that parses was scanned without a fault. -/
theorem Scan.sound_of_parse (parsed : parse text = .ok t) : (scan text).Sound := by
  obtain ⟨clean, built⟩ := parse_eq_ok_iff.1 parsed
  obtain ⟨eof, split, kind, -⟩ := tokens_of_parse parsed
  refine ⟨clean, fun u member => ?_⟩
  rw [split] at member
  obtain inside | last := mem_append.1 member
  · exact Grammar.parseTokens_legal built u inside
  · rw [mem_singleton.1 last, kind]
    decide

section

variable {a b : String} {t' : Tree} (clear : Scan.nul ∉ a.toList) (level : (scan a).Level) (parsed : parse a = .ok t)
  (parsed' : parse b = .ok t')

include clear level parsed parsed'

theorem parse_joined : ∃ u j, parse (a ++ "\n;\n" ++ b) = .ok u ∧ u.children = t.children ++ .leaf j ::
    Tree.moveAll (Token.shift (a.toList.count '\n' + 2) ((Text.bytesOf a.toList).length + 3)) t'.children := by
  obtain ⟨clean', built'⟩ := parse_eq_ok_iff.1 parsed'
  obtain ⟨-, built⟩ := parse_eq_ok_iff.1 parsed
  obtain ⟨eof, split, kind, inside⟩ := tokens_of_parse parsed
  obtain ⟨eof', split', -, -⟩ := tokens_of_parse parsed'
  have sound := Scan.sound_of_parse parsed
  obtain ⟨j, mark, moved, shifted, scanned⟩ := Scan.ofText_joined clear sound b.toList
  have whole : (a ++ "\n;\n" ++ b).toList = a.toList ++ '\n' :: ';' :: '\n' :: b.toList := by simp
  have front : (a ++ "\n;\n" ++ b).toList = (a.toList ++ ['\n', ';', '\n']) ++ b.toList := by simp
  have laid : Scan.Laid [] a.toList (scan a).tokens (scan a).comments := Scan.ofText_laid a.toList
  have stand : ∀ u ∈ t.leaves, u.span.Holds a.toList u.raw := fun u member =>
    laid.holds_token u (split ▸ mem_append_left _ member)
  have slices : Tree.SameSlices id a.toList (a ++ "\n;\n" ++ b).toList t.leaves :=
    whole ▸ Tree.sameSlices_append stand _
  have slices' := Tree.sameSlices_shift (a.toList.count '\n' + 2) (a.toList ++ ['\n', ';', '\n']) b.toList
    (t'.leaves ++ [eof'])
  have bytes : (Text.bytesOf (a.toList ++ ['\n', ';', '\n'])).length = (Text.bytesOf a.toList).length + 3 := by
    rw [Text.bytesOf_append, length_append]
    rfl
  rw [bytes, ← front] at slices'
  rw [split] at built
  rw [split'] at built'
  obtain ⟨u, result, children⟩ := Grammar.parseTokens_joined kind mark (Token.toLexeme_shift _ _) inside
    (level.net_eq split kind) slices slices' built built'
  have joined : scan (a ++ "\n;\n" ++ b) = (scan a).followedBy { moved with tokens := j :: moved.tokens } :=
    (congrArg Scan.ofText whole).trans scanned
  refine ⟨u, j, parse_eq_ok_iff.2 ⟨?_, ?_⟩, children⟩
  · have clean : moved.errors = [] := by
      rw [shifted]
      exact map_eq_nil_iff.2 clean'
    rw [joined, Scan.followedBy, sound.clean]
    exact clean
  · have tokens : moved.tokens = (t'.leaves ++ [eof']).map
        (Token.shift (a.toList.count '\n' + 2) ((Text.bytesOf a.toList).length + 3)) := by
      rw [shifted, ← split']
      rfl
    rw [joined, Scan.followedBy, split, dropLast_concat]
    exact tokens ▸ result

theorem parse_joined_statements : ∃ u, parse (a ++ "\n;\n" ++ b) = .ok u ∧ u.childrenOf .stmt = t.childrenOf .stmt ++
    (t'.childrenOf .stmt).map
      (Tree.move (Token.shift (a.toList.count '\n' + 2) ((Text.bytesOf a.toList).length + 3))) := by
  obtain ⟨u, j, built, children⟩ := parse_joined clear level parsed parsed'
  refine ⟨u, built, ?_⟩
  have mark : (Tree.leaf j).hasRule .stmt = false := rfl
  rw [Tree.childrenOf, children, filter_append, filter_cons_of_neg (by simp [mark]), Tree.moveAll_eq_map,
    filter_map]
  simp only [Function.comp_def, Tree.hasRule_move]
  rfl

end

/-! ### Lineage of statements further down -/

/-- The range `lines` lines further down. -/
def TextRange.shift (lines : Nat) (r : TextRange) : TextRange :=
  ⟨⟨r.start.line + lines, r.start.column⟩, ⟨r.stop.line + lines, r.stop.column⟩⟩

/-- The record of a statement `lines` lines further down. -/
def Record.shift (lines : Nat) : Record → Record := move (TextRange.shift lines)

def Diagnostic.shift (lines bytes : Nat) (d : Diagnostic) : Diagnostic := { d with span := d.span.shift lines bytes }

theorem TextRange.ofSpan?_shift {s : Span} (valid : s.isValid) (lines bytes : Nat) :
    ofSpan? (s.shift lines bytes) = (ofSpan? s).map (shift lines) := by
  have valid' : (s.shift lines bytes).isValid := by
    simp only [Span.isValid, Position.isValid, Bool.and_eq_true, decide_eq_true_eq] at valid ⊢
    exact ⟨Nat.add_pos_left valid.1 lines, Nat.add_pos_left valid.2 lines⟩
  rw [ofSpan?, ofSpan?, if_pos valid, if_pos valid']
  rfl

/-- A statement with the same lineage as another, further down. -/
structure Statement.Below (lines bytes : Nat) (s s' : Statement) : Prop where
  flow : s'.flow = s.flow
  valid : s.span.isValid
  span : s'.span = s.span.shift lines bytes

section

variable {lines bytes : Nat}

theorem Statement.Below.record {s s' : Statement} (below : s.Below lines bytes s') :
    s'.record = s.record.shift lines := by
  rw [Statement.record, Statement.record, below.span, TextRange.ofSpan?_shift below.valid, below.flow, TextRange.ofSpan?,
    if_pos below.valid]
  rfl

inductive Item.Below (lines bytes : Nat) : Item → Item → Prop
  | statement {s s' : Statement} (below : s.Below lines bytes s') : Below lines bytes (.statement s) (.statement s')
  | skipped (d : Diagnostic) : Below lines bytes (.skipped d) (.skipped (d.shift lines bytes))

theorem Tree.span_shift (t : Tree) : (t.move (Token.shift lines bytes)).span = t.span.shift lines bytes := by
  rw [span, first_move, last_move]
  rfl

theorem Tree.item_shift {n body : Tree} (m : ReadMode) (rule : n.rule? = some .stmt) (whole : n.Body tokens body)
    (valid : ∀ u ∈ tokens, u.span.isValid) :
    Agree (Item.Below lines bytes) (n.item m) ((n.move (Token.shift lines bytes)).item m) := by
  have found : n.statementBody = .ok body := by simp [statementBody, hasRule_iff.2 rule, whole.nodes]
  have found' : (n.move (Token.shift lines bytes)).statementBody = .ok (body.move (Token.shift lines bytes)) := by
    simp [statementBody, hasRule_iff.2 rule, nodes_move, whole.nodes]
  have inner : body.bare = (body.move (Token.shift lines bytes)).bare := (bare_move (Token.toLexeme_shift _ _) body).symm
  unfold item
  rw [found, found']
  simp only [bind, Except.bind, hasRule_move]
  split
  · rw [span_shift, first_move]
    exact .ok (.skipped _)
  · have both := read_agree inner m
    have placed {s : Statement} (read : body.read m .statement = .ok s) : s.span = body.span := span_of_read read
    have placed' {s : Statement} (read : (body.move (Token.shift lines bytes)).read m .statement = .ok s) :
        s.span = body.span.shift lines bytes := (span_of_read read).trans (span_shift body)
    have valid : body.span.isValid := whole.valid_span valid
    generalize body.read m .statement = x, (body.move (Token.shift lines bytes)).read m .statement = y
      at both placed placed'
    cases both with
    | error => exact .error
    | ok flow =>
      refine .ok (.statement ⟨flow.symm, ?_, ?_⟩)
      · rw [placed rfl]
        exact valid
      · rw [placed' rfl, placed rfl]

/-- What becomes of statements further down. -/
structure Script.Below (lines bytes : Nat) (r r' : Script) : Prop where
  records : r'.statements.map Statement.record = (r.statements.map Statement.record).map (Record.shift lines)
  diagnostics : r'.diagnostics = r.diagnostics.map (Diagnostic.shift lines bytes)

theorem Script.ofTrees_shift (normalize : Bool) (valid : ∀ u ∈ tokens, u.span.isValid) {ns : List Tree}
    (whole : ∀ n ∈ ns, n.rule? = some .stmt ∧ ∃ body, n.Body tokens body) :
    Agree (Script.Below lines bytes) (Script.ofTrees normalize ns)
      (Script.ofTrees normalize (ns.map (Tree.move (Token.shift lines bytes)))) := by
  induction ns with
  | nil => exact .ok ⟨rfl, rfl⟩
  | cons n ns ih =>
    obtain ⟨⟨rule, body, one⟩, rest⟩ := forall_mem_cons.1 whole
    refine (Tree.item_shift _ rule one valid).bind fun i i' item => ?_
    refine (ih rest).bind fun r r' more => ?_
    cases item with
    | statement below => exact .ok ⟨congrArg₂ List.cons below.record more.records, more.diagnostics⟩
    | skipped d => exact .ok ⟨more.records, congrArg (List.cons _) more.diagnostics⟩

end

/-- Statements in a row after others add to what the others give. -/
theorem Script.ofTrees_append {normalize : Bool} {ns ns' : List Tree} {r r' : Script}
    (read : ofTrees normalize ns = .ok r) (read' : ofTrees normalize ns' = .ok r') :
    ofTrees normalize (ns ++ ns') = .ok ⟨r.statements ++ r'.statements, r.diagnostics ++ r'.diagnostics⟩ := by
  induction ns generalizing r with
  | nil =>
    cases read
    exact read'
  | cons n ns ih =>
    rw [ofTrees] at read
    rw [cons_append, ofTrees]
    cases item : n.item ⟨normalize, false⟩ with
    | error =>
      rw [item] at read
      cases read
    | ok i =>
      rw [item] at read
      cases rest : ofTrees normalize ns with
      | error =>
        rw [rest] at read
        cases read
      | ok more =>
        rw [rest] at read
        cases read
        rw [ih rest]
        cases i <;> rfl

/-- The script of a text that parses is that of its statements. -/
theorem Script.ofText_eq (parsed : parse text = .ok t) {normalize : Bool} {script : Script}
    (read : ofTrees normalize (t.childrenOf .stmt) = .ok script) : Script.ofText normalize text = .ok script := by
  have root : t.hasRule .root := Tree.hasRule_iff.2 (parse_shaped parsed).2
  simp only [Script.ofText, parsed, Script.ofTree, root, if_true, read]

theorem Script.exists_ofTrees (parsed : parse text = .ok t) (normalize : Bool) :
    ∃ script, ofTrees normalize (t.childrenOf .stmt) = .ok script := by
  have shaped := (parse_shaped parsed).1
  obtain ⟨script, read, -⟩ := ofTrees_of_shaped normalize
    (fun u member => shaped.child (mem_filter.1 member).1)
    (fun u member => Tree.hasRule_iff.1 (mem_filter.1 member).2)
  exact ⟨script, read⟩

section

variable {a b : String} {t' : Tree} (clear : Scan.nul ∉ a.toList) (level : (scan a).Level) (parsed : parse a = .ok t)
  (parsed' : parse b = .ok t')

include clear level parsed parsed'

theorem Script.ofText_joined (normalize : Bool) : ∃ r r' further, Script.ofText normalize a = .ok r ∧
    Script.ofText normalize b = .ok r' ∧
    Script.Below (a.toList.count '\n' + 2) ((Text.bytesOf a.toList).length + 3) r' further ∧
    Script.ofText normalize (a ++ "\n;\n" ++ b) =
      .ok ⟨r.statements ++ further.statements, r.diagnostics ++ further.diagnostics⟩ := by
  obtain ⟨u, built, statements⟩ := parse_joined_statements clear level parsed parsed'
  obtain ⟨r, read⟩ := Script.exists_ofTrees parsed normalize
  obtain ⟨r', read'⟩ := Script.exists_ofTrees parsed' normalize
  have whole : ∀ n ∈ t'.childrenOf .stmt, n.rule? = some .stmt ∧ ∃ body, n.Body (scan b).tokens body :=
    fun n member => ⟨Tree.hasRule_iff.1 (mem_filter.1 member).2,
      Grammar.parseTokens_body (parseTokens_of_parse parsed') member⟩
  obtain ⟨further, moved, below⟩ := (Script.ofTrees_shift normalize (Scan.valid_tokens b) whole).exists_ok read'
  refine ⟨r, r', further, Script.ofText_eq parsed read, Script.ofText_eq parsed' read', below, ?_⟩
  apply Script.ofText_eq built
  rw [statements]
  exact Script.ofTrees_append read moved

/-- Two texts that parse, the first with as many opened as closed parentheses and without a NUL, parse
with a semicolon on a line of its own between them. The statements of the whole are those of the first
text and then those of the second, further down by the lines and bytes in front of it. So are its records,
one for each statement, and its diagnostics, unless a pattern of what to leave out is malformed. -/
theorem scripts_compose :
    (∃ u, parse (a ++ "\n;\n" ++ b) = .ok u ∧ u.childrenOf .stmt = t.childrenOf .stmt ++
      (t'.childrenOf .stmt).map
        (Tree.move (Token.shift (a.toList.count '\n' + 2) ((Text.bytesOf a.toList).length + 3)))) ∧
    ∀ o : ExtractOptions, o.split = true →
      (∃ e, readPatterns o.exclude = .error e ∧ ∀ text, Extraction.ofText o text = .error (.pattern e)) ∨
      ∃ x y z, Extraction.ofText o a = .ok x ∧ Extraction.ofText o b = .ok y ∧
        Extraction.ofText o (a ++ "\n;\n" ++ b) = .ok z ∧
        z.records = x.records ++ y.records.map (Record.shift (a.toList.count '\n' + 2)) ∧
        z.diagnostics = x.diagnostics ++ y.diagnostics.map
          (Diagnostic.shift (a.toList.count '\n' + 2) ((Text.bytesOf a.toList).length + 3)) := by
  refine ⟨parse_joined_statements clear level parsed parsed', fun o split => ?_⟩
  cases read : readPatterns o.exclude with
  | error e => exact .inl ⟨e, rfl, fun text => by rw [Extraction.ofText, read]⟩
  | ok patterns =>
    obtain ⟨r, r', further, first, second, below, joined⟩ :=
      Script.ofText_joined clear level parsed parsed' o.normalize
    refine .inr ⟨_, _, _, Extraction.ofText_of_ok read first, Extraction.ofText_of_ok read second,
      Extraction.ofText_of_ok read joined, ?_, ?_⟩
    · simp only [Extraction.ofScript, split, if_true, List.map_append, below.records]
      simp only [List.map_map, Function.comp_def, Record.shift, Extraction.finish_move]
    · rw [Extraction.ofScript, below.diagnostics]
      rfl

end

theorem scripts_compose_after_comment :
    ∃ a b o t t' u x y z, a = "DELETE FROM a\nWHERE (b = 'é') --" ∧
      b = "ALTER TABLE c RENAME TO d; VACUUM" ∧ o = ⟨true, "ab.sql", true, ["tmp_*"]⟩ ∧
      parse a = .ok t ∧ parse b = .ok t' ∧ parse (a ++ "\n;\n" ++ b) = .ok u ∧
      u.childrenOf .stmt = t.childrenOf .stmt ++ (t'.childrenOf .stmt).map (Tree.move (Token.shift 3 36)) ∧
      Extraction.ofText o a = .ok x ∧ Extraction.ofText o b = .ok y ∧
      Extraction.ofText o (a ++ "\n;\n" ++ b) = .ok z ∧
      z.records = x.records ++ y.records.map (Record.shift 3) ∧
      z.diagnostics = x.diagnostics ++ y.diagnostics.map (Diagnostic.shift 3 36) ∧
      y.records.length = 1 ∧ y.diagnostics.length = 1 := by
  have facts : (parse "DELETE FROM a\nWHERE (b = 'é') --").isOk ∧ (scan "DELETE FROM a\nWHERE (b = 'é') --").Level ∧
      (parse "ALTER TABLE c RENAME TO d; VACUUM").isOk ∧
      ((Extraction.ofText ⟨true, "ab.sql", true, ["tmp_*"]⟩ "ALTER TABLE c RENAME TO d; VACUUM").toOption.map
        fun y => (y.records.length, y.diagnostics.length)) = some (1, 1) := by decide +kernel
  obtain ⟨parses, level, parses', sizes⟩ := facts
  cases parsed : parse "DELETE FROM a\nWHERE (b = 'é') --" with
  | error =>
    rw [parsed] at parses
    cases parses
  | ok t =>
    cases parsed' : parse "ALTER TABLE c RENAME TO d; VACUUM" with
    | error =>
      rw [parsed'] at parses'
      cases parses'
    | ok t' =>
      obtain ⟨⟨u, built, statements⟩, lineage⟩ := scripts_compose (by decide +kernel) level parsed parsed'
      obtain ⟨e, _, malformed⟩ | ⟨x, y, z, read, read', joined, records, diagnostics⟩ :=
        lineage ⟨true, "ab.sql", true, ["tmp_*"]⟩ rfl
      · rw [malformed] at sizes
        cases sizes
      · rw [read'] at sizes
        obtain ⟨one, one'⟩ := Prod.mk.inj (Option.some.inj sizes)
        exact ⟨_, _, _, t, t', u, x, y, z, rfl, rfl, rfl, parsed, parsed', built, statements, read, read', joined, records,
          diagnostics, one, one'⟩

end TableLineage
