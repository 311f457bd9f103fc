import TableLineage.Proofs.Lineage.Aggregate
import TableLineage.Proofs.Statement.DrawScript

/-! Statements against the text that they were read from. The ranges of their parts nest, those of
statements and of their records come one behind the other, and a walk follows the text unless clauses
were written in another order than they are walked in. -/
namespace TableLineage

open List
open Tree (leavesAll)

theorem Phrase.outline_statement (s : Statement) : ∃ o, s.outline = [o] ∧ o.mark.span = s.span := by
  cases s with
  | select q =>
    cases q
    exact ⟨_, rfl, rfl⟩
  | _ => exact ⟨_, rfl, rfl⟩

variable {text : List Char} {t : Tree}

/-- The leaves of the tree of a text stand in the text. -/
theorem standing_of_parse {text : String} (parsed : parse text = .ok t) : Standing text.toList t.leaves := by
  have laid : Scan.Laid [] text.toList (scan text).tokens (scan text).comments := Scan.ofText_laid text.toList
  obtain ⟨tokens, eof, split, -, others, -⟩ := laid.exists_eof
  obtain ⟨last, same, -, -⟩ := tokens_of_parse parsed
  have leaves : t.leaves = tokens := (append_inj' (same.symm.trans split) rfl).1
  have holds : ∀ u ∈ t.leaves, u.span.Holds text.toList u.raw :=
    fun u member => laid.holds_token u (same ▸ mem_append_left _ member)
  refine ⟨holds, fun u member => ?_, ?_⟩
  · obtain ⟨front, back, -, place⟩ := holds u member
    rw [place]
    exact Position.offset_lt_past_append front (by simpa using (others u (leaves ▸ member)).2)
  · have order := laid.tokens_inOrder
    rw [same] at order
    exact order.sublist (sublist_append_left _ _)

theorem Standing.tree {ts : List Tree} (standing : Standing text (leavesAll ts)) (member : t ∈ ts) :
    Standing text t.leaves := by
  have alone := standing.sublist (Tree.leavesAll_sublist (singleton_sublist.2 member))
  rwa [Tree.leavesAll_singleton] at alone

theorem standing_statements {text : String} (parsed : parse text = .ok t) :
    Standing text.toList (leavesAll ((t.childrenOf .stmt).filter (!·.isSkipped))) := by
  have standing := standing_of_parse parsed
  rw [Tree.leaves_eq (parse_shaped parsed).2] at standing
  exact standing.sublist (Tree.leavesAll_sublist (filter_sublist.trans filter_sublist))

/-! ### Statements one behind the other -/

/-- Ranges of a text that are not empty and come one behind the other. -/
structure Span.Ascend (ss : List Span) : Prop where
  size : ∀ s ∈ ss, s.start.offset < s.stop.offset
  apart : ss.Pairwise Precedes

/-- What goes from token to token of successive trees comes one behind the other. -/
theorem Span.Ascend.of_tokens {ts : List Tree} {ss : List Span} (standing : Standing text (leavesAll ts))
    (each : List.Forall₂ (fun t s => s.OfTokens t.leaves) ts ss) : Ascend ss ∧ ∀ s ∈ ss, s.OfTokens (leavesAll ts) := by
  induction each with
  | nil => exact ⟨⟨by simp, .nil⟩, by simp⟩
  | @cons t s ts ss tokens _ ih =>
    have standing : Standing text (t.leaves ++ leavesAll ts) := standing
    obtain ⟨ascend, inside⟩ := ih (standing.sublist (sublist_append_right _ _))
    constructor
    · constructor
      · exact forall_mem_cons.2 ⟨tokens.start_lt_stop, ascend.size⟩
      · exact .cons (fun s' member => tokens.precedes (inside s' member) standing) ascend.apart
    · refine forall_mem_cons.2 ⟨tokens.mono (subset_append_left _ _), fun s' member => ?_⟩
      exact (inside s' member).mono (subset_append_right _ _)

/-- Ranges in lines and columns that are not empty and come one behind the other. -/
structure TextRange.Ascend (rs : List TextRange) : Prop where
  size : ∀ r ∈ rs, r.start < r.stop
  apart : rs.Pairwise fun r s => r.stop ≤ s.start

/-- The point with its column counted from zero. -/
def Position.point (p : Position) : TextPoint := ⟨p.line, (p.column : Int) - 1⟩

theorem Position.point_lt_iff {p q : Position} : p.point < q.point ↔ p.before q = true := by
  rw [TextPoint.lt_iff, before, point, point]
  split <;> simp <;> omega

/-- The ranges of a text ascend in lines and columns if they do in bytes. -/
theorem Span.Ascend.ranges {ss : List Span} (ascend : Ascend ss) (inside : ∀ s ∈ ss, ∃ raw, s.Holds text raw) :
    ∃ rs, ss.map TextRange.ofSpan? = rs.map some ∧ TextRange.Ascend rs := by
  have order {p q : Position} (first : p.InText text) (second : q.InText text) :
      p.point < q.point ↔ p.offset < q.offset :=
    Position.point_lt_iff.trans (Position.before_iff first second)
  have place : ∀ s ∈ ss, s.start.InText text ∧ s.stop.InText text := by
    intro s member
    obtain ⟨raw, holds⟩ := inside s member
    exact holds.inText
  refine ⟨ss.map fun s => ⟨s.start.point, s.stop.point⟩, ?_, ?_, ?_⟩
  · rw [map_map]
    refine map_congr_left fun s member => ?_
    obtain ⟨raw, holds⟩ := inside s member
    exact if_pos holds.isValid
  · refine forall_mem_map.2 fun s member => ?_
    exact (order (place s member).1 (place s member).2).2 (ascend.size s member)
  · refine pairwise_map.2 (ascend.apart.imp_of_mem fun {s s'} member member' before => ?_)
    exact not_lt.1 (mt (order (place s' member').1 (place s member).2).1 (Nat.not_lt.2 before))

/-! ### Texts -/

/-- The statement goes from the first token of its tree to the last, and the ranges of its parts nest. -/
structure Statement.Spans (text : List Char) (stmt : Tree) (s : Statement) : Prop where
  outline : ∃ o, Phrase.outline s = [o] ∧ o.mark.span = s.span ∧ o.Nests text
  tokens : ∃ first last, stmt.leaves.head? = some first ∧ stmt.leaves.getLast? = some last ∧
    s.span = ⟨first.span.start, last.span.stop⟩

theorem Statement.spans_of_drawn {tokens : List Token} {m : ReadMode} {stmt body : Tree} {s : Statement}
    (standing : Standing text stmt.leaves) (drawn : Drawn text m [stmt] (Phrase.outline s))
    (rule : stmt.rule? = some .stmt) (whole : stmt.Body tokens body) (read : stmt.StatementOf m s) :
    Statement.Spans text stmt s ∧ s.span.OfTokens stmt.leaves := by
  obtain ⟨o, outline, range⟩ := Phrase.outline_statement s
  have sited := (drawn.sited (by simpa using standing)).1 o (by simp [outline])
  obtain ⟨other, nodes, outcome, -⟩ := read
  obtain rfl : body = other := by simpa [whole.nodes] using nodes
  have leaves : stmt.leaves = body.leaves := by
    rw [Tree.leaves_eq rule, whole.children, Tree.leavesAll_singleton]
  refine ⟨⟨⟨o, outline, range, sited.1⟩, body.first, body.last, ?_, ?_, Tree.span_of_read outcome⟩, ?_⟩
  · rw [leaves, whole.first]
  · rw [leaves, whole.last]
  · simpa [range] using sited.2

/-- The statements of a text that parses can be read, and the ranges of their parts are ranges of the
text and nest. A statement goes from its first token to its last, and behind it comes the next; so do the
records, if each statement has its own, whatever is left out of them. -/
theorem spans_nest_in_text (normalize : Bool) {text : String} {t : Tree} (parsed : parse text = .ok t) :
    ∃ script, Script.ofText normalize text = .ok script ∧
      List.Forall₂ (Statement.Spans text.toList) ((t.childrenOf .stmt).filter (!·.isSkipped)) script.statements ∧
      Span.Ascend (script.statements.map Phrase.span) ∧
      ∀ o : ExtractOptions, o.split = true → o.normalize = normalize →
        ∀ patterns, readPatterns o.exclude = .ok patterns →
        ∃ e ranges, Extraction.ofText o text = .ok e ∧ e.statements = script.statements ∧
          e.records.map Record.range? = ranges.map some ∧
          script.statements.map (fun s => TextRange.ofSpan? s.span) = ranges.map some ∧ TextRange.Ascend ranges := by
  obtain ⟨script, read, each⟩ := Script.drawn_of_parse normalize parsed
  have standing := standing_statements parsed
  have spans : List.Forall₂ (fun stmt s => Statement.Spans text.toList stmt s ∧ s.span.OfTokens stmt.leaves)
      ((t.childrenOf .stmt).filter (!·.isSkipped)) script.statements := by
    refine List.Forall₂.imp ?_ ((List.forall₂_and_left _ _).2 ⟨fun u member => member, each⟩)
    rintro stmt s ⟨member, drawn, statement⟩
    have among := (List.mem_filter.1 member).1
    obtain ⟨body, whole⟩ := Grammar.parseTokens_body (parseTokens_of_parse parsed) among
    exact Statement.spans_of_drawn (standing.tree member) drawn (Tree.hasRule_iff.1 (List.mem_filter.1 among).2) whole
      statement
  have tokens : List.Forall₂ (fun stmt s => s.OfTokens stmt.leaves) ((t.childrenOf .stmt).filter (!·.isSkipped))
      (script.statements.map Phrase.span) := List.forall₂_map_right_iff.2 (spans.imp fun _ _ both => both.2)
  obtain ⟨ascend, inside⟩ := Span.Ascend.of_tokens standing tokens
  refine ⟨script, read, spans.imp fun _ _ both => both.1, ascend, ?_⟩
  rintro o split rfl patterns fine
  obtain ⟨ranges, same, order⟩ := ascend.ranges fun s member => (inside s member).holds standing
  rw [List.map_map] at same
  refine ⟨_, ranges, Extraction.ofText_of_ok fine read, rfl, ?_, same, order⟩
  rw [← same, Extraction.ofScript, if_pos split, List.map_map, List.map_map]
  refine List.map_congr_left fun s _ => ?_
  exact (Extraction.range?_finish patterns o.sourceName s.record).trans s.range?_record

theorem spans_nest_in_commented_script :
    ∃ t e ranges, parse "SELECT (a) + 'é' b /* c */;\nVACUUM; DROP TABLE d -- e" = .ok t ∧
      (t.childrenOf .stmt).map Tree.isSkipped = [false, true, false] ∧
      Extraction.ofText ⟨true, "s", true, ["tmp*"]⟩ "SELECT (a) + 'é' b /* c */;\nVACUUM; DROP TABLE d -- e" = .ok e ∧
      List.Forall₂ (Statement.Spans "SELECT (a) + 'é' b /* c */;\nVACUUM; DROP TABLE d -- e".toList)
        ((t.childrenOf .stmt).filter (!·.isSkipped)) e.statements ∧
      Span.Ascend (e.statements.map Phrase.span) ∧
      e.records.map Record.range? = ranges.map some ∧ TextRange.Ascend ranges := by
  generalize same : parse "SELECT (a) + 'é' b /* c */;\nVACUUM; DROP TABLE d -- e" = parsed
  have skipped : (parsed.toOption.map fun t => (t.childrenOf .stmt).map Tree.isSkipped) = some [false, true, false] := by
    rw [← same]
    decide +kernel
  cases parsed with
  | error => cases skipped
  | ok t =>
    obtain ⟨script, -, spans, ascend, records⟩ := spans_nest_in_text true same
    obtain ⟨patterns, fine⟩ : ∃ patterns, readPatterns ["tmp*"] = .ok patterns := ⟨_, rfl⟩
    obtain ⟨e, ranges, read, statements, positions, -, order⟩ :=
      records ⟨true, "s", true, ["tmp*"]⟩ rfl rfl patterns fine
    exact ⟨t, e, ranges, rfl, Option.some.inj skipped, read, statements ▸ spans, statements ▸ ascend, positions, order⟩

/-- A walk meets the parts of a statement in the order of the text just if all clauses in it were written
in the order that they are walked in. -/
theorem walk_in_order_iff_straight (normalize : Bool) {text : String} {t : Tree} (parsed : parse text = .ok t) :
    ∃ script, Script.ofText normalize text = .ok script ∧
      List.Forall₂ (fun stmt s => Outline.InOrder (Phrase.outline s) ↔ stmt.straight = true)
        ((t.childrenOf .stmt).filter (!·.isSkipped)) script.statements := by
  obtain ⟨script, read, each⟩ := Script.drawn_of_parse normalize parsed
  refine ⟨script, read, List.Forall₂.imp ?_ ((List.forall₂_and_left _ _).2 ⟨fun u member => member, each⟩)⟩
  rintro stmt s ⟨member, drawn, -⟩
  have standing := (standing_statements parsed).tree member
  simpa using (drawn.sited (by simpa using standing)).2

theorem walk_in_order_iff_straight_of_limits :
    ∃ t, parse "SELECT a OFFSET b LIMIT ALL; SELECT TOP (n) DISTINCT ON (k) a" = .ok t ∧
      (t.childrenOf .stmt).map (fun u => (u.isSkipped, u.straight)) = [(false, true), (false, false)] ∧
      ∃ script, Script.ofText true "SELECT a OFFSET b LIMIT ALL; SELECT TOP (n) DISTINCT ON (k) a" = .ok script ∧
        List.Forall₂ (fun stmt s => Outline.InOrder (Phrase.outline s) ↔ stmt.straight = true)
          ((t.childrenOf .stmt).filter (!·.isSkipped)) script.statements := by
  generalize same : parse "SELECT a OFFSET b LIMIT ALL; SELECT TOP (n) DISTINCT ON (k) a" = parsed
  have straight : (parsed.toOption.map fun t => (t.childrenOf .stmt).map fun u => (u.isSkipped, u.straight)) =
      some [(false, true), (false, false)] := by
    rw [← same]
    decide +kernel
  cases parsed with
  | error => cases straight
  | ok t => exact ⟨t, rfl, Option.some.inj straight, walk_in_order_iff_straight true same⟩

/-- A limit behind the offset is walked before it. -/
theorem walk_goes_back_to_offset :
    ∃ script s, Script.ofText true "SELECT a FROM t OFFSET b LIMIT c" = .ok script ∧ script.statements = [s] ∧
      ¬ Outline.InOrder (Phrase.outline s) := by
  generalize same : Script.ofText true "SELECT a FROM t OFFSET b LIMIT c" = read
  have back : (read.toOption.map fun script => script.statements.map fun s =>
      decide (Outline.InOrder (Phrase.outline s))) = some [false] := by
    rw [← same]
    decide +kernel
  cases read with
  | error => cases back
  | ok script =>
    obtain ⟨s, single, order⟩ := List.map_eq_singleton_iff.1 (Option.some.inj back)
    exact ⟨script, s, rfl, single, of_decide_eq_false order⟩

end TableLineage
