import TableLineage.Proofs.Lineage.Aggregate
import TableLineage.Proofs.Lineage.Seen

/-! Layout does not matter: texts whose tokens say the same parse alike and have the same lineage,
whatever blanks and comments stand between the tokens. -/
namespace TableLineage

open List

/-! ### Records that are moved -/

namespace Record

/-- The record with its range moved. -/
def move (f : TextRange → TextRange) (r : Record) : Record :=
  { r with context := r.context.map fun c => { c with range := c.range.map f } }

theorem merge_move (f : TextRange → TextRange) (a b : Record) : a.merge (b.move f) = a.merge b := rfl

theorem range?_move (f : TextRange → TextRange) (r : Record) : (r.move f).range? = r.range?.map f := by
  rw [range?, range?, move]
  cases r.context <;> rfl

end Record

theorem merged_move (f : TextRange → TextRange) (records : List Record) :
    merged (records.map (Record.move f)) = merged records := by
  rw [merged, merged, foldl_map]
  simp only [Record.merge_move]

theorem Extraction.finish_move (patterns : List Glob) (name : String) (f : TextRange → TextRange) (r : Record) :
    finish patterns name (r.move f) = (finish patterns name r).move f := by
  have exclude : (r.move f).exclude patterns = (r.exclude patterns).move f := rfl
  have named (r : Record) : (r.move f).withSourceName name = (r.withSourceName name).move f := by
    rw [Record.withSourceName, Record.range?_move]
    rfl
  rw [finish, finish]
  split <;> split <;> simp only [exclude, named]

/-- The record at no place in particular. -/
def Record.placeless (r : Record) : Record := r.move fun _ => ⟨⟨0, 0⟩, ⟨0, 0⟩⟩

/-- The diagnostic at no place in particular. -/
def Diagnostic.placeless (d : Diagnostic) : Diagnostic := { d with span := .none }

/-! ### Records of statements with the same lineage -/

/-- Both ranges are at a place. -/
def Span.Placed (a b : Span) : Prop := (∃ r, TextRange.ofSpan? a = some r) ∧ ∃ r, TextRange.ofSpan? b = some r

theorem Statement.SameFlow.placeless_record {s s' : Statement} (same : s.SameFlow Span.Placed s') :
    s.record.placeless = s'.record.placeless := by
  obtain ⟨flow, ⟨r, placed⟩, ⟨r', placed'⟩⟩ := same
  rw [record, record, placed, placed', flow]
  rfl

theorem TextRange.exists_foldl_cover? (r : TextRange) (rs : List (Option TextRange)) :
    ∃ r', rs.foldl cover? (some r) = some r' := by
  induction rs generalizing r with
  | nil => exact ⟨r, rfl⟩
  | cons head rs ih =>
    cases head with
    | none => exact ih r
    | some head => exact ih (r.cover head)

theorem merged_placeless (records : List Record) : merged (records.map Record.placeless) = merged records :=
  merged_move _ records

section

variable {statements statements' : List Statement}
  (same : List.Forall₂ (Statement.SameFlow Span.Placed) statements statements')

include same

theorem placeless_records :
    (statements.map Statement.record).map Record.placeless = (statements'.map Statement.record).map Record.placeless := by
  induction same with
  | nil => rfl
  | cons one _ ih => simp only [map_cons, one.placeless_record, ih]

theorem placeless_scriptRecord : (scriptRecord statements).placeless = (scriptRecord statements').placeless := by
  have tables : merged (statements.map Statement.record) = merged (statements'.map Statement.record) := by
    rw [← merged_placeless, placeless_records same, merged_placeless]
  cases same with
  | nil => rfl
  | @cons s s' rest rest' one more =>
    obtain ⟨-, ⟨r, placed⟩, ⟨r', placed'⟩⟩ := one
    obtain ⟨u, range⟩ := TextRange.exists_foldl_cover? r (rest.map fun s => TextRange.ofSpan? s.span)
    obtain ⟨u', range'⟩ := TextRange.exists_foldl_cover? r' (rest'.map fun s => TextRange.ofSpan? s.span)
    simp only [scriptRecord, isEmpty_cons, map_cons, foldl_cons, placed, placed'] at tables ⊢
    simp only [TextRange.cover?, range, range', tables]
    rfl

end

theorem placeless_diagnostics {P : Span → Span → Prop} {diagnostics diagnostics' : List Diagnostic}
    (same : List.Forall₂ (Diagnostic.SameWord P) diagnostics diagnostics') :
    diagnostics.map Diagnostic.placeless = diagnostics'.map Diagnostic.placeless := by
  induction same with
  | nil => rfl
  | cons one _ ih => simp only [map_cons, Diagnostic.placeless, one.severity, one.message, ih]

/-! ### Statements of trees that are the same without their places -/

theorem Grammar.View.keepsWords_placeless : Grammar.View.placeless.KeepsWords := fun _ => rfl

namespace Tree

theorem read_agree {t t' : Tree} (same : t.bare = t'.bare) (m : ReadMode) :
    Agree (fun s s' : Statement => s.flow = s'.flow) (t.read m .statement) (t'.read m .statement) := by
  rw [← seen_placeless, ← seen_placeless] at same
  exact read_look (Grammar.View.keepsNames_placeless m) same

theorem Body.valid_span {tokens : List Token} {n body : Tree} (whole : n.Body tokens body)
    (valid : ∀ u ∈ tokens, u.span.isValid) : body.span.isValid := by
  have first := valid _ (whole.tokens _ (mem_of_head? whole.first))
  have last := valid _ (whole.tokens _ (mem_of_getLast? whole.last))
  simp only [Span.isValid, Bool.and_eq_true] at first last ⊢
  exact ⟨first.1, last.2⟩

end Tree

/-! ### Whole texts -/

theorem Scan.valid_tokens (text : String) : ∀ u ∈ (scan text).tokens, u.span.isValid := by
  intro u member
  have laid : Laid [] text.toList (scan text).tokens (scan text).comments := ofText_laid text.toList
  obtain ⟨front, back, -, place⟩ := laid.holds_token u member
  simp only [place, Span.isValid, Position.isValid, Position.past, Bool.and_eq_true, decide_eq_true_eq]
  omega

theorem Scan.placed_tokens (s s' : String) :
    Grammar.View.placeless.Places (scan s).tokens (scan s').tokens Span.Placed := by
  have placed (s : String) {t u : Token} (first : t ∈ (scan s).tokens) (last : u ∈ (scan s).tokens) :
      ∃ r, TextRange.ofSpan? ⟨t.span.start, u.span.stop⟩ = some r := by
    have first := valid_tokens s t first
    have last := valid_tokens s u last
    simp only [Span.isValid, Bool.and_eq_true] at first last
    rw [TextRange.ofSpan?, if_pos (by simp [Span.isValid, first, last])]
    exact ⟨_, rfl⟩
  intro t first u last t' first' u' last' _ _
  exact ⟨placed s first last, placed s' first' last'⟩

section

variable {s s' : String} (clean : (scan s).errors = []) (clean' : (scan s').errors = [])
  (same : (scan s).tokens.map Token.toLexeme = (scan s').tokens.map Token.toLexeme)

include clean clean' same

theorem Script.ofText_agree (normalize : Bool) :
    Agree (Script.Same Span.Placed) (Script.ofText normalize s) (Script.ofText normalize s') :=
  Script.ofText_look Grammar.View.keepsWords_placeless (Grammar.View.keepsNames_placeless _) (Scan.placed_tokens s s')
    clean clean' (Grammar.View.see_placeless_of_lexemes same)

/-- Texts that lex without a fault into tokens of the same kinds, literals, raw texts and quoting
both parse or both do not. Their trees have the same rules, children and terminals, and their
records and diagnostics are the same but for their places, whatever the options. -/
theorem layout_does_not_matter :
    Agree (fun t t' => t.bare = t'.bare) (parse s) (parse s') ∧
      ∀ o : ExtractOptions, Agree (fun e e' => e.records.map Record.placeless = e'.records.map Record.placeless ∧
        e.diagnostics.map Diagnostic.placeless = e'.diagnostics.map Diagnostic.placeless)
        (Extraction.ofText o s) (Extraction.ofText o s') := by
  refine ⟨parse_agree clean clean' same, fun o => ?_⟩
  unfold Extraction.ofText
  cases readPatterns o.exclude with
  | error => exact .error
  | ok patterns =>
    dsimp only
    generalize Script.ofText o.normalize s = x, Script.ofText o.normalize s' = y,
      Script.ofText_agree clean clean' same o.normalize = script
    cases script with
    | error => exact .error
    | @ok r r' related =>
      refine .ok ⟨?_, placeless_diagnostics related.diagnostics⟩
      have finished (records records' : List Record)
          (alike : records.map Record.placeless = records'.map Record.placeless) :
          (records.map (Extraction.finish patterns o.sourceName)).map Record.placeless =
            (records'.map (Extraction.finish patterns o.sourceName)).map Record.placeless := by
        have move (rs : List Record) : (rs.map (Extraction.finish patterns o.sourceName)).map Record.placeless =
            (rs.map Record.placeless).map (Extraction.finish patterns o.sourceName) := by
          simp only [List.map_map, Function.comp_def, Record.placeless, Extraction.finish_move]
        rw [move, move, alike]
      simp only [Extraction.ofScript]
      apply finished
      split
      · exact placeless_records related.statements
      · exact congrArg (fun r => [r]) (placeless_scriptRecord related.statements)

end

theorem layout_does_not_matter_to_insert :
    (scan "INSERT INTO a SELECT * FROM b; VACUUM").tokens.map Token.toLexeme =
        (scan "INSERT /* all */ INTO a\n SELECT*FROM b--\n;VACUUM ").tokens.map Token.toLexeme ∧
      (Extraction.ofText ⟨true, "", false, []⟩ "INSERT INTO a SELECT * FROM b; VACUUM").isOk ∧
      Agree (fun t t' => t.bare = t'.bare) (parse "INSERT INTO a SELECT * FROM b; VACUUM")
        (parse "INSERT /* all */ INTO a\n SELECT*FROM b--\n;VACUUM ") ∧
      Agree (fun e e' => e.records.map Record.placeless = e'.records.map Record.placeless ∧
          e.diagnostics.map Diagnostic.placeless = e'.diagnostics.map Diagnostic.placeless)
        (Extraction.ofText ⟨true, "", false, []⟩ "INSERT INTO a SELECT * FROM b; VACUUM")
        (Extraction.ofText ⟨true, "", false, []⟩ "INSERT /* all */ INTO a\n SELECT*FROM b--\n;VACUUM ") := by
  have facts : (scan "INSERT INTO a SELECT * FROM b; VACUUM").tokens.map Token.toLexeme =
        (scan "INSERT /* all */ INTO a\n SELECT*FROM b--\n;VACUUM ").tokens.map Token.toLexeme ∧
      (scan "INSERT INTO a SELECT * FROM b; VACUUM").errors = [] ∧
      (scan "INSERT /* all */ INTO a\n SELECT*FROM b--\n;VACUUM ").errors = [] ∧
      (Extraction.ofText ⟨true, "", false, []⟩ "INSERT INTO a SELECT * FROM b; VACUUM").isOk := by decide +kernel
  obtain ⟨tokens, clean, clean', extracted⟩ := facts
  obtain ⟨trees, records⟩ := layout_does_not_matter clean clean' tokens
  exact ⟨tokens, extracted, trees, records _⟩

end TableLineage
