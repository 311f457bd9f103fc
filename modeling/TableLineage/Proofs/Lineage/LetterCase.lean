import TableLineage.Lineage.Extraction
import TableLineage.Proofs.Lineage.Seen
import TableLineage.Proofs.Token.Recased

/-! The case of letters in unquoted names does not matter where names are made lower case: what the
grammar, the names and the warnings ask of a token is asked of it in small letters. -/
namespace TableLineage

open List

namespace Grammar

theorem Class.holds_small (c : Class) (l : Lexeme) : c.holds l.small = c.holds l := by
  have same := Text.sameLetters_small l.literal
  cases c with
  | word w =>
    rw [Class.holds, Class.holds, Lexeme.isWord, Lexeme.isWord, ← Text.spells_eq same w]
    rfl
  | amongWords ws =>
    rw [Class.holds, Class.holds, ← Text.lowerWord_eq same]
    rfl
  | _ => rfl

namespace View

/-- Tokens in small letters, quoted names as they are. -/
def small : View := ⟨Token.small, rfl, fun c t => c.holds_small t.toLexeme⟩

theorem keepsNames_small (blind : Bool) : small.KeepsNames ⟨true, blind⟩ := by
  intro t
  have lower := Text.lower_eq (Text.sameLetters_small t.raw)
  cases quoted : t.quoted with
  | true => simp [ReadMode.name, small, Token.small, Lexeme.small, quoted]
  | false => simp [ReadMode.name, small, Token.small, Lexeme.small, quoted, lower]

theorem keepsWords_small : small.KeepsWords := by
  intro t
  have upper := Text.upperWord_eq (Text.sameLetters_small t.raw)
  cases quoted : t.quoted with
  | true => simp [small, Token.small, Lexeme.small, quoted]
  | false => simp [small, Token.small, Lexeme.small, quoted, upper]

theorem places_small (tokens tokens' : List Token) : small.Places tokens tokens' Eq := by
  intro t _ u _ t' _ u' _ first last
  have start := congrArg Token.span first
  have stop := congrArg Token.span last
  change t.span = t'.span at start
  change u.span = u'.span at stop
  rw [start, stop]

end View
end Grammar

/-! ### Scripts with the same lineage at the same places -/

theorem Statement.SameFlow.record_eq {s s' : Statement} (same : s.SameFlow Eq s') : s.record = s'.record := by
  rw [record, record, same.flow, same.place]

theorem Script.Same.diagnostics_eq {r r' : Script} (same : Script.Same Eq r r') : r.diagnostics = r'.diagnostics := by
  refine forall₂_eq_eq_eq ▸ same.diagnostics.imp fun d d' word => ?_
  obtain ⟨severity, message, place⟩ := word
  cases d
  cases d'
  simp_all

section

variable {statements statements' : List Statement}
  (same : List.Forall₂ (Statement.SameFlow Eq) statements statements')

include same

theorem map_eq_of_sameFlow {α : Type} {f : Statement → α} (reads : ∀ s s', s.SameFlow Eq s' → f s = f s') :
    statements.map f = statements'.map f := by
  induction same with
  | nil => rfl
  | cons one _ ih => rw [map_cons, map_cons, reads _ _ one, ih]

theorem map_record_eq : statements.map Statement.record = statements'.map Statement.record :=
  map_eq_of_sameFlow same fun _ _ one => one.record_eq

theorem scriptRecord_eq : scriptRecord statements = scriptRecord statements' := by
  have ranges := map_eq_of_sameFlow same (f := fun s => TextRange.ofSpan? s.span) fun _ _ one => by rw [one.place]
  have count := same.length_eq
  rw [scriptRecord, scriptRecord, map_record_eq same, ranges]
  simp only [isEmpty_iff_length_eq_zero, count]

end

theorem exists_eq_ok {ε α : Type} {x : Except ε α} (ok : x.isOk) : ∃ a, x = .ok a := by
  cases x with
  | error => cases ok
  | ok a => exact ⟨a, rfl⟩

/-- With names in lower case, a text that is spelled in another case has the same records at the
same places, and the same warnings. -/
theorem letter_case_does_not_matter {o : ExtractOptions} {s s' : String} {e : Extraction}
    (normal : o.normalize = true) (recased : Recased s s') (ok : Extraction.ofText o s = .ok e) :
    ∃ e', Extraction.ofText o s' = .ok e' ∧ e'.records = e.records ∧ e'.diagnostics = e.diagnostics := by
  unfold Extraction.ofText at ok ⊢
  rw [normal] at ok ⊢
  cases patterns : readPatterns o.exclude with
  | error => simp [patterns] at ok
  | ok globs =>
    cases read : Script.ofText true s with
    | error => simp [patterns, read] at ok
    | ok r =>
      simp only [patterns, read, Except.ok.injEq] at ok
      subst ok
      have clean : (scan s).errors = [] := by
        cases parsed : parse s with
        | error => simp [Script.ofText, parsed] at read
        | ok t => exact (parse_eq_ok_iff.1 parsed).1
      obtain ⟨clean', tokens⟩ := scan_recased recased clean
      have agree := Script.ofText_look Grammar.View.keepsWords_small (Grammar.View.keepsNames_small false)
        (Grammar.View.places_small _ _) clean clean' tokens
      obtain ⟨r', read', same⟩ := agree.exists_ok read
      rw [read']
      refine ⟨_, rfl, ?_, same.diagnostics_eq.symm⟩
      simp only [Extraction.ofScript, map_record_eq same.statements, scriptRecord_eq same.statements]

theorem letter_case_does_not_matter_to_cte :
    Recased "with C as (select 'A') select * from c, \"C\"; vacuum"
        "WITH c AS (SELECT 'A') SELECT * FROM C, \"C\"; Vacuum" ∧
      ∃ e e', Extraction.ofText ⟨true, "", true, []⟩ "with C as (select 'A') select * from c, \"C\"; vacuum" =
          .ok e ∧
        Extraction.ofText ⟨true, "", true, []⟩ "WITH c AS (SELECT 'A') SELECT * FROM C, \"C\"; Vacuum" = .ok e' ∧
        e'.records = e.records ∧ e'.diagnostics = e.diagnostics := by
  have recased : Recased "with C as (select 'A') select * from c, \"C\"; vacuum"
      "WITH c AS (SELECT 'A') SELECT * FROM C, \"C\"; Vacuum" := ⟨by decide +kernel, by decide +kernel⟩
  have reads : (Extraction.ofText ⟨true, "", true, []⟩
      "with C as (select 'A') select * from c, \"C\"; vacuum").isOk := by decide +kernel
  obtain ⟨e, ok⟩ := exists_eq_ok reads
  obtain ⟨e', ok', same⟩ := letter_case_does_not_matter rfl recased ok
  exact ⟨recased, e, e', ok, ok', same⟩

end TableLineage
