import Mathlib.Data.List.ReduceOption
import Mathlib.Data.Prod.Lex
import Mathlib.Order.Bounds.Basic
import TableLineage.Lineage.Extraction
import TableLineage.Proofs.KeyMap

/-! One record for a whole text against one record for each of its statements. Merging
is associative and commutative, leaving tables out commutes with it, and the range of the whole
runs from the earliest start to the latest stop, so neither the order of the statements nor the
time at which tables are left out matters. -/
namespace TableLineage

open List

/-! ### Ranges -/

namespace TextPoint

def key (p : TextPoint) : ℤ ×ₗ ℤ := toLex (p.line, p.column)

theorem key_injective : Function.Injective key := by
  rintro ⟨line, column⟩ ⟨line', column'⟩ same
  obtain ⟨lines, columns⟩ := Prod.mk.inj (toLex.injective same)
  exact TextPoint.mk.injEq .. ▸ ⟨lines, columns⟩

instance : LinearOrder TextPoint := LinearOrder.lift' key key_injective

theorem lt_iff {p q : TextPoint} : p < q ↔ p.line < q.line ∨ p.line = q.line ∧ p.column < q.column :=
  Prod.Lex.toLex_lt_toLex

theorem compare_eq_lt {p q : TextPoint} : p.compare q = .lt ↔ p < q := by
  rw [lt_iff, compare]
  split_ifs <;> simp <;> omega

theorem compare_eq_gt {p q : TextPoint} : p.compare q = .gt ↔ q < p := by
  rw [lt_iff, compare]
  split_ifs <;> simp <;> omega

end TextPoint

namespace TextRange

theorem cover_eq (a b : TextRange) : a.cover b = ⟨min a.start b.start, max a.stop b.stop⟩ := by
  simp only [cover, TextPoint.compare_eq_lt, TextPoint.compare_eq_gt]
  rw [min_comm, min_def_lt, max_def_lt]

theorem cover?_right_comm (a b c : Option TextRange) : cover? (cover? a b) c = cover? (cover? a c) b := by
  cases a <;> cases b <;> cases c <;>
    simp [cover?, cover_eq, min_comm, max_comm, min_left_comm, max_left_comm]

/-- The range runs from the earliest start to the latest stop of the given ones; without any,
there is none. -/
def Encloses (given : List TextRange) : Option TextRange → Prop
  | none => given = []
  | some r => IsLeast {p | ∃ s ∈ given, s.start = p} r.start ∧ IsGreatest {p | ∃ s ∈ given, s.stop = p} r.stop

theorem encloses_single (r : TextRange) : Encloses [r] (some r) := by
  simp [Encloses]

theorem Encloses.cover {given : List TextRange} {r : TextRange} (encloses : Encloses given (some r)) (s : TextRange) :
    Encloses (given ++ [s]) (some (r.cover s)) := by
  obtain ⟨earliest, latest⟩ := encloses
  have starts : {p | ∃ t ∈ given ++ [s], t.start = p} = insert s.start {p | ∃ t ∈ given, t.start = p} := by
    ext p
    simp [or_comm, eq_comm]
  have stops : {p | ∃ t ∈ given ++ [s], t.stop = p} = insert s.stop {p | ∃ t ∈ given, t.stop = p} := by
    ext p
    simp [or_comm, eq_comm]
  rw [Encloses, cover_eq, starts, stops, min_comm, max_comm]
  exact ⟨earliest.insert s.start, latest.insert s.stop⟩

theorem Encloses.step {given : List TextRange} {r : Option TextRange} (encloses : Encloses given r)
    (s : Option TextRange) : Encloses (given ++ s.toList) (cover? r s) := by
  cases s with
  | none =>
    rw [Option.toList_none, append_nil]
    cases r <;> exact encloses
  | some s =>
    cases r with
    | none =>
      rw [show given = [] from encloses]
      exact encloses_single s
    | some r => exact encloses.cover s

theorem Encloses.foldl {given : List TextRange} {r : Option TextRange} (encloses : Encloses given r)
    (rs : List (Option TextRange)) : Encloses (given ++ rs.reduceOption) (rs.foldl cover? r) := by
  induction rs generalizing given r with
  | nil => simpa [List.reduceOption] using encloses
  | cons s rs ih =>
    have further := ih (encloses.step s)
    cases s <;> simpa [List.reduceOption] using further

end TextRange

/-! ### Merging -/

theorem Names.union_right_comm (a b c : Names) : (a.union b).union c = (a.union c).union b := by
  refine KeyMap.ext_get? fun n => ?_
  simp only [union, KeyMap.get?_mergeWith]
  cases KeyMap.get? a n <;> cases KeyMap.get? b n <;> cases KeyMap.get? c n <;> rfl

theorem Names.union_comm (a b : Names) : a.union b = b.union a := by
  refine KeyMap.ext_get? fun n => ?_
  simp only [union, KeyMap.get?_mergeWith]
  cases KeyMap.get? a n <;> cases KeyMap.get? b n <;> rfl

theorem Names.exclude_union (patterns : List Glob) (a b : Names) :
    (a.union b).exclude patterns = (a.exclude patterns).union (b.exclude patterns) := by
  refine KeyMap.ext_get? fun n => ?_
  simp only [exclude, union, KeyMap.get?_mergeWith, KeyMap.get?_filter]
  split <;> rfl

theorem Names.exclude_nil (ns : Names) : ns.exclude [] = ns := by
  refine KeyMap.ext_get? fun n => ?_
  simp [exclude, excludes, KeyMap.get?_filter]

namespace Record

theorem mergeSinks_right_comm (a b c : KeyMap Names) :
    mergeSinks (mergeSinks a b) c = mergeSinks (mergeSinks a c) b := by
  refine KeyMap.ext_get? fun n => ?_
  simp only [mergeSinks, KeyMap.get?_mergeWith]
  cases a.get? n with
  | none => cases b.get? n <;> cases c.get? n <;> simp [Names.union_comm]
  | some ns => cases b.get? n <;> cases c.get? n <;> simp [Names.union_right_comm ns]

theorem merge_right_comm (a b c : Record) : (a.merge b).merge c = (a.merge c).merge b := by
  simp only [merge, mergeSinks_right_comm a.sinks b.sinks, Names.union_right_comm a.sources b.sources]

theorem exclude_merge (patterns : List Glob) (a b : Record) :
    (a.merge b).exclude patterns = (a.exclude patterns).merge (b.exclude patterns) := by
  have sinks (n : String) : ((a.merge b).exclude patterns).sinks.get? n =
      ((a.exclude patterns).merge (b.exclude patterns)).sinks.get? n := by
    simp only [exclude, merge, mergeSinks, KeyMap.get?_map, KeyMap.get?_mergeWith, KeyMap.get?_filter]
    split
    · cases a.sinks.get? n <;> cases b.sinks.get? n <;> simp [Names.exclude_union]
    · rfl
  rw [exclude, merge, mk.injEq]
  exact ⟨KeyMap.ext_get? sinks, Names.exclude_union patterns _ _, rfl⟩

theorem exclude_nil (r : Record) : r.exclude [] = r := by
  have sinks (n : String) : (r.exclude []).sinks.get? n = r.sinks.get? n := by
    simp only [exclude, KeyMap.get?_map, KeyMap.get?_filter]
    cases r.sinks.get? n <;> simp [excludes, Names.exclude_nil]
  obtain ⟨_, sources, context⟩ := r
  rw [exclude, mk.injEq]
  exact ⟨KeyMap.ext_get? sinks, Names.exclude_nil sources, rfl⟩

end Record

theorem exclude_merged (patterns : List Glob) (records : List Record) :
    (merged records).exclude patterns = merged (records.map (Record.exclude patterns)) := by
  have go (r : Record) : (records.foldl Record.merge r).exclude patterns =
      (records.map (Record.exclude patterns)).foldl Record.merge (r.exclude patterns) := by
    induction records generalizing r with
    | nil => rfl
    | cons head rest ih => rw [foldl_cons, ih, Record.exclude_merge, map_cons, foldl_cons]
  exact go .empty

theorem merged_perm {records records' : List Record} (perm : records.Perm records') :
    merged records = merged records' :=
  perm.foldl_eq' (fun a _ b _ r => Record.merge_right_comm r a b) .empty

namespace Extraction

theorem finish_content (patterns : List Glob) (name : String) (r : Record) :
    (finish patterns name r).sinks = (r.exclude patterns).sinks ∧
      (finish patterns name r).sources = (r.exclude patterns).sources := by
  cases patterns with
  | nil =>
    rw [Record.exclude_nil, finish]
    split <;> exact ⟨rfl, rfl⟩
  | cons =>
    rw [finish]
    split <;> exact ⟨rfl, rfl⟩

@[simp] theorem range?_finish (patterns : List Glob) (name : String) (r : Record) :
    (finish patterns name r).range? = r.range? := by
  rw [finish]
  split <;> split <;> rfl

theorem merge_finish (patterns : List Glob) (name : String) (a r : Record) :
    a.merge (finish patterns name r) = a.merge (r.exclude patterns) := by
  obtain ⟨sinks, sources⟩ := finish_content patterns name r
  simp only [Record.merge, sinks, sources]

theorem merged_finish (patterns : List Glob) (name : String) (records : List Record) :
    merged (records.map (finish patterns name)) = (merged records).exclude patterns := by
  rw [exclude_merged, merged, merged, foldl_map, foldl_map]
  simp only [merge_finish]

end Extraction

/-! ### Statements and scripts -/

namespace Statement

theorem context_flow (s : Statement) : s.flow.context = none := by
  cases s with
  | select q =>
    cases q
    rfl
  | _ => rfl

theorem range?_record (s : Statement) : s.record.range? = TextRange.ofSpan? s.span := by
  rw [record]
  cases TextRange.ofSpan? s.span with
  | some r => rfl
  | none => rw [Record.range?, s.context_flow]; rfl

end Statement

section scripts

variable (statements : List Statement)

theorem scriptRecord_content :
    (scriptRecord statements).sinks = (merged (statements.map Statement.record)).sinks ∧
      (scriptRecord statements).sources = (merged (statements.map Statement.record)).sources := by
  rw [scriptRecord]
  cases statements <;> exact ⟨rfl, rfl⟩

theorem range?_scriptRecord : (scriptRecord statements).range? =
    (statements.map fun s => TextRange.ofSpan? s.span).foldl TextRange.cover? none := by
  rw [scriptRecord]
  cases statements <;> rfl

theorem sourceName_scriptRecord : (scriptRecord statements).context.bind (·.sourceName) = none := by
  rw [scriptRecord]
  cases statements <;> rfl

theorem encloses_scriptRecord :
    TextRange.Encloses ((statements.map Statement.record).filterMap Record.range?) (scriptRecord statements).range? := by
  have ranges : (statements.map Statement.record).filterMap Record.range? =
      (statements.map fun s => TextRange.ofSpan? s.span).reduceOption := by
    simp only [List.reduceOption, filterMap_map]
    exact filterMap_congr fun s _ => s.range?_record
  have none : TextRange.Encloses [] none := rfl
  rw [ranges, range?_scriptRecord]
  exact none.foldl _

end scripts

theorem scriptRecord_perm {statements permuted : List Statement} (perm : statements.Perm permuted) :
    (scriptRecord statements).sinks = (scriptRecord permuted).sinks ∧
      (scriptRecord statements).sources = (scriptRecord permuted).sources ∧
      (scriptRecord statements).range? = (scriptRecord permuted).range? := by
  obtain ⟨sinks, sources⟩ := scriptRecord_content statements
  obtain ⟨sinks', sources'⟩ := scriptRecord_content permuted
  have records := merged_perm (perm.map Statement.record)
  refine ⟨?_, ?_, ?_⟩
  · rw [sinks, sinks', records]
  · rw [sources, sources', records]
  · rw [range?_scriptRecord, range?_scriptRecord]
    exact (perm.map _).foldl_eq' (fun a _ b _ r => TextRange.cover?_right_comm r a b) none

namespace Extraction

theorem sourceName_finish (patterns : List Glob) (name : String) {r : Record}
    (unnamed : r.context.bind (·.sourceName) = none) :
    (finish patterns name r).context.bind (·.sourceName) = if name.isEmpty then none else some name := by
  rw [finish]
  by_cases empty : name.isEmpty
  · rw [if_pos empty, if_pos empty]
    split <;> exact unnamed
  · rw [if_neg empty, if_neg empty]
    rfl

theorem ofText_cases {o : ExtractOptions} {text : String} {e : Extraction} (extracted : ofText o text = .ok e) :
    ∃ patterns script, readPatterns o.exclude = .ok patterns ∧ Script.ofText o.normalize text = .ok script ∧
      e = ofScript o.split patterns o.sourceName script := by
  rw [ofText] at extracted
  split at extracted
  · cases extracted
  · rename_i patterns read
    split at extracted
    · cases extracted
    · rename_i script found
      exact ⟨patterns, script, read, found, (Except.ok.inj extracted).symm⟩

theorem ofText_of_ok {o : ExtractOptions} {text : String} {patterns : List Glob} {script : Script}
    (read : readPatterns o.exclude = .ok patterns) (found : Script.ofText o.normalize text = .ok script) :
    ofText o text = .ok (ofScript o.split patterns o.sourceName script) := by
  simp only [ofText, read, found]

/-- If a text gives records at all, it gives one record for the whole as well as one for each
statement. The one for the whole is the others merged, whatever is left out, with the range
that they cover, and the diagnostics are the same. The order of the statements does not matter
to it. -/
theorem whole_merges_statements :
    (∀ (o : ExtractOptions) (text : String) (e : Extraction), ofText o text = .ok e →
      ∃ parts whole record, ofText { o with split := true } text = .ok parts ∧
        ofText { o with split := false } text = .ok whole ∧ whole.records = [record] ∧
        record.sinks = (merged parts.records).sinks ∧ record.sources = (merged parts.records).sources ∧
        whole.diagnostics = parts.diagnostics ∧
        record.context.bind (·.sourceName) = (if o.sourceName.isEmpty then none else some o.sourceName) ∧
        TextRange.Encloses (parts.records.filterMap Record.range?) record.range?) ∧
    ∀ statements permuted : List Statement, statements.Perm permuted →
      (scriptRecord statements).sinks = (scriptRecord permuted).sinks ∧
        (scriptRecord statements).sources = (scriptRecord permuted).sources ∧
        (scriptRecord statements).range? = (scriptRecord permuted).range? := by
  refine ⟨?_, fun statements permuted => scriptRecord_perm⟩
  intro o text e extracted
  obtain ⟨patterns, script, read, found, -⟩ := ofText_cases extracted
  have parts := ofText_of_ok (o := { o with split := true }) read found
  have whole := ofText_of_ok (o := { o with split := false }) read found
  obtain ⟨sinks, sources⟩ := finish_content patterns o.sourceName (scriptRecord script.statements)
  obtain ⟨sinks', sources'⟩ := scriptRecord_content script.statements
  refine ⟨_, _, finish patterns o.sourceName (scriptRecord script.statements), parts, whole, rfl, ?_, ?_, rfl, ?_, ?_⟩
  · rw [sinks, ofScript, if_pos rfl, merged_finish]
    simp only [Record.exclude, sinks']
  · rw [sources, ofScript, if_pos rfl, merged_finish]
    simp only [Record.exclude, sources']
  · exact sourceName_finish patterns o.sourceName (sourceName_scriptRecord script.statements)
  · rw [range?_finish, ofScript, if_pos rfl, List.filterMap_map]
    have ranges : Record.range? ∘ finish patterns o.sourceName = Record.range? := funext fun r => range?_finish ..
    rw [ranges]
    exact encloses_scriptRecord script.statements

theorem whole_merges_insert_and_select :
    ∃ parts whole record,
      ofText ⟨true, "load.sql", true, ["tmp*"]⟩ "INSERT INTO a SELECT * FROM b, tmp1; SELECT c FROM d" = .ok parts ∧
      ofText ⟨false, "load.sql", true, ["tmp*"]⟩ "INSERT INTO a SELECT * FROM b, tmp1; SELECT c FROM d" = .ok whole ∧
      parts.records.length = 2 ∧ whole.records = [record] ∧
      record.sinks = (merged parts.records).sinks ∧ record.sources = (merged parts.records).sources ∧
      record.context.bind (·.sourceName) = some "load.sql" ∧
      TextRange.Encloses (parts.records.filterMap Record.range?) record.range? ∧
      (scriptRecord parts.statements).sinks = (scriptRecord parts.statements.reverse).sinks := by
  generalize same : ofText ⟨true, "load.sql", true, ["tmp*"]⟩
    "INSERT INTO a SELECT * FROM b, tmp1; SELECT c FROM d" = extracted
  have count : (extracted.toOption.map fun e => e.records.length) = some 2 := by
    rw [← same]
    decide +kernel
  cases extracted with
  | error => cases count
  | ok e =>
    obtain ⟨parts, whole, record, split, joined, only, sinks, sources, -, named, range⟩ :=
      whole_merges_statements.1 _ _ e same
    dsimp only at split joined named
    cases Except.ok.inj (split.symm.trans same)
    refine ⟨e, whole, record, rfl, joined, Option.some.inj count, only, sinks, sources, named.trans ?_, range, ?_⟩
    · exact if_neg (by decide)
    exact (whole_merges_statements.2 _ _ (List.reverse_perm e.statements).symm).1

end Extraction
end TableLineage
