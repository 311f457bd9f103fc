import Mathlib
import TableLineage.Proofs.Store.Order
import TableLineage.QueryLog.Queries

/-! The log of a cluster has the text of a query in pieces, one row for each, in the order of their starts, ids and
numbers. Put together, they are the queries again, however their texts were cut. -/
namespace TableLineage

open List
open Store.Tables (mergeSort_eq pairwise_mergeSort)

/-- A query as the log has it: its text in numbered pieces. -/
structure CutQuery where
  id : Int
  start : Instant
  pieces : List (Int × String)
  some : pieces ≠ []
  numbered : pieces.Pairwise fun a b => a.1 < b.1

namespace CutQuery

def text (q : CutQuery) : String := String.join (q.pieces.map Prod.snd)

def row (q : CutQuery) (piece : Int × String) : LogRow := ⟨q.id, q.start, piece.1, piece.2⟩

def rows (q : CutQuery) : List LogRow := q.pieces.map q.row

/-- The query in one piece, the blanks at its end left out. -/
def whole (q : CutQuery) : LoggedQuery :=
  ⟨q.id, q.start, String.ofList (q.text.toList.rdropWhile fun c => c ∈ [' ', '\t', '\r', '\n'])⟩

/-- Queries are listed by their starts, then by their ids. -/
def rank (q : CutQuery) : ℤ ×ₗ ℤ := toLex (q.start.nanos, q.id)

def listed (qs : List CutQuery) : List CutQuery := qs.mergeSort fun p q => p.rank ≤ q.rank

end CutQuery

/-- Rows come in the order of their queries, then of their pieces. -/
def LogRow.rank (r : LogRow) : (ℤ ×ₗ ℤ) ×ₗ ℤ := toLex (toLex (r.start.nanos, r.id), r.sequence)

def LogRow.cells (r : LogRow) : LogCells := ⟨.number r.id, r.start, r.sequence, r.text⟩

/-- What a cluster replies that has run the queries. -/
def CutQuery.reply (qs : List CutQuery) : LogReply :=
  .rows (((qs.flatMap rows).mergeSort fun r s => r.rank ≤ s.rank).map LogRow.cells) none

/-! ### Rows in order -/

variable {qs : List CutQuery} {r : LogRow}

namespace CutQuery

theorem mem_rows {q : CutQuery} : r ∈ q.rows ↔ ∃ piece ∈ q.pieces, q.row piece = r := mem_map

theorem rank_row (q : CutQuery) (piece : Int × String) : (q.row piece).rank = toLex (q.rank, piece.1) := rfl

theorem pairwise_rows (q : CutQuery) : q.rows.Pairwise fun r s => r.rank ≤ s.rank := by
  refine pairwise_map.2 (q.numbered.imp fun less => ?_)
  rw [rank_row, rank_row, Prod.Lex.toLex_le_toLex]
  exact .inr ⟨rfl, le_of_lt less⟩

variable (distinct : (qs.map id).Nodup)

include distinct

theorem eq_of_rank {p q : CutQuery} (first : p ∈ qs) (second : q ∈ qs) (same : p.rank = q.rank) : p = q :=
  inj_on_of_nodup_map distinct first second (Prod.ext_iff.1 (toLex.injective same)).2

theorem row_eq_of_rank {s : LogRow} (first : r ∈ qs.flatMap rows) (second : s ∈ qs.flatMap rows)
    (same : r.rank = s.rank) : r = s := by
  obtain ⟨p, among, inside⟩ := mem_flatMap.1 first
  obtain ⟨q, among', inside'⟩ := mem_flatMap.1 second
  obtain ⟨a, piece, rfl⟩ := mem_rows.1 inside
  obtain ⟨b, piece', rfl⟩ := mem_rows.1 inside'
  obtain ⟨ranks, numbers⟩ := Prod.ext_iff.1 (toLex.injective same)
  obtain rfl := eq_of_rank distinct among among' ranks
  have once : (p.pieces.map Prod.fst).Nodup := pairwise_map.2 (p.numbered.imp ne_of_lt)
  rw [inj_on_of_nodup_map once piece piece' numbers]

/-- The rows in order are those of the first query, then those of the second and so on. -/
theorem mergeSort_rows : (qs.flatMap rows).mergeSort (fun r s => r.rank ≤ s.rank) = (listed qs).flatMap rows := by
  have perm : (listed qs).Perm qs := mergeSort_perm ..
  have sorted : (listed qs).Pairwise fun p q => p.rank ≤ q.rank := pairwise_mergeSort (fun _ _ => decide_eq_true_iff) qs
  have apart : (listed qs).Pairwise fun p q => ∀ r ∈ p.rows, ∀ s ∈ q.rows, r.rank ≤ s.rank := by
    have both := sorted.and (pairwise_map.1 ((perm.map id).nodup_iff.2 distinct))
    refine both.imp fun ⟨le, other⟩ r inside s inside' => ?_
    obtain ⟨a, -, rfl⟩ := mem_rows.1 inside
    obtain ⟨b, -, rfl⟩ := mem_rows.1 inside'
    have less := lt_of_le_of_ne le fun same => other (Prod.ext_iff.1 (toLex.injective same)).2
    exact Prod.Lex.toLex_le_toLex.2 (.inl less)
  refine mergeSort_eq (fun _ _ => decide_eq_true_iff) (fun r first s second => row_eq_of_rank distinct first second) ?_
    (perm.flatMap_right rows)
  exact pairwise_flatMap.2 ⟨fun q _ => q.pairwise_rows, apart⟩

end CutQuery

/-! ### Joining -/

theorem mapM_row_cells (rows : List LogRow) : (rows.map LogRow.cells).mapM LogCells.row = .ok rows := by
  induction rows with
  | nil => rfl
  | cons r rows ih => simp [mapM_cons, ih, LogRow.cells, LogCells.row, LogId.value, pure, Except.pure, bind, Except.bind]

namespace LoggedQuery

/-- Pieces of one query are joined, those of the next are not. -/
theorem join_append {rs others : List LogRow} (same : ∀ s ∈ rs, s.id = r.id)
    (other : ∀ q ∈ (join others).head?, q.id ≠ r.id) :
    join (r :: (rs ++ others)) = ⟨r.id, r.start, r.text ++ String.join (rs.map (·.text))⟩ :: join others := by
  induction rs generalizing r with
  | nil =>
    rw [nil_append, join]
    cases next : join others with
    | nil => simp
    | cons q qs => simp [other q (by simp [next])]
  | cons s rs ih =>
    have next := same s mem_cons_self
    have inner := ih (r := s) (fun u member => (same u (mem_cons_of_mem s member)).trans next.symm)
      (by rwa [next])
    rw [cons_append, join, inner]
    simp [next]

theorem join_rows (q : CutQuery) {others : List LogRow} (other : ∀ p ∈ (join others).head?, p.id ≠ q.id) :
    join (q.rows ++ others) = ⟨q.id, q.start, q.text⟩ :: join others := by
  obtain ⟨piece, more, pieces⟩ := exists_cons_of_ne_nil q.some
  have same : ∀ s ∈ more.map q.row, s.id = q.id := by
    rintro _ member
    obtain ⟨_, _, rfl⟩ := mem_map.1 member
    rfl
  have joined : join (q.row piece :: (more.map q.row ++ others)) = _ := join_append same other
  simpa [CutQuery.rows, CutQuery.text, CutQuery.row, pieces, Function.comp_def] using joined

theorem join_flatMap (distinct : (qs.map CutQuery.id).Nodup) :
    join (qs.flatMap CutQuery.rows) = qs.map fun q => ⟨q.id, q.start, q.text⟩ := by
  induction qs with
  | nil => rfl
  | cons q qs ih =>
    obtain ⟨fresh, rest⟩ := nodup_cons.1 distinct
    rw [flatMap_cons, join_rows q, ih rest, map_cons]
    rw [ih rest, head?_map]
    rintro _ found same
    obtain ⟨p, head, rfl⟩ := Option.map_eq_some_iff.1 found
    exact fresh (same ▸ mem_map_of_mem (mem_of_head? head))

theorem trim_eq (q : CutQuery) : trim ⟨q.id, q.start, q.text⟩ = q.whole := by
  have filler : isFiller = fun c => decide (c ∈ [' ', '\t', '\r', '\n']) := by
    funext c
    simp [isFiller, Bool.or_assoc]
  simp [trim, CutQuery.whole, Text.dropTailWhile, List.rdropWhile, filler]

end LoggedQuery

namespace CutQuery

theorem queries_reply (distinct : (qs.map id).Nodup) : (reply qs).queries = .ok ((listed qs).map whole) := by
  have perm : (listed qs).Perm qs := mergeSort_perm ..
  have joined := LoggedQuery.join_flatMap ((perm.map id).nodup_iff.2 distinct)
  simp only [reply, LogReply.queries, mapM_row_cells, mergeSort_rows distinct, LoggedQuery.ofRows, joined, map_map]
  exact congrArg _ (map_congr_left fun q _ => LoggedQuery.trim_eq q)

/-- The query, its text in one piece. -/
def uncut (q : CutQuery) : Int × Instant × String := (q.id, q.start, q.text)

theorem map_whole_listed {ps : List CutQuery} (same : ps.map uncut = qs.map uncut) :
    (listed ps).map whole = (listed qs).map whole := by
  let rank (u : Int × Instant × String) : ℤ ×ₗ ℤ := toLex (u.2.1.nanos, u.1)
  have uncuts (qs : List CutQuery) : (listed qs).map uncut = (qs.map uncut).mergeSort fun u v => rank u ≤ rank v :=
    map_mergeSort fun p _ q _ => rfl
  let trimmed (u : Int × Instant × String) : LoggedQuery := LoggedQuery.trim ⟨u.1, u.2.1, u.2.2⟩
  have wholes (qs : List CutQuery) : (listed qs).map whole = ((listed qs).map uncut).map trimmed := by
    rw [map_map]
    exact map_congr_left fun q _ => (LoggedQuery.trim_eq q).symm
  rw [wholes, wholes, uncuts, uncuts, same]

/-- The reply to a question about the log gives each query once, in order, with all its text. How the texts were
cut does not show. -/
theorem reply_puts_together {qs : List CutQuery} (distinct : (qs.map id).Nodup) :
    (reply qs).queries = .ok ((listed qs).map whole) ∧
      ∀ ps : List CutQuery, ps.map uncut = qs.map uncut → (reply ps).queries = (reply qs).queries := by
  refine ⟨queries_reply distinct, fun ps same => ?_⟩
  have ids : ps.map id = qs.map id := by
    simpa [uncut, Function.comp_def] using congrArg (List.map Prod.fst) same
  rw [queries_reply distinct, queries_reply (ids ▸ distinct), map_whole_listed same]

/-- Two queries, one of them in two pieces. -/
theorem reply_puts_together_two :
    let first : CutQuery := ⟨9, ⟨5⟩, [(0, "SELECT 1\n  ")], by simp, by simp⟩
    let second : CutQuery := ⟨4, ⟨7⟩, [(0, "SELECT "), (1, "a FROM t ")], by simp, by simp⟩
    (reply [first, second]).queries = .ok [⟨9, ⟨5⟩, "SELECT 1"⟩, ⟨4, ⟨7⟩, "SELECT a FROM t"⟩] := by
  refine (reply_puts_together (by decide)).1.trans ?_
  rw [listed, List.mergeSort_of_pairwise (by decide)]
  decide

end CutQuery
end TableLineage
