import Mathlib.Data.List.Infix
import TableLineage.Proofs.Instant
import TableLineage.Proofs.Store.Histories

/-! A later run of a source supersedes the earlier ones. If the clock goes forward from save to
save, the latest records are those of the runs that are not superseded, whatever was saved and
deleted before. -/
namespace TableLineage.Store

open List

/-- The runs that no later run of the same source supersedes, the last saved first. -/
def current : List SavedRun → List SavedRun
  | [] => []
  | s :: later => current later ++ if later.any fun r => r.sourceName == s.sourceName then [] else [s]

theorem current_sublist (saved : List SavedRun) : (current saved).Sublist saved.reverse := by
  induction saved with
  | nil => exact .slnil
  | cons s later ih =>
    rw [current, reverse_cons]
    refine ih.append ?_
    split
    · exact nil_sublist _
    · exact .refl _

variable {later saved : List SavedRun} {s : SavedRun}

theorem mem_current : s ∈ current saved ↔
    ∃ before later, saved = before ++ s :: later ∧ ∀ r ∈ later, r.sourceName ≠ s.sourceName := by
  induction saved with
  | nil => simp [current]
  | cons first rest ih =>
    have here : s ∈ (if rest.any fun r => r.sourceName == first.sourceName then [] else [first]) ↔
        s = first ∧ ∀ r ∈ rest, r.sourceName ≠ s.sourceName := by
      by_cases superseded : rest.any fun r => r.sourceName == first.sourceName
      · rw [if_pos superseded]
        obtain ⟨r, member, same⟩ := any_eq_true.1 superseded
        refine ⟨fun none => absurd none not_mem_nil, ?_⟩
        rintro ⟨rfl, alone⟩
        exact absurd (beq_iff_eq.1 same) (alone r member)
      · rw [if_neg superseded, mem_singleton]
        refine ⟨?_, And.left⟩
        rintro rfl
        refine ⟨rfl, fun r member same => superseded ?_⟩
        exact any_eq_true.2 ⟨r, member, beq_iff_eq.2 same⟩
    rw [current, mem_append, ih, here]
    constructor
    · rintro (⟨before, later, rfl, alone⟩ | ⟨rfl, alone⟩)
      · exact ⟨first :: before, later, rfl, alone⟩
      · exact ⟨[], rest, rfl, alone⟩
    · rintro ⟨before, later, same, alone⟩
      cases before with
      | nil =>
        obtain ⟨rfl, rfl⟩ := List.cons.inj same
        exact .inr ⟨rfl, alone⟩
      | cons r before =>
        obtain ⟨rfl, rfl⟩ := List.cons.inj same
        exact .inl ⟨before, later, rfl, alone⟩

/-- A superseded run makes no difference. -/
theorem current_without {before : List SavedRun} (superseded : ∃ r ∈ later, r.sourceName = s.sourceName) :
    current (before ++ later) = current (before ++ s :: later) := by
  obtain ⟨newer, member, same⟩ := superseded
  have known (name : String) :
      ((s :: later).any fun r => r.sourceName == name) = later.any fun r => r.sourceName == name := by
    rw [any_cons, Bool.or_eq_right_iff_imp]
    intro named
    exact any_eq_true.2 ⟨newer, member, same ▸ named⟩
  induction before with
  | nil =>
    have gone : later.any fun r => r.sourceName == s.sourceName := any_eq_true.2 ⟨newer, member, beq_iff_eq.2 same⟩
    rw [nil_append, nil_append, current, if_pos gone, append_nil]
  | cons r before ih =>
    rw [cons_append, cons_append, current, current, ih, any_append, any_append, known]

/-! ### The newest of each source -/

theorem firstOfEach_append (seen : List String) (runs : List Run) (r : Run) :
    Tables.firstOfEach seen (runs ++ [r]) = Tables.firstOfEach seen runs ++
      if r.sourceName ∈ seen ∨ ∃ r' ∈ runs, r'.sourceName = r.sourceName then [] else [r] := by
  induction runs generalizing seen with
  | nil => simp [Tables.firstOfEach]
  | cons first runs ih =>
    rw [cons_append, Tables.firstOfEach, Tables.firstOfEach]
    by_cases known : first.sourceName ∈ seen
    · have earlier : (r.sourceName ∈ seen ∨ ∃ r' ∈ first :: runs, r'.sourceName = r.sourceName) ↔
          (r.sourceName ∈ seen ∨ ∃ r' ∈ runs, r'.sourceName = r.sourceName) := by
        have inSeen : first.sourceName = r.sourceName → r.sourceName ∈ seen := fun same => same ▸ known
        rw [exists_mem_cons_iff, ← or_assoc, or_iff_left_of_imp inSeen]
      simp only [contains_iff_mem, known, if_true, ih, earlier]
    · have earlier : (r.sourceName ∈ seen ∨ ∃ r' ∈ first :: runs, r'.sourceName = r.sourceName) ↔
          (r.sourceName ∈ first.sourceName :: seen ∨ ∃ r' ∈ runs, r'.sourceName = r.sourceName) := by
        rw [exists_mem_cons_iff, mem_cons, ← or_assoc, @eq_comm _ first.sourceName, or_comm (a := _ ∈ seen)]
      simp only [contains_iff_mem, known, if_false, ih, earlier, cons_append]

theorem firstOfEach_reverse (saved : List SavedRun) :
    Tables.firstOfEach [] (saved.reverse.map SavedRun.run) = (current saved).map SavedRun.run := by
  induction saved with
  | nil => rfl
  | cons s later ih =>
    have superseded : (s.run.sourceName ∈ [] ∨ ∃ r ∈ later.reverse.map SavedRun.run, r.sourceName = s.run.sourceName) ↔
        later.any fun r => r.sourceName == s.sourceName := by
      simp [SavedRun.run]
    rw [reverse_cons, map_append, map_singleton, firstOfEach_append, ih, current, map_append]
    simp only [superseded]
    split <;> rfl

theorem Tables.Holds.runList_of_steady {t : Tables} (holds : t.Holds saved)
    (steady : saved.Pairwise fun a b => a.createdAt.nanos < b.createdAt.nanos) :
    t.runList = saved.reverse.map SavedRun.run := by
  rw [holds.runList_eq]
  refine mergeSort_eq standsBefore_iff ?_ ?_ ((saved.reverse_perm).map _)
  · intro a there b here same
    obtain ⟨r, member, rfl⟩ := mem_map.1 there
    obtain ⟨r', member', rfl⟩ := mem_map.1 here
    have ids : r.id = r'.id := (Prod.ext_iff.1 (toLex.injective same)).2
    rw [inj_on_of_nodup_map holds.ids member member' ids]
  · rw [pairwise_map, pairwise_reverse]
    refine steady.imp fun earlier => ?_
    exact (Prod.Lex.toLex_le_toLex).2 (.inl earlier)

theorem Tables.Holds.latest_eq {t : Tables} (holds : t.Holds saved)
    (steady : saved.Pairwise fun a b => a.createdAt.nanos < b.createdAt.nanos) :
    t.latest = (current saved).flatMap SavedRun.loaded := by
  rw [latest, holds.runList_of_steady steady, firstOfEach_reverse, flatMap_map]
  refine flatMap_congr fun s member => ?_
  have there : s ∈ saved := mem_reverse.1 ((current_sublist saved).subset member)
  rw [holds.load_eq, SavedRun.run, find?_eq_some holds.ids there]
  exact flatMap_singleton ..

theorem Mirrors.latest_eq {s : Store × IdSource} {l : List SavedRun × IdSource} (mirrors : Mirrors s l)
    (steady : l.1.Pairwise fun a b => a.createdAt.nanos < b.createdAt.nanos) :
    s.1.latest = .ok ((current l.1).flatMap SavedRun.loaded) := by
  obtain ⟨⟨t, opened, holds⟩, _⟩ := mirrors
  rw [opened, Store.latest, ask, holds.latest_eq steady]

/-! ### Histories -/

/-- What the clock shows when a call saves. -/
def Call.reading? : Call → Option Instant
  | .save now .. => some now
  | .delete _ => none

/-- The runs of the list were made at readings of the clock, in the same order. -/
theorem createdAt_sublist (calls : List Call) (l : List SavedRun × IdSource) :
    ((replies Call.actOnList calls l).2.1.map (·.createdAt)).Sublist
      (l.1.map (·.createdAt) ++ calls.filterMap Call.reading?) := by
  induction calls generalizing l with
  | nil => exact sublist_append_left ..
  | cons call calls ih =>
    obtain ⟨saved, ids⟩ := l
    refine (ih _).trans ?_
    cases call with
    | save now sourceName records => simp [Call.reading?]
    | delete id =>
      have kept : ((Call.delete id).actOnList (saved, ids)).2.1.Sublist saved := by
        rw [Call.actOnList]
        split
        · exact filter_sublist
        · exact .refl _
      rw [filterMap_cons_none rfl]
      exact (kept.map _).append_right _

theorem actOnList_delete {before : List SavedRun} (ids : IdSource) (different : (saved.map (·.id)).Nodup)
    (parts : saved = before ++ s :: later) : ((Call.delete s.id).actOnList (saved, ids)).2.1 = before ++ later := by
  subst parts
  rw [map_append, map_cons, nodup_middle, nodup_cons, ← map_append] at different
  have others : (before ++ later).filter (fun r => r.id != s.id) = before ++ later := by
    refine filter_eq_self.2 fun r member => bne_iff_ne.2 fun same => different.1 ?_
    exact same ▸ mem_map_of_mem member
  have there : (before ++ s :: later).any fun r => r.id == s.id := by simp
  rw [Call.actOnList, if_pos there]
  simpa using others

/-- The last run of a source hides the one before it. -/
theorem uncovered {earlier between : List SavedRun} {p : SavedRun} (different : (saved.map (·.id)).Nodup)
    (parts : saved = (earlier ++ p :: between) ++ s :: later) (last : ∀ r ∈ later, r.sourceName ≠ s.sourceName)
    (same : p.sourceName = s.sourceName) (next : ∀ r ∈ between, r.sourceName ≠ s.sourceName) :
    s ∈ current saved ∧ p ∉ current saved ∧ p ∈ current ((earlier ++ p :: between) ++ later) := by
  refine ⟨mem_current.2 ⟨_, later, parts, last⟩, fun there => ?_, ?_⟩
  · obtain ⟨before, later', parts', alone⟩ := mem_current.1 there
    have once := List.Nodup.of_map _ different
    rw [parts, append_assoc, cons_append, nodup_middle, nodup_cons, mem_append, not_or] at once
    rw [parts, append_assoc, cons_append,
      append_cons_inj_of_notMem once.1.1 once.1.2] at parts'
    exact alone s (parts'.2.2 ▸ by simp) same.symm
  · refine mem_current.2 ⟨earlier, between ++ later, by simp, fun r member => ?_⟩
    rw [same]
    rcases mem_append.1 member with inBetween | inLater
    · exact next r inBetween
    · exact last r inLater

/-- With a clock that goes forward, the latest records are those of the runs that are not superseded,
run by run, the last saved first. Such a run is the last of its source, so deleting a superseded run
changes nothing, and deleting the last run of a source brings back the one before it. The stamps of
the runs are ordered as the readings of the clock. -/
theorem latest_supersedes (ids : IdSource) (calls : List Call)
    (fresh : ((List.range (calls.length + 1)).map ids.ahead).Nodup)
    (steady : (calls.filterMap Call.reading?).Pairwise fun a b => a.nanos < b.nanos) :
    let done := replies Call.act calls (.fresh, ids)
    let saved := (replies Call.actOnList calls ([], ids)).2.1
    done.2.1.latest = .ok ((current saved).flatMap fun s => s.records.map Record.settled) ∧
    (current saved).Sublist saved.reverse ∧
    (∀ s, s ∈ current saved ↔
      ∃ before later, saved = before ++ s :: later ∧ ∀ r ∈ later, r.sourceName ≠ s.sourceName) ∧
    (∀ before s later, saved = before ++ s :: later →
      let left := ((Call.delete s.id).act done.2).2.1
      left.latest = .ok ((current (before ++ later)).flatMap fun s => s.records.map Record.settled) ∧
      ((∃ r ∈ later, r.sourceName = s.sourceName) → left.latest = done.2.1.latest) ∧
      ((∀ r ∈ later, r.sourceName ≠ s.sourceName) → ∀ earlier p between, before = earlier ++ p :: between →
        p.sourceName = s.sourceName → (∀ r ∈ between, r.sourceName ≠ s.sourceName) →
        s ∈ current saved ∧ p ∉ current saved ∧ p ∈ current (before ++ later))) ∧
    ∀ a ∈ saved, ∀ b ∈ saved, 0 ≤ a.createdAt.date.year ∧ a.createdAt.date.year ≤ 9999 →
      0 ≤ b.createdAt.date.year ∧ b.createdAt.date.year ≤ 9999 →
      (a.createdAt.stamp < b.createdAt.stamp ↔ a.createdAt.nanos < b.createdAt.nanos) := by
  intro done saved
  have unused : Unused ([], ids) (calls.length + 1) := by simpa [Unused] using fresh
  obtain ⟨_, mirrors, left⟩ := (mirrors_fresh ids).replies calls unused
  have forward : saved.Pairwise fun a b => a.createdAt.nanos < b.createdAt.nanos :=
    (List.pairwise_map (f := SavedRun.createdAt)).1 (steady.sublist (createdAt_sublist calls ([], ids)))
  obtain ⟨t, _, holds⟩ : ∃ t, done.2.1 = .opened t ∧ t.Holds saved := mirrors.holds
  refine ⟨mirrors.latest_eq forward, current_sublist saved, fun s => mem_current, fun before s later parts => ?_, ?_⟩
  · have deleted := (mirrors.act (.delete s.id) left.not_mem).2
    have remaining := actOnList_delete (replies Call.actOnList calls ([], ids)).2.2 holds.ids parts
    have fewer : (before ++ later).Sublist saved := by
      rw [parts]
      exact (List.Sublist.refl _).append (List.sublist_cons_self ..)
    have latest := deleted.latest_eq (remaining ▸ forward.sublist fewer)
    rw [remaining] at latest
    refine ⟨latest, fun superseded => ?_, ?_⟩
    · rw [latest, mirrors.latest_eq forward, current_without superseded, ← parts]
    · rintro last earlier p between rfl same next
      exact uncovered holds.ids parts last same next
  · rintro a _ b _ ⟨start, stop⟩ ⟨start', stop'⟩
    exact Instant.stamp_lt_iff start stop start' stop'

/-- Two runs of one source and one of another between them. -/
theorem latest_supersedes_nightly :
    let old : SavedRun := ⟨RunId.ofNumber 1, "nightly", .ofSeconds 1, [.reading (.single "a")]⟩
    let other : SavedRun := ⟨RunId.ofNumber 2, "daily", .ofSeconds 2, [.reading (.single "b")]⟩
    let new : SavedRun := ⟨RunId.ofNumber 3, "nightly", .ofSeconds 3, [.reading (.single "c")]⟩
    let calls := [old, other, new].map fun s => Call.save s.createdAt s.sourceName s.records
    let done := replies Call.act calls (.fresh, ⟨0⟩)
    done.2.1.latest = .ok [.reading (.single "c"), .reading (.single "b")] ∧
    ((Call.delete old.id).act done.2).2.1.latest = done.2.1.latest ∧
    ((Call.delete new.id).act done.2).2.1.latest = .ok [.reading (.single "b"), .reading (.single "a")] ∧
    (new ∈ current [old, other, new] ∧ old ∉ current [old, other, new] ∧ old ∈ current [old, other]) ∧
    old.createdAt.stamp < new.createdAt.stamp := by
  intro old other new calls done
  obtain ⟨latest, _, _, deleted, stamps⟩ := latest_supersedes ⟨0⟩ calls (by decide) (by decide)
  obtain ⟨_, unchanged, _⟩ := deleted [] old [other, new] rfl
  obtain ⟨left, _, back⟩ := deleted [old, other] new [] rfl
  refine ⟨latest, unchanged ⟨new, by simp, rfl⟩, left, back (by simp) [] old [other] rfl rfl (by decide), ?_⟩
  have there : old ∈ [old, other, new] ∧ new ∈ [old, other, new] := by simp
  exact (stamps old there.1 new there.2 (by decide) (by decide)).2 (by decide)

end TableLineage.Store
