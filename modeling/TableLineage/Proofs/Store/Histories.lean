import TableLineage.Proofs.Store.Holding

/-! A store through any row of saves and deletes. It answers as a list of runs would, and a change
of one run makes no difference to what is said of the others. -/
namespace TableLineage.Store

open List

/-! ### Calls -/

inductive Call where
  | save (now : Instant) (sourceName : String) (records : List Record)
  | delete (id : String)

/-- The run that a save gives, or why there is none; a delete that succeeds gives nothing. -/
abbrev Reply := Except StoreError (Option Run)

namespace Call

/-- What a call does to a store. A call that fails leaves it as it is. -/
def act : Call → Store × IdSource → Reply × Store × IdSource
  | .save now sourceName records, (store, ids) =>
    let (run, rest) := store.save ids now sourceName records
    (run.map some, rest)
  | .delete id, (store, ids) =>
    match store.delete id with
    | .ok store => (.ok none, store, ids)
    | .error e => (.error e, store, ids)

/-- The same call on a list of runs. -/
def actOnList : Call → List SavedRun × IdSource → Reply × List SavedRun × IdSource
  | .save now sourceName records, (saved, ids) =>
    let run : SavedRun := ⟨ids.next.1, sourceName, now, records⟩
    (.ok (some run.run), saved ++ [run], ids.next.2)
  | .delete id, (saved, ids) =>
    if saved.any fun s => s.id == id then (.ok none, saved.filter fun s => s.id != id, ids)
    else (.error (.runNotFound id), saved, ids)

/-- The id of the run that a call is about. -/
def subject : Call → IdSource → String
  | .save .., ids => ids.next.1
  | .delete id, _ => id

end Call

/-- The replies to calls one after the other, and what is left in the end. -/
def replies {σ : Type} (act : Call → σ → Reply × σ) : List Call → σ → List Reply × σ
  | [], s => ([], s)
  | c :: cs, s =>
    let (reply, s) := act c s
    let (rest, s) := replies act cs s
    (reply :: rest, s)

/-! ### A store and a list side by side -/

/-- The store is open and holds the runs of the list. -/
structure Mirrors (s : Store × IdSource) (l : List SavedRun × IdSource) : Prop where
  holds : ∃ t, s.1 = .opened t ∧ t.Holds l.1
  ids : s.2 = l.2

/-- The next `k` ids are different from each other and from those of the runs. -/
def Unused (l : List SavedRun × IdSource) (k : Nat) : Prop :=
  (l.1.map (·.id) ++ (List.range k).map l.2.ahead).Nodup

theorem map_ahead_range (ids : IdSource) (k : Nat) :
    (List.range (k + 1)).map ids.ahead = ids.next.1 :: (List.range k).map ids.next.2.ahead := by
  rw [range_succ_eq_map, map_cons, map_map]
  refine congrArg₂ List.cons rfl (map_congr_left fun i _ => ?_)
  have same : ids.last + 1 + (i + 1) = ids.last + 1 + 1 + i := by omega
  exact congrArg RunId.ofNumber same

variable {l : List SavedRun × IdSource} {k : Nat}

theorem Unused.not_mem (unused : Unused l (k + 1)) : l.2.next.1 ∉ l.1.map (·.id) := by
  rw [Unused, map_ahead_range] at unused
  intro there
  exact (nodup_append.1 unused).2.2 _ there _ mem_cons_self rfl

theorem Unused.act (unused : Unused l (k + 1)) (call : Call) : Unused (call.actOnList l).2 k := by
  obtain ⟨saved, ids⟩ := l
  cases call with
  | save now sourceName records =>
    rw [Unused, map_ahead_range] at unused
    simpa [Unused, Call.actOnList] using unused
  | delete id =>
    have fewer : Unused (saved, ids) k :=
      unused.sublist ((List.Sublist.refl _).append ((range_sublist.2 (Nat.le_succ k)).map _))
    rw [Call.actOnList]
    split
    · exact fewer.sublist ((filter_sublist.map _).append (List.Sublist.refl _))
    · exact fewer

theorem Tables.Holds.any_id {t : Tables} {saved : List SavedRun} (holds : t.Holds saved) (id : String) :
    saved.any (fun s => s.id == id) = (t.run? id).isSome := by
  rw [holds.run?_eq, Option.isSome_map, isSome_find?]

theorem Mirrors.act {s : Store × IdSource} {l : List SavedRun × IdSource} (mirrors : Mirrors s l) (call : Call)
    (fresh : l.2.next.1 ∉ l.1.map (·.id)) :
    (call.act s).1 = (call.actOnList l).1 ∧ Mirrors (call.act s).2 (call.actOnList l).2 := by
  obtain ⟨_, ids⟩ := s
  obtain ⟨saved, _⟩ := l
  obtain ⟨⟨t, rfl, holds⟩, rfl⟩ := mirrors
  cases call with
  | save now sourceName records => exact ⟨rfl, ⟨_, rfl, holds.insertRun ⟨_, _, _, _⟩ fresh⟩, rfl⟩
  | delete id =>
    have known : saved.any (fun s => s.id == id) = (t.run? id).isSome := holds.any_id id
    rw [Call.act, Call.actOnList, delete, ask]
    cases found : t.run? id with
    | some run =>
      rw [found, Option.isSome_some] at known
      rw [if_pos known]
      exact ⟨rfl, ⟨_, rfl, holds.deleteRun id⟩, rfl⟩
    | none =>
      rw [found, Option.isSome_none] at known
      rw [if_neg (Bool.eq_false_iff.1 known)]
      exact ⟨rfl, ⟨t, rfl, holds⟩, rfl⟩

theorem Mirrors.replies {s : Store × IdSource} (mirrors : Mirrors s l) (calls : List Call)
    (unused : Unused l (calls.length + k)) :
    (replies Call.act calls s).1 = (Store.replies Call.actOnList calls l).1 ∧
      Mirrors (Store.replies Call.act calls s).2 (Store.replies Call.actOnList calls l).2 ∧
      Unused (Store.replies Call.actOnList calls l).2 k := by
  induction calls generalizing s l with
  | nil =>
    rw [length_nil, Nat.zero_add] at unused
    exact ⟨rfl, mirrors, unused⟩
  | cons call calls ih =>
    rw [length_cons, Nat.add_right_comm] at unused
    obtain ⟨first, next⟩ := mirrors.act call unused.not_mem
    obtain ⟨rest, last, left⟩ := ih next (unused.act call)
    exact ⟨congrArg₂ List.cons first rest, last, left⟩

theorem mirrors_fresh (ids : IdSource) : Mirrors (.fresh, ids) ([], ids) := ⟨⟨_, rfl, Tables.holds_empty⟩, rfl⟩

/-! ### What is said of a run -/

/-- All that a store says of one run: its records, the run itself, and its edges at a table. -/
def sayings (s : Store) (id table : String) :
    Except StoreError (List Record) × Except StoreError Run × Except StoreError (List SavedEdge) :=
  (s.load id, s.run id, (s.edges table).map fun es => es.filter fun e => e.runId == id)

/-- What is said of a run hangs on that run alone. -/
theorem Mirrors.sayings_eq {s s' : Store × IdSource} {l' : List SavedRun × IdSource} (mirrors : Mirrors s l)
    (mirrors' : Mirrors s' l') {id : String} (table : String)
    (same : (l.1.find? fun r => r.id == id) = l'.1.find? fun r => r.id == id) :
    sayings s.1 id table = sayings s'.1 id table := by
  obtain ⟨⟨t, opened, holds⟩, _⟩ := mirrors
  obtain ⟨⟨t', opened', holds'⟩, _⟩ := mirrors'
  rw [opened, opened']
  simp only [sayings, load, run, edges, ask, Except.map, holds.load_eq, holds'.load_eq, holds.run?_eq, holds'.run?_eq,
    holds.filter_edgesOf, holds'.filter_edgesOf, same]

theorem find?_actOnList (call : Call) (l : List SavedRun × IdSource) {id : String} (other : id ≠ call.subject l.2) :
    ((call.actOnList l).2.1.find? fun r => r.id == id) = l.1.find? fun r => r.id == id := by
  obtain ⟨saved, ids⟩ := l
  cases call with
  | save now sourceName records =>
    have different : ids.next.1 ≠ id := Ne.symm other
    simp [Call.actOnList, find?_append, different]
  | delete gone =>
    rw [Call.actOnList]
    split
    · rw [find?_filter]
      congr 1
      funext r
      by_cases same : r.id = id
      · have kept : id ≠ gone := other
        simp [same, kept]
      · simp [same]
    · rfl

/-! ### Histories -/

/-- After any saves and deletes, a store has replied as a list of runs would have and holds what is
left of the list. A run of the list is loaded with the records that were saved, in order. A run that
is not there has no records, is not found, and deleting it changes nothing. The edges of a table are
those of the runs of the list, and another call makes no difference to what is said of any run that
it is not about. -/
theorem answers_as_list (ids : IdSource) (calls : List Call)
    (fresh : ((List.range (calls.length + 1)).map ids.ahead).Nodup) :
    let done := replies Call.act calls (.fresh, ids)
    let listed := replies Call.actOnList calls ([], ids)
    let store := done.2.1
    let saved := listed.2.1
    done.1 = listed.1 ∧
    (∀ s ∈ saved, store.load s.id = .ok (s.records.map Record.settled) ∧
      store.run s.id = .ok ⟨s.id, s.sourceName, s.createdAt, s.records.length⟩) ∧
    (∀ id, (∀ s ∈ saved, s.id ≠ id) → store.load id = .ok [] ∧ store.run id = .error (.runNotFound id) ∧
      (Call.delete id).act done.2 = (.error (.runNotFound id), done.2)) ∧
    (∀ table, ∃ found, store.edges table = .ok found ∧ found.Perm (saved.flatMap (SavedRun.edges table))) ∧
    ∀ (call : Call) id table, id ≠ call.subject done.2.2 →
      sayings (call.act done.2).2.1 id table = sayings store id table := by
  intro done listed store saved
  have unused : Unused ([], ids) (calls.length + 1) := by simpa [Unused] using fresh
  obtain ⟨same, mirrors, left⟩ := (mirrors_fresh ids).replies calls unused
  obtain ⟨t, opened, holds⟩ : ∃ t, store = .opened t ∧ t.Holds saved := mirrors.holds
  refine ⟨same, fun s member => ?_, fun id absent => ?_, fun table => ?_, fun call id table other => ?_⟩
  · have found := find?_eq_some holds.ids member
    simp [opened, load, run, ask, holds.load_eq, holds.run?_eq, found, SavedRun.loaded, SavedRun.run]
  · have missing : saved.find? (fun s => s.id == id) = none := by
      refine List.find?_eq_none.2 fun s member named => ?_
      exact absent s member (by simpa using named)
    have start : done.2 = (.opened t, done.2.2) := Prod.ext opened rfl
    rw [opened, start]
    simp [Call.act, load, run, delete, ask, holds.load_eq, holds.run?_eq, missing]
  · exact ⟨_, by rw [opened]; rfl, holds.edgesOf_perm table⟩
  · have later := mirrors.act call left.not_mem
    refine later.2.sayings_eq mirrors table ?_
    rw [find?_actOnList call _ ?_]
    rwa [← mirrors.ids]

/-- Two runs are saved and the first is deleted. A written table that nothing feeds comes back, and
an empty name of a source too, but not a context without name and range. -/
theorem answers_as_list_after_delete :
    let written : Record :=
      ⟨.ofList [("out", .ofList ["a", "b"]), ("bare", .empty)], .ofList ["a", "b", "c"], some ⟨none, none⟩⟩
    let named : Record := ⟨.single "out" (.single "out"), .single "out", some ⟨some "", none⟩⟩
    let calls : List Call :=
      [.save ⟨1⟩ "nightly" [written], .save ⟨2⟩ "daily" [named, written], .delete (RunId.ofNumber 1)]
    let done := replies Call.act calls (.fresh, ⟨0⟩)
    let store := done.2.1
    done.1 =
      [.ok (some ⟨RunId.ofNumber 1, "nightly", ⟨1⟩, 1⟩), .ok (some ⟨RunId.ofNumber 2, "daily", ⟨2⟩, 2⟩), .ok none] ∧
    (store.load (RunId.ofNumber 2) = .ok [named, { written with context := none }] ∧
      store.run (RunId.ofNumber 2) = .ok ⟨RunId.ofNumber 2, "daily", ⟨2⟩, 2⟩) ∧
    (store.load (RunId.ofNumber 1) = .ok [] ∧ store.run (RunId.ofNumber 1) = .error (.runNotFound (RunId.ofNumber 1)) ∧
      (Call.delete (RunId.ofNumber 1)).act done.2 = (.error (.runNotFound (RunId.ofNumber 1)), done.2)) ∧
    (∃ found, store.edges "a" = .ok found ∧ found.Perm [⟨RunId.ofNumber 2, "out", "a"⟩]) ∧
    sayings ((Call.save ⟨3⟩ "daily" []).act done.2).2.1 (RunId.ofNumber 2) "out" =
      sayings store (RunId.ofNumber 2) "out" := by
  intro written named calls done store
  obtain ⟨same, present, absent, edges, others⟩ := answers_as_list ⟨0⟩ calls (by decide)
  refine ⟨same, present ⟨RunId.ofNumber 2, "daily", ⟨2⟩, [named, written]⟩ (List.mem_singleton_self _),
    absent (RunId.ofNumber 1) ?_, edges "a", others (.save ⟨3⟩ "daily" []) (RunId.ofNumber 2) "out" ?_⟩
  · intro s member
    rw [List.mem_singleton.1 member]
    decide
  · decide

end TableLineage.Store
