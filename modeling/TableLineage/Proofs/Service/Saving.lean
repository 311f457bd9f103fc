import TableLineage.Proofs.Lineage.Layout
import TableLineage.Proofs.Service.Routing
import TableLineage.Proofs.Store.Holding
import TableLineage.Proofs.Store.Rows
import TableLineage.Service.Basic

/-! What a request to extract leaves behind. It changes the store and tells the subscribers only if
it saves a run, and the report of that run can be had again. -/
namespace TableLineage

open List
open Store

/-! ### Records that come back as they are

Every statement has a place, so no context of the records of a text is without a name and without a range. -/

namespace Record

/-- A context says where a record comes from, if there is one. -/
def Traceable (r : Record) : Prop := ∀ c, r.context = some c → c.sourceName.isSome ∨ c.range.isSome

theorem Traceable.settled_eq {r : Record} (traceable : r.Traceable) : r.settled = r := by
  obtain ⟨sinks, sources, context⟩ := r
  cases context with
  | none => rfl
  | some c =>
    have known : (c.sourceName.isSome || c.range.isSome) = true := by simpa using traceable c rfl
    simp [Record.settled, Option.filter, known]

end Record

theorem Extraction.traceable_finish (patterns : List Glob) (name : String) {r : Record} (traceable : r.Traceable) :
    (finish patterns name r).Traceable := by
  have excluded : (r.exclude patterns).Traceable := traceable
  by_cases unnamed : name.isEmpty
  · rw [finish, if_pos unnamed]
    split
    · exact traceable
    · exact excluded
  · rw [finish, if_neg unnamed]
    rintro _ ⟨⟩
    exact .inl rfl

theorem Statement.traceable_record (s : Statement) : s.record.Traceable := by
  intro c found
  rw [record] at found
  cases place : TextRange.ofSpan? s.span with
  | none =>
    rw [place, s.context_flow] at found
    cases found
  | some r =>
    rw [place] at found
    cases found
    exact .inr rfl

theorem Script.exists_range {normalize : Bool} {text : String} {script : Script}
    (read : Script.ofText normalize text = .ok script) :
    ∀ s ∈ script.statements, ∃ r, TextRange.ofSpan? s.span = some r := by
  have clean : (scan text).errors = [] := by
    cases parsed : parse text with
    | error e => simp [Script.ofText, parsed] at read
    | ok t => exact (parse_eq_ok_iff.1 parsed).1
  -- A text agrees with itself, which says of each of its statements that it has a place.
  have agree := Script.ofText_agree clean clean rfl normalize
  rw [read] at agree
  cases agree with
  | ok related =>
    have placed {l l' : List Statement} (same : List.Forall₂ (Statement.SameFlow Span.Placed) l l') :
        ∀ s ∈ l, ∃ r, TextRange.ofSpan? s.span = some r := by
      induction same with
      | nil => simp
      | cons one _ ih => exact forall_mem_cons.2 ⟨one.place.1, ih⟩
    exact placed related.statements

theorem traceable_scriptRecord {statements : List Statement}
    (placed : ∀ s ∈ statements, ∃ r, TextRange.ofSpan? s.span = some r) : (scriptRecord statements).Traceable := by
  intro c found
  cases statements with
  | nil => cases found
  | cons s rest =>
    obtain ⟨⟨r, first⟩, _⟩ := forall_mem_cons.1 placed
    obtain ⟨whole, covered⟩ := TextRange.exists_foldl_cover? r (rest.map fun s => TextRange.ofSpan? s.span)
    have range : (scriptRecord (s :: rest)).range? = some whole := by
      rw [range?_scriptRecord, map_cons, foldl_cons, first]
      exact covered
    rw [Record.range?, found] at range
    exact .inr (by rw [show c.range = some whole from range]; rfl)

/-- The records of a text are loaded as they were saved. -/
theorem Extraction.map_settled {o : ExtractOptions} {text : String} {x : Extraction}
    (extracted : ofText o text = .ok x) : x.records.map Record.settled = x.records := by
  obtain ⟨patterns, script, _, read, rfl⟩ := ofText_cases extracted
  refine (map_congr_left fun r member => ?_).trans (map_id _)
  obtain ⟨base, inside, rfl⟩ := mem_map.1 member
  refine (traceable_finish patterns o.sourceName ?_).settled_eq
  split at inside
  · obtain ⟨s, _, rfl⟩ := mem_map.1 inside
    exact s.traceable_record
  · rw [mem_singleton.1 inside]
    exact traceable_scriptRecord (Script.exists_range read)

/-! ### Requests -/

theorem Response.packed_eq (accepted : String) (a : Response) :
    (a.packed accepted).status = a.status ∧ (a.packed accepted).runId = a.runId ∧
      (a.packed accepted).body = a.body := by
  rw [packed]
  split <;> exact ⟨rfl, rfl, rfl⟩

variable {f : Format}

/-- Only the report of events is made of more than the records. -/
theorem Report.render_eq (plain : f ≠ .openLineage) (s s' : EventSettings) (time time' : Instant) (ids ids' : IdSource)
    (records : List Record) : (render f s time ids records).1 = (render f s' time' ids' records).1 := by
  cases f with
  | openLineage => exact absurd rfl plain
  | _ => rfl

namespace Service

variable {target : Url.Target} {s : Service}

theorem status_of_formatOf {a : Response} (wrong : formatOf target = .error a) : a.status = 400 := by
  rw [formatOf] at wrong
  split at wrong
  · cases wrong
  · split at wrong
    · cases wrong
    · cases wrong
      rfl

/-! ### What comes of a request -/

/-- What a request to extract can come to: it is refused, it is shown what was asked for, or that is
saved as well. Whatever it is, ids may be used up. -/
inductive Outcome (s : Service) (t : Times) (target : Url.Target) (body : String) : Response → Service → Prop where
  | refused {a : Response} {s' : Service} (status : a.status ≠ 200) (store : s'.store = s.store)
      (notifier : s'.notifier = s.notifier) : Outcome s t target body a s'
  | shown {a : Response} {ids : IdSource} {r : ExtractRequest} {x : Extraction} {f : Format}
      (asked : ExtractRequest.ofBody body = .ok r) (format : formatOf target = .ok f)
      (extracted : Extraction.ofText (s.extractOptions r) r.sql = .ok x) (status : a.status = 200)
      (report : a.body = (Report.render f s.settings t.event s.ids x.records).1)
      (save : r.save = false) (runId : a.runId = none) : Outcome s t target body a { s with ids }
  | saved {a : Response} {ids : IdSource} {r : ExtractRequest} {x : Extraction} {f : Format} {tables : Tables}
      (asked : ExtractRequest.ofBody body = .ok r) (format : formatOf target = .ok f)
      (extracted : Extraction.ofText (s.extractOptions r) r.sql = .ok x) (status : a.status = 200)
      (report : a.body = (Report.render f s.settings t.event s.ids.next.2 x.records).1)
      (save : r.save = true) (runId : a.runId = some s.ids.next.1) (opened : s.store = some (.opened tables)) :
      Outcome s t target body a
        { s with
          ids
          store := some (.opened (tables.insertRun ⟨s.ids.next.1, r.sourceName, t.saving⟩ x.records))
          notifier := s.notifier.broadcast ⟨s.ids.next.1, r.sourceName, x.records.length⟩ }

theorem Outcome.fault {t : Times} {body : String} {status : Nat} (other : status ≠ 200) (message : String) :
    Outcome s t target body (.fault status message) s :=
  .refused other rfl rfl

theorem report_eq (format : formatOf target = .ok f) (s : Service) (event : Instant) (records : List Record) :
    s.report event target records =
      (.ofContent (contentType f) (Report.render f s.settings event s.ids records).1,
       { s with ids := (Report.render f s.settings event s.ids records).2 }) := by
  rw [report, format]

theorem outcome_answerWith {body : String} {r : ExtractRequest} {x : Extraction} (t : Times)
    (asked : ExtractRequest.ofBody body = .ok r) (format : formatOf target = .ok f)
    (extracted : Extraction.ofText (s.extractOptions r) r.sql = .ok x) (possible : ¬(r.save && s.store.isNone)) :
    Outcome s t target body (s.answerWith t target r x).1 (s.answerWith t target r x).2 := by
  cases save : r.save with
  | false =>
    simp only [answerWith, save, report_eq format]
    exact .shown asked format extracted rfl rfl save rfl
  | true =>
    cases kept : s.store with
    | none => simp [save, kept] at possible
    | some store =>
      cases store with
      | absent =>
        simp only [answerWith, save, kept, saveRun, Store.save]
        exact .refused (show 500 ≠ 200 by decide) kept.symm rfl
      | closed =>
        simp only [answerWith, save, kept, saveRun, Store.save]
        exact .refused (show 500 ≠ 200 by decide) kept.symm rfl
      | opened tables =>
        simp only [answerWith, save, kept, saveRun, Store.save, report_eq format]
        exact .saved asked format extracted rfl rfl save rfl kept

theorem outcome_extract (s : Service) (t : Times) (target : Url.Target) (body : String) :
    Outcome s t target body (s.extract t target body).1 (s.extract t target body).2 := by
  rw [extract]
  cases asked : ExtractRequest.ofBody body with
  | error e => exact .fault (by decide) _
  | ok r =>
    cases format : formatOf target with
    | error a => exact .refused (by simp [status_of_formatOf format]) rfl rfl
    | ok f =>
      by_cases possible : r.save && s.store.isNone
      · simp only [if_pos possible]
        exact .fault (by decide) _
      · simp only [if_neg possible]
        cases extracted : Extraction.ofText (s.extractOptions r) r.sql with
        | error e =>
          cases e with
          | pattern e => exact .fault (by decide) _
          | read e => exact .fault (by decide) _
        | ok x => exact outcome_answerWith t asked format extracted possible

/-! ### Saved runs -/

/-- A request for a run that a store holds is answered with a report of what was saved. -/
theorem respond_run {tables : Tables} {saved : List SavedRun} {run : SavedRun} {n : Nat} {g : Request}
    (opened : s.store = some (.opened tables)) (holds : tables.Holds saved) (member : run ∈ saved)
    (number : run.id = RunId.ofNumber n) (method : g.method = "GET")
    (path : (Url.Target.ofText g.target).path = Text.bytesOf ("/v1/runs/" ++ run.id).toList)
    (format : formatOf (.ofText g.target) = .ok f) (t : Times) :
    (s.respond t g).1 =
      .response (.ofContent (contentType f) (Report.render f s.settings t.event s.ids run.loaded).1) := by
  have found := find?_eq_some holds.ids member
  have id : Text.ofBytes (Text.bytesOf run.id.toList) = run.id :=
    Text.ofBytes_bytesOf (by rw [number]; exact RunId.ofNumber_ascii n)
  have route := RunId.route_of_run n
  rw [← number] at route
  simp only [respond, method, path, route, opened, withStore, showRun, id, Store.run, Store.load, ask, holds.run?_eq,
    holds.load_eq, found, Option.map_some, Option.toList_some, flatMap_singleton, report_eq format]

/-- A request to extract is all or nothing. Unless it is answered with 200 it leaves the store and the
queues of all subscribers as they were, and so it does if it does not ask to save. If it does and is
answered with 200, the store has one more run, of which the subscribers are told once and which the
answer names. As long as the id is a new one, a request for the run in the same format is answered
with the same text, unless the format is that of events. -/
theorem extract_all_or_nothing (s : Service) (t : Times) (q : Request)
    (posted : Route.of q.method (Url.routePath (Url.Target.ofText q.target).path) = .found .extract) :
    ∃ a s', s.respond t q = (.response a, s') ∧
    (a.status ≠ 200 → s'.store = s.store ∧ s'.notifier = s.notifier) ∧
    (a.status = 200 → ∃ r f x, ExtractRequest.ofBody q.body = .ok r ∧ formatOf (.ofText q.target) = .ok f ∧
      Extraction.ofText (s.extractOptions r) r.sql = .ok x ∧
      (r.save = false → s'.store = s.store ∧ s'.notifier = s.notifier ∧ a.runId = none) ∧
      (r.save = true →
        let run : SavedRun := ⟨s.ids.next.1, r.sourceName, t.saving, x.records⟩
        a.runId = some run.id ∧
        s'.notifier = s.notifier.broadcast ⟨run.id, r.sourceName, x.records.length⟩ ∧
        ∃ before after, s.store = some (.opened before) ∧ s'.store = some (.opened after) ∧
          after.runs = before.runs ++ [run.row] ∧
          ∀ saved, before.Holds saved → run.id ∉ saved.map (·.id) → after.Holds (saved ++ [run]) ∧
            ∀ (t' : Times) (g : Request), g.method = "GET" →
              (Url.Target.ofText g.target).path = Text.bytesOf ("/v1/runs/" ++ run.id).toList →
              formatOf (.ofText g.target) = .ok f → f ≠ .openLineage →
              ∃ b, (s'.respond t' g).1 = .response b ∧ b.status = 200 ∧ b.body = a.body)) := by
  have answered : s.respond t q =
      (.response ((s.extract t (.ofText q.target) q.body).1.packed (q.header "Accept-Encoding")),
       (s.extract t (.ofText q.target) q.body).2) := by
    simp only [respond, posted]
  refine ⟨_, _, answered, ?_⟩
  have outcome := outcome_extract s t (.ofText q.target) q.body
  obtain ⟨status, named, body⟩ := (s.extract t (.ofText q.target) q.body).1.packed_eq (q.header "Accept-Encoding")
  rw [status, named, body]
  generalize (s.extract t (.ofText q.target) q.body).1 = a, (s.extract t (.ofText q.target) q.body).2 = s' at outcome
  cases outcome with
  | refused status store notifier => exact ⟨fun _ => ⟨store, notifier⟩, fun good => absurd good status⟩
  | shown asked format extracted status _ save runId =>
    refine ⟨fun other => absurd status other, fun _ => ⟨_, _, _, asked, format, extracted, ?_, ?_⟩⟩
    · exact fun _ => ⟨rfl, rfl, runId⟩
    · intro yes
      rw [save] at yes
      cases yes
  | @saved ids r x f tables asked format extracted status report save runId opened =>
    refine ⟨fun other => absurd status other, fun _ => ⟨_, _, _, asked, format, extracted, ?_, ?_⟩⟩
    · intro no
      rw [save] at no
      cases no
    · intro _ run
      refine ⟨runId, rfl, _, _, opened, rfl, Tables.runs_foldl_insertRecord .., fun saved holds fresh => ?_⟩
      have after := holds.insertRun run fresh
      refine ⟨after, fun t' g method path same plain => ?_⟩
      have member : run ∈ saved ++ [run] := List.mem_append_right _ (List.mem_singleton_self run)
      refine ⟨_, respond_run rfl after member rfl method path same t', rfl, ?_⟩
      have loaded : run.loaded = x.records := Extraction.map_settled extracted
      rw [loaded, report]
      exact Report.render_eq plain ..

/-- An insert is saved in an empty store, one subscriber is told of it, and the run is asked for. -/
theorem extract_all_or_nothing_nightly :
    let s : Service := ⟨some .fresh, false, [], .standard, Notifier.empty.subscribe, ⟨0⟩⟩
    let q : Request := ⟨"POST", "/v1/lineage?format=text", [],
      "\x7b\"sql\": \"insert into t select a from b\", \"save\": true, \"sourceName\": \"nightly\"\x7d"⟩
    let g : Request := ⟨"GET", "/v1/runs/00000000-0000-4000-8000-000000000001?format=text", [], ""⟩
    ∃ a s', s.respond ⟨⟨1⟩, ⟨2⟩⟩ q = (.response a, s') ∧ a.status = 200 ∧
      a.body = "Statement 1  (nightly 1:0-1:29)\n  t <- b\n  reads: b\n" ∧
      a.runId = some "00000000-0000-4000-8000-000000000001" ∧
      s'.notifier.channels = [⟨[⟨"00000000-0000-4000-8000-000000000001", "nightly", 1⟩], false⟩] ∧
      ∃ b, (s'.respond ⟨⟨3⟩, ⟨3⟩⟩ g).1 = .response b ∧ b.status = 200 ∧ b.body = a.body := by
  intro s q g
  obtain ⟨a, s', answered, -, good⟩ := extract_all_or_nothing s ⟨⟨1⟩, ⟨2⟩⟩ q (by decide +kernel)
  have reply : ((s.respond ⟨⟨1⟩, ⟨2⟩⟩ q).1, (s.respond ⟨⟨1⟩, ⟨2⟩⟩ q).2.notifier.channels) =
      (.response ⟨200, some "text/plain; charset=utf-8", none, some "00000000-0000-4000-8000-000000000001", [], [],
        "Statement 1  (nightly 1:0-1:29)\n  t <- b\n  reads: b\n"⟩,
       [⟨[⟨"00000000-0000-4000-8000-000000000001", "nightly", 1⟩], false⟩]) := by
    decide +kernel
  rw [answered] at reply
  obtain ⟨⟨⟩, told⟩ := Prod.mk.inj reply
  obtain ⟨r, f, x, asked, format, _, _, kept⟩ := good rfl
  have body : ExtractRequest.ofBody q.body =
      .ok ⟨"insert into t select a from b", false, "nightly", [], none, true⟩ := by
    decide +kernel
  obtain rfl := Except.ok.inj (asked.symm.trans body)
  have text : formatOf (.ofText q.target) = .ok .text := by decide +kernel
  obtain rfl := Except.ok.inj (format.symm.trans text)
  obtain ⟨_, _, before, after, opened, _, _, again⟩ := kept rfl
  cases opened
  have path : (Url.Target.ofText g.target).path = Text.bytesOf ("/v1/runs/" ++ RunId.ofNumber 1).toList := by
    decide +kernel
  exact ⟨_, s', answered, rfl, rfl, rfl, told,
    (again [] Tables.holds_empty (by simp)).2 ⟨⟨3⟩, ⟨3⟩⟩ g rfl path (by decide +kernel) (by decide)⟩

end Service
end TableLineage
