import TableLineage.Proofs.Format.Json
import TableLineage.Proofs.KeyMap
import TableLineage.Report.Json
import TableLineage.Report.OpenLineage

/-! What can be read from a report in JSON and from its run events, and that both tell the same. -/
namespace TableLineage

open List

namespace JsonValue

/-- The value at the end of a path of names through objects. -/
def at? : List String → JsonValue → Option JsonValue
  | [], v => some v
  | k :: ks, .obj fs => (fs.lookup k).bind (at? ks)
  | _, _ => none

def text? : JsonValue → Option String
  | .str s => some s
  | _ => none

def items? : JsonValue → Option (List JsonValue)
  | .arr vs => some vs
  | _ => none

/-- The names of the tables that are listed in a field. Each of them has to have one. -/
def tables? (k : String) (v : JsonValue) : Option (List String) :=
  ((v.at? [k]).bind items?).bind fun vs => vs.mapM fun t => (t.at? ["name"]).bind text?

theorem sole?_compact {v : JsonValue} {d : Nat} (fits : v.Fits d) (shallow : d ≤ JsonReader.maxDepth) :
    sole? (.ofList v.compact) = some v := by
  rw [compact, ← append_nil (v.text false 0)]
  exact sole?_eq fits shallow false (by simp)

end JsonValue

namespace Report

/-- What is shown of an entry, as a value of its own and as an event for each of its sinks. -/
structure Shows (e : Entry) (v : JsonValue) (events : List JsonValue) : Prop where
  outputs : v.tables? "outputs" = some (e.sinks.map Sink.target)
  inputs : ∃ names, v.tables? "inputs" = some names ∧ names.Pairwise (· < ·) ∧
    ∀ n, n ∈ names ↔ ∃ s ∈ e.sinks, n ∈ s.sources
  nowhere : e.range? = none → v.at? ["sourcePosition"] = some .null
  somewhere : ∀ range, e.range? = some range →
    v.at? ["sourcePosition", "start", "line"] = some (.int range.start.line) ∧
    v.at? ["sourcePosition", "start", "positionInLine"] = some (.int range.start.column) ∧
    v.at? ["sourcePosition", "stop", "line"] = some (.int range.stop.line) ∧
    v.at? ["sourcePosition", "stop", "positionInLine"] = some (.int range.stop.column)
  events : Forall₂ (fun s w => w.tables? "outputs" = some [s.target] ∧ w.tables? "inputs" = some s.sources ∧
    w.at? ["job", "name"] = some (.str (e.sourceName?.getD "stdin"))) e.sinks events

/-- The entry has the outputs of its events and all of their inputs. -/
structure Agrees (v : JsonValue) (events : List JsonValue) : Prop where
  outputs : (events.mapM (JsonValue.tables? "outputs")).map flatten = v.tables? "outputs"
  inputs : ∃ names parts, v.tables? "inputs" = some names ∧ events.mapM (JsonValue.tables? "inputs") = some parts ∧
    ∀ n, n ∈ names ↔ n ∈ parts.flatten

variable {e : Entry} {v : JsonValue} {events : List JsonValue}

theorem mapM_eq_some_of_forall₂ {α β γ : Type} {f : β → Option γ} {g : α → γ} {as : List α} {bs : List β}
    (each : Forall₂ (fun a b => f b = some (g a)) as bs) : bs.mapM f = some (as.map g) := by
  induction each with
  | nil => rfl
  | cons first _ ih => simp [first, ih]

theorem Shows.agrees (shows : Shows e v events) : Agrees v events := by
  refine ⟨?_, ?_⟩
  · have outputs : events.mapM (JsonValue.tables? "outputs") = some (e.sinks.map fun s => [s.target]) :=
      mapM_eq_some_of_forall₂ (shows.events.imp fun _ _ all => all.1)
    rw [outputs, shows.outputs, Option.map_some, ← flatMap_def, map_eq_flatMap]
  · obtain ⟨names, found, _, same⟩ := shows.inputs
    have parts : events.mapM (JsonValue.tables? "inputs") = some (e.sinks.map Sink.sources) :=
      mapM_eq_some_of_forall₂ (shows.events.imp fun _ _ all => all.2.1)
    exact ⟨names, _, found, parts, fun n => by simp [same]⟩

/-! ### Values -/

theorem tables?_field {k : String} {fs : List (String × JsonValue)} {names : List String} {t : String → JsonValue}
    (there : fs.lookup k = some (.arr (names.map t))) (named : ∀ n, (t n).at? ["name"] = some (.str n)) :
    (JsonValue.obj fs).tables? k = some names := by
  have each : Forall₂ (fun n v => (v.at? ["name"]).bind JsonValue.text? = some (id n)) names (names.map t) := by
    simp [forall₂_map_right_iff, named, JsonValue.text?, forall₂_same]
  simp [JsonValue.tables?, JsonValue.at?, there, JsonValue.items?, mapM_eq_some_of_forall₂ each]

theorem fits_toJson (r : Report) : r.toJson.Fits 5 := by
  have point (p : TextPoint) : (pointObject p).Fits 1 := by simp [pointObject, JsonValue.Fits, JsonValue.Fits.int]
  have range (x : Option TextRange) : (rangeValue x).Fits 2 := by
    cases x <;> simp [rangeValue, JsonValue.Fits, point]
  simp [toJson, Entry.toJson, tableObject, JsonValue.Fits, range]

theorem fits_event (s : EventSettings) (e : RunEvent) : (e.toJson s).Fits 3 := by
  simp [RunEvent.toJson, RunEvent.named, JsonValue.Fits]

theorem mem_inputs (n : String) : n ∈ e.inputs.toList ↔ ∃ s ∈ e.sinks, n ∈ s.sources := by
  rw [Names.toList, KeyMap.mem_keys]
  exact (Names.contains_ofList _ n).trans mem_flatMap

/-! ### Events -/

/-- Events for writes, each of which takes the next id. -/
def eventsOf (time : Instant) : IdSource → List (String × Sink) → List RunEvent
  | _, [] => []
  | ids, (job, sink) :: ws => ⟨time, ids.next.1, job, sink.sources, sink.target⟩ :: eventsOf time ids.next.2 ws

theorem events_eq (time : Instant) (ids : IdSource) (r : Report) : r.events time ids = eventsOf time ids r.writes := by
  have go (k : Nat) (ws : List (String × Sink)) :
      ((ws.zipIdx k).map fun w => ⟨time, ids.ahead w.2, w.1.1, w.1.2.sources, w.1.2.target⟩) =
        eventsOf time (ids.skip k) ws := by
    induction ws generalizing k with
    | nil => rfl
    | cons w ws ih =>
      obtain ⟨job, sink⟩ := w
      have id : ids.ahead k = (ids.skip k).next.1 := congrArg RunId.ofNumber (Nat.add_right_comm _ 1 k)
      rw [zipIdx_cons, map_cons, ih]
      dsimp only
      rw [id]
      rfl
  exact go 0 r.writes

theorem eventsOf_append (time : Instant) (ids : IdSource) (ws more : List (String × Sink)) :
    eventsOf time ids (ws ++ more) = eventsOf time ids ws ++ eventsOf time (ids.skip ws.length) more := by
  induction ws generalizing ids with
  | nil => rfl
  | cons w ws ih =>
    have skipped : ids.next.2.skip ws.length = ids.skip (ws.length + 1) :=
      congrArg IdSource.mk (Nat.add_right_comm ids.last 1 ws.length)
    rw [cons_append, eventsOf, ih, skipped]
    rfl

theorem runId_eventsOf (time : Instant) (ids : IdSource) (ws : List (String × Sink)) :
    (eventsOf time ids ws).map RunEvent.runId = (iterate (fun i => i.next.2) ids ws.length).map (·.next.1) := by
  induction ws generalizing ids with
  | nil => rfl
  | cons w ws ih => exact congrArg (ids.next.1 :: ·) (ih ids.next.2)

theorem shows_entry (s : EventSettings) (time : Instant) (ids : IdSource) (e : Entry) :
    Shows e e.toJson ((eventsOf time ids (e.sinks.map (RunEvent.jobOf e, ·))).map (·.toJson s)) := by
  refine ⟨?_, ⟨e.inputs.toList, tables?_field rfl fun n => rfl, KeyMap.sorted_keys _, mem_inputs⟩, ?_, ?_, ?_⟩
  · have same : e.sinks.map (fun s => tableObject s.target) = (e.sinks.map Sink.target).map tableObject := by simp
    rw [Entry.toJson, same]
    exact tables?_field rfl fun n => rfl
  · intro none
    rw [Entry.toJson, none]
    rfl
  · intro range found
    rw [Entry.toJson, found]
    exact ⟨rfl, rfl, rfl, rfl⟩
  · induction e.sinks generalizing ids with
    | nil => exact .nil
    | cons sink sinks ih => exact .cons ⟨rfl, tables?_field rfl fun n => rfl, rfl⟩ (ih ids.next.2)

theorem exists_shown (s : EventSettings) (time : Instant) (ids : IdSource) (es : List Entry) :
    ∃ shown : List (JsonValue × List JsonValue), shown.map (·.1) = es.map Entry.toJson ∧
      shown.flatMap (·.2) = (eventsOf time ids (writes ⟨es⟩)).map (·.toJson s) ∧
      Forall₂ (fun e x => Shows e x.1 x.2 ∧ Agrees x.1 x.2) es shown := by
  induction es generalizing ids with
  | nil => exact ⟨[], rfl, rfl, .nil⟩
  | cons e es ih =>
    obtain ⟨shown, values, events, each⟩ := ih (ids.skip (e.sinks.map (RunEvent.jobOf e, ·)).length)
    have first := shows_entry s time ids e
    refine ⟨(e.toJson, _) :: shown, ?_, ?_, .cons ⟨first, first.agrees⟩ each⟩
    · rw [map_cons, map_cons, values]
    · rw [flatMap_cons, events, ← map_append, ← eventsOf_append]
      rfl

/-- Both renderings of a report are read back, and tell the same. -/
theorem renderings_agree (r : Report) (s : EventSettings) (time : Instant) (ids : IdSource) :
    ∃ (v : JsonValue) (shown : List (JsonValue × List JsonValue)) (lines : List String),
      JsonValue.sole? r.json = some v ∧ v.at? ["lineage"] = some (.arr (shown.map (·.1))) ∧
      r.openLineage s time ids = String.join (lines.map (· ++ "\n")) ∧ (∀ l ∈ lines, JsonValue.OneLine l.toList) ∧
      lines.map JsonValue.sole? = (shown.flatMap (·.2)).map some ∧
      (shown.flatMap (·.2)).map (JsonValue.at? ["run", "runId"]) =
        (iterate (fun i => i.next.2) ids lines.length).map (some <| .str ·.next.1) ∧
      Forall₂ (fun e x => Shows e x.1 x.2 ∧ Agrees x.1 x.2) r.entries shown := by
  obtain ⟨shown, values, events, each⟩ := exists_shown s.orStandard time ids r.entries
  rw [← events_eq] at events
  have fits (e : RunEvent) := fits_event s.orStandard e
  refine ⟨r.toJson, shown, (r.events time ids).map fun e => .ofList (e.toJson s.orStandard).compact, ?_, ?_, ?_, ?_, ?_,
    ?_, each⟩
  · exact JsonValue.sole?_eq (fits_toJson r) (by decide) true (by decide)
  · rw [values]
    rfl
  · rw [openLineage, map_map]
    refine congrArg String.join (map_congr_left fun e _ => ?_)
    simp [JsonValue.line, String.ofList_append]
  · intro l member
    obtain ⟨e, _, rfl⟩ := mem_map.1 member
    rw [String.toList_ofList]
    exact JsonValue.oneLine_text (fits e) 0
  · have sole (e : RunEvent) : JsonValue.sole? (.ofList (e.toJson s.orStandard).compact) =
        some (e.toJson s.orStandard) := JsonValue.sole?_compact (fits e) (by decide)
    simp only [events, map_map, Function.comp_def, sole]
  · have taken := congrArg (map (some <| JsonValue.str ·)) (runId_eventsOf time ids r.writes)
    have size : (r.events time ids).length = r.writes.length := by simp [Report.events]
    rw [← events_eq, map_map, map_map] at taken
    rw [events, length_map, size, map_map]
    exact taken

end Report
end TableLineage
