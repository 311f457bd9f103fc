import TableLineage.Statement.Outline

/-! Walks with a visitor. A visitor may turn back at any part; what it then misses is cut out of the
full walk, and nothing else changes. -/
namespace TableLineage

open List

variable {os : List Outline}

namespace Outline

/-- Where a part stands in an outline: which of the parts below to take at each step down. -/
abbrev Place := List Nat

/-- A part where it stands. Parts are told apart by their places: equal ones may stand at several. -/
structure Spot where
  place : Place
  mark : Mark
  deriving DecidableEq

/-- The outline at a place. -/
def at? (o : Outline) : Place → Option Outline
  | [] => some o
  | i :: rest => o.children[i]?.bind fun c => c.at? rest

/-- What is done along a walk, with a state that is handed on. -/
structure Visitor (σ : Type) where
  /-- On coming to a part. The answer says whether to go on below it. -/
  enter : Spot → σ → Bool × σ
  /-- On coming back from below a part. -/
  leave : σ → σ

mutual

/-- The walk through an outline that stands at `place`. -/
def walk {σ : Type} (v : Visitor σ) (place : Place) : Outline → σ → σ
  | .node m cs, s =>
    match v.enter ⟨place, m⟩ s with
    | (true, s') => v.leave (walkAll v place 0 cs s')
    | (false, s') => s'

def walkAll {σ : Type} (v : Visitor σ) (place : Place) (i : Nat) : List Outline → σ → σ
  | [], s => s
  | o :: os, s => walkAll v place (i + 1) os (walk v (place ++ [i]) o s)

end

/-! ### Two visitors -/

inductive Step where
  | enter (a : Spot)
  | leave
  deriving DecidableEq

/-- What a step shows of its part. -/
def Step.event : Step → Event
  | .enter a => .enter a.mark
  | .leave => .leave

/-- Writes down every step. It goes on below the parts that `p` does not pick. -/
def inspector (p : Spot → Bool) : Visitor (List Step) where
  enter a log := (!p a, log ++ [.enter a])
  leave log := log ++ [.leave]

/-- Calls back for the parts of the kinds that are `heard`. It turns back in front of the parts that
`p` picks, and coming back from a part it does nothing. -/
def listener (heard : PartKind → Bool) (p : Spot → Bool) : Visitor (List Spot) where
  enter a calls := if p a then (false, calls) else (true, if heard a.mark.kind then calls ++ [a] else calls)
  leave calls := calls

/-- The parts that are entered along a walk. -/
def entered (log : List Step) : List Spot :=
  log.filterMap fun
    | .enter a => some a
    | .leave => none

/-- What is left of a walk if, for each part that `p` picks, all that comes after the step to the part is
cut out, the step back from it included. `depth` parts to be cut are open. -/
def cut (p : Spot → Bool) : Nat → List Step → List Step
  | _, [] => []
  | 0, .enter a :: log => .enter a :: cut p (if p a then 1 else 0) log
  | 0, .leave :: log => .leave :: cut p 0 log
  | depth + 1, .enter _ :: log => cut p (depth + 2) log
  | depth + 1, .leave :: log => cut p depth log

/-- Each step to a part has its step back, and between them come whole parts only. -/
inductive Bracketed : List Step → Prop
  | nil : Bracketed []
  | part (a : Spot) {inner rest : List Step} : Bracketed inner → Bracketed rest →
      Bracketed (.enter a :: (inner ++ .leave :: rest))

/-- Whether `p` picks neither the part nor any that it stands below. -/
def clear (p : Spot → Bool) (spots : List Spot) (a : Spot) : Bool :=
  spots.all fun b => !(b.place.isPrefixOf a.place && p b)

def kept (p : Spot → Bool) (spots : List Spot) : List Spot := spots.filter (clear p spots)

mutual

/-- The steps through an outline that stands at `place`. -/
def steps (p : Spot → Bool) (place : Place) : Outline → List Step
  | .node m cs =>
    if p ⟨place, m⟩ then [.enter ⟨place, m⟩] else .enter ⟨place, m⟩ :: (stepsAll p place 0 cs ++ [.leave])

def stepsAll (p : Spot → Bool) (place : Place) (i : Nat) : List Outline → List Step
  | [] => []
  | o :: os => steps p (place ++ [i]) o ++ stepsAll p place (i + 1) os

end

variable {p : Spot → Bool} {heard : PartKind → Bool} {place : Place} {a : Spot} {l : List Spot} {i : Nat}

/-- The parts of an outline in the order of the walk. -/
abbrev spots (place : Place) (o : Outline) : List Spot := entered (steps (fun _ => false) place o)

abbrev spotsAll (place : Place) (i : Nat) (os : List Outline) : List Spot :=
  entered (stepsAll (fun _ => false) place i os)

theorem spots_node (place : Place) (m : Mark) (cs : List Outline) :
    spots place (.node m cs) = ⟨place, m⟩ :: spotsAll place 0 cs := by
  simp [spots, steps, entered]

theorem spotsAll_cons (place : Place) (i : Nat) (o : Outline) (os : List Outline) :
    spotsAll place i (o :: os) = spots (place ++ [i]) o ++ spotsAll place (i + 1) os := by
  simp [spots, spotsAll, stepsAll, entered]

/-! ### Full walks

Every statement comes twice: of an outline, and of the outlines in a row from the number `i` on. -/

namespace Bracketed

theorem append {log rest : List Step} (first : Bracketed log) (second : Bracketed rest) : Bracketed (log ++ rest) := by
  induction first with
  | nil => exact second
  | part a inner _ _ ih =>
    rw [cons_append, append_assoc, cons_append]
    exact .part a inner ih

/-- Whole parts inside what is cut out are cut out with it. -/
theorem cut_append {log : List Step} (whole : Bracketed log) (p : Spot → Bool) (depth : Nat) (rest : List Step) :
    cut p (depth + 1) (log ++ rest) = cut p (depth + 1) rest := by
  induction whole generalizing depth rest with
  | nil => rfl
  | part a _ _ first second =>
    rw [cons_append, append_assoc, cons_append, cut, first, cut, second]

end Bracketed

mutual

theorem bracketed_steps (place : Place) : (o : Outline) → Bracketed (steps (fun _ => false) place o)
  | .node m cs => .part ⟨place, m⟩ (bracketed_stepsAll place 0 cs) .nil

theorem bracketed_stepsAll (place : Place) (i : Nat) : (os : List Outline) →
    Bracketed (stepsAll (fun _ => false) place i os)
  | [] => .nil
  | o :: os => (bracketed_steps (place ++ [i]) o).append (bracketed_stepsAll place (i + 1) os)

end

mutual

/-- A full walk comes to just the parts of the outline. -/
theorem mem_spots {a : Spot} (place : Place) : (o : Outline) →
    (a ∈ spots place o ↔ ∃ rest part, a.place = place ++ rest ∧ o.at? rest = some part ∧ part.mark = a.mark)
  | .node m cs => by
    rw [spots_node, mem_cons, mem_spotsAll place 0 cs]
    constructor
    · rintro (rfl | ⟨j, rest, part, here, found, same⟩)
      · exact ⟨[], .node m cs, by simp, rfl, rfl⟩
      · exact ⟨j :: rest, part, by simpa using here, found, same⟩
    · rintro ⟨_ | ⟨j, rest⟩, part, here, found, same⟩
      · cases found
        obtain ⟨_, _⟩ := a
        exact .inl (by simp_all [mark])
      · exact .inr ⟨j, rest, part, by simpa using here, found, same⟩

theorem mem_spotsAll {a : Spot} (place : Place) (i : Nat) : (os : List Outline) →
    (a ∈ spotsAll place i os ↔ ∃ j rest part, a.place = place ++ (i + j) :: rest ∧
      (os[j]?.bind fun o => o.at? rest) = some part ∧ part.mark = a.mark)
  | [] => by simp [stepsAll, entered]
  | o :: os => by
    rw [spotsAll_cons, mem_append, mem_spots (place ++ [i]) o, mem_spotsAll place (i + 1) os]
    have next (j : Nat) : i + 1 + j = i + (j + 1) := by omega
    constructor
    · rintro (⟨rest, part, here, found⟩ | ⟨j, rest, part, here, found⟩)
      · exact ⟨0, rest, part, by simpa using here, found⟩
      · exact ⟨j + 1, rest, part, next j ▸ here, found⟩
    · rintro ⟨_ | j, rest, part, here, found⟩
      · exact .inl ⟨rest, part, by simpa using here, found⟩
      · exact .inr ⟨j, rest, part, next j ▸ here, found⟩

end

theorem place_of_mem_spots {o : Outline} (member : a ∈ spots place o) : place <+: a.place := by
  obtain ⟨rest, _, here, _⟩ := (mem_spots place o).1 member
  exact ⟨rest, here.symm⟩

theorem place_of_mem_spotsAll (member : a ∈ spotsAll place i os) : ∃ j rest, i ≤ j ∧ a.place = place ++ j :: rest := by
  obtain ⟨j, rest, _, here, _⟩ := (mem_spotsAll place i os).1 member
  exact ⟨i + j, rest, Nat.le_add_right i j, here⟩

/-- What stands below a part does not stand above it. -/
theorem below_of_mem (member : a ∈ spotsAll place i os) : place <+: a.place ∧ ¬ a.place <+: place := by
  obtain ⟨j, rest, _, here⟩ := place_of_mem_spotsAll member
  refine ⟨⟨j :: rest, here.symm⟩, fun above => ?_⟩
  have shorter := above.length_le
  rw [here, length_append, length_cons] at shorter
  omega

/-- No part stands below one of another outline in the row. -/
theorem apart_of_mem {b : Spot} {o : Outline} (first : a ∈ spots (place ++ [i]) o)
    (later : b ∈ spotsAll place (i + 1) os) : ¬ a.place <+: b.place ∧ ¬ b.place <+: a.place := by
  obtain ⟨rest, here⟩ := place_of_mem_spots first
  obtain ⟨j, rest', less, there⟩ := place_of_mem_spotsAll later
  have different : i ≠ j := by omega
  rw [← here, there, append_assoc, prefix_append_right_inj, prefix_append_right_inj]
  simp [different, different.symm]

mutual

/-- No two steps of a full walk come to the same place. -/
theorem nodup_places (place : Place) : (o : Outline) → ((spots place o).map (·.place)).Nodup
  | .node m cs => by
    rw [spots_node, map_cons, nodup_cons]
    refine ⟨fun top => ?_, nodup_placesAll place 0 cs⟩
    obtain ⟨a, member, same⟩ := mem_map.1 top
    exact (below_of_mem member).2 (same ▸ prefix_rfl)

theorem nodup_placesAll (place : Place) (i : Nat) : (os : List Outline) → ((spotsAll place i os).map (·.place)).Nodup
  | [] => .nil
  | o :: os => by
    rw [spotsAll_cons, map_append, nodup_append]
    refine ⟨nodup_places (place ++ [i]) o, nodup_placesAll place (i + 1) os, ?_⟩
    intro q first q' later same
    obtain ⟨a, member, rfl⟩ := mem_map.1 first
    obtain ⟨b, member', rfl⟩ := mem_map.1 later
    exact (apart_of_mem member member').1 (same ▸ prefix_rfl)

end

/-! ### Pruned walks -/

mutual

theorem walk_inspector (p : Spot → Bool) (place : Place) : (o : Outline) → (log : List Step) →
    o.walk (inspector p) place log = log ++ steps p place o
  | .node m cs, log => by
    by_cases picked : p ⟨place, m⟩
    · simp [walk, inspector, steps, picked]
    · simp only [walk, inspector, steps, picked, Bool.not_false, if_false, Bool.false_eq_true]
      rw [← inspector, walkAll_inspector p place 0 cs]
      simp

theorem walkAll_inspector (p : Spot → Bool) (place : Place) (i : Nat) : (os : List Outline) → (log : List Step) →
    walkAll (inspector p) place i os log = log ++ stepsAll p place i os
  | [], log => by simp [walkAll, stepsAll]
  | o :: os, log => by
    rw [walkAll, walk_inspector p _ o, walkAll_inspector p place (i + 1) os, stepsAll, append_assoc]

end

mutual

/-- The steps of a pruned walk are what is left of the full one. -/
theorem cut_steps (p : Spot → Bool) (place : Place) : (o : Outline) → (rest : List Step) →
    cut p 0 (steps (fun _ => false) place o ++ rest) = steps p place o ++ cut p 0 rest
  | .node m cs, rest => by
    simp only [steps, Bool.false_eq_true, if_false, cons_append, append_assoc, nil_append, cut]
    by_cases picked : p ⟨place, m⟩
    · rw [if_pos picked, if_pos picked, (bracketed_stepsAll place 0 cs).cut_append, cut, singleton_append]
    · rw [if_neg picked, if_neg picked, cut_stepsAll p place 0 cs, cut]
      simp

theorem cut_stepsAll (p : Spot → Bool) (place : Place) (i : Nat) : (os : List Outline) → (rest : List Step) →
    cut p 0 (stepsAll (fun _ => false) place i os ++ rest) = stepsAll p place i os ++ cut p 0 rest
  | [], rest => rfl
  | o :: os, rest => by
    rw [stepsAll, stepsAll, append_assoc, append_assoc, cut_steps p _ o, cut_stepsAll p place (i + 1) os]

end

theorem clear_iff : clear p l a = true ↔ ∀ b ∈ l, b.place <+: a.place → p b = false := by
  simp only [clear, all_eq_true, Bool.not_eq_true', Bool.and_eq_false_imp, isPrefixOf_iff_prefix]

/-- A part that is picked keeps all below it away. -/
theorem kept_cons (below : ∀ b ∈ l, a.place <+: b.place ∧ ¬ b.place <+: a.place) :
    kept p (a :: l) = if p a then [] else a :: kept p l := by
  by_cases picked : p a
  · rw [if_pos picked, kept, filter_eq_nil_iff]
    intro b member free
    have above : a.place <+: b.place := by
      obtain rfl | later := mem_cons.1 member
      · exact prefix_rfl
      · exact (below b later).1
    exact absurd picked (by simp [clear_iff.1 free a mem_cons_self above])
  · rw [if_neg picked, kept, filter_cons_of_pos]
    · congr 1
      refine filter_congr fun b _ => ?_
      rw [Bool.eq_iff_iff, clear_iff, clear_iff, forall_mem_cons]
      exact and_iff_right fun _ => by simpa using picked
    · refine clear_iff.2 (forall_mem_cons.2 ⟨fun _ => by simpa using picked, fun b member above => ?_⟩)
      exact absurd above (below b member).2

/-- Of parts that stand apart, none has a say in the others. -/
theorem kept_append {r : List Spot} (apart : ∀ a ∈ l, ∀ b ∈ r, ¬ a.place <+: b.place ∧ ¬ b.place <+: a.place) :
    kept p (l ++ r) = kept p l ++ kept p r := by
  rw [kept, filter_append, kept, kept]
  congr 1
  · refine filter_congr fun a member => ?_
    rw [Bool.eq_iff_iff, clear_iff, clear_iff, forall_mem_append]
    exact and_iff_left fun b there above => absurd above (apart a member b there).2
  · refine filter_congr fun b member => ?_
    rw [Bool.eq_iff_iff, clear_iff, clear_iff, forall_mem_append]
    exact and_iff_right fun a there above => absurd above (apart a there b member).1

theorem kept_spots_node (p : Spot → Bool) (place : Place) (m : Mark) (cs : List Outline) :
    kept p (spots place (.node m cs)) = if p ⟨place, m⟩ then [] else ⟨place, m⟩ :: kept p (spotsAll place 0 cs) := by
  rw [spots_node, kept_cons fun b member => below_of_mem member]

theorem kept_spotsAll_cons (p : Spot → Bool) (place : Place) (i : Nat) (o : Outline) (os : List Outline) :
    kept p (spotsAll place i (o :: os)) = kept p (spots (place ++ [i]) o) ++ kept p (spotsAll place (i + 1) os) := by
  rw [spotsAll_cons, kept_append fun a first b later => apart_of_mem first later]

mutual

theorem walk_listener (heard : PartKind → Bool) (p : Spot → Bool) (place : Place) : (o : Outline) →
    (calls : List Spot) →
    o.walk (listener heard p) place calls = calls ++ (kept p (spots place o)).filter (heard ·.mark.kind)
  | .node m cs, calls => by
    rw [kept_spots_node]
    by_cases picked : p ⟨place, m⟩
    · simp [walk, listener, picked]
    · simp only [walk, listener, picked, if_false, Bool.false_eq_true]
      rw [← listener, walkAll_listener heard p place 0 cs, filter_cons]
      split <;> simp

theorem walkAll_listener (heard : PartKind → Bool) (p : Spot → Bool) (place : Place) (i : Nat) :
    (os : List Outline) → (calls : List Spot) →
    walkAll (listener heard p) place i os calls = calls ++ (kept p (spotsAll place i os)).filter (heard ·.mark.kind)
  | [], calls => by simp [walkAll, stepsAll, entered, kept]
  | o :: os, calls => by
    rw [walkAll, walk_listener heard p _ o, walkAll_listener heard p place (i + 1) os, kept_spotsAll_cons,
      filter_append, append_assoc]

end

/-! ### Parts picked by their marks -/

mutual

theorem events_eq (prune : Mark → Bool) (place : Place) : (o : Outline) →
    o.events prune = (steps (prune ·.mark) place o).map Step.event
  | .node m cs => by
    rw [events, steps, eventsAll_eq prune place 0 cs]
    split <;> simp [Step.event]

theorem eventsAll_eq (prune : Mark → Bool) (place : Place) (i : Nat) : (os : List Outline) →
    eventsAll prune os = (stepsAll (prune ·.mark) place i os).map Step.event
  | [] => rfl
  | o :: os => by
    rw [eventsAll, stepsAll, map_append, events_eq prune (place ++ [i]) o, eventsAll_eq prune place (i + 1) os]

end

mutual

theorem visits_eq (prune : Mark → Bool) (place : Place) : (o : Outline) →
    o.visits prune = (kept (prune ·.mark) (spots place o)).map (·.mark)
  | .node m cs => by
    rw [visits, kept_spots_node, visitsAll_eq prune place 0 cs]
    split <;> simp

theorem visitsAll_eq (prune : Mark → Bool) (place : Place) (i : Nat) : (os : List Outline) →
    visitsAll prune os = (kept (prune ·.mark) (spotsAll place i os)).map (·.mark)
  | [] => rfl
  | o :: os => by
    rw [visitsAll, kept_spotsAll_cons, map_append, visits_eq prune (place ++ [i]) o,
      visitsAll_eq prune place (i + 1) os]

end

theorem visitsAll_append (prune : Mark → Bool) (os ps : List Outline) :
    visitsAll prune (os ++ ps) = visitsAll prune os ++ visitsAll prune ps := by
  induction os with
  | nil => rfl
  | cons o os ih => simp [visitsAll, ih]

end Outline

/-! ### The parts of a phrase -/

/-- The ranges of all parts of a phrase, its own first, then field by field. -/
def Phrase.spans {c : Category} : Phrase c → List Span
  | .none | .nil | .hole => []
  | .some x | .select x | .overWindow x => x.spans
  | .cons x xs => x.spans ++ xs.spans
  | .table t => [t.span]
  | .createTable s .. | .alterRename s .. | .drop s .. | .star s .. | .overName s .. | .joinUsing s ..
  | .constant s .. => [s]
  | .createTableAs s _ _ _ _ _ x | .createView s _ _ _ _ _ x | .withs s _ x | .cte s _ _ x | .values s x | .nested s x
  | .labelled s x _ | .sort s x | .sortItem s x _ _ | .windowDef s _ x | .sources s x | .subquery s x _
  | .parens s x _ | .crossJoin s x | .joinOn s x | .unary s _ x | .inValues s x | .inQuery s x
  | .quantifiedQuery s _ x | .quantifiedExpr s _ x | .collate s x _ | .cast s x _ | .nonempty s x | .column s _ _ x
  | .row s x | .special s _ x => s :: x.spans
  | .combine s _ _ x y | .sourceItem s x y | .qualifiedJoin s _ _ _ x y | .binary s x _ y | .within s x y _
  | .scalar s x _ y | .when s x y => s :: (x.spans ++ y.spans)
  | .between s x y z _ _ | .like s x y _ _ z | .choice s x y z => s :: (x.spans ++ y.spans ++ z.spans)
  | .insert s w t q _ => s :: (w.spans ++ t.span :: q.spans)
  | .delete s w t us f => s :: (w.spans ++ t.span :: (us.spans ++ f.spans))
  | .query s w b o l f => s :: (w.spans ++ b.spans ++ o.spans ++ l.spans ++ f.spans)
  | .core s _ on top ts into src f g h q ws =>
    s :: (on.spans ++ top.spans ++ ts.spans ++ into.toList.map (·.span) ++ src.spans ++ f.spans ++ g.spans ++
      h.spans ++ q.spans ++ ws.spans)
  | .window s _ p o f => s :: (p.spans ++ o.spans ++ f.toList.map (·.span))
  | .call s _ xs _ _ _ _ o g f v => s :: (xs.spans ++ o.spans ++ g.spans ++ f.spans ++ v.spans)

namespace Outline

/-- A full walk through outlines in a row meets parts of these ranges. -/
def Shows (os : List Outline) (spans : List Span) : Prop := (visitsAll (fun _ => false) os).map (·.span) = spans

namespace Shows

variable {ps : List Outline} {l r : List Span}

theorem nil : Shows [] [] := rfl

theorem append (first : Shows os l) (second : Shows ps r) : Shows (os ++ ps) (l ++ r) := by
  rw [Shows, visitsAll_append, map_append, first, second]

theorem node (m : Mark) (inner : Shows os l) : Shows [.node m os] (m.span :: l) := by
  simpa [Shows, visitsAll, visits] using inner

end Shows
end Outline

namespace Outline

end Outline
end TableLineage
