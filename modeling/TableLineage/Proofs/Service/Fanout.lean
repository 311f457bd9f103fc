import Mathlib.Data.List.Induction
import Mathlib.Data.List.Nodup
import TableLineage.Service.Notifier

/-! What subscribers get from a notifier, whatever the order in which they come, receive and go.
The notifier is followed step by step. A channel gets exactly the notices that are broadcast while
it is subscribed and has room, and nothing that other subscribers do makes a difference to it. -/
namespace TableLineage.Notifier

open List

/-! ### Courses -/

/-- What can be done with a notifier and its channels, each in one step. -/
inductive Step where
  | subscribe
  | unsubscribe (k : Nat)
  | broadcast (e : SavedNotice)
  | receive (k : Nat)
  | count
  deriving DecidableEq

/-- A notifier, and what has been received from each channel so far. -/
structure Course where
  notifier : Notifier
  received : Nat → List SavedNotice

namespace Course

def step (c : Course) : Step → Course
  | .subscribe => { c with notifier := c.notifier.subscribe }
  | .unsubscribe k => { c with notifier := c.notifier.unsubscribe k }
  | .broadcast e => { c with notifier := c.notifier.broadcast e }
  | .receive k =>
    let (e, n) := c.notifier.receive k
    ⟨n, fun j => if j = k then c.received j ++ e.toList else c.received j⟩
  | .count => c

/-- What has been sent to a channel and not yet received. -/
def buffered (c : Course) (k : Nat) : List SavedNotice := ((c.notifier.channels[k]?).map (·.queue)).getD []

/-- All that a channel was given, in the order in which it is received. -/
def stream (c : Course) (k : Nat) : List SavedNotice := c.received k ++ c.buffered k

end Course

/-- What has come of a notifier after some steps. -/
def course (steps : List Step) : Course := steps.foldl Course.step ⟨.empty, fun _ => []⟩

theorem course_append (steps : List Step) (s : Step) : course (steps ++ [s]) = (course steps).step s := by
  rw [course, foldl_append]
  rfl

/-! ### What a history says -/

/-- The steps since channel `k` was subscribed, if it was. -/
def since : Nat → List Step → Option (List Step)
  | _, [] => none
  | 0, .subscribe :: rest => some rest
  | k + 1, .subscribe :: rest => since k rest
  | k, _ :: rest => since k rest

/-- Whether a channel has been subscribed and not yet unsubscribed. -/
def subscribed (k : Nat) (steps : List Step) : Bool :=
  (since k steps).any fun later => !later.contains (.unsubscribe k)

def Step.notice? : Step → Option SavedNotice
  | .broadcast e => some e
  | _ => none

/-- The notices that are broadcast at such moments as `counts` says of the steps before them. -/
def broadcastWhen (counts : List Step → Bool) (steps : List Step) : List SavedNotice :=
  (List.range steps.length).filterMap fun i => if counts (steps.take i) then (steps[i]?).bind Step.notice? else none

/-- A step as one channel sees it. -/
inductive Sight where
  | notice (e : SavedNotice)
  | receipt
  | farewell

def Step.sight? (k : Nat) : Step → Option Sight
  | .broadcast e => some (.notice e)
  | .receive j => if j = k then some .receipt else none
  | .unsubscribe j => if j = k then some .farewell else none
  | _ => none

/-- All that a channel sees from its subscription on. -/
def sights (k : Nat) (steps : List Step) : List Sight := ((since k steps).getD []).filterMap (Step.sight? k)

theorem since_append (k : Nat) (steps : List Step) (s : Step) :
    since k (steps ++ [s]) =
      match since k steps with
      | some later => some (later ++ [s])
      | none => if s = .subscribe ∧ steps.count .subscribe = k then some [] else none := by
  induction steps generalizing k with
  | nil => cases k <;> cases s <;> simp [since]
  | cons head rest ih =>
    cases head with
    | subscribe =>
      cases k with
      | zero => simp [since]
      | succ k => simpa [since] using ih k
    | _ => cases k <;> simpa [since] using ih _

theorem since_isSome (k : Nat) (steps : List Step) : (since k steps).isSome ↔ k < steps.count .subscribe := by
  induction steps generalizing k with
  | nil => cases k <;> simp [since]
  | cons head rest ih =>
    cases head with
    | subscribe =>
      cases k with
      | zero => simp [since]
      | succ k => simpa [since] using ih k
    | _ =>
      rw [count_cons_of_ne (by simp)]
      cases k <;> exact ih _

theorem broadcastWhen_append (counts : List Step → Bool) (steps : List Step) (s : Step) :
    broadcastWhen counts (steps ++ [s]) =
      broadcastWhen counts steps ++ (if counts steps then s.notice? else none).toList := by
  have earlier : ∀ i ∈ List.range steps.length,
      (if counts ((steps ++ [s]).take i) then ((steps ++ [s])[i]?).bind Step.notice? else none) =
        if counts (steps.take i) then (steps[i]?).bind Step.notice? else none := by
    intro i member
    have bound := mem_range.1 member
    rw [take_append_of_le_length (Nat.le_of_lt bound), getElem?_append_left bound]
  rw [broadcastWhen, length_append, length_singleton, range_succ, filterMap_append,
    filterMap_congr earlier, broadcastWhen]
  congr 1
  simp only [filterMap_cons, filterMap_nil, take_left, getElem?_append_right (Nat.le_refl _),
    Nat.sub_self, getElem?_cons_zero, Option.bind_some]
  cases (if counts steps then s.notice? else none) <;> rfl

theorem subscribed_append {k : Nat} {steps : List Step} {s : Step} : subscribed k (steps ++ [s]) ↔
    subscribed k steps ∧ s ≠ .unsubscribe k ∨ s = .subscribe ∧ steps.count .subscribe = k := by
  have known := since_isSome k steps
  rw [subscribed, subscribed, since_append]
  cases found : since k steps with
  | some later =>
    rw [found] at known
    have more : k < steps.count .subscribe := known.1 rfl
    have other : ¬ (s = .subscribe ∧ steps.count .subscribe = k) := by omega
    rw [or_iff_left other]
    simp [@eq_comm _ s]
  | none =>
    by_cases here : s = .subscribe ∧ steps.count .subscribe = k <;> simp [here]

theorem sights_append (k : Nat) (steps : List Step) (s : Step) : sights k (steps ++ [s]) =
    if (since k steps).isSome then sights k steps ++ (s.sight? k).toList else [] := by
  rw [sights, sights, since_append]
  cases since k steps with
  | some later =>
    cases seen : s.sight? k <;> simp [seen]
  | none =>
    by_cases here : s = .subscribe ∧ steps.count .subscribe = k <;> simp [here]

/-! ### Steps of a course -/

/-- No channel is listed twice, so a broadcast reaches each of them once. -/
theorem channels_foldl_send (e : SavedNotice) {listeners : List Nat} (once : listeners.Nodup) (n : Notifier) (k : Nat) :
    (listeners.foldl (send e) n).channels[k]? =
      (n.channels[k]?).map fun c => if k ∈ listeners then c.offer e else c := by
  induction listeners generalizing n with
  | nil => simp
  | cons j rest ih =>
    obtain ⟨absent, once⟩ := nodup_cons.1 once
    rw [foldl_cons, ih once, send, getElem?_modify]
    cases n.channels[k]? with
    | none => rfl
    | some c =>
      by_cases same : j = k
      · subst same
        simp [absent]
      · simp [same, Ne.symm same]

theorem listeners_foldl_send (e : SavedNotice) (listeners : List Nat) (n : Notifier) :
    (listeners.foldl (send e) n).listeners = n.listeners := by
  induction listeners generalizing n with
  | nil => rfl
  | cons j rest ih => exact ih (n.send e j)

theorem isClosed_modify (channels : List Channel) (k : Nat) {f : Channel → Channel}
    (keeps : ∀ c, (f c).isClosed = c.isClosed) :
    (channels.modify k f).map (·.isClosed) = channels.map (·.isClosed) := by
  apply ext_getElem?
  intro j
  simp only [getElem?_map, getElem?_modify]
  cases channels[j]? with
  | none => rfl
  | some c => by_cases same : k = j <;> simp [same, keeps]

theorem isClosed_foldl_send (e : SavedNotice) (listeners : List Nat) (n : Notifier) :
    (listeners.foldl (send e) n).channels.map (·.isClosed) = n.channels.map (·.isClosed) := by
  induction listeners generalizing n with
  | nil => rfl
  | cons j rest ih =>
    rw [foldl_cons, ih, send, isClosed_modify]
    intro c
    rw [Channel.offer]
    split <;> rfl

namespace Course

variable (c : Course) (k : Nat)

theorem buffered_subscribe : (c.step .subscribe).buffered k = c.buffered k := by
  simp only [step, Notifier.subscribe, buffered, getElem?_append]
  split
  · rfl
  · next beyond =>
    rw [getElem?_eq_none (Nat.le_of_not_lt beyond)]
    cases k - c.notifier.channels.length <;> rfl

theorem buffered_unsubscribe (j : Nat) : (c.step (.unsubscribe j)).buffered k = c.buffered k := by
  simp only [step, Notifier.unsubscribe, buffered, getElem?_modify]
  cases c.notifier.channels[k]? with
  | none => rfl
  | some channel => by_cases same : j = k <;> simp [same]

theorem buffered_broadcast (once : c.notifier.listeners.Nodup) (e : SavedNotice)
    (there : k ∈ c.notifier.listeners → k < c.notifier.channels.length) :
    (c.step (.broadcast e)).buffered k =
      if k ∈ c.notifier.listeners ∧ (c.buffered k).length < Channel.room then c.buffered k ++ [e] else c.buffered k := by
  have after : (c.step (.broadcast e)).notifier.channels[k]? =
      (c.notifier.channels[k]?).map fun d => if k ∈ c.notifier.listeners then d.offer e else d :=
    channels_foldl_send e once c.notifier k
  by_cases heard : k ∈ c.notifier.listeners
  · have found := getElem?_eq_getElem (there heard)
    simp only [buffered, after, found, Option.map_some, Option.getD_some, heard, if_true, true_and, Channel.offer]
    split <;> rfl
  · simp [buffered, after, heard]

theorem received_receive (j : Nat) : (c.step (.receive j)).received k =
    if j = k then c.received k ++ (c.buffered k).head?.toList else c.received k := by
  by_cases same : j = k
  · subst same
    simp only [step, Notifier.receive, buffered, if_true]
    cases c.notifier.channels[j]? <;> rfl
  · simp [step, Ne.symm same, same]

theorem buffered_receive (j : Nat) : (c.step (.receive j)).buffered k =
    if j = k then (c.buffered k).tail else c.buffered k := by
  simp only [step, Notifier.receive, buffered, getElem?_modify]
  cases c.notifier.channels[k]? with
  | none => by_cases same : j = k <;> simp [same]
  | some channel => by_cases same : j = k <;> simp [same]

/-- What ties a course to the steps that led to it. -/
structure Follows (steps : List Step) : Prop where
  made : c.notifier.channels.length = steps.count .subscribe
  once : c.notifier.listeners.Nodup
  listening : ∀ k, k ∈ c.notifier.listeners ↔ subscribed k steps
  /-- A channel that is sent to is there, and it is open. -/
  isOpen : ∀ k ∈ c.notifier.listeners, (c.notifier.channels.map (·.isClosed))[k]? = some false
  fits : ∀ k, (c.buffered k).length ≤ Channel.room

variable {c} {k} {steps : List Step}

theorem Follows.lt_length (follows : c.Follows steps) (member : k ∈ c.notifier.listeners) :
    k < c.notifier.channels.length := by
  have found := (List.getElem?_eq_some_iff.1 (follows.isOpen k member)).1
  rwa [length_map] at found

theorem Follows.subscribe (follows : c.Follows steps) : (c.step .subscribe).Follows (steps ++ [.subscribe]) where
  made := by simp [step, Notifier.subscribe, follows.made]
  once := by
    refine nodup_append.2 ⟨follows.once, nodup_singleton _, ?_⟩
    intro j member new fresh same
    have bound := follows.lt_length member
    rw [same, mem_singleton.1 fresh] at bound
    exact Nat.lt_irrefl _ bound
  listening j := by
    rw [subscribed_append, ← follows.listening, ← follows.made]
    simp [step, Notifier.subscribe, @eq_comm _ j]
  isOpen j member := by
    simp only [step, Notifier.subscribe, map_append, mem_append, mem_singleton] at member ⊢
    rcases member with old | rfl
    · rw [getElem?_append_left (by simpa using follows.lt_length old)]
      exact follows.isOpen j old
    · simp
  fits j := by
    rw [buffered_subscribe]
    exact follows.fits j

theorem Follows.unsubscribe (follows : c.Follows steps) (j : Nat) :
    (c.step (.unsubscribe j)).Follows (steps ++ [.unsubscribe j]) where
  made := by simp [step, Notifier.unsubscribe, follows.made]
  once := follows.once.filter _
  listening i := by
    rw [subscribed_append, ← follows.listening]
    simp [step, Notifier.unsubscribe, @eq_comm _ i]
  isOpen i member := by
    obtain ⟨old, other⟩ := mem_filter.1 member
    have different : j ≠ i := by
      intro same
      simp [same] at other
    have isOpen := follows.isOpen i old
    simp only [step, Notifier.unsubscribe, getElem?_map, getElem?_modify, if_neg different] at isOpen ⊢
    simpa using isOpen
  fits i := by
    rw [buffered_unsubscribe]
    exact follows.fits i

/-- All other steps leave alone who is subscribed and what is closed. -/
theorem Follows.kept (follows : c.Follows steps) {c' : Course} {s : Step} (quiet : s ≠ .subscribe)
    (stays : ∀ k, s ≠ .unsubscribe k) (listeners : c'.notifier.listeners = c.notifier.listeners)
    (closed : c'.notifier.channels.map (·.isClosed) = c.notifier.channels.map (·.isClosed))
    (fits : ∀ k, (c'.buffered k).length ≤ Channel.room) : c'.Follows (steps ++ [s]) where
  made := by
    have lengths := congrArg List.length closed
    simp only [length_map] at lengths
    rw [lengths, follows.made, count_append, count_singleton, if_neg (by simpa using quiet)]
    rfl
  once := listeners ▸ follows.once
  listening j := by
    rw [listeners, follows.listening, subscribed_append]
    simp [quiet, stays]
  isOpen j member := by
    rw [listeners] at member
    rw [closed]
    exact follows.isOpen j member
  fits := fits

theorem Follows.step (follows : c.Follows steps) (s : Step) : (c.step s).Follows (steps ++ [s]) := by
  cases s with
  | subscribe => exact follows.subscribe
  | unsubscribe j => exact follows.unsubscribe j
  | count => exact follows.kept (by simp) (by simp) rfl rfl follows.fits
  | receive j =>
    refine follows.kept (by simp) (by simp) rfl (isClosed_modify _ _ fun _ => rfl) fun i => ?_
    have fits := follows.fits i
    rw [buffered_receive]
    split
    · rw [length_tail]
      omega
    · exact fits
  | broadcast e =>
    refine follows.kept (by simp) (by simp) (listeners_foldl_send ..) (isClosed_foldl_send ..) fun i => ?_
    have fits := follows.fits i
    rw [buffered_broadcast c i follows.once e follows.lt_length]
    split
    · rw [length_append, length_singleton]
      omega
    · exact fits

/-- A step gives a channel at most the notice that is broadcast, and that only if the channel is
subscribed and not full. -/
theorem Follows.stream_step (follows : c.Follows steps) (s : Step) : (c.step s).stream k = c.stream k ++
    (if subscribed k steps && (c.buffered k).length != Channel.room then s.notice? else none).toList := by
  have unchanged (quiet : s.notice? = none) (received : (c.step s).received k = c.received k)
      (buffered : (c.step s).buffered k = c.buffered k) : (c.step s).stream k = c.stream k ++
        (if subscribed k steps && (c.buffered k).length != Channel.room then s.notice? else none).toList := by
    rw [stream, received, buffered, quiet, ite_self, Option.toList_none, append_nil, stream]
  cases s with
  | subscribe => exact unchanged rfl rfl (c.buffered_subscribe k)
  | unsubscribe j => exact unchanged rfl rfl (c.buffered_unsubscribe k j)
  | count => exact unchanged rfl rfl rfl
  | receive j =>
    by_cases same : j = k
    · rw [stream, stream, received_receive, buffered_receive, if_pos same, if_pos same]
      cases c.buffered k <;> simp [Step.notice?]
    · exact unchanged rfl ((c.received_receive k j).trans (if_neg same)) ((c.buffered_receive k j).trans (if_neg same))
  | broadcast e =>
    have received : (c.step (.broadcast e)).received k = c.received k := rfl
    rw [stream, stream, received, buffered_broadcast c k follows.once e follows.lt_length]
    have fits := follows.fits k
    by_cases heard : subscribed k steps ∧ (c.buffered k).length ≠ Channel.room
    · have room : (c.buffered k).length < Channel.room := by omega
      rw [if_pos ⟨(follows.listening k).2 heard.1, room⟩, if_pos (by simpa using heard)]
      simp [Step.notice?]
    · have missed : ¬ (k ∈ c.notifier.listeners ∧ (c.buffered k).length < Channel.room) := by
        rw [follows.listening]
        intro ⟨member, room⟩
        exact heard ⟨member, by omega⟩
      rw [if_neg missed, if_neg (by simpa using heard), Option.toList_none, append_nil]

end Course

theorem course_follows (steps : List Step) : (course steps).Follows steps := by
  induction steps using List.reverseRecOn with
  | nil =>
    refine ⟨rfl, .nil, fun k => ?_, fun k member => ?_, fun k => Nat.zero_le _⟩
    · simp [course, empty, subscribed, since]
    · cases member
  | append_singleton steps s ih =>
    rw [course_append]
    exact ih.step s

theorem stream_course (steps : List Step) (k : Nat) : (course steps).stream k =
    broadcastWhen (fun before => subscribed k before && ((course before).buffered k).length != Channel.room) steps := by
  induction steps using List.reverseRecOn with
  | nil => rfl
  | append_singleton steps s ih =>
    rw [course_append, (course_follows steps).stream_step, ih, broadcastWhen_append]

theorem broadcastWhen_sublist {counts further : List Step → Bool} (weaker : ∀ steps, counts steps → further steps)
    (steps : List Step) : (broadcastWhen counts steps).Sublist (broadcastWhen further steps) := by
  induction steps using List.reverseRecOn with
  | nil => exact .slnil
  | append_singleton steps s ih =>
    rw [broadcastWhen_append, broadcastWhen_append]
    refine ih.append ?_
    by_cases now : counts steps
    · rw [if_pos now, if_pos (weaker steps now)]
    · rw [if_neg now]
      exact nil_sublist _

/-! ### One channel by itself -/

/-- A channel with nobody else around. -/
structure Inbox where
  received : List SavedNotice
  buffered : List SavedNotice
  isOpen : Bool

namespace Inbox

def see (i : Inbox) : Sight → Inbox
  | .notice e => if i.isOpen ∧ i.buffered.length < Channel.room then { i with buffered := i.buffered ++ [e] } else i
  | .receipt => { i with received := i.received ++ i.buffered.head?.toList, buffered := i.buffered.tail }
  | .farewell => { i with isOpen := false }

def ofSights (seen : List Sight) : Inbox := seen.foldl see ⟨[], [], true⟩

/-- The channel of a course is what it would be by itself. -/
structure Shows (i : Inbox) (c : Course) (k : Nat) : Prop where
  received : c.received k = i.received
  buffered : c.buffered k = i.buffered
  isOpen : k ∈ c.notifier.listeners ↔ i.isOpen

theorem Shows.step {i : Inbox} {c : Course} {k : Nat} {steps : List Step} (alike : i.Shows c k)
    (follows : c.Follows steps) (made : k < steps.count .subscribe) (s : Step) :
    ((s.sight? k).toList.foldl see i).Shows (c.step s) k := by
  obtain ⟨received, buffered, isOpen⟩ := alike
  cases s with
  | subscribe =>
    refine ⟨received, (c.buffered_subscribe k).trans buffered, ?_⟩
    have old : k ≠ c.notifier.channels.length := by
      rw [follows.made]
      exact Nat.ne_of_lt made
    simpa [Step.sight?, Course.step, Notifier.subscribe, old] using isOpen
  | count => exact ⟨received, buffered, isOpen⟩
  | unsubscribe j =>
    by_cases same : j = k
    · subst same
      refine ⟨?_, ?_, ?_⟩
      · simpa [Step.sight?, see, Course.step] using received
      · simpa [Step.sight?, see, c.buffered_unsubscribe j j] using buffered
      · simp [Step.sight?, see, Course.step, Notifier.unsubscribe]
    · have other : (Step.unsubscribe j).sight? k = none := if_neg same
      rw [other]
      refine ⟨received, (c.buffered_unsubscribe k j).trans buffered, ?_⟩
      simpa [Course.step, Notifier.unsubscribe, Ne.symm same] using isOpen
  | receive j =>
    by_cases same : j = k
    · subst same
      refine ⟨?_, ?_, ?_⟩
      · simp [Step.sight?, see, Course.received_receive, received, buffered]
      · simp [Step.sight?, see, Course.buffered_receive, buffered]
      · simpa [Step.sight?, see, Course.step, Notifier.receive] using isOpen
    · have other : (Step.receive j).sight? k = none := if_neg same
      rw [other]
      exact ⟨(c.received_receive k j).trans (by rwa [if_neg same]),
        (c.buffered_receive k j).trans (by rwa [if_neg same]), isOpen⟩
  | broadcast e =>
    have listeners : (c.step (.broadcast e)).notifier.listeners = c.notifier.listeners := listeners_foldl_send ..
    refine ⟨?_, ?_, ?_⟩
    · change c.received k = (see i (.notice e)).received
      rw [received, see]
      split <;> rfl
    · change _ = (see i (.notice e)).buffered
      rw [Course.buffered_broadcast c k follows.once e follows.lt_length, see, buffered]
      simp only [isOpen]
      split <;> rfl
    · change _ ↔ (see i (.notice e)).isOpen
      rw [listeners, isOpen, see]
      split <;> rfl

end Inbox

/-- Nothing has come to a channel before it is subscribed. -/
theorem stream_eq_nil {k : Nat} (steps : List Step) (early : steps.count .subscribe ≤ k) :
    (course steps).stream k = [] := by
  induction steps using List.reverseRecOn with
  | nil => rfl
  | append_singleton steps s ih =>
    rw [count_append] at early
    have absent : subscribed k steps = false := by
      have unknown : ¬ (since k steps).isSome := by
        rw [since_isSome]
        omega
      rw [subscribed, Option.not_isSome_iff_eq_none.1 unknown]
      rfl
    rw [course_append, (course_follows steps).stream_step, ih (by omega), absent]
    rfl

/-- A channel that has just been subscribed holds nothing, and from then on it is as it would be by
itself. -/
theorem shows_of_subscribed {k : Nat} (steps : List Step) (made : k < steps.count .subscribe) :
    (Inbox.ofSights (sights k steps)).Shows (course steps) k := by
  induction steps using List.reverseRecOn with
  | nil => exact absurd made (Nat.not_lt_zero k)
  | append_singleton steps s ih =>
    rw [course_append, sights_append]
    by_cases before : k < steps.count .subscribe
    · rw [if_pos ((since_isSome k steps).2 before), Inbox.ofSights, foldl_append]
      exact (ih before).step (course_follows steps) before s
    · rw [if_neg fun known => before ((since_isSome k steps).1 known)]
      have early : steps.count .subscribe ≤ k := Nat.le_of_not_lt before
      obtain ⟨rfl⟩ : s = .subscribe := by
        by_contra other
        rw [count_append, count_singleton, if_neg (by simpa using other)] at made
        exact before made
      obtain ⟨received, buffered⟩ := append_eq_nil_iff.1 (stream_eq_nil steps early)
      refine ⟨received, (Course.buffered_subscribe ..).trans buffered, ?_⟩
      rw [count_append, count_singleton_self] at made
      have last : k = (course steps).notifier.channels.length := by
        rw [(course_follows steps).made]
        omega
      simp [Course.step, Notifier.subscribe, Inbox.ofSights, last]

/-- What a channel was given and what is left of it can be told from what the channel sees. -/
theorem inbox_of_sights (k : Nat) (steps : List Step) :
    (course steps).received k = (Inbox.ofSights (sights k steps)).received ∧
      (course steps).buffered k = (Inbox.ofSights (sights k steps)).buffered := by
  by_cases made : k < steps.count .subscribe
  · have shown := shows_of_subscribed steps made
    exact ⟨shown.received, shown.buffered⟩
  · have unknown : since k steps = none := by
      rw [← Option.not_isSome_iff_eq_none, since_isSome]
      exact made
    rw [sights, unknown]
    exact append_eq_nil_iff.1 (stream_eq_nil steps (Nat.le_of_not_lt made))

theorem size_course (steps : List Step) : (course steps).notifier.size =
    ((List.range (steps.count .subscribe)).filter (subscribed · steps)).length := by
  have follows := course_follows steps
  apply List.Perm.length_eq
  rw [perm_ext_iff_of_nodup follows.once (nodup_range.filter _)]
  intro k
  rw [mem_filter, mem_range, ← follows.made, ← follows.listening, and_iff_right_of_imp follows.lt_length]

/-! ### The fan-out -/

/-- Whatever the order of the steps, every channel gets, in the order of the broadcasts, exactly the
notices that are broadcast between its subscription and its end while fewer than eight of them wait
for it. A channel that is sent to is there and open. What a channel gets hangs only on the
broadcasts, its own receipts and its own end, and the notifier counts the channels that are
subscribed and not ended. -/
theorem fan_out (steps : List Step) :
    (∀ k, (course steps).stream k =
        broadcastWhen (fun before => subscribed k before && ((course before).buffered k).length != 8) steps ∧
      ((course steps).stream k).Sublist (broadcastWhen (subscribed k) steps)) ∧
    (∀ k ∈ (course steps).notifier.listeners,
      ((course steps).notifier.channels[k]?).map (·.isClosed) = some false) ∧
    (∀ k k' steps', sights k steps = sights k' steps' →
      (course steps).received k = (course steps').received k' ∧
        (course steps).buffered k = (course steps').buffered k') ∧
    (course steps).notifier.size = ((List.range (steps.count .subscribe)).filter (subscribed · steps)).length := by
  refine ⟨fun k => ⟨stream_course steps k, ?_⟩, ?_, ?_, size_course steps⟩
  · rw [stream_course]
    apply broadcastWhen_sublist
    intro before counted
    exact (Bool.and_eq_true_iff.1 counted).1
  · intro k member
    rw [← List.getElem?_map]
    exact (course_follows steps).isOpen k member
  · intro k k' steps' same
    obtain ⟨received, buffered⟩ := inbox_of_sights k steps
    obtain ⟨received', buffered'⟩ := inbox_of_sights k' steps'
    rw [received, buffered, received', buffered', same]
    exact ⟨rfl, rfl⟩

/-- Two subscribers, nine notices at once and a tenth after a receipt: the first subscriber misses
the ninth and the second, who leaves, the tenth too. The first would have got the same alone. -/
theorem fan_out_full_queue :
    let notices := (List.range 10).map fun i => SavedNotice.mk "run" "nightly" i
    let flood := (notices.take 9).map Step.broadcast
    let steps := [.subscribe, .subscribe] ++ flood ++ [.receive 0, .unsubscribe 1] ++ (notices.drop 9).map .broadcast
    let alone := [.subscribe] ++ flood ++ [.receive 0] ++ (notices.drop 9).map .broadcast
    (course steps).stream 0 = notices.eraseIdx 8 ∧ (course steps).stream 1 = notices.take 8 ∧
      ((course steps).stream 0).Sublist (broadcastWhen (subscribed 0) steps) ∧
      broadcastWhen (subscribed 0) steps = notices ∧
      (0 ∈ (course steps).notifier.listeners ∧
        ((course steps).notifier.channels[0]?).map (·.isClosed) = some false) ∧
      (sights 0 steps = sights 0 alone ∧ (course steps).received 0 = (course alone).received 0 ∧
        (course steps).buffered 0 = (course alone).buffered 0) ∧
      (course steps).notifier.size = 1 := by
  intro notices flood steps alone
  obtain ⟨streams, isOpen, alike, size⟩ := fan_out steps
  have heard : 0 ∈ (course steps).notifier.listeners := by decide
  have seen : sights 0 steps = sights 0 alone := rfl
  refine ⟨by decide, by decide, (streams 0).2, by decide, ⟨heard, isOpen 0 heard⟩, ⟨seen, alike 0 0 alone seen⟩, ?_⟩
  rw [size]
  decide

end TableLineage.Notifier
