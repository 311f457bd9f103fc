import TableLineage.KeyMap

/-! Look-ups of key maps, and membership in sets of names. Every operation is known by what it does to
`get?` or to `contains`, so no proof about maps has to look at their entries again. -/
namespace TableLineage

open List

namespace KeyMap

variable {β γ : Type} {es : List (String × β)} {k : String}

/-- A look-up in the bare entries of a map. -/
def valueAt? (es : List (String × β)) (k : String) : Option β := (es.find? fun e => e.1 == k).map (·.2)

theorem get?_eq_valueAt? (m : KeyMap β) (k : String) : m.get? k = valueAt? m.entries k := rfl

@[simp] theorem valueAt?_nil (k : String) : valueAt? ([] : List (String × β)) k = none := rfl

theorem valueAt?_cons (k' : String) (v : β) (es : List (String × β)) (k : String) :
    valueAt? ((k', v) :: es) k = if k' = k then some v else valueAt? es k := by
  unfold valueAt?
  by_cases same : k' = k <;> simp [same]

theorem valueAt?_eq_none (above : ∀ e ∈ es, k < e.1) : valueAt? es k = none := by
  induction es with
  | nil => rfl
  | cons head rest ih =>
    obtain ⟨k', v⟩ := head
    have less : k < k' := above (k', v) (by simp)
    have different : k' ≠ k := fun same => String.lt_irrefl k (by simpa only [same] using less)
    rw [valueAt?_cons, if_neg different]
    exact ih fun e member => above e (by simp [member])

theorem valueAt?_insertEntry (f : β → β → β) (k : String) (v : β) (sorted : es.Pairwise fun x y => x.1 < y.1)
    (k' : String) :
    valueAt? (insertEntry f k v es) k' = if k' = k then (valueAt? es k).merge f (some v) else valueAt? es k' := by
  induction es with
  | nil =>
    by_cases same : k' = k
    · simp [insertEntry, valueAt?_cons, same]
    · simp [insertEntry, valueAt?_cons, same, Ne.symm same]
  | cons head rest ih =>
    obtain ⟨h, w⟩ := head
    obtain ⟨first, others⟩ := pairwise_cons.1 sorted
    simp only [insertEntry]
    split
    · -- The key stands before all others, so it was not there.
      rename_i less
      have absent : valueAt? ((h, w) :: rest) k = none := by
        refine valueAt?_eq_none fun e member => ?_
        rcases mem_cons.1 member with rfl | old
        · exact less
        · exact String.lt_trans less (first e old)
      rw [absent, valueAt?_cons]
      by_cases same : k' = k
      · simp [same]
      · simp [same, Ne.symm same]
    · split
      · rename_i same
        subst same
        simp only [valueAt?_cons]
        by_cases found : k' = k
        · simp [found]
        · simp [found, Ne.symm found]
      · rename_i _ different
        simp only [valueAt?_cons, ih others, if_neg (Ne.symm different)]
        by_cases found : k' = k
        · simp [found, Ne.symm different]
        · simp [found]

@[simp] theorem get?_empty (k : String) : (empty : KeyMap β).get? k = none := rfl

@[simp] theorem get?_single (k : String) (v : β) (k' : String) :
    (single k v).get? k' = if k' = k then some v else none := by
  rw [get?_eq_valueAt?, single, valueAt?_cons, valueAt?_nil]
  by_cases same : k' = k
  · simp [same]
  · simp [same, Ne.symm same]

theorem get?_insertWith (f : β → β → β) (k : String) (v : β) (m : KeyMap β) (k' : String) :
    (m.insertWith f k v).get? k' = if k' = k then (m.get? k).merge f (some v) else m.get? k' :=
  valueAt?_insertEntry f k v m.sorted k'

theorem get?_foldl_insertWith (f : β → β → β) (es : List (String × β))
    (sorted : es.Pairwise fun x y => x.1 < y.1) (m : KeyMap β) (k : String) :
    (es.foldl (fun m e => m.insertWith f e.1 e.2) m).get? k = (m.get? k).merge f (valueAt? es k) := by
  induction es generalizing m with
  | nil => simp
  | cons head rest ih =>
    obtain ⟨h, w⟩ := head
    obtain ⟨first, others⟩ := pairwise_cons.1 sorted
    rw [foldl_cons, ih others, get?_insertWith, valueAt?_cons]
    by_cases same : k = h
    · subst same
      rw [if_pos rfl, if_pos rfl, valueAt?_eq_none first, Option.merge_none_right]
    · rw [if_neg same, if_neg (Ne.symm same)]

@[simp] theorem get?_mergeWith (f : β → β → β) (a b : KeyMap β) (k : String) :
    (a.mergeWith f b).get? k = (a.get? k).merge f (b.get? k) :=
  get?_foldl_insertWith f b.entries b.sorted a k

@[simp] theorem get?_map (f : β → γ) (m : KeyMap β) (k : String) :
    (m.map f).get? k = (m.get? k).map f := by
  simp only [get?_eq_valueAt?, map]
  induction m.entries with
  | nil => rfl
  | cons head rest ih =>
    obtain ⟨h, w⟩ := head
    rw [map_cons, mapEntry, valueAt?_cons, valueAt?_cons, ih]
    split <;> rfl

theorem mem_keys {m : KeyMap β} : k ∈ m.keys ↔ m.contains k := by
  rw [contains, get?_eq_valueAt?, keys]
  induction m.entries with
  | nil => simp
  | cons head rest ih =>
    obtain ⟨h, w⟩ := head
    rw [map_cons, mem_cons, valueAt?_cons, ih]
    by_cases same : h = k
    · simp [same]
    · simp [same, Ne.symm same]

theorem sorted_keys (m : KeyMap β) : m.keys.Pairwise (· < ·) := pairwise_map.2 m.sorted

theorem get?_filter (keep : String → Bool) (m : KeyMap β) (k : String) :
    (m.filter keep).get? k = if keep k then m.get? k else none := by
  simp only [get?_eq_valueAt?, filter]
  induction m.entries with
  | nil => simp
  | cons head rest ih =>
    obtain ⟨h, w⟩ := head
    rw [filter_cons, valueAt?_cons]
    by_cases same : h = k
    · subst same
      by_cases kept : keep h <;> simp [kept, valueAt?_cons, ih]
    · by_cases kept : keep h <;> simp [kept, same, valueAt?_cons, ih]

theorem entries_eq_of_valueAt? {fs : List (String × β)} (sorted : es.Pairwise fun x y => x.1 < y.1)
    (sorted' : fs.Pairwise fun x y => x.1 < y.1) (same : ∀ k, valueAt? es k = valueAt? fs k) : es = fs := by
  induction es generalizing fs with
  | nil =>
    cases fs with
    | nil => rfl
    | cons head rest =>
      have found := same head.1
      rw [valueAt?_cons, if_pos rfl] at found
      cases found
  | cons e es ih =>
    obtain ⟨k, v⟩ := e
    cases fs with
    | nil =>
      have found := same k
      rw [valueAt?_cons, if_pos rfl] at found
      cases found
    | cons f fs =>
      obtain ⟨k', v'⟩ := f
      obtain ⟨first, others⟩ := pairwise_cons.1 sorted
      obtain ⟨first', others'⟩ := pairwise_cons.1 sorted'
      -- The least key of both is the same: a smaller one would be missing from the other.
      have keys : k = k' := by
        refine Decidable.byContradiction fun different => ?_
        rcases Decidable.em (k < k') with less | notLess
        · have found := same k
          rw [valueAt?_cons, if_pos rfl, valueAt?_cons, if_neg (Ne.symm different),
            valueAt?_eq_none fun e member => String.lt_trans less (first' e member)] at found
          cases found
        · have less := lt_of_not_lt_of_ne notLess different
          have found := same k'
          rw [valueAt?_cons, if_neg different, valueAt?_cons, if_pos rfl,
            valueAt?_eq_none fun e member => String.lt_trans less (first e member)] at found
          cases found
      subst keys
      have values := same k
      rw [valueAt?_cons, if_pos rfl, valueAt?_cons, if_pos rfl] at values
      have rest : es = fs := by
        refine ih others others' fun key => ?_
        by_cases here : k = key
        · subst here
          rw [valueAt?_eq_none first, valueAt?_eq_none first']
        · have found := same key
          rwa [valueAt?_cons, if_neg here, valueAt?_cons, if_neg here] at found
      rw [rest, Option.some.inj values]

theorem mem_entries {m : KeyMap β} {v : β} : (k, v) ∈ m.entries ↔ m.get? k = some v := by
  obtain ⟨entries, sorted⟩ := m
  rw [get?_eq_valueAt?]
  induction entries with
  | nil => simp
  | cons head rest ih =>
    obtain ⟨first, others⟩ := pairwise_cons.1 sorted
    rw [mem_cons, ih others, valueAt?_cons]
    by_cases same : head.1 = k
    · subst same
      have absent := valueAt?_eq_none first
      simp [absent, Prod.ext_iff, @eq_comm _ v]
    · have different : (k, v) ≠ head := by
        intro here
        exact same (congrArg Prod.fst here).symm
      simp [same, different]

/-- Maps with the same look-ups are equal. -/
theorem ext_get? {a b : KeyMap β} (same : ∀ k, a.get? k = b.get? k) : a = b := by
  obtain ⟨es, sorted⟩ := a
  obtain ⟨fs, sorted'⟩ := b
  cases entries_eq_of_valueAt? sorted sorted' same
  rfl

end KeyMap

namespace Names

theorem ext_contains {a b : Names} (same : ∀ n, a.contains n ↔ b.contains n) : a = b := by
  refine KeyMap.ext_get? fun n => ?_
  have there := same n
  rw [contains, contains, KeyMap.contains, KeyMap.contains] at there
  cases left : KeyMap.get? a n <;> cases right : KeyMap.get? b n <;> simp_all

theorem contains_insert (name : String) (ns : Names) (n : String) :
    (ns.insert name).contains n ↔ n = name ∨ ns.contains n := by
  rw [insert, contains, KeyMap.contains, KeyMap.insert, KeyMap.get?_insertWith]
  by_cases same : n = name
  · cases KeyMap.get? ns name <;> simp [same]
  · simp [same, contains, KeyMap.contains]

theorem contains_foldl_insert (names : List String) (ns : Names) (n : String) :
    (names.foldl (fun ns n => ns.insert n) ns).contains n ↔ n ∈ names ∨ ns.contains n := by
  induction names generalizing ns with
  | nil => simp
  | cons name rest ih => rw [foldl_cons, ih, contains_insert, mem_cons, or_left_comm, or_assoc]

theorem not_contains_empty (n : String) : ¬ empty.contains n := Bool.false_ne_true

theorem contains_ofList (names : List String) (n : String) : (ofList names).contains n ↔ n ∈ names := by
  rw [ofList, contains_foldl_insert]
  exact or_iff_left (not_contains_empty n)

@[simp] theorem ofList_toList (ns : Names) : ofList ns.toList = ns := by
  refine ext_contains fun n => ?_
  rw [ofList, contains_foldl_insert, toList, KeyMap.mem_keys]
  simp [contains, KeyMap.contains, empty]

theorem contains_union (a b : Names) (n : String) : (a.union b).contains n ↔ a.contains n ∨ b.contains n := by
  rw [union, contains, KeyMap.contains, KeyMap.get?_mergeWith, contains, contains, KeyMap.contains, KeyMap.contains]
  cases KeyMap.get? a n <;> cases KeyMap.get? b n <;> simp

end Names

end TableLineage
