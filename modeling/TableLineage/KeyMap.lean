/-! Maps from names to values, kept in the order of the names. There is one
representation for each map, so two maps with the same look-ups are equal. Sets of names
are maps without values. -/
namespace TableLineage

structure KeyMap (β : Type) where
  entries : List (String × β)
  sorted : entries.Pairwise fun x y => x.1 < y.1

namespace KeyMap

variable {β γ : Type}

theorem lt_of_not_lt_of_ne {a b : String} (notLess : ¬ a < b) (different : a ≠ b) : b < a :=
  Decidable.byContradiction fun notGreater => different (String.le_antisymm notGreater notLess)

/-- Puts a value under a key; if there is one already, both are combined. -/
def insertEntry (f : β → β → β) (k : String) (v : β) : List (String × β) → List (String × β)
  | [] => [(k, v)]
  | (k', v') :: rest =>
    if k < k' then (k, v) :: (k', v') :: rest
    else if k = k' then (k', f v' v) :: rest
    else (k', v') :: insertEntry f k v rest

theorem key_of_mem_insertEntry {f : β → β → β} {k : String} {v : β} {es : List (String × β)} {e : String × β}
    (member : e ∈ insertEntry f k v es) : e.1 = k ∨ ∃ e' ∈ es, e'.1 = e.1 := by
  induction es with
  | nil => simp [insertEntry] at member; simp [member]
  | cons head rest ih =>
    obtain ⟨k', v'⟩ := head
    simp only [insertEntry] at member
    split at member
    · rcases List.mem_cons.1 member with rfl | old
      · exact .inl rfl
      · exact .inr ⟨e, old, rfl⟩
    · split at member
      · rcases List.mem_cons.1 member with rfl | old
        · exact .inr ⟨(k', v'), by simp, rfl⟩
        · exact .inr ⟨e, by simp [old], rfl⟩
      · rcases List.mem_cons.1 member with rfl | old
        · exact .inr ⟨(k', v'), by simp, rfl⟩
        · rcases ih old with same | ⟨e', there, same⟩
          · exact .inl same
          · exact .inr ⟨e', by simp [there], same⟩

theorem sorted_insertEntry (f : β → β → β) (k : String) (v : β) {es : List (String × β)}
    (sorted : es.Pairwise fun x y => x.1 < y.1) :
    (insertEntry f k v es).Pairwise fun x y => x.1 < y.1 := by
  induction es with
  | nil => simp [insertEntry]
  | cons head rest ih =>
    obtain ⟨k', v'⟩ := head
    obtain ⟨first, others⟩ := List.pairwise_cons.1 sorted
    simp only [insertEntry]
    split
    · rename_i less
      refine List.pairwise_cons.2 ⟨fun e member => ?_, sorted⟩
      rcases List.mem_cons.1 member with rfl | old
      · exact less
      · exact String.lt_trans less (first e old)
    · split
      · exact List.pairwise_cons.2 ⟨first, others⟩
      · rename_i notLess different
        refine List.pairwise_cons.2 ⟨fun e member => ?_, ih others⟩
        rcases key_of_mem_insertEntry member with same | ⟨e', old, same⟩
        · exact same ▸ lt_of_not_lt_of_ne notLess different
        · exact same ▸ first e' old

def empty : KeyMap β := ⟨[], .nil⟩

instance : Inhabited (KeyMap β) := ⟨empty⟩

def insertWith (f : β → β → β) (k : String) (v : β) (m : KeyMap β) : KeyMap β :=
  ⟨insertEntry f k v m.entries, sorted_insertEntry f k v m.sorted⟩

def insert (k : String) (v : β) (m : KeyMap β) : KeyMap β := m.insertWith (fun _ new => new) k v

def single (k : String) (v : β) : KeyMap β := ⟨[(k, v)], by simp⟩

def get? (m : KeyMap β) (k : String) : Option β := (m.entries.find? fun e => e.1 == k).map (·.2)

def contains (m : KeyMap β) (k : String) : Bool := (m.get? k).isSome

def keys (m : KeyMap β) : List String := m.entries.map (·.1)

def size (m : KeyMap β) : Nat := m.entries.length

def isEmpty (m : KeyMap β) : Bool := m.entries.isEmpty

def mergeWith (f : β → β → β) (a b : KeyMap β) : KeyMap β :=
  b.entries.foldl (fun m e => m.insertWith f e.1 e.2) a

def mapEntry (f : β → γ) (e : String × β) : String × γ := (e.1, f e.2)

def map (f : β → γ) (m : KeyMap β) : KeyMap γ :=
  ⟨m.entries.map (mapEntry f), by simpa [List.pairwise_map, mapEntry] using m.sorted⟩

def filter (keep : String → Bool) (m : KeyMap β) : KeyMap β :=
  ⟨m.entries.filter fun e => keep e.1, m.sorted.filter _⟩

def filterEntries (keep : String → β → Bool) (m : KeyMap β) : KeyMap β :=
  ⟨m.entries.filter fun e => keep e.1 e.2, m.sorted.filter _⟩

def ofList (es : List (String × β)) : KeyMap β := es.foldl (fun m e => m.insert e.1 e.2) empty

end KeyMap

abbrev Names := KeyMap Unit

namespace Names

def empty : Names := KeyMap.empty

def single (name : String) : Names := KeyMap.single name ()

def insert (name : String) (ns : Names) : Names := KeyMap.insert name () ns

def union (a b : Names) : Names := KeyMap.mergeWith (fun _ _ => ()) a b

def ofList (names : List String) : Names := names.foldl (fun ns n => ns.insert n) empty

def unions (sets : List Names) : Names := sets.foldl union empty

def toList (ns : Names) : List String := KeyMap.keys ns

def contains (ns : Names) (name : String) : Bool := KeyMap.contains ns name

def resolve (ns : Names) (tables : KeyMap Names) : Names :=
  unions (ns.toList.map fun n => (tables.get? n).getD (single n))

end Names

end TableLineage
