import Mathlib.Data.Set.Insert
import TableLineage.Lineage.Record
import TableLineage.Proofs.KeyMap

/-! Scopes: what the names in sight stand for. Records and key maps are seen as
sets and scopes here, and replacing names one after the other is replacing them
once in a composed scope. -/
namespace TableLineage

/-- The base tables behind every bound name. A name that is not bound is a base table. -/
abbrev Scope := String → Option (Set String)

namespace Scope

def nothing : Scope := fun _ => none

/-- The scope that binds one name. -/
def only (name : String) (tables : Set String) : Scope := fun n => if n = name then some tables else none

/-- The base tables that a name stands for. -/
def tables (ρ : Scope) (name : String) : Set String := (ρ name).getD {name}

/-- The base tables that the names of a set stand for. -/
def image (ρ : Scope) (names : Set String) : Set String := {t | ∃ n ∈ names, t ∈ ρ.tables n}

/-- What an inner scope binds hides the same names of the outer one. -/
def atop (inner outer : Scope) : Scope := fun n => (inner n).or (outer n)

/-- What both bind; the tables behind a name of both unite. -/
def join (a b : Scope) : Scope := fun n => (a n).merge (· ∪ ·) (b n)

/-- A scope whose tables are themselves names of the scope `ρ`. -/
def within (σ ρ : Scope) : Scope := fun n => (σ n).map ρ.image

variable (ρ σ : Scope)

@[simp] theorem tables_nothing (name : String) : nothing.tables name = {name} := rfl

@[simp] theorem image_empty : ρ.image ∅ = ∅ := by
  ext t
  simp [image]

@[simp] theorem image_singleton (name : String) : ρ.image {name} = ρ.tables name := by
  ext t
  simp [image]

@[simp] theorem image_union (s t : Set String) : ρ.image (s ∪ t) = ρ.image s ∪ ρ.image t := by
  ext u
  simp only [image, Set.mem_union, Set.mem_ofPred_eq]
  constructor
  · rintro ⟨n, left | right, behind⟩
    · exact .inl ⟨n, left, behind⟩
    · exact .inr ⟨n, right, behind⟩
  · rintro (⟨n, left, behind⟩ | ⟨n, right, behind⟩)
    · exact ⟨n, .inl left, behind⟩
    · exact ⟨n, .inr right, behind⟩

@[simp] theorem image_nothing (s : Set String) : nothing.image s = s := by
  ext t
  simp [image]

@[simp] theorem atop_nothing : σ.atop nothing = σ := by
  funext n
  simp [atop, nothing]

@[simp] theorem nothing_join : nothing.join σ = σ := by
  funext n
  simp [join, nothing]

@[simp] theorem join_nothing : σ.join nothing = σ := by
  funext n
  simp [join, nothing]

@[simp] theorem within_nothing : σ.within nothing = σ := by
  funext n
  simp only [within]
  cases σ n <;> simp

@[simp] theorem nothing_within : nothing.within ρ = nothing := rfl

@[simp] theorem only_within (name : String) (s : Set String) :
    (only name s).within ρ = only name (ρ.image s) := by
  funext n
  simp only [within, only]
  split <;> rfl

@[simp] theorem join_within (a b : Scope) : (a.join b).within ρ = (a.within ρ).join (b.within ρ) := by
  funext n
  simp only [within, join]
  cases a n <;> cases b n <;> simp

theorem tables_within_atop (name : String) : ((σ.within ρ).atop ρ).tables name = ρ.image (σ.tables name) := by
  simp only [tables, atop, within]
  cases σ name with
  | none => simp [tables]
  | some bound => simp

/-- Replacing names in `σ` and then in `ρ` is replacing them once: the bindings of
`σ`, read in `ρ`, hide those of `ρ`. -/
theorem image_image (s : Set String) : ρ.image (σ.image s) = ((σ.within ρ).atop ρ).image s := by
  ext t
  constructor
  · rintro ⟨n, ⟨m, member, named⟩, behind⟩
    refine ⟨m, member, ?_⟩
    rw [tables_within_atop]
    exact ⟨n, named, behind⟩
  · rintro ⟨m, member, behind⟩
    rw [tables_within_atop] at behind
    obtain ⟨n, named, last⟩ := behind
    exact ⟨n, ⟨m, member, named⟩, last⟩

theorem within_within (τ : Scope) : (τ.within σ).within ρ = τ.within ((σ.within ρ).atop ρ) := by
  funext n
  simp only [within]
  cases τ n with
  | none => rfl
  | some bound => simp only [Option.map_some, image_image]

end Scope

/-- What a query or a statement does: the base tables it reads, and those that feed each
table it writes. -/
@[ext] structure Meaning where
  reads : Set String
  writes : Scope

namespace Meaning

def join (a b : Meaning) : Meaning := ⟨a.reads ∪ b.reads, a.writes.join b.writes⟩

/-- The meaning with its tables taken as names of a scope. -/
def under (m : Meaning) (ρ : Scope) : Meaning := ⟨ρ.image m.reads, m.writes.within ρ⟩

@[simp] theorem under_nothing (m : Meaning) : m.under .nothing = m := by
  simp [under]

theorem under_under (m : Meaning) (σ ρ : Scope) :
    (m.under σ).under ρ = m.under ((σ.within ρ).atop ρ) := by
  simp only [under, Scope.image_image, Scope.within_within]

@[simp] theorem join_under (a b : Meaning) (ρ : Scope) :
    (a.join b).under ρ = (a.under ρ).join (b.under ρ) := by
  simp [under, join]

end Meaning

/-! ### Records as meanings -/

namespace Names

def toSet (ns : Names) : Set String := {n | ns.contains n}

theorem mem_toSet {ns : Names} {n : String} : n ∈ ns.toSet ↔ ns.contains n := .rfl

@[simp] theorem toSet_empty : empty.toSet = ∅ := by
  ext n
  simp [mem_toSet, contains, KeyMap.contains, empty]

@[simp] theorem toSet_single (name : String) : (single name).toSet = {name} := by
  ext n
  simp [mem_toSet, contains, KeyMap.contains, single]

@[simp] theorem toSet_union (a b : Names) : (a.union b).toSet = a.toSet ∪ b.toSet := by
  ext n
  simp only [Set.mem_union, mem_toSet, contains, KeyMap.contains, union, KeyMap.get?_mergeWith]
  cases KeyMap.get? a n <;> cases KeyMap.get? b n <;> simp

theorem mem_foldl_union (sets : List Names) (ns : Names) (n : String) :
    n ∈ (sets.foldl union ns).toSet ↔ n ∈ ns.toSet ∨ ∃ s ∈ sets, n ∈ s.toSet := by
  induction sets generalizing ns with
  | nil => simp
  | cons s rest ih => simp [ih, or_assoc]

@[simp] theorem mem_toSet_unions (sets : List Names) (n : String) :
    n ∈ (unions sets).toSet ↔ ∃ s ∈ sets, n ∈ s.toSet := by
  simp [unions, mem_foldl_union]

theorem toSet_unions_cons (s : Names) (sets : List Names) :
    (unions (s :: sets)).toSet = s.toSet ∪ (unions sets).toSet := by
  ext n
  simp

end Names

/-- The scope that a map from names to sets of tables is. -/
def KeyMap.toScope (m : KeyMap Names) : Scope := fun n => (m.get? n).map Names.toSet

@[simp] theorem KeyMap.toScope_empty : (empty : KeyMap Names).toScope = .nothing := rfl

@[simp] theorem KeyMap.toScope_single (name : String) (ns : Names) :
    (single name ns).toScope = .only name ns.toSet := by
  funext n
  simp only [toScope, get?_single, Scope.only]
  split <;> rfl

@[simp] theorem Names.toSet_resolve (ns : Names) (tables : KeyMap Names) :
    (ns.resolve tables).toSet = tables.toScope.image ns.toSet := by
  ext t
  have behind (n : String) :
      t ∈ ((tables.get? n).getD (single n)).toSet ↔ t ∈ tables.toScope.tables n := by
    simp only [KeyMap.toScope, Scope.tables]
    cases tables.get? n <;> simp
  simp only [resolve, toList, mem_toSet_unions, List.mem_map, KeyMap.mem_keys, Scope.image,
    Set.mem_ofPred_eq]
  constructor
  · rintro ⟨_, ⟨n, member, rfl⟩, found⟩
    exact ⟨n, member, (behind n).1 found⟩
  · rintro ⟨n, member, found⟩
    exact ⟨_, ⟨n, member, rfl⟩, (behind n).2 found⟩

@[simp] theorem KeyMap.toScope_map_resolve (m tables : KeyMap Names) :
    (m.map (·.resolve tables)).toScope = m.toScope.within tables.toScope := by
  funext n
  simp only [toScope, get?_map, Scope.within, Option.map_map]
  cases m.get? n with
  | none => rfl
  | some ns => simp

namespace Record

@[simp] theorem toScope_mergeSinks (a b : KeyMap Names) :
    (mergeSinks a b).toScope = a.toScope.join b.toScope := by
  funext n
  simp only [KeyMap.toScope, mergeSinks, KeyMap.get?_mergeWith, Scope.join]
  cases a.get? n <;> cases b.get? n <;> simp

/-- A record without its context. -/
def meaning (r : Record) : Meaning := ⟨r.sources.toSet, r.sinks.toScope⟩

@[simp] theorem meaning_empty : empty.meaning = ⟨∅, .nothing⟩ := by
  simp [meaning, empty]

@[simp] theorem meaning_reading (ns : Names) : (reading ns).meaning = ⟨ns.toSet, .nothing⟩ := rfl

@[simp] theorem meaning_writing (sink : String) (ns : Names) :
    (writing sink ns).meaning = ⟨ns.toSet, .only sink ns.toSet⟩ := by
  simp [meaning, writing]

@[simp] theorem meaning_merge (a b : Record) : (a.merge b).meaning = a.meaning.join b.meaning := by
  simp [meaning, merge, Meaning.join]

@[simp] theorem meaning_mergeOnlySinks (a b : Record) :
    (a.mergeOnlySinks b).meaning = ⟨a.meaning.reads, a.meaning.writes.join b.meaning.writes⟩ := by
  simp [meaning, mergeOnlySinks]

@[simp] theorem meaning_resolve (r : Record) (tables : KeyMap Names) :
    (r.resolve tables).meaning = r.meaning.under tables.toScope := by
  simp [meaning, resolve, Meaning.under]

@[simp] theorem meaning_withContext (r : Record) (c : Context) : (r.withContext c).meaning = r.meaning := rfl

end Record
end TableLineage
