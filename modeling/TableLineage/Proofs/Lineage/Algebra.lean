import TableLineage.Proofs.Lineage.Scope

/-! The algebra of records. But for their contexts, records are told apart by their meanings, so
merging and replacing have the laws of sets and scopes. -/
namespace TableLineage

/-! ### Scopes -/

namespace Scope

variable (ρ σ τ : Scope)

theorem join_assoc : (ρ.join σ).join τ = ρ.join (σ.join τ) := by
  funext n
  simp only [join]
  cases ρ n <;> cases σ n <;> cases τ n <;> simp [Set.union_assoc]

theorem join_comm : ρ.join σ = σ.join ρ := by
  funext n
  simp only [join]
  cases ρ n <;> cases σ n <;> simp [Set.union_comm]

@[simp] theorem join_self : ρ.join ρ = ρ := by
  funext n
  simp only [join]
  cases ρ n <;> simp

variable {ρ}

/-- Where the tables behind names are no names themselves, replacing them again changes nothing. -/
theorem within_self_atop (settled : ∀ n s, ρ n = some s → ∀ m ∈ s, ρ m = none) : (ρ.within ρ).atop ρ = ρ := by
  funext n
  simp only [atop, within]
  cases bound : ρ n with
  | none => rfl
  | some s =>
    have base : ∀ m ∈ s, ρ.tables m = {m} := by
      intro m member
      rw [tables, settled n s bound m member, Option.getD_none]
    have same : ρ.image s = s := by
      ext t
      constructor
      · rintro ⟨m, member, behind⟩
        rw [base m member] at behind
        exact behind ▸ member
      · intro member
        exact ⟨t, member, by simp [base t member]⟩
    rw [Option.map_some, same, Option.some_or]

end Scope

/-! ### Maps and records -/

theorem Names.toSet_injective : Function.Injective toSet :=
  fun _ _ same => ext_contains (Set.ext_iff.1 same)

namespace KeyMap

theorem toScope_injective : Function.Injective toScope := by
  intro a b same
  refine ext_get? fun n => ?_
  exact Option.map_injective Names.toSet_injective (congrFun same n)

/-- Two replacements as one: what stands for a name of the first is replaced by the second, and the
other names of the second keep what they stand for. -/
def andThen (first second : KeyMap Names) : KeyMap Names :=
  (first.map (·.resolve second)).mergeWith (fun bound _ => bound) second

@[simp] theorem get?_andThen (first second : KeyMap Names) (n : String) :
    (first.andThen second).get? n = ((first.get? n).map (·.resolve second)).or (second.get? n) := by
  rw [andThen, get?_mergeWith, get?_map]
  cases first.get? n <;> cases second.get? n <;> rfl

@[simp] theorem toScope_andThen (first second : KeyMap Names) :
    (first.andThen second).toScope = (first.toScope.within second.toScope).atop second.toScope := by
  funext n
  rw [toScope, get?_andThen, Scope.atop, ← toScope_map_resolve, toScope, get?_map, toScope]
  cases first.get? n <;> rfl

/-- No name of the map is among the tables that names of the map stand for. -/
def Settled (tables : KeyMap Names) : Prop := ∀ e ∈ tables.entries, ∀ m ∈ e.2.toList, tables.contains m = false

instance (tables : KeyMap Names) : Decidable tables.Settled := by
  unfold Settled
  infer_instance

theorem Settled.toScope_eq_none {tables : KeyMap Names} (settled : tables.Settled) :
    ∀ n s, tables.toScope n = some s → ∀ m ∈ s, tables.toScope m = none := by
  intro n s bound m member
  obtain ⟨ns, found, rfl⟩ := Option.map_eq_some_iff.1 bound
  have absent : tables.get? m = none := by
    simpa [contains] using settled (n, ns) (mem_entries.2 found) m (mem_keys.2 member)
  rw [toScope, absent, Option.map_none]

end KeyMap

namespace Record

/-- The meaning leaves nothing out but the context. -/
theorem ext_meaning {a b : Record} (tables : a.meaning = b.meaning) (context : a.context = b.context) : a = b := by
  obtain ⟨sinks, sources, c⟩ := a
  obtain ⟨sinks', sources', c'⟩ := b
  obtain ⟨reads, writes⟩ := Meaning.mk.inj tables
  cases Names.toSet_injective reads
  cases KeyMap.toScope_injective writes
  cases context
  rfl

end Record

/-- Up to contexts, merging is associative, commutative and idempotent, and the empty record adds
nothing. Replacing names goes through merging, of sinks only as well. Two replacements are one, and a
replacement whose tables are no names of its own is done once for all. -/
theorem records_algebra (a b c : Record) (first second : KeyMap Names) :
    (a.merge b).merge c = a.merge (b.merge c) ∧
    a.merge b = { b.merge a with context := a.context } ∧
    a.merge a = a ∧
    a.merge .empty = a ∧ Record.empty.merge a = { a with context := none } ∧
    (a.merge b).resolve first = (a.resolve first).merge (b.resolve first) ∧
    (a.mergeOnlySinks b).resolve first = (a.resolve first).mergeOnlySinks (b.resolve first) ∧
    (a.resolve first).resolve second = a.resolve (first.andThen second) ∧
    (first.Settled → (a.resolve first).resolve first = a.resolve first) := by
  refine ⟨?_, ?_, ?_, ?_, ?_, ?_, ?_, ?_, fun settled => ?_⟩ <;> refine Record.ext_meaning ?_ rfl
  · simp [Meaning.join, Set.union_assoc, Scope.join_assoc]
  · change _ = (b.merge a).meaning
    simp [Meaning.join, Set.union_comm, Scope.join_comm]
  · simp [Meaning.join]
  · simp [Meaning.join]
  · change _ = a.meaning
    simp [Meaning.join]
  · simp
  · simp [Meaning.under]
  · simp [Meaning.under_under]
  · simp [Meaning.under_under, Scope.within_self_atop settled.toScope_eq_none]

/-- One name stands for no table at all, and the tables behind the other are no names. -/
theorem records_algebra_of_settled_tables :
    let tables := (KeyMap.single "c" Names.empty).insert "d" (.ofList ["a", "b"])
    let record := (Record.writing "t" (.ofList ["c", "d", "x"])).mergeOnlySinks (.writing "c" .empty)
    tables.Settled ∧ (record.resolve tables).resolve tables = record.resolve tables ∧
      (record.resolve tables).sources = .ofList ["a", "b", "x"] := by
  intro tables record
  have settled : tables.Settled := by decide +kernel
  exact ⟨settled, (records_algebra record .empty .empty tables .empty).2.2.2.2.2.2.2.2 settled, rfl⟩

end TableLineage
