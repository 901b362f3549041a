import Mathlib
import PdiStack.Core.StateMachine
import PdiStack.Database.LayoutEngine

/-!
# The table registry

The tables of a build register themselves with `Database` when they boot, and the
engine is mounted with the list that comes of it.  `register_table` refuses a table
without an id or without a size, a table whose id another one holds, and a table that
finds the registry full.  `registered_boot` is what a mount may therefore rely on.
-/

namespace PdiStack.TableRegistry

open LayoutEngine StateMachine List

/-- A table descriptor with the instance that registers it, if there is one. -/
structure RegisteredTable where
  table : StructTables
  inst : Option ℕ
deriving DecidableEq, Repr

def registerTable (build : Build) (registry : List RegisteredTable) (entry : RegisteredTable) :
    Bool × List RegisteredTable :=
  if entry.table.tableId = 0 ∨ entry.table.tableSize = 0 then
    (false, registry)
  else
    match registry.findIdx? fun other => other.table.tableId = entry.table.tableId with
    | some index =>
      if entry.inst = none ∨ registry[index]?.bind RegisteredTable.inst ≠ entry.inst then
        (false, registry)
      else (true, registry.set index entry)
    | none =>
      if build.maxTables ≤ registry.length then (false, registry)
      else (true, registry ++ [entry])

/-- A list of tables as the registry hands it to the engine. -/
structure Registered (build : Build) (tables : List StructTables) : Prop where
  nodup : (tables.map StructTables.tableId).Nodup
  length_le : tables.length ≤ build.maxTables
  id_ne : ∀ table ∈ tables, table.tableId ≠ 0
  size_ne : ∀ table ∈ tables, table.tableSize ≠ 0

instance (build : Build) (tables : List StructTables) : Decidable (Registered build tables) :=
  decidable_of_iff
    ((tables.map StructTables.tableId).Nodup ∧ tables.length ≤ build.maxTables ∧
      (∀ table ∈ tables, table.tableId ≠ 0) ∧ ∀ table ∈ tables, table.tableSize ≠ 0)
    ⟨fun ⟨hnodup, hlength, hid, hsize⟩ => ⟨hnodup, hlength, hid, hsize⟩,
      fun ⟨hnodup, hlength, hid, hsize⟩ => ⟨hnodup, hlength, hid, hsize⟩⟩

def tablesOf (registry : List RegisteredTable) : List StructTables :=
  registry.map RegisteredTable.table

theorem registered_registerTable {build : Build} {registry : List RegisteredTable}
    (hregistry : Registered build (tablesOf registry)) {entry : RegisteredTable} :
    Registered build (tablesOf (registerTable build registry entry).2) := by
  unfold registerTable
  split
  · exact hregistry
  case isFalse hvalid =>
    rw [not_or] at hvalid
    split
    case h_1 index hindex =>
      split
      · exact hregistry
      -- The entry takes the place of one with the same id.
      rw [findIdx?_eq_some_iff_getElem] at hindex
      obtain ⟨hlt, hid, -⟩ := hindex
      have hids : (tablesOf (registry.set index entry)).map StructTables.tableId =
          (tablesOf registry).map StructTables.tableId := by
        have hsame : entry.table.tableId = registry[index].table.tableId :=
          (of_decide_eq_true hid).symm
        apply ext_getElem?
        intro other
        by_cases hother : index = other
        · subst hother
          simp [tablesOf, hlt, hsame]
        · simp [tablesOf, getElem?_set_ne hother]
      refine ⟨hids ▸ hregistry.nodup, ?_, fun table htable => ?_, fun table htable => ?_⟩
      · simpa [tablesOf] using hregistry.length_le
      · rw [tablesOf, map_set] at htable
        rcases mem_or_eq_of_mem_set htable with hold | rfl
        · exact hregistry.id_ne table hold
        · exact hvalid.1
      · rw [tablesOf, map_set] at htable
        rcases mem_or_eq_of_mem_set htable with hold | rfl
        · exact hregistry.size_ne table hold
        · exact hvalid.2
    case h_2 hnone =>
      split
      · exact hregistry
      case isFalse hroom =>
        have hfresh : ∀ other ∈ registry, other.table.tableId ≠ entry.table.tableId := by
          simpa [findIdx?_eq_none_iff] using hnone
        have htables : tablesOf (registry ++ [entry]) = tablesOf registry ++ [entry.table] := by
          rw [tablesOf, map_append]
          rfl
        rw [htables]
        refine ⟨?_, ?_, ?_, ?_⟩
        · rw [map_append]
          apply List.Nodup.append hregistry.nodup (nodup_singleton _)
          rw [disjoint_singleton]
          intro hmem
          obtain ⟨table, htable, hid⟩ := mem_map.mp hmem
          obtain ⟨other, hother, rfl⟩ := mem_map.mp htable
          exact hfresh other hother hid
        · have hlength : (tablesOf registry).length = registry.length := length_map _
          rw [length_append, length_singleton]
          omega
        · rw [forall_mem_append, forall_mem_singleton]
          exact ⟨hregistry.id_ne, hvalid.1⟩
        · rw [forall_mem_append, forall_mem_singleton]
          exact ⟨hregistry.size_ne, hvalid.2⟩

/-- Whatever tables boot, in whatever order and however often, the registry holds a
list the engine can rely on. -/
theorem registered_boot (build : Build) (booting : List RegisteredTable) :
    Registered build
      (tablesOf (run (fun registry entry => registerTable build registry entry) booting []).2) :=
  (run_invariant_of_allowed (fun registry => Registered build (tablesOf registry))
    (fun _ => True) (fun _ _ _ hregistry => ⟨registered_registerTable hregistry, trivial⟩)
    booting (allowed_of_forall (fun _ _ => trivial) booting [])
    ⟨nodup_nil, Nat.zero_le _, nofun, nofun⟩).1

end PdiStack.TableRegistry
