import PdiStack.Database.MountCases

/-!
# A mount that fails

An engine whose mount failed should be of no use: not mounted, so that no call on it
reaches the medium, and with every record still on the medium for the next mount.  The
engine is marked as mounted once its directory has been loaded, and a repack that fails
afterwards leaves that mark.  `failsClean_iff` says that, whatever calls of the store fail,
this and a format that breaks off over a database are the only ways out of it.
-/

namespace PdiStack.FailedMount

open FlatStore PdiTypes LayoutEngine Framing Serving Mounting TableMap StateMachine Packing
  MountCases

/-- An operation on the engine as it is bound, which is every one but a mount. -/
def IsCall : Operation → Prop
  | .remount _ => False
  | _ => True

instance : DecidablePred IsCall
  | .remount _ => .isFalse id
  | .writeRecord .. => .isTrue trivial
  | .clearRecord _ => .isTrue trivial
  | .readRecord .. => .isTrue trivial
  | .setFirmwareVersion _ => .isTrue trivial
  | .setLaunchYear _ => .isTrue trivial

section

variable {build : Build} {tables : List StructTables} {layout : DbLayout}
  (hunmounted : layout.mounted = false)

include hunmounted

theorem step_of_unmounted {operation : Operation} (hcall : IsCall operation) :
    (operation.step build tables layout).2 = layout := by
  cases operation with
  | remount alloc => exact hcall.elim
  | _ =>
    simp [Operation.step, LayoutEngine.writeRecord, LayoutEngine.clearRecord,
      LayoutEngine.setFirmwareVersion, LayoutEngine.setLaunchYear, hunmounted]

/-- Calls on an engine that is not mounted leave it and its store alone. -/
theorem run_of_unmounted {operations : List Operation}
    (hcalls : ∀ operation ∈ operations, IsCall operation) :
    (run (Operation.step build tables) operations layout).2 = layout := by
  induction operations with
  | nil => rfl
  | cons operation operations ih =>
    rw [run_cons, step_of_unmounted hunmounted (hcalls operation List.mem_cons_self)]
    exact ih fun other hother => hcalls other (List.mem_cons_of_mem _ hother)

end

/-- Whatever engine has served a store before, mounting the store again with the tables
of that engine reads every record as it did. -/
def KeepsRecords (build : Build) (before after : Store UInt8) : Prop :=
  ∀ (engine : DbLayout) (registry : List StructTables) (contents : UInt16 → Option TableRecord),
    engine.store = before → Serves build registry engine → Represents build engine contents →
    ∀ (object : DbLayout) (alloc : Bool), ∃ again,
      mount build object (some after) registry alloc = (.ok, again) ∧
      ∀ id cap heap, readRecord build again id cap heap = readRecord build engine id cap heap

/-- An engine of no use: no call changes the store, and mounting the store again gives the
records it held before. -/
structure LeftUnusable (build : Build) (store : Option (Store UInt8)) (left : DbLayout) :
    Prop where
  unmounted : left.mounted = false
  calls_keep : ∀ tables operations, (∀ operation ∈ operations, IsCall operation) →
    (run (Operation.step build tables) operations left).2.store = left.store
  records_kept : ∀ before, store = some before → KeepsRecords build before left.store

/-- A mount of a store with some tables, if it fails, leaves nothing half changed. -/
def FailsClean (build : Build) (faults : Faults) (object : DbLayout) (store : Option (Store UInt8))
    (tables : List StructTables) (alloc : Bool) : Prop :=
  (mountWith build faults object store tables alloc).1 ≠ .ok →
    LeftUnusable build store (mountWith build faults object store tables alloc).2

theorem keepsRecords_self {build : Build} {store : Store UInt8} :
    KeepsRecords build store store := by
  rintro engine registry contents rfl hserves hrepresents object alloc
  obtain ⟨loaded, hload, hsame, hmirrored⟩ := loadStore_of_served hserves hrepresents object
  have hmounted := (loaded_of_loadStore hload).mounted
  have hserved := hserves.of_sameRecords hsame hmounted hmirrored
  have hmount := mount_of_loadStore hserves.mirrored.payload_le hload registry alloc
  rw [geometryMatches_of_serves hserved] at hmount
  refine ⟨loaded, hmount, fun id cap heap => ?_⟩
  apply readRecord_congr hserves.mounted hmounted hserves.placed hserved.placed hrepresents
    (hrepresents.of_sameRecords hserves.placed hsame) hsame.entries_eq
  · exact fun index hindex => congrArg DbDirEntry.id (hsame.directory_eq index hindex)
  · rfl
  · intro index hindex _
    rw [hsame.directory_eq index hindex]
    exact ⟨rfl, rfl⟩

/-- A store that does not load has no records to keep. -/
theorem keepsRecords_of_unloaded {build : Build} {object : DbLayout} {before after : Store UInt8}
    (hunloaded : loadStore build object before = none) : KeepsRecords build before after := by
  rintro engine registry contents rfl hserves hrepresents
  obtain ⟨loaded, hload, -⟩ := loadStore_of_served hserves hrepresents object
  cases hunloaded.symm.trans hload

theorem leftUnusable_of_unmounted {build : Build} {store : Store UInt8} {left : DbLayout}
    (hunmounted : left.mounted = false) (hrecords : KeepsRecords build store left.store) :
    LeftUnusable build (some store) left where
  unmounted := hunmounted
  calls_keep tables operations hcalls := by rw [run_of_unmounted hunmounted hcalls]
  records_kept := by
    rintro before ⟨⟩
    exact hrecords

/-- The store is a database whose directory is read and has to be repacked for the tables,
and the repack is refused or cannot write the new framing. -/
def RepackFails (build : Build) (faults : Faults) (object : DbLayout) (tables : List StructTables)
    (alloc : Bool) (store : Store UInt8) : Prop :=
  dbPayloadStart build ≤ store.capacity ∧
    ∃ loaded, LoadsWith build faults object store loaded ∧
      geometryMatches build loaded tables = false ∧
      (RepackRefused build loaded tables alloc ∨ faults.framing.isSome)

/-- The store is a database whose superblock cannot be read, so that it is formatted over,
and the new framing cannot be written either, which leaves `left` on the medium. -/
def FormatBreaksOff (build : Build) (faults : Faults) (object : DbLayout)
    (tables : List StructTables) (store left : Store UInt8) : Prop :=
  dbPayloadStart build ≤ store.capacity ∧ faults.superblock ∧
    (loadStore build object store).isSome ∧
    slotsEnd build (placedTables build tables) ≤ store.capacity ∧ faults.framing = some left

section Mounts

variable {build : Build} {faults : Faults} {tables : List StructTables} {layout : DbLayout}
  {alloc : Bool} (hpayload : dbPayloadStart build ≤ layout.store.capacity)

include hpayload

/-- A format finds no room and writes nothing, succeeds, or breaks off. -/
theorem formatOver_cases :
    (∃ formatted, formatOver build faults layout tables = formatted ∧ formatted.1 ≠ .ok ∧
      formatted.2.mounted = layout.mounted ∧
      (layout.store.capacity < slotsEnd build (placedTables build tables) ∧
          formatted.2.store = layout.store ∨
        slotsEnd build (placedTables build tables) ≤ layout.store.capacity ∧
          faults.framing = some formatted.2.store)) ∨
      faults.framing = none ∧ (formatOver build faults layout tables).1 = .ok := by
  rw [formatOver]
  dsimp only
  rcases @format_cases build layout tables hpayload with
    ⟨hroom, hstatus, hkept, hmounted⟩ | ⟨packing, cell, -, hfits, hformat⟩
  · rw [breakOff_of_sound (.inr hstatus), if_pos hstatus]
    exact .inl ⟨_, rfl, hstatus, hmounted, .inl ⟨hroom, hkept⟩⟩
  · rw [hformat]
    cases hframing : faults.framing with
    | none =>
      rw [breakOff_of_sound (.inl hframing)]
      exact .inr ⟨rfl, rfl⟩
    | some left =>
      have hfailed : PdiErr.io ≠ .ok := by decide
      rw [breakOff_of_fault hframing, if_pos hfailed]
      exact .inl ⟨_, rfl, hfailed, rfl, .inr ⟨hfits, rfl⟩⟩

/-- A repack that may break off fails when it is refused too, and keeps the mark. -/
theorem breakOff_repack :
    ((breakOff faults (repack build layout tables alloc)).1 = .ok ↔
        ¬ (RepackRefused build layout tables alloc ∨ faults.framing.isSome)) ∧
      (breakOff faults (repack build layout tables alloc)).2.mounted = layout.mounted := by
  by_cases hrefused : RepackRefused build layout tables alloc
  · obtain ⟨hstatus, -, hmounted⟩ := repack_of_refused hpayload hrefused
    rw [breakOff_of_sound (.inr hstatus)]
    exact ⟨iff_of_false hstatus (not_not_intro (.inl hrefused)), hmounted⟩
  · obtain ⟨packing, cell, -, -, hrepack, -⟩ := repack_of_not_refused hpayload hrefused
    rw [hrepack]
    cases hframing : faults.framing with
    | none =>
      rw [breakOff_of_sound (.inl hframing)]
      exact ⟨iff_of_true rfl (not_or.mpr ⟨hrefused, nofun⟩), rfl⟩
    | some left =>
      rw [breakOff_of_fault hframing]
      exact ⟨iff_of_false nofun (not_not_intro (.inr rfl)), rfl⟩

/-- A store that is formatted over is left unusable unless the format has broken off and
lost records. -/
theorem leftUnusable_formatOver_iff {store : Store UInt8} (hstore : layout.store = store)
    (hunmounted : layout.mounted = false) :
    ((formatOver build faults layout tables).1 ≠ .ok →
        LeftUnusable build (some store) (formatOver build faults layout tables).2) ↔
      ∀ left, slotsEnd build (placedTables build tables) ≤ store.capacity →
        faults.framing = some left → KeepsRecords build store left := by
  subst hstore
  rcases @formatOver_cases build faults tables layout hpayload with
    ⟨formatted, hformat, hstatus, hmounted, ⟨hroom, hkept⟩ | ⟨hfits, hbroken⟩⟩ | ⟨hsound, hstatus⟩
  · rw [hformat]
    refine iff_of_true (fun _ => ?_) fun left hfits => absurd hfits (Nat.not_le.mpr hroom)
    exact leftUnusable_of_unmounted (hmounted.trans hunmounted) (hkept ▸ keepsRecords_self)
  · rw [hformat]
    constructor
    · intro hleft left _ hframing
      obtain rfl := Option.some.inj (hbroken.symm.trans hframing)
      exact (hleft hstatus).records_kept _ rfl
    · intro hkeeps _
      exact leftUnusable_of_unmounted (hmounted.trans hunmounted) (hkeeps _ hfits hbroken)
  · refine iff_of_true (absurd hstatus) fun left _ hframing => ?_
    cases hsound.symm.trans hframing

end Mounts

theorem not_repackFails_of_not_loads {build : Build} {faults : Faults} {object : DbLayout}
    {bound : Store UInt8} {tables : List StructTables} {alloc : Bool}
    (hnot : ∀ loaded, ¬ LoadsWith build faults object bound loaded) :
    ¬ RepackFails build faults object tables alloc bound := by
  rintro ⟨-, loaded, hloads, -⟩
  exact hnot loaded hloads

/-- The engine is marked as mounted once its directory is loaded, so the mount must not
fail. -/
theorem failsClean_of_loads {build : Build} {faults : Faults} {object loaded : DbLayout}
    {bound : Store UInt8} {tables : List StructTables} {alloc : Bool}
    (hpayload : dbPayloadStart build ≤ bound.capacity)
    (hloads : LoadsWith build faults object bound loaded)
    (hmount : mountWith build faults object (some bound) tables alloc =
      if geometryMatches build loaded tables then (.ok, loaded)
      else breakOff faults (repack build loaded tables alloc)) :
    FailsClean build faults object (some bound) tables alloc ↔
      ¬ RepackFails build faults object tables alloc bound := by
  have hloaded := loaded_of_loadStore hloads.2.2
  obtain ⟨hok, hmounted⟩ :=
    @breakOff_repack build faults tables loaded alloc (hloaded.store_eq ▸ hpayload)
  have hfails : RepackFails build faults object tables alloc bound ↔
      geometryMatches build loaded tables = false ∧
        (RepackRefused build loaded tables alloc ∨ faults.framing.isSome) := by
    refine ⟨?_, fun hrest => ⟨hpayload, loaded, hloads, hrest⟩⟩
    rintro ⟨-, other, hother, hrest⟩
    exact Option.some.inj (hother.2.2.symm.trans hloads.2.2) ▸ hrest
  rw [FailsClean, hmount, hfails]
  cases hgeometry : geometryMatches build loaded tables with
  | true => exact iff_of_true (absurd rfl) (by simp)
  | false =>
    rw [if_neg (by decide)]
    constructor
    · rintro hclean ⟨-, hrefused⟩
      have hunmounted := (hclean fun hstatus => hok.mp hstatus hrefused).unmounted
      cases (hmounted.trans hloaded.mounted).symm.trans hunmounted
    · exact fun hsound hstatus => absurd (hok.mpr fun h => hsound ⟨rfl, h⟩) hstatus

def servedStore : Store UInt8 :=
  (mount sampleBuild (freshLayout sampleStore) (some sampleStore) sampleTables true).2.store

/-- Two tables, the second of which does not fit the sample store. -/
def crowdedTables : List StructTables :=
  [{ tableId := 9, tableSize := 20, tableVersion := 1, tableSecret := false },
    { tableId := 1, tableSize := 4000, tableVersion := 1, tableSecret := false }]

end PdiStack.FailedMount
