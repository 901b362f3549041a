import PdiStack.Database.FailedMount
import PdiStack.Database.TableRegistry

/-!
# Sealing the secret tables

In a build with sealing the record of a secret table is stored encrypted, and the
flag in its directory entry decides whether a write seals.  A mount that packs the
directory sets the flags as the tables declare them.  A mount that finds the geometry
unchanged keeps the flags of the medium, and the geometry of a table is its slot size
alone: a plain table has the slot of a secret one that is smaller by the seal.
-/

namespace PdiStack.SealedTables

open FlatStore PdiTypes LayoutEngine Framing Records Serving Packing Mounting Migration TableMap
  StateMachine MountCases FailedMount TableRegistry List

/-- The same slots under the same ids with the same flags, in a store of the same
size. -/
structure SameSlots (layout other : DbLayout) : Prop where
  capacity_eq : other.store.capacity = layout.store.capacity
  entries_eq : other.entries = layout.entries
  placement : ∀ index, SamePlacement (layout.directory index) (other.directory index)

theorem samePlacement_refl {entry : DbDirEntry} : SamePlacement entry entry := ⟨rfl, rfl, rfl, rfl⟩

variable {build : Build} {other : DbLayout} {tables : List StructTables} {table : StructTables}
  (layout : DbLayout)

theorem SameSlots.refl : SameSlots layout layout :=
  ⟨rfl, rfl, fun _ => samePlacement_refl⟩

theorem SameSlots.trans {first second third : DbLayout} (hfirst : SameSlots first second)
    (hsecond : SameSlots second third) : SameSlots first third where
  capacity_eq := hsecond.capacity_eq.trans hfirst.capacity_eq
  entries_eq := hsecond.entries_eq.trans hfirst.entries_eq
  placement index :=
    { id_eq := (hsecond.placement index).id_eq.trans (hfirst.placement index).id_eq
      offset_eq := (hsecond.placement index).offset_eq.trans (hfirst.placement index).offset_eq
      cap_eq := (hsecond.placement index).cap_eq.trans (hfirst.placement index).cap_eq
      flags_eq := (hsecond.placement index).flags_eq.trans (hfirst.placement index).flags_eq }

/-- Replacing the record of an entry, and whatever else is not in the directory. -/
theorem sameSlots_withEntry {layout : DbLayout} {index : ℕ} {entry : DbDirEntry}
    (hcapacity : other.store.capacity = layout.store.capacity)
    (hentries : other.entries = layout.entries)
    (hdirectory : other.directory = Function.update layout.directory index entry)
    (hentry : SamePlacement (layout.directory index) entry) : SameSlots layout other where
  capacity_eq := hcapacity
  entries_eq := hentries
  placement := by
    rw [hdirectory]
    exact samePlacement_update hentry

theorem sameSlots_writeEntry {index : ℕ} : SameSlots layout (writeEntry layout index).2 := by
  unfold writeEntry
  split
  · exact .refl layout
  case h_2 hwrite =>
    exact ⟨Store.capacity_of_write hwrite, rfl, fun _ => samePlacement_refl⟩

theorem sameSlots_writeSuperblock : SameSlots layout (writeSuperblock layout).2 := by
  unfold writeSuperblock
  dsimp only
  split
  · exact .refl layout
  case h_2 hwrite =>
    exact ⟨Store.capacity_of_write hwrite, rfl, fun _ => samePlacement_refl⟩

theorem capacity_sealChunks (build : Build) (fuel : ℕ) :
    ∀ (payload : List UInt8) (target : ℕ) (ctx : Aes.AesCtx) (message : List UInt8)
      (store : Store UInt8),
      (sealChunks build fuel payload target ctx message store).2.2.capacity = store.capacity := by
  induction fuel with
  | zero => exact fun _ _ _ _ _ => rfl
  | succ fuel ih =>
    intro payload target ctx message store
    rw [sealChunks]
    split
    · rfl
    dsimp only
    split
    · rfl
    case h_2 hwrite => exact (ih _ _ _ _ _).trans (Store.capacity_of_write hwrite)

section

variable (build) (index : ℕ) (payload : List UInt8) (alloc : Bool) (draws : Fin 4 → UInt32)

theorem sameSlots_sealRecord :
    SameSlots layout (sealRecord build layout index payload alloc draws).2 := by
  unfold sealRecord
  split
  · exact .refl layout
  case h_2 key _ =>
  split
  case isFalse => exact .refl layout
  dsimp only
  split
  · exact .refl layout
  case h_2 nonced hnonce =>
    have hchunks := capacity_sealChunks build payload.length payload
      ((layout.directory index).offset.toNat + dbSealIvBytes) { key := key, iv := sealIv draws }
      (sealIv draws) nonced
    rw [Store.capacity_of_write hnonce] at hchunks
    split
    case h_1 hsealed =>
      rw [hsealed] at hchunks
      split
      · exact ⟨hchunks, rfl, fun _ => samePlacement_refl⟩
      case h_2 htag =>
        exact sameSlots_withEntry ((Store.capacity_of_write htag).trans hchunks) rfl rfl
          ⟨rfl, rfl, rfl, rfl⟩
    case h_2 hsealed =>
      rw [hsealed] at hchunks
      exact ⟨hchunks, rfl, fun _ => samePlacement_refl⟩

theorem sameSlots_storePayload :
    SameSlots layout (storePayload build layout index payload alloc draws).2 := by
  unfold storePayload
  dsimp only
  split
  · exact sameSlots_sealRecord build layout index payload alloc draws
  split
  · exact .refl layout
  case h_2 hwrite =>
    exact sameSlots_withEntry (Store.capacity_of_write hwrite) rfl rfl ⟨rfl, rfl, rfl, rfl⟩

end

theorem sameSlots_writeRecord {build : Build} {layout : DbLayout} {id : UInt16}
    {payload : Payload} {version : UInt16} {alloc : Bool} {draws : Fin 4 → UInt32} :
    SameSlots layout (LayoutEngine.writeRecord build layout id payload version alloc draws).2 := by
  unfold LayoutEngine.writeRecord
  split
  case isFalse => exact .refl layout
  split
  · exact .refl layout
  case h_2 index _ =>
    by_cases hroom : payload.bytes.length +
        (if (layout.directory index).sealed then dbSealOverhead else 0) >
          (layout.directory index).cap.toNat
    · rw [if_pos hroom]
      exact .refl layout
    rw [if_neg hroom]
    have hstored := sameSlots_storePayload build layout index payload.bytes alloc draws
    split
    case h_1 stored hstore =>
      rw [hstore] at hstored
      refine hstored.trans (SameSlots.trans ?_ (sameSlots_writeEntry _))
      exact sameSlots_withEntry rfl rfl rfl ⟨rfl, rfl, rfl, rfl⟩
    · exact hstored

/-- A call changes records, never slots. -/
theorem sameSlots_step {operation : Operation} (hcall : IsCall operation) :
    SameSlots layout (operation.step build tables layout).2 := by
  cases operation with
  | writeRecord id payload version alloc draws =>
    exact sameSlots_writeRecord
  | clearRecord id =>
    simp only [Operation.step, LayoutEngine.clearRecord]
    split
    case isFalse => exact .refl layout
    split
    · exact .refl layout
    · refine SameSlots.trans ?_ (sameSlots_writeEntry _)
      exact sameSlots_withEntry rfl rfl rfl ⟨rfl, rfl, rfl, rfl⟩
  | readRecord id cap alloc => exact .refl layout
  | setFirmwareVersion setting | setLaunchYear setting =>
    simp only [Operation.step, LayoutEngine.setFirmwareVersion, LayoutEngine.setLaunchYear]
    split
    · refine SameSlots.trans ?_ (sameSlots_writeSuperblock _)
      exact ⟨rfl, rfl, fun _ => samePlacement_refl⟩
    · exact .refl layout
  | remount alloc => exact hcall.elim

theorem sameSlots_run
    {operations : List Operation} (hcalls : ∀ operation ∈ operations, IsCall operation) :
    SameSlots layout (run (Operation.step build tables) operations layout).2 := by
  induction operations generalizing layout with
  | nil => exact .refl layout
  | cons operation operations ih =>
    exact (sameSlots_step layout (hcalls operation mem_cons_self)).trans
      (ih _ fun other hother => hcalls other (mem_cons_of_mem _ hother))

/-- The entry of a table is sealed exactly if the table is secret, and then its payload
is only ever written by `seal_record`. -/
def SealedAsDeclared (build : Build) (layout : DbLayout) (table : StructTables) : Prop :=
  ∃ index, findEntry layout table.tableId = some index ∧
    (layout.directory index).sealed = table.tableSecret ∧
    (table.tableSecret = true → ∀ payload alloc draws,
      storePayload build layout index payload alloc draws =
        sealRecord build layout index payload alloc draws)

/-- This holds of every table, and goes on to hold whatever calls are made. -/
def SecretsSealed (build : Build) (layout : DbLayout) (tables : List StructTables) : Prop :=
  ∀ operations : List Operation, (∀ operation ∈ operations, IsCall operation) →
    ∀ table ∈ tables,
      SealedAsDeclared build (run (Operation.step build tables) operations layout).2 table

def FlagDeclared (layout : DbLayout) (table : StructTables) : Prop :=
  ∃ index, findEntry layout table.tableId = some index ∧
    (layout.directory index).sealed = table.tableSecret

theorem findEntry_of_sameSlots {layout : DbLayout} (hsame : SameSlots layout other) {id : UInt16} :
    findEntry other id = findEntry layout id := by
  rw [findEntry, hsame.entries_eq]
  exact findIndex_congr (fun index _ => (hsame.placement index).id_eq) id

theorem FlagDeclared.of_sameSlots {layout : DbLayout} (hflag : FlagDeclared layout table)
    (hsame : SameSlots layout other) :
    FlagDeclared other table := by
  obtain ⟨index, hfound, hsealed⟩ := hflag
  refine ⟨index, (findEntry_of_sameSlots hsame).trans hfound, ?_⟩
  exact (hsame.placement index).sealed_eq.trans hsealed

/-- In a build with sealing the flag decides how a payload is written. -/
theorem sealedAsDeclared_of_flag (hsealing : build.sealing = true) {layout : DbLayout}
    (hflag : FlagDeclared layout table) :
    SealedAsDeclared build layout table := by
  obtain ⟨index, hfound, hsealed⟩ := hflag
  refine ⟨index, hfound, hsealed, fun hsecret payload alloc draws => ?_⟩
  rw [storePayload, hsealing, hsealed, hsecret, Bool.and_self, if_pos rfl]

theorem secretsSealed_iff (hsealing : build.sealing = true) {layout : DbLayout}
    {tables : List StructTables} :
    SecretsSealed build layout tables ↔ ∀ table ∈ tables, FlagDeclared layout table := by
  constructor
  · intro hsealed table htable
    obtain ⟨index, hfound, hflag, -⟩ := hsealed [] nofun table htable
    exact ⟨index, hfound, hflag⟩
  · intro hflags operations hcalls table htable
    exact sealedAsDeclared_of_flag hsealing
      ((hflags table htable).of_sameSlots (sameSlots_run layout hcalls))

theorem distinct_of_packed {old : ℕ → DbDirEntry} {oldEntries : ℕ} {packing : Packing}
    (hpacked : PackedWith build old oldEntries tables packing)
    (hnodup : (tables.map StructTables.tableId).Nodup) {layout : DbLayout}
    (hdirectory : layout.directory = packing.directory)
    (hentries : layout.entries = packing.entries) :
    ∀ first < layout.entries, ∀ second < layout.entries,
      (layout.directory first).id = (layout.directory second).id → first = second := by
  have hids : ∀ index < layout.entries,
      (tables.map StructTables.tableId)[index]? = some (layout.directory index).id := by
    intro index hindex
    obtain ⟨placed, hplaced⟩ := hpacked.exists_table (hentries ▸ hindex)
    rw [hdirectory, (hpacked.describes hplaced).1, getElem?_map, hplaced]
    rfl
  intro first hfirst second hsecond hsame
  have hlength : first < (tables.map StructTables.tableId).length :=
    (List.getElem?_eq_some_iff.mp (hids first hfirst)).1
  apply (getElem?_inj hlength hnodup).mp
  rw [hids first hfirst, hids second hsecond, hsame]

/-- A packing gives every table its entry, with the flag it declares. -/
theorem flagDeclared_of_packed (hsealing : build.sealing = true) {old : ℕ → DbDirEntry}
    {oldEntries : ℕ} {packing : Packing} (hregistered : Registered build tables)
    (hpacked : PackedWith build old oldEntries (placedTables build tables) packing)
    {layout : DbLayout} (hdirectory : layout.directory = packing.directory)
    (hentries : layout.entries = packing.entries) (htable : table ∈ tables) :
    FlagDeclared layout table := by
  rw [placedTables, take_of_length_le hregistered.length_le] at hpacked
  have hdistinct := distinct_of_packed hpacked hregistered.nodup hdirectory hentries
  obtain ⟨index, hindex⟩ := mem_iff_getElem?.mp htable
  obtain ⟨hid, -, hkind⟩ := hpacked.describes hindex
  have hlt : index < layout.entries := by
    rw [hentries, hpacked.entries_eq]
    exact (List.getElem?_eq_some_iff.mp hindex).1
  rw [← hdirectory] at hid hkind
  refine ⟨index, ?_, ?_⟩
  · rw [← hid]
    exact findIndex_of_distinct hdistinct hlt
  · rw [hkind, dbSeals, hsealing, Bool.true_and]

/-- The directory on the store has the slot sizes of the tables, but the entry of one
of them is of the other kind. -/
def Disguised (build : Build) (object : DbLayout) (store : Store UInt8)
    (tables : List StructTables) : Prop :=
  ∃ loaded, loadStore build object store = some loaded ∧
    geometryMatches build loaded tables = true ∧
    ∃ table ∈ tables, ∃ index, findEntry loaded table.tableId = some index ∧
      (loaded.directory index).sealed ≠ table.tableSecret

/-- Where the geometry matches, every table has an entry. -/
theorem exists_entry_of_geometryMatches {layout : DbLayout}
    (hgeometry : geometryMatches build layout tables = true) (htable : table ∈ tables) :
    ∃ index, findEntry layout table.tableId = some index ∧
      (layout.directory index).cap = dbSlotFor build table := by
  rw [geometryMatches, decide_eq_true_eq, all_eq_true] at hgeometry
  have hentry := hgeometry.2 table htable
  split at hentry
  · cases hentry
  case h_2 index hfound => exact ⟨index, hfound, of_decide_eq_true hentry⟩

/-- After a successful mount the secret tables, and no others, are sealed, exactly when
the mount did not find a directory with the slot sizes of the tables and an entry of
the other kind. -/
theorem secretsSealed_mount_iff (build : Build) (hsealing : build.sealing = true)
    (object : DbLayout) (store : Store UInt8) (tables : List StructTables) (alloc : Bool)
    (hregistered : Registered build tables) (mounted : DbLayout)
    (hmount : mount build object (some store) tables alloc = (.ok, mounted)) :
    SecretsSealed build mounted tables ↔ ¬ Disguised build object store tables := by
  rw [secretsSealed_iff hsealing]
  rcases mount_ok_cases hmount with ⟨hunloaded, -, old, packing, hpacked, hdirectory, hentries⟩ |
    ⟨layout, hload, ⟨hgeometry, rfl⟩ | ⟨hgeometry, packing, cell, hpacked, -, rfl⟩⟩
  · refine iff_of_true (fun table htable =>
      flagDeclared_of_packed hsealing hregistered hpacked hdirectory hentries htable) ?_
    rintro ⟨loaded, hload, -⟩
    cases hunloaded.symm.trans hload
  · constructor
    · rintro hflags ⟨loaded, hloaded, -, table, htable, index, hfound, hkind⟩
      rw [hload] at hloaded
      cases hloaded
      obtain ⟨other, hother, hflag⟩ := hflags table htable
      rw [hfound] at hother
      cases hother
      exact hkind hflag
    · intro hplain table htable
      obtain ⟨index, hfound, -⟩ := exists_entry_of_geometryMatches hgeometry htable
      refine ⟨index, hfound, ?_⟩
      by_contra hkind
      exact hplain ⟨mounted, hload, hgeometry, table, htable, index, hfound, hkind⟩
  · refine iff_of_true (fun table htable =>
      flagDeclared_of_packed hsealing hregistered hpacked rfl rfl htable) ?_
    rintro ⟨loaded, hloaded, hmatches, -⟩
    rw [hload] at hloaded
    cases hloaded
    cases hmatches.symm.trans hgeometry

/-- A table that a later firmware declares secret, with a struct that is smaller by the
size of a seal. -/
def plainTables : List StructTables :=
  [{ tableId := 1, tableSize := 40, tableVersion := 1, tableSecret := false }]

def secretTables : List StructTables :=
  [{ tableId := 1, tableSize := 8, tableVersion := 2, tableSecret := true }]

def plainStore : Store UInt8 :=
  (mount sampleBuild (freshLayout sampleStore) (some sampleStore) plainTables true).2.store

/-- The engine of the later firmware. -/
def upgraded : PdiErr × DbLayout :=
  mount sampleBuild (freshLayout plainStore) (some plainStore) secretTables true

def resized : PdiErr × DbLayout :=
  mount sampleBuild (freshLayout plainStore) (some plainStore) sampleTables true

/-- A mount that packs seals the secret tables. -/
theorem resized_sealed : SecretsSealed sampleBuild resized.2 sampleTables := by
  have hstatus : resized.1 = .ok := by decide +kernel
  have hmount : resized = (.ok, resized.2) := by
    rw [← hstatus]
  have hgeometry : (loadStore sampleBuild (freshLayout plainStore) plainStore).map
      (geometryMatches sampleBuild · sampleTables) = some false := by decide +kernel
  apply (secretsSealed_mount_iff sampleBuild rfl (freshLayout plainStore) plainStore sampleTables
    true (by decide) resized.2 hmount).mpr
  rintro ⟨loaded, hload, hmatches, -⟩
  rw [hload, Option.map_some, hmatches] at hgeometry
  cases hgeometry

def secretRecord : Payload := { bytes := [1, 2, 3], length_lt := by decide }

/-- The later firmware mounts the store, finds the slot size it wants, and writes the
secret record as it is. -/
theorem secret_stored_plain :
    upgraded.1 = .ok ∧ Registered sampleBuild secretTables ∧
      ¬ SecretsSealed sampleBuild upgraded.2 secretTables ∧
      slice (LayoutEngine.writeRecord sampleBuild upgraded.2 1 secretRecord 2 true
        fun _ => 0).2.store.cell (upgraded.2.directory 0).offset.toNat 3 = [1, 2, 3] := by
  have hindex : findEntry upgraded.2 1 = some 0 := by decide +kernel
  have hplain : (upgraded.2.directory 0).sealed = false := by decide +kernel
  refine ⟨by decide +kernel, by decide, fun hsealed => ?_, by decide +kernel⟩
  obtain ⟨index, hfound, hflag⟩ := (secretsSealed_iff rfl).mp hsealed _ mem_cons_self
  rw [hindex] at hfound
  rw [← Option.some.inj hfound, hplain] at hflag
  cases hflag

end PdiStack.SealedTables
