import PdiStack.Database.Packing

/-!
# Mounting

A mount either finds a framed store and takes its directory over, or lays a fresh
database down.  `mount_of_served` says that a store left behind by a serving
engine is loaded with the same records, and `mount_blank` that a store without a
superblock becomes an empty database.
-/

namespace PdiStack.Mounting

open FlatStore PdiTypes LayoutEngine Framing Records Serving Packing

def freshLayout (store : Store UInt8) : DbLayout := { store := store }

def countedLayout (layout : DbLayout) : DbLayout where
  store := layout.store
  firmware := layout.firmware
  entries := layout.entries
  year := layout.year

def loadedLayout (layout : DbLayout) (directory : ℕ → DbDirEntry) : DbLayout :=
  { countedLayout layout with directory := directory, mounted := true }

variable {build : Build} {layout : DbLayout} {tables : List StructTables}

theorem mirrored_loadedLayout (hmirrored : Mirrored build layout) {directory : ℕ → DbDirEntry}
    (hloaded : ∀ index < layout.entries, directory index = layout.directory index) :
    Mirrored build (loadedLayout layout directory) where
  entries_le := hmirrored.entries_le
  payload_le := hmirrored.payload_le
  superblock := hmirrored.superblock
  directory index hindex := by
    have hentry := hmirrored.directory index hindex
    rw [← hloaded index hindex] at hentry
    exact hentry

section

variable (hserves : Serves build tables layout)
include hserves

theorem entryInStore_of_serves {contents : UInt16 → Option TableRecord}
    (hrepresents : Represents build layout contents) :
    ∀ index < layout.entries, EntryInStore layout.store.capacity (layout.directory index) :=
  fun index hindex =>
    ⟨hserves.placed.end_le index hindex, (hrepresents.stores index hindex).len_le_cap⟩

/-- Loading the store of a serving engine gives an engine with the same records,
and the mount goes on from there. -/
theorem mount_of_served {contents : UInt16 → Option TableRecord}
    (hrepresents : Represents build layout contents) (registry : List StructTables) (alloc : Bool) :
    ∃ loaded : DbLayout,
      SameRecords build layout loaded ∧ loaded.mounted = true ∧ Mirrored build loaded ∧
      mount build (freshLayout layout.store) (some layout.store) registry alloc =
        if geometryMatches build loaded registry then (.ok, loaded)
        else repack build loaded registry alloc := by
  have hinside := entryInStore_of_serves hserves hrepresents
  have hsuperblock : readSuperblock build (freshLayout layout.store) =
      (.ok, countedLayout layout) :=
    readSuperblock_of_mirrored hserves.mirrored (freshLayout layout.store) rfl
  obtain ⟨directory, hread, hloaded⟩ :=
    readDirectory_of_mirrored hserves.mirrored hinside (countedLayout layout) rfl rfl
  have hpayload : ¬dbPayloadStart build > layout.store.capacity :=
    Nat.not_lt.mpr hserves.mirrored.payload_le
  refine ⟨loadedLayout layout directory, ⟨rfl, rfl, hloaded, fun _ _ => rfl⟩, rfl,
    mirrored_loadedLayout hserves.mirrored hloaded, ?_⟩
  have hfresh : ({ freshLayout layout.store with
      store := layout.store, mounted := false, formatted := false } : DbLayout) =
        freshLayout layout.store := rfl
  simp only [mount, hpayload, if_false, hfresh, hsuperblock, hread]
  rfl

/-- The geometry of a serving engine matches the tables it serves. -/
theorem geometryMatches_of_serves : geometryMatches build layout tables = true := by
  simp only [geometryMatches, decide_eq_true_eq, List.all_eq_true]
  refine ⟨hserves.entries_eq.symm, fun table htable => ?_⟩
  obtain ⟨index, hindex, hid, hcap, -⟩ := hserves.registered table htable
  have hfound : findEntry layout table.tableId = some index := by
    rw [← hid]
    exact findIndex_of_distinct hserves.placed.distinct hindex
  simp [hfound, hcap]

/-- Mounting the store of a serving engine with the same tables brings the same
records back. -/
theorem remount_of_served {contents : UInt16 → Option TableRecord}
    (hrepresents : Represents build layout contents) (alloc : Bool) : ∃ loaded : DbLayout,
      mount build (freshLayout layout.store) (some layout.store) tables alloc = (.ok, loaded) ∧
      SameRecords build layout loaded ∧ Serves build tables loaded := by
  obtain ⟨loaded, hsame, hmounted, hmirrored, hmount⟩ :=
    mount_of_served hserves hrepresents tables alloc
  have hloaded := hserves.of_sameRecords hsame hmounted hmirrored
  rw [geometryMatches_of_serves hloaded, if_pos rfl] at hmount
  exact ⟨loaded, hmount, hsame, hloaded⟩

end

theorem readSuperblock_store (build : Build) (layout : DbLayout) :
    (readSuperblock build layout).2.store = layout.store := by
  unfold readSuperblock
  dsimp only
  repeat' split
  all_goals rfl

theorem carryRecord_zero (old : ℕ → DbDirEntry) (entry : DbDirEntry) :
    carryRecord old 0 entry = (entry, 0) := rfl

/-- Formatting lays down an empty record for each table. -/
theorem format_spec (hcount : tables.length ≤ build.maxTables)
    (hnodup : (tables.map StructTables.tableId).Nodup)
    (hfits : slotsEnd build tables ≤ layout.store.capacity)
    (hcapacity : layout.store.capacity < 65536) :
    ∃ formatted : DbLayout,
      format build layout tables = (.ok, formatted) ∧
      Serves build tables { formatted with mounted := true, formatted := true } ∧
      Represents build { formatted with mounted := true, formatted := true }
        fun _ => none := by
  have hstart := packedWith_nil build layout 0
  obtain ⟨packing, hpack⟩ := packTables_ok_of_fits tables [] _ hstart (by simpa using hcount)
    (by simpa using hfits)
  obtain ⟨hpacked, hend⟩ := packTables_of_ok tables [] _ packing hstart (by simpa using hcount)
    ((Nat.le_add_right _ _).trans hfits) hpack
  rw [List.nil_append] at hpacked hend
  have hpayload : dbPayloadStart build ≤ layout.store.capacity := (Nat.le_add_right _ _).trans hfits
  obtain ⟨cell, hwrite, hmirrored, -⟩ :=
    writeFraming_spec { layout with directory := packing.directory, entries := packing.entries }
      (hpacked.entries_eq.trans_le hcount) hpayload
  refine ⟨withCells { layout with directory := packing.directory, entries := packing.entries } cell,
    ?_, serves_of_packed hpacked rfl rfl hfits hcapacity hnodup rfl
      ⟨hmirrored.entries_le, hmirrored.payload_le, hmirrored.superblock, hmirrored.directory⟩, ?_⟩
  · simp only [format, packDirectory, hpack]
    exact hwrite
  · refine ⟨fun index hindex => Stores.empty ?_, fun _ _ _ hrecord => (nomatch hrecord),
      fun _ _ => rfl⟩
    obtain ⟨table, htable⟩ := hpacked.exists_table hindex
    have hentry := congrArg Prod.fst (hpacked.entry_eq index table htable)
    rw [carryRecord_zero] at hentry
    exact (congrArg DbDirEntry.len hentry).trans rfl

/-- Mounting a store without a superblock lays an empty database down. -/
theorem mount_blank {store : Store UInt8} (hcount : tables.length ≤ build.maxTables)
    (hnodup : (tables.map StructTables.tableId).Nodup)
    (hfits : slotsEnd build tables ≤ store.capacity) (hcapacity : store.capacity < 65536)
    (hblank : (readSuperblock build (freshLayout store)).1 ≠ .ok) (alloc : Bool) :
    ∃ layout : DbLayout,
      mount build (freshLayout store) (some store) tables alloc = (.ok, layout) ∧
      Serves build tables layout ∧ Represents build layout fun _ => none := by
  have hpayload : ¬dbPayloadStart build > store.capacity :=
    Nat.not_lt.mpr ((Nat.le_add_right _ _).trans hfits)
  have hstore := readSuperblock_store build (freshLayout store)
  rcases hread : readSuperblock build (freshLayout store) with ⟨status, layout⟩
  rw [hread] at hblank hstore
  obtain ⟨formatted, hformat, hserves, hrepresents⟩ := format_spec hcount hnodup
    (show slotsEnd build tables ≤ layout.store.capacity by rw [hstore]; exact hfits)
    (by rw [hstore]; exact hcapacity)
  refine ⟨_, ?_, hserves, hrepresents⟩
  have hfresh : ({ freshLayout store with
      store := store, mounted := false, formatted := false } : DbLayout) = freshLayout store := rfl
  simp only [mount, hpayload, if_false, hfresh, hread]
  cases status with
  | ok => exact absurd rfl hblank
  | _ => simp only [hformat]

end PdiStack.Mounting
