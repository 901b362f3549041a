import PdiStack.Database.Migration

/-!
# What a mount can come to

A mount of any store, whatever its bytes are, ends in one of a few ways: it refuses
the store, it lays a fresh database down, it takes the directory on the medium over
as it stands, or it repacks.  What becomes of a repack is said by `repack_of_refused`
and `repack_of_not_refused`.

The store may fail as well.  `Faults` says which calls of a mount fail, and `mountWith` is
the mount with the exits that it takes then.  It is the mount of the engine where none
fails (`mountWith_sound`).  `mountWith_cases` lists the ways it can take for every store
and every list of tables, and `mount_ok_cases` those in which it succeeds.
-/

namespace PdiStack.MountCases

open FlatStore PdiTypes LayoutEngine Framing Records Serving Packing Mounting Migration Function

def boundTo (object : DbLayout) (store : Store UInt8) : DbLayout :=
  { object with store := store, mounted := false, formatted := false }

/-- The engine after `read_superblock` and `read_directory` have both accepted the
store. -/
def loadStore (build : Build) (object : DbLayout) (store : Store UInt8) : Option DbLayout :=
  match readSuperblock build (boundTo object store) with
  | (.ok, layout) =>
    match readDirectory layout with
    | (.ok, layout) => some { layout with mounted := true }
    | _ => none
  | _ => none

/-- `read_superblock` takes counters over and leaves the rest of the engine. -/
theorem readSuperblock_cases {build : Build} {layout : DbLayout} :
    ∃ firmware year entries,
      (readSuperblock build layout).2 =
        { layout with firmware := firmware, year := year, entries := entries } ∧
      ((readSuperblock build layout).1 = .ok → entries ≤ build.maxTables) := by
  unfold readSuperblock
  split
  · exact ⟨layout.firmware, layout.year, layout.entries, rfl, nofun⟩
  case h_2 buf _ =>
    split
    · exact ⟨layout.firmware, layout.year, layout.entries, rfl, nofun⟩
    split
    · exact ⟨layout.firmware, layout.year, layout.entries, rfl, nofun⟩
    split
    · exact ⟨layout.firmware, layout.year, layout.entries, rfl, nofun⟩
    refine ⟨dbGetU32 buf 4, buf.getD 8 0, (buf.getD 9 0).toNat, ?_, ?_⟩
    · dsimp only
      split
      · rfl
      · rfl
    · dsimp only
      split
      · exact nofun
      case isFalse hentries => exact fun _ => Nat.not_lt.mp hentries

/-- `read_directory` only fills the directory, and checks every entry it loads by
itself. -/
theorem readEntries_cases {count : ℕ} :
    ∀ (index : ℕ) (layout : DbLayout), ∃ directory : ℕ → DbDirEntry,
      (readEntries layout index count).2 = { layout with directory := directory } ∧
      (∀ other < index, directory other = layout.directory other) ∧
      ((readEntries layout index count).1 = .ok →
        ∀ other, index ≤ other → other < index + count →
          EntryInStore layout.store.capacity (directory other)) := by
  induction count with
  | zero =>
    intro index layout
    exact ⟨layout.directory, rfl, fun _ _ => rfl, fun _ other _ _ => by omega⟩
  | succ count ih =>
    intro index layout
    rw [readEntries]
    split
    · exact ⟨layout.directory, rfl, fun _ _ => rfl, fun hok => by cases hok⟩
    case h_2 buf _ =>
      dsimp only
      split
      · exact ⟨_, rfl, fun other hother => update_of_ne (ne_of_lt hother) ..,
          fun hok => by cases hok⟩
      case isFalse hvalid =>
        obtain ⟨directory, hread, hkept, hinside⟩ := ih (index + 1)
          { layout with directory := update layout.directory index (dbGetEntry buf) }
        refine ⟨directory, hread, fun other hother => ?_, fun hok other hlower hupper => ?_⟩
        · exact (hkept other (by omega)).trans (update_of_ne (ne_of_lt hother) ..)
        · rcases eq_or_lt_of_le hlower with rfl | hlt
          · rw [hkept index (Nat.lt_succ_self _)]
            dsimp only
            rw [update_self]
            rw [not_or, not_lt, UInt16.not_lt] at hvalid
            exact hvalid
          · exact hinside hok other hlt (by omega)

/-- What a loaded engine is: bound to the store, with as many entries as the registry
has room for, each of which passed the checks of `read_directory`. -/
structure Loaded (build : Build) (store : Store UInt8) (loaded : DbLayout) : Prop where
  store_eq : loaded.store = store
  mounted : loaded.mounted = true
  formatted : loaded.formatted = false
  entries_le : loaded.entries ≤ build.maxTables
  inside : ∀ index < loaded.entries, EntryInStore store.capacity (loaded.directory index)

variable {build : Build} {layout : DbLayout}

theorem loaded_of_loadStore {object loaded : DbLayout} {store : Store UInt8}
    (hload : loadStore build object store = some loaded) : Loaded build store loaded := by
  unfold loadStore at hload
  obtain ⟨firmware, year, entries, hcounted, hentries⟩ := readSuperblock_cases
  split at hload
  case h_2 => cases hload
  case h_1 layout hsuperblock =>
    rw [hsuperblock] at hcounted hentries
    obtain ⟨directory, hread, -, hinside⟩ := readEntries_cases 0 layout
    rw [← readDirectory] at hread hinside
    split at hload
    case h_2 => cases hload
    case h_1 filled hdirectory =>
      rw [hdirectory] at hread hinside
      cases hload
      subst hread hcounted
      refine ⟨rfl, rfl, rfl, hentries rfl, fun index hindex => ?_⟩
      exact hinside rfl index (Nat.zero_le _) (by simpa using hindex)

/-- The tables that get a slot: as many as the registry has room for. -/
def placedTables (build : Build) (tables : List StructTables) : List StructTables :=
  tables.take build.maxTables

/-- The packing loop looks at no more tables than the directory has room for. -/
theorem packTables_take {capacity : ℕ} {old : ℕ → DbDirEntry} {oldEntries : ℕ}
    (tables : List StructTables) (packing : Packing) :
    packTables build capacity old oldEntries tables packing =
      packTables build capacity old oldEntries
        (tables.take (build.maxTables - packing.entries)) packing := by
  induction tables generalizing packing with
  | nil => rw [List.take_nil]
  | cons table tables ih =>
    by_cases hroom : packing.entries < build.maxTables
    · obtain ⟨rest, hrest⟩ := Nat.exists_eq_add_of_lt hroom
      have htake : build.maxTables - packing.entries = rest + 1 := by omega
      have hnext : build.maxTables - (packTable build old oldEntries packing table).entries =
          rest := by
        simp only [packTable]
        omega
      rw [htake, List.take_succ_cons, packTables, packTables, if_pos hroom, if_pos hroom, ih, hnext]
    · rw [Nat.sub_eq_zero_of_le (Nat.not_lt.mp hroom), List.take_zero, packTables, packTables,
        if_neg hroom]

theorem length_placedTables_le {build : Build} {tables : List StructTables} :
    (placedTables build tables).length ≤ build.maxTables := by
  rw [placedTables, List.length_take]
  exact min_le_left _ _

theorem packDirectory_placed (build : Build) (layout : DbLayout) (oldEntries : ℕ)
    (tables : List StructTables) :
    packDirectory build layout oldEntries tables =
      packDirectory build layout oldEntries (placedTables build tables) := by
  rw [packDirectory, packTables_take]
  rfl

section

variable {tables : List StructTables} (hpayload : dbPayloadStart build ≤ layout.store.capacity)

include hpayload

/-- The packing is complete exactly when the slots fit the store. -/
theorem packDirectory_ok_iff {oldEntries : ℕ} :
    (packDirectory build layout oldEntries tables).1 = .ok ↔
      slotsEnd build (placedTables build tables) ≤ layout.store.capacity := by
  have hstart := packedWith_nil build layout oldEntries
  have hcount : ([] : List StructTables).length + (placedTables build tables).length ≤
      build.maxTables := by simpa using length_placedTables_le
  rw [packDirectory_placed]
  constructor
  · intro hok
    rcases hpack : packDirectory build layout oldEntries (placedTables build tables) with
      ⟨status, packing⟩
    rw [hpack] at hok
    cases hok
    exact (packTables_of_ok (placedTables build tables) [] _ packing hstart hcount hpayload
      hpack).2
  · intro hfits
    obtain ⟨packing, hpack⟩ := packTables_ok_of_fits (placedTables build tables) [] _ hstart hcount
      hfits
    rw [packDirectory, hpack]

theorem packDirectory_packed {oldEntries : ℕ} {packing : Packing}
    (hpack : packDirectory build layout oldEntries tables = (.ok, packing)) :
    PackedWith build layout.directory oldEntries (placedTables build tables) packing := by
  rw [packDirectory_placed] at hpack
  exact (packTables_of_ok (placedTables build tables) [] _ packing
    (packedWith_nil build layout oldEntries)
    (by simpa using length_placedTables_le) hpayload hpack).1

/-- A repack has no room for the new slots, or has to move a record and gets no
memory for it. -/
def RepackRefused (build : Build) (layout : DbLayout) (tables : List StructTables)
    (alloc : Bool) : Prop :=
  layout.store.capacity < slotsEnd build (placedTables build tables) ∨
    (alloc = false ∧ (packDirectory build layout layout.entries tables).2.carried ≠ 0)

instance (build : Build) (layout : DbLayout) (tables : List StructTables) (alloc : Bool) :
    Decidable (RepackRefused build layout tables alloc) := inferInstanceAs (Decidable (_ ∨ _))

/-- A repack that is refused changes nothing on the medium. -/
theorem repack_of_refused {alloc : Bool} (hrefused : RepackRefused build layout tables alloc) :
    (repack build layout tables alloc).1 ≠ .ok ∧
      (repack build layout tables alloc).2.store = layout.store ∧
      (repack build layout tables alloc).2.mounted = layout.mounted := by
  rcases hpack : packDirectory build layout layout.entries tables with ⟨status, packing⟩
  have hfits := @packDirectory_ok_iff build layout tables hpayload layout.entries
  rw [hpack] at hfits
  rw [RepackRefused, hpack, ← not_le, ← hfits] at hrefused
  unfold repack
  rw [hpack]
  cases status with
  | ok =>
    obtain ⟨rfl, hcarried⟩ : alloc = false ∧ packing.carried ≠ 0 := by simpa using hrefused
    dsimp only
    rw [if_pos hcarried]
    exact ⟨nofun, rfl, rfl⟩
  | _ => exact ⟨nofun, rfl, rfl⟩

end

theorem lowerRecords_cells {packing : Packing} {indices : List ℕ} :
    ∀ (scratch : List UInt8) (store : Store UInt8), ∃ cell,
      lowerRecords packing indices scratch store = { store with cell := cell } := by
  induction indices with
  | nil => exact fun _ store => ⟨store.cell, rfl⟩
  | cons index indices ih =>
    intro scratch store
    dsimp only [lowerRecords]
    rw [Store.write]
    split
    · obtain ⟨cell, hcell⟩ := ih (scratch.drop (dbStoredBytes (packing.directory index)).toNat)
        { store with
          cell := splice store.cell (packing.directory index).offset.toNat
            (scratch.take (dbStoredBytes (packing.directory index)).toNat) }
      exact ⟨cell, hcell⟩
    · exact ih _ store

/-- A repack that is not refused succeeds: the directory is the packing of the tables,
and the medium mirrors it. -/
theorem repack_of_not_refused {tables : List StructTables} {alloc : Bool}
    (hpayload : dbPayloadStart build ≤ layout.store.capacity)
    (haccepted : ¬ RepackRefused build layout tables alloc) :
    ∃ packing cell,
      PackedWith build layout.directory layout.entries (placedTables build tables) packing ∧
      slotsEnd build (placedTables build tables) ≤ layout.store.capacity ∧
      repack build layout tables alloc = (.ok, withCells (packedLayout layout packing) cell) ∧
      Mirrored build (withCells (packedLayout layout packing) cell) := by
  rw [RepackRefused, not_or, not_lt] at haccepted
  obtain ⟨hend, hmemory⟩ := haccepted
  rcases hpack : packDirectory build layout layout.entries tables with ⟨status, packing⟩
  have hfits := @packDirectory_ok_iff build layout tables hpayload layout.entries
  rw [hpack] at hfits hmemory
  obtain rfl : status = .ok := hfits.mpr hend
  have hpacked := packDirectory_packed hpayload hpack
  have hentries : packing.entries ≤ build.maxTables :=
    hpacked.entries_eq.trans_le (length_placedTables_le)
  unfold repack
  rw [hpack]
  dsimp only
  split
  case isTrue hcarried =>
    obtain rfl : alloc = true := by
      cases alloc with
      | true => rfl
      | false => exact absurd ⟨rfl, hcarried⟩ hmemory
    obtain ⟨moved, hmoved⟩ := lowerRecords_cells
      (liftRecords layout.store packing packing.moved) layout.store
    obtain ⟨cell, hwrite, hmirrored, -⟩ :=
      writeFraming_spec (withCells (packedLayout layout packing) moved) hentries hpayload
    refine ⟨packing, cell, hpacked, hend, ?_, hmirrored⟩
    rw [hmoved]
    exact hwrite
  case isFalse =>
    obtain ⟨cell, hwrite, hmirrored, -⟩ :=
      writeFraming_spec (packedLayout layout packing) hentries hpayload
    exact ⟨packing, cell, hpacked, hend, hwrite, hmirrored⟩

/-- The slots of the tables are laid down on a store without a superblock. -/
theorem format_cases {build : Build} {layout : DbLayout} {tables : List StructTables}
    (hpayload : dbPayloadStart build ≤ layout.store.capacity) :
    (layout.store.capacity < slotsEnd build (placedTables build tables) ∧
      (format build layout tables).1 ≠ .ok ∧ (format build layout tables).2.store = layout.store ∧
      (format build layout tables).2.mounted = layout.mounted) ∨
    ∃ packing cell,
      PackedWith build layout.directory 0 (placedTables build tables) packing ∧
      slotsEnd build (placedTables build tables) ≤ layout.store.capacity ∧
      format build layout tables = (.ok, withCells (packedLayout layout packing) cell) := by
  rcases hpack : packDirectory build layout 0 tables with ⟨status, packing⟩
  have hroom := @packDirectory_ok_iff build layout tables hpayload 0
  unfold format
  rw [hpack] at hroom ⊢
  cases status with
  | ok =>
    have hpacked := packDirectory_packed hpayload hpack
    obtain ⟨cell, hwrite, -⟩ := writeFraming_spec (packedLayout layout packing)
      (hpacked.entries_eq.trans_le (length_placedTables_le)) hpayload
    exact Or.inr ⟨packing, cell, hpacked, hroom.mp rfl, hwrite⟩
  | _ => exact Or.inl ⟨Nat.not_le.mp (mt hroom.mpr nofun), nofun, rfl, rfl⟩

/-! ## Mounts on a store that may fail -/

/-- The calls of a mount that fail, with what they leave behind: a read of the superblock,
a read of a directory entry with the directory read so far, and a write or the flush of
the framing with whatever is on the medium by then. -/
structure Faults where
  superblock : Bool
  directory : Option (ℕ → DbDirEntry)
  framing : Option (Store UInt8)

def Faults.sound : Faults := { superblock := false, directory := none, framing := none }

section Model

variable (build : Build) (faults : Faults)

def readSuperblockWith (layout : DbLayout) : PdiErr × DbLayout :=
  if faults.superblock then (.io, layout) else readSuperblock build layout

def readDirectoryWith (layout : DbLayout) : PdiErr × DbLayout :=
  match faults.directory with
  | some read => (.io, { layout with directory := read })
  | none => readDirectory layout

/-- `format` and `repack` end with writing the framing. -/
def breakOff (written : PdiErr × DbLayout) : PdiErr × DbLayout :=
  match faults.framing with
  | some left => if written.1 = .ok then (.io, { written.2 with store := left }) else written
  | none => written

/-- The branch of a mount that finds no superblock. -/
def formatOver (layout : DbLayout) (tables : List StructTables) : PdiErr × DbLayout :=
  let formatted := breakOff faults (format build layout tables)
  if formatted.1 ≠ .ok then formatted
  else (.ok, { formatted.2 with mounted := true, formatted := true })

/-- The mount with the exits for failed calls.  The records that `repack` moves are read
and written without looking at the results. -/
def mountWith (object : DbLayout) (store : Option (Store UInt8)) (tables : List StructTables)
    (alloc : Bool) : PdiErr × DbLayout :=
  match store with
  | none => (.nullPtr, { object with mounted := false, formatted := false })
  | some store =>
    if dbPayloadStart build > store.capacity then (.noSpace, boundTo object store)
    else
      let superblock := readSuperblockWith build faults (boundTo object store)
      if superblock.1 ≠ .ok then formatOver build faults superblock.2 tables
      else
        let directory := readDirectoryWith faults superblock.2
        if directory.1 ≠ .ok then (.corrupt, directory.2)
        else
          let layout := { directory.2 with mounted := true }
          if geometryMatches build layout tables then (.ok, layout)
          else breakOff faults (repack build layout tables alloc)

theorem mountWith_sound (object : DbLayout) (store : Option (Store UInt8))
    (tables : List StructTables) (alloc : Bool) :
    mountWith build .sound object store tables alloc = mount build object store tables alloc := by
  cases store with
  | none => rfl
  | some store =>
    have hsuperblock : readSuperblockWith build .sound (boundTo object store) =
        readSuperblock build { object with store := store, mounted := false, formatted := false } :=
      rfl
    have hdirectory (layout : DbLayout) : readDirectoryWith .sound layout = readDirectory layout :=
      rfl
    have hwritten (written : PdiErr × DbLayout) : breakOff .sound written = written := rfl
    simp only [mountWith, mount, formatOver, hsuperblock, hdirectory, hwritten]
    rcases readSuperblock build _ with ⟨status, layout⟩
    cases status with
    | ok =>
      dsimp only
      rcases readDirectory layout with ⟨found, filled⟩
      cases found <;> rfl
    | _ =>
      dsimp only
      rcases format build layout tables with ⟨found, formatted⟩
      cases found <;> rfl

end Model

/-- The superblock and the directory of a store are read into an engine. -/
def LoadsWith (build : Build) (faults : Faults) (object : DbLayout) (store : Store UInt8)
    (loaded : DbLayout) : Prop :=
  faults.superblock = false ∧ faults.directory = none ∧ loadStore build object store = some loaded

section Mounts

variable {faults : Faults} {object : DbLayout} {store : Store UInt8} {tables : List StructTables}
  {alloc : Bool}

theorem breakOff_of_sound {written : PdiErr × DbLayout}
    (hsound : faults.framing = none ∨ written.1 ≠ .ok) : breakOff faults written = written := by
  rw [breakOff]
  cases hframing : faults.framing with
  | none => rfl
  | some left => exact if_neg (hsound.resolve_left (by rw [hframing]; nofun))

theorem breakOff_of_fault {left : Store UInt8} (hframing : faults.framing = some left)
    (written : DbLayout) :
    breakOff faults (.ok, written) = (.io, { written with store := left }) := by
  rw [breakOff, hframing]
  exact if_pos rfl

/-- Every way a mount of a store that is large enough can take. -/
theorem mountWith_cases (object : DbLayout) (tables : List StructTables) (alloc : Bool)
    (hpayload : dbPayloadStart build ≤ store.capacity) :
    (∃ loaded, LoadsWith build faults object store loaded ∧
        mountWith build faults object (some store) tables alloc =
          if geometryMatches build loaded tables then (.ok, loaded)
          else breakOff faults (repack build loaded tables alloc)) ∨
      (∀ loaded, ¬ LoadsWith build faults object store loaded) ∧
        ∃ layout, layout.store = store ∧ layout.mounted = false ∧
          (faults.superblock = false ∧
              mountWith build faults object (some store) tables alloc = (.corrupt, layout) ∨
            (faults.superblock = true ∨ loadStore build object store = none) ∧
              mountWith build faults object (some store) tables alloc =
                formatOver build faults layout tables) := by
  rw [mountWith]
  dsimp only
  rw [if_neg (Nat.not_lt.mpr hpayload), readSuperblockWith]
  by_cases hread : faults.superblock = true
  · rw [if_pos hread]
    refine .inr ⟨fun loaded hloads => ?_, _, rfl, rfl, .inr ⟨.inl hread, if_pos nofun⟩⟩
    cases hread.symm.trans hloads.1
  rw [if_neg hread]
  obtain ⟨firmware, year, entries, hcounted, -⟩ := @readSuperblock_cases build (boundTo object store)
  rcases hsuperblock : readSuperblock build (boundTo object store) with ⟨status, layout⟩
  rw [hsuperblock] at hcounted
  have hstore : layout.store = store := congrArg DbLayout.store hcounted
  have hunmounted : layout.mounted = false := congrArg DbLayout.mounted hcounted
  by_cases hstatus : status = .ok
  · subst hstatus
    rw [if_neg (not_not_intro rfl)]
    dsimp only
    cases hfault : faults.directory with
    | some read =>
      rw [readDirectoryWith, hfault]
      refine .inr ⟨fun loaded hloads => ?_, { layout with directory := read }, hstore, hunmounted,
        .inl ⟨Bool.eq_false_iff.mpr hread, if_pos nofun⟩⟩
      cases hfault.symm.trans hloads.2.1
    | none =>
      obtain ⟨directory, hfilled, -⟩ := readEntries_cases 0 layout
      rw [readDirectoryWith, hfault]
      rw [← readDirectory] at hfilled
      rcases hdirectory : readDirectory layout with ⟨found, filled⟩
      obtain rfl : filled = _ := (congrArg Prod.snd hdirectory).symm.trans hfilled
      have hload : loadStore build object store =
          if found = .ok then some { layout with directory := directory, mounted := true }
          else none := by
        rw [loadStore, hsuperblock]
        dsimp only
        rw [hdirectory]
        cases found <;> rfl
      by_cases hfound : found = .ok
      · rw [if_pos hfound] at hload
        refine .inl ⟨_, ⟨Bool.eq_false_iff.mpr hread, hfault, hload⟩, ?_⟩
        exact if_neg (not_not_intro hfound)
      · rw [if_neg hfound] at hload
        refine .inr ⟨fun loaded hloads => ?_, { layout with directory := directory }, hstore,
          hunmounted, .inl ⟨Bool.eq_false_iff.mpr hread, if_pos hfound⟩⟩
        cases hload.symm.trans hloads.2.2
  · have hunloaded : loadStore build object store = none := by
      rw [loadStore, hsuperblock]
      cases status with
      | ok => exact absurd rfl hstatus
      | _ => rfl
    refine .inr ⟨fun loaded hloads => ?_, layout, hstore, hunmounted,
      .inr ⟨.inr hunloaded, if_pos hstatus⟩⟩
    cases hunloaded.symm.trans hloads.2.2

/-- A store that loads is taken over as it stands or repacked. -/
theorem mount_of_loadStore (hpayload : dbPayloadStart build ≤ store.capacity)
    (hload : loadStore build object store = some layout) (tables : List StructTables)
    (alloc : Bool) :
    mount build object (some store) tables alloc =
      if geometryMatches build layout tables then (.ok, layout)
      else repack build layout tables alloc := by
  have hloads : LoadsWith build .sound object store layout := ⟨rfl, rfl, hload⟩
  rcases @mountWith_cases build .sound store object tables alloc hpayload with
    ⟨other, hother, hmount⟩ | ⟨hnot, -⟩
  · obtain rfl : other = layout := Option.some.inj (hother.2.2.symm.trans hload)
    rw [← mountWith_sound, hmount]
    rfl
  · exact absurd hloads (hnot layout)

/-- A mount that succeeds has formatted the store, taken it over or repacked it. -/
theorem mount_ok_cases {mounted : DbLayout}
    (hmount : mount build object (some store) tables alloc = (.ok, mounted)) :
    (loadStore build object store = none ∧ mounted.formatted = true ∧
        ∃ old packing, PackedWith build old 0 (placedTables build tables) packing ∧
          mounted.directory = packing.directory ∧ mounted.entries = packing.entries) ∨
      ∃ layout, loadStore build object store = some layout ∧
        (geometryMatches build layout tables = true ∧ mounted = layout ∨
          geometryMatches build layout tables = false ∧ ∃ packing cell,
            PackedWith build layout.directory layout.entries (placedTables build tables) packing ∧
            slotsEnd build (placedTables build tables) ≤ layout.store.capacity ∧
            mounted = withCells (packedLayout layout packing) cell) := by
  by_cases hpayload : dbPayloadStart build ≤ store.capacity
  · rw [← mountWith_sound] at hmount
    rcases @mountWith_cases build .sound store object tables alloc hpayload with
      ⟨loaded, hloads, hends⟩ | ⟨hnot, layout, hstore, -, ⟨-, hends⟩ | ⟨hread, hends⟩⟩
    · refine .inr ⟨loaded, hloads.2.2, ?_⟩
      rw [hends] at hmount
      cases hgeometry : geometryMatches build loaded tables with
      | true =>
        rw [hgeometry] at hmount
        exact .inl ⟨rfl, (congrArg Prod.snd hmount).symm⟩
      | false =>
        rw [hgeometry] at hmount
        replace hpayload := (loaded_of_loadStore hloads.2.2).store_eq ▸ hpayload
        obtain ⟨packing, cell, hpacked, hend, hrepack, -⟩ := repack_of_not_refused hpayload
          fun hrefused => (repack_of_refused hpayload hrefused).1 (congrArg Prod.fst hmount)
        exact .inr ⟨rfl, packing, cell, hpacked, hend,
          (congrArg Prod.snd (hrepack.symm.trans hmount)).symm⟩
    · cases hends.symm.trans hmount
    · refine .inl ⟨hread.resolve_left nofun, ?_⟩
      rw [hends, formatOver, breakOff, Faults.sound] at hmount
      dsimp only at hmount
      rcases format_cases (hstore ▸ hpayload) with ⟨-, hstatus, -⟩ | ⟨packing, cell, hpacked, -, hformat⟩
      · rw [if_pos hstatus] at hmount
        exact absurd (congrArg Prod.fst hmount) hstatus
      · rw [hformat, if_neg (not_not_intro rfl)] at hmount
        obtain rfl : _ = mounted := congrArg Prod.snd hmount
        exact ⟨rfl, _, packing, hpacked, rfl, rfl⟩
  · rw [mount] at hmount
    dsimp only at hmount
    rw [if_pos (Nat.not_le.mp hpayload)] at hmount
    cases hmount

end Mounts

/-- An object that has taken the counters of an engine over from its store. -/
def countedFrom (object layout : DbLayout) : DbLayout :=
  { boundTo object layout.store with
    firmware := layout.firmware
    year := layout.year
    entries := layout.entries }

/-- The store of a serving engine loads into any object, with the same records. -/
theorem loadStore_of_served {tables : List StructTables} {contents : UInt16 → Option TableRecord}
    (hserves : Serves build tables layout) (hrepresents : Represents build layout contents)
    (object : DbLayout) :
    ∃ loaded, loadStore build object layout.store = some loaded ∧
      SameRecords build layout loaded ∧ Mirrored build loaded := by
  have hinside := entryInStore_of_serves hserves hrepresents
  have hsuperblock : readSuperblock build (boundTo object layout.store) =
      (.ok, countedFrom object layout) :=
    readSuperblock_of_mirrored hserves.mirrored (boundTo object layout.store) rfl
  obtain ⟨directory, hread, hloaded⟩ :=
    readDirectory_of_mirrored hserves.mirrored hinside (countedFrom object layout) rfl rfl
  have hload : loadStore build object layout.store =
      some { countedFrom object layout with directory := directory, mounted := true } := by
    simp [loadStore, hsuperblock, hread]
  refine ⟨_, hload, ⟨rfl, rfl, hloaded, fun _ _ => rfl⟩, hserves.mirrored.entries_le,
    hserves.mirrored.payload_le, hserves.mirrored.superblock, fun index hindex => ?_⟩
  have hentry := hserves.mirrored.directory index hindex
  rw [← hloaded index hindex] at hentry
  exact hentry

end PdiStack.MountCases
