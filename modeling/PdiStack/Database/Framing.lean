import PdiStack.Core.WordBytes
import PdiStack.Database.LayoutEngine

/-!
# Framing on the medium

The superblock and the directory are held in ram and mirrored on the medium.  This
file proves the byte codecs to be inverse to each other and says what the framing
functions do to a store: a store that mirrors an engine is read back as that
engine (`readSuperblock_of_mirrored`, `readDirectory_of_mirrored`), and writing the
framing makes the store mirror the engine without touching the payload area
(`writeFraming_spec`).
-/

namespace PdiStack.Framing

open WordBytes FlatStore PdiTypes Checksum LayoutEngine Function List

@[simp]
theorem length_dbPutEntry (entry : DbDirEntry) : (dbPutEntry entry).length = dbDirEntryBytes := rfl

@[simp]
theorem length_sealIv (draws : Fin 4 → UInt32) : (sealIv draws).length = dbSealIvBytes := rfl

/-- A directory entry is read back as it was written. -/
@[simp]
theorem dbGetEntry_dbPutEntry (entry : DbDirEntry) : dbGetEntry (dbPutEntry entry) = entry := by
  cases entry
  simp only [dbGetEntry, dbPutEntry, dbPutU16, dbGetU16, cons_append, nil_append,
    getD_cons_zero, getD_cons_succ, ofBytes16_bytes]

variable {build : Build} {index : ℕ}

theorem entry_address_le (hindex : index < build.maxTables) :
    dbDirStart + index * dbDirEntryBytes + dbDirEntryBytes ≤ dbPayloadStart build := by
  simp only [dbPayloadStart, dbDirEntryBytes]
  omega

theorem entry_address_lt {first second : ℕ} (hlt : first < second) :
    dbDirStart + first * dbDirEntryBytes + dbDirEntryBytes ≤
      dbDirStart + second * dbDirEntryBytes := by
  simp only [dbDirEntryBytes]
  omega

theorem dbDirStart_le_payloadStart (build : Build) : dbDirStart ≤ dbPayloadStart build :=
  Nat.le_add_right _ _

def superblockBytes (layout : DbLayout) : List UInt8 :=
  superblockHead layout ++ dbPutU16 (crc16Ccitt (superblockHead layout))

/-- The medium says what the engine holds in ram. -/
structure Mirrored (build : Build) (layout : DbLayout) : Prop where
  entries_le : layout.entries ≤ build.maxTables
  payload_le : dbPayloadStart build ≤ layout.store.capacity
  superblock : slice layout.store.cell dbRegionStart dbSuperblockBytes = superblockBytes layout
  directory : ∀ index < layout.entries,
    slice layout.store.cell (dbDirStart + index * dbDirEntryBytes) dbDirEntryBytes =
      dbPutEntry (layout.directory index)

def withCells (layout : DbLayout) (cell : ℕ → UInt8) : DbLayout :=
  { layout with store := { layout.store with cell := cell } }

section

variable (layout : DbLayout) (cell : ℕ → UInt8)

@[simp]
theorem withCells_cell : (withCells layout cell).store.cell = cell := rfl

@[simp]
theorem withCells_directory : (withCells layout cell).directory = layout.directory := rfl

@[simp]
theorem withCells_entries : (withCells layout cell).entries = layout.entries := rfl

@[simp]
theorem withCells_mounted : (withCells layout cell).mounted = layout.mounted := rfl

@[simp]
theorem superblockBytes_withCells :
    superblockBytes (withCells layout cell) = superblockBytes layout := rfl

end

/-- The payload area and the framing do not share a byte, so a change to the
payload area keeps the mirror. -/
theorem Mirrored.of_payload_change {layout : DbLayout} (hmirrored : Mirrored build layout)
    {cell : ℕ → UInt8}
    (hcell : ∀ address < dbPayloadStart build, cell address = layout.store.cell address) :
    Mirrored build (withCells layout cell) where
  entries_le := hmirrored.entries_le
  payload_le := hmirrored.payload_le
  superblock := by
    rw [superblockBytes_withCells, ← hmirrored.superblock]
    refine slice_congr fun address _ hupper => hcell address ?_
    exact hupper.trans_le (dbDirStart_le_payloadStart build)
  directory index hindex := by
    rw [withCells_directory, ← hmirrored.directory index hindex]
    refine slice_congr fun address _ hupper => hcell address ?_
    exact hupper.trans_le (entry_address_le (hindex.trans_le hmirrored.entries_le))

/-- A store that mirrors an engine gives that engine's counters back. -/
theorem readSuperblock_of_mirrored {layout : DbLayout} (hmirrored : Mirrored build layout)
    (loading : DbLayout) (hstore : loading.store = layout.store) :
    readSuperblock build loading =
      (.ok, { loading with
        firmware := layout.firmware
        year := layout.year
        entries := layout.entries }) := by
  have hentries : layout.entries < 256 :=
    (hmirrored.entries_le.trans build.maxTables_le).trans_lt (by decide)
  have hcount : (UInt8.ofNat layout.entries).toNat = layout.entries := by
    simpa using Nat.mod_eq_of_lt hentries
  have hbound : dbRegionStart + dbSuperblockBytes ≤ layout.store.capacity :=
    (dbDirStart_le_payloadStart build).trans hmirrored.payload_le
  have hcrc : dbGetU16 (superblockBytes layout) 10 = crc16Ccitt (superblockHead layout) :=
    ofBytes16_bytes _
  have hfirmware : dbGetU32 (superblockBytes layout) 4 = layout.firmware := ofBytes32_bytes _
  have hhead : (superblockBytes layout).take (dbSuperblockBytes - 2) = superblockHead layout := rfl
  have hmagic : (superblockBytes layout).take 3 = dbMagic := rfl
  have hversion : (superblockBytes layout).getD 3 0 = dbFormatVersion := rfl
  have hyear : (superblockBytes layout).getD 8 0 = layout.year := rfl
  have hnumber : (superblockBytes layout).getD 9 0 = UInt8.ofNat layout.entries := rfl
  simp only [readSuperblock, hstore, Store.read_of_le hbound, hmirrored.superblock, hcrc,
    hfirmware, hhead, hmagic, hversion, hyear, hnumber, hcount, ne_eq, not_true_eq_false, if_false]
  rw [if_neg (Nat.not_lt.mpr hmirrored.entries_le)]

def EntryInStore (capacity : ℕ) (entry : DbDirEntry) : Prop :=
  entry.offset.toNat + entry.cap.toNat ≤ capacity ∧ entry.len ≤ entry.cap

/-- The loop of `read_directory` loads the entries that stand on the medium. -/
theorem readEntries_spec (entryAt : ℕ → DbDirEntry) (count : ℕ) :
    ∀ (index : ℕ) (loading : DbLayout),
    (∀ other, index ≤ other → other < index + count →
      dbDirStart + other * dbDirEntryBytes + dbDirEntryBytes ≤ loading.store.capacity ∧
      slice loading.store.cell (dbDirStart + other * dbDirEntryBytes) dbDirEntryBytes =
        dbPutEntry (entryAt other) ∧
      EntryInStore loading.store.capacity (entryAt other)) →
    ∃ directory : ℕ → DbDirEntry,
      readEntries loading index count = (.ok, { loading with directory := directory }) ∧
      (∀ other, index ≤ other → other < index + count → directory other = entryAt other) ∧
      ∀ other < index, directory other = loading.directory other := by
  induction count with
  | zero =>
    intro index loading _
    exact ⟨loading.directory, rfl, fun other _ _ => by omega, fun _ _ => rfl⟩
  | succ count ih =>
    intro index loading hmedium
    obtain ⟨hbound, hslice, hinside, hlen⟩ := hmedium index (le_refl _) (by omega)
    have hvalid : ¬(loading.store.capacity <
        (entryAt index).offset.toNat + (entryAt index).cap.toNat ∨
          (entryAt index).cap < (entryAt index).len) := by
      rw [not_or, not_lt, UInt16.not_lt]
      exact ⟨hinside, hlen⟩
    obtain ⟨directory, hread, hloaded, hkept⟩ := ih (index + 1)
      { loading with directory := update loading.directory index (entryAt index) }
      fun other hlower hupper => hmedium other (by omega) (by omega)
    refine ⟨directory, ?_, fun other hlower hupper => ?_, fun other hother => ?_⟩
    · simp only [readEntries, Store.read_of_le hbound, hslice, dbGetEntry_dbPutEntry]
      rw [if_neg hvalid, hread]
    · rcases eq_or_lt_of_le hlower with rfl | hlt
      · exact (hkept index (by omega)).trans (update_self ..)
      · exact hloaded other hlt (by omega)
    · exact (hkept other (by omega)).trans (update_of_ne (by omega) ..)

/-- A store that mirrors an engine gives that engine's directory back. -/
theorem readDirectory_of_mirrored {layout : DbLayout} (hmirrored : Mirrored build layout)
    (hinside : ∀ index < layout.entries,
      EntryInStore layout.store.capacity (layout.directory index)) (loading : DbLayout)
    (hstore : loading.store = layout.store) (hentries : loading.entries = layout.entries) :
    ∃ directory : ℕ → DbDirEntry,
      readDirectory loading = (.ok, { loading with directory := directory }) ∧
      ∀ index < layout.entries, directory index = layout.directory index := by
  obtain ⟨directory, hread, hloaded, -⟩ := readEntries_spec layout.directory loading.entries 0
    loading fun other _ hupper => by
      have hother : other < layout.entries := by omega
      rw [hstore]
      refine ⟨?_, hmirrored.directory other hother, hinside other hother⟩
      exact (entry_address_le (hother.trans_le hmirrored.entries_le)).trans hmirrored.payload_le
  exact ⟨directory, hread, fun index hindex => hloaded index (Nat.zero_le _) (by omega)⟩

/-- The loop that writes the directory back leaves each entry on the medium and
touches nothing else. -/
theorem writeEntries_spec {count : ℕ} :
    ∀ (index : ℕ) (layout : DbLayout),
    dbDirStart + (index + count) * dbDirEntryBytes ≤ layout.store.capacity →
    ∃ cell : ℕ → UInt8,
      writeEntries layout index count = (.ok, withCells layout cell) ∧
      (∀ other, index ≤ other → other < index + count →
        slice cell (dbDirStart + other * dbDirEntryBytes) dbDirEntryBytes =
          dbPutEntry (layout.directory other)) ∧
      ∀ address, address < dbDirStart + index * dbDirEntryBytes ∨
        dbDirStart + (index + count) * dbDirEntryBytes ≤ address →
        cell address = layout.store.cell address := by
  induction count with
  | zero =>
    intro index layout _
    exact ⟨layout.store.cell, rfl, fun other _ _ => by omega, fun _ _ => rfl⟩
  | succ count ih =>
    intro index layout hcapacity
    have hnext : index + 1 + count = index + (count + 1) := by omega
    have hfirst : dbDirStart + index * dbDirEntryBytes + dbDirEntryBytes ≤
        dbDirStart + (index + 1) * dbDirEntryBytes := entry_address_lt (Nat.lt_succ_self index)
    have hlast : (index + 1) * dbDirEntryBytes ≤ (index + (count + 1)) * dbDirEntryBytes :=
      Nat.mul_le_mul_right _ (by omega)
    have hbound : dbDirStart + index * dbDirEntryBytes +
        (dbPutEntry (layout.directory index)).length ≤ layout.store.capacity := by
      rw [length_dbPutEntry]
      omega
    obtain ⟨cell, hwrite, hentries, hframe⟩ := ih (index + 1)
      (withCells layout (splice layout.store.cell (dbDirStart + index * dbDirEntryBytes)
        (dbPutEntry (layout.directory index)))) (by rw [hnext]; exact hcapacity)
    rw [hnext] at hframe
    refine ⟨cell, ?_, fun other hlower hupper => ?_, fun address haddress => ?_⟩
    · simp only [writeEntries, writeEntry, Store.write_of_le hbound]
      exact hwrite
    · rcases eq_or_lt_of_le hlower with rfl | hlt
      · have hself := slice_splice_self layout.store.cell (dbDirStart + index * dbDirEntryBytes)
          (dbPutEntry (layout.directory index))
        rw [← hself]
        exact slice_congr fun address _ hbelow => hframe address (Or.inl (by
          omega))
      · exact hentries other hlt (by omega)
    · rw [hframe address (by omega)]
      rcases haddress with hbefore | hafter
      · exact splice_of_lt _ _ hbefore
      · exact splice_of_ge _ _ (by rw [length_dbPutEntry]; omega)

theorem writeEntry_of_lt (layout : DbLayout) (hindex : index < build.maxTables)
    (hpayload : dbPayloadStart build ≤ layout.store.capacity) :
    writeEntry layout index =
      (.ok, withCells layout (splice layout.store.cell (dbDirStart + index * dbDirEntryBytes)
        (dbPutEntry (layout.directory index)))) := by
  have hbound : dbDirStart + index * dbDirEntryBytes +
      (dbPutEntry (layout.directory index)).length ≤ layout.store.capacity := by
    rw [length_dbPutEntry]
    exact (entry_address_le hindex).trans hpayload
  simp only [writeEntry, Store.write_of_le hbound]
  rfl

theorem writeSuperblock_of_le (layout : DbLayout)
    (hpayload : dbPayloadStart build ≤ layout.store.capacity) :
    writeSuperblock layout =
      (.ok, withCells layout
        (splice layout.store.cell dbRegionStart (superblockBytes layout))) := by
  have hbound : dbRegionStart + (superblockBytes layout).length ≤ layout.store.capacity := by
    exact (dbDirStart_le_payloadStart build).trans hpayload
  simp only [writeSuperblock]
  rw [show superblockHead layout ++ dbPutU16 (crc16Ccitt (superblockHead layout)) =
    superblockBytes layout from rfl, Store.write_of_le hbound]
  rfl

/-- A fresh superblock over a directory that is already mirrored. -/
theorem mirrored_after_superblock (layout : DbLayout) (hentries : layout.entries ≤ build.maxTables)
    (hpayload : dbPayloadStart build ≤ layout.store.capacity)
    (hdirectory : ∀ index < layout.entries,
      slice layout.store.cell (dbDirStart + index * dbDirEntryBytes) dbDirEntryBytes =
        dbPutEntry (layout.directory index)) :
    Mirrored build (withCells layout
      (splice layout.store.cell dbRegionStart (superblockBytes layout))) where
  entries_le := hentries
  payload_le := hpayload
  superblock := slice_splice_self layout.store.cell dbRegionStart (superblockBytes layout)
  directory index hindex := by
    rw [withCells_directory, ← hdirectory index hindex]
    refine slice_splice_of_disjoint _ _ (Or.inr ?_)
    exact Nat.le_add_right dbDirStart _

/-- Rewriting one directory entry on the medium after it changed in ram. -/
theorem mirrored_after_entry {layout : DbLayout} (hmirrored : Mirrored build layout)
    (hindex : index < layout.entries) (entry : DbDirEntry) :
    Mirrored build (withCells
      { layout with directory := update layout.directory index entry }
      (splice layout.store.cell (dbDirStart + index * dbDirEntryBytes) (dbPutEntry entry))) where
  entries_le := hmirrored.entries_le
  payload_le := hmirrored.payload_le
  superblock := by
    refine (slice_splice_of_disjoint _ _ (Or.inl ?_)).trans hmirrored.superblock
    exact Nat.le_add_right dbDirStart _
  directory other hother := by
    simp only [withCells_directory, withCells_cell]
    rcases lt_trichotomy other index with hlt | rfl | hgt
    · rw [update_of_ne (by omega), slice_splice_of_disjoint _ _ (Or.inl (entry_address_lt hlt))]
      exact hmirrored.directory other hother
    · rw [update_self]
      exact slice_splice_self _ _ _
    · rw [update_of_ne (by omega), slice_splice_of_disjoint _ _ (Or.inr (entry_address_lt hgt))]
      exact hmirrored.directory other hother

/-- Writing the whole framing back makes the medium mirror the engine and leaves
the payload area alone. -/
theorem writeFraming_spec (layout : DbLayout) (hentries : layout.entries ≤ build.maxTables)
    (hpayload : dbPayloadStart build ≤ layout.store.capacity) :
    ∃ cell : ℕ → UInt8,
      writeFraming layout = (.ok, withCells layout cell) ∧
      Mirrored build (withCells layout cell) ∧
      ∀ address, dbPayloadStart build ≤ address → cell address = layout.store.cell address := by
  have hend : dbDirStart + (0 + layout.entries) * dbDirEntryBytes ≤ dbPayloadStart build := by
    simp only [dbPayloadStart, dbDirEntryBytes]
    omega
  obtain ⟨cell, hwrite, hdirectory, hframe⟩ := writeEntries_spec 0 layout (hend.trans hpayload)
  refine ⟨splice cell dbRegionStart (superblockBytes layout), ?_, ?_, fun address haddress => ?_⟩
  · simp only [writeFraming, hwrite]
    exact writeSuperblock_of_le (withCells layout cell) hpayload
  · exact mirrored_after_superblock (withCells layout cell) hentries hpayload
      fun index hindex => hdirectory index (Nat.zero_le _) (by simpa using hindex)
  · have hsuperblock : dbRegionStart + (superblockBytes layout).length ≤ address :=
      (dbDirStart_le_payloadStart build).trans haddress
    rw [splice_of_ge _ _ hsuperblock, hframe address (Or.inr (hend.trans haddress))]

end PdiStack.Framing
