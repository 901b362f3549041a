import Mathlib
import PdiStack.Database.Records

/-!
# Serving a list of tables

A mounted engine serves the tables it was mounted with: the medium mirrors the
directory, every table has one slot of its size, and the slots are inside the
payload area and pairwise disjoint.  `Represents` relates such an engine to a map
from table ids to records, and every operation on records keeps both.
-/

namespace PdiStack.Serving

open FlatStore PdiTypes LayoutEngine Framing Records Function List

/-- The slots of the directory: inside the payload area, pairwise disjoint, with
distinct ids, and sealed only in a build that can seal. -/
structure Placed (build : Build) (layout : DbLayout) : Prop where
  start_le : ∀ index < layout.entries,
    dbPayloadStart build ≤ (layout.directory index).offset.toNat
  end_le : ∀ index < layout.entries,
    (layout.directory index).offset.toNat + (layout.directory index).cap.toNat ≤
      layout.store.capacity
  disjoint : ∀ first < layout.entries, ∀ second < layout.entries, first ≠ second →
    (layout.directory first).offset.toNat + (layout.directory first).cap.toNat ≤
        (layout.directory second).offset.toNat ∨
      (layout.directory second).offset.toNat + (layout.directory second).cap.toNat ≤
        (layout.directory first).offset.toNat
  distinct : ∀ first < layout.entries, ∀ second < layout.entries,
    (layout.directory first).id = (layout.directory second).id → first = second
  can_seal : ∀ index < layout.entries,
    (layout.directory index).sealed = true → build.sealing = true

def Describes (build : Build) (entry : DbDirEntry) (table : StructTables) : Prop :=
  entry.id = table.tableId ∧ entry.cap = dbSlotFor build table ∧ entry.sealed = dbSeals build table

structure Serves (build : Build) (tables : List StructTables) (layout : DbLayout) : Prop where
  mounted : layout.mounted = true
  capacity_lt : layout.store.capacity < 65536
  mirrored : Mirrored build layout
  placed : Placed build layout
  entries_eq : layout.entries = tables.length
  registered : ∀ table ∈ tables, ∃ index < layout.entries,
    Describes build (layout.directory index) table
  described : ∀ index < layout.entries, ∃ table ∈ tables,
    Describes build (layout.directory index) table

/-- One entry of the map that the engine keeps: the bytes and the version of the
last write. -/
structure TableRecord where
  bytes : List UInt8
  version : UInt16
deriving DecidableEq, Repr

def payloadOf : Option TableRecord → List UInt8
  | none => []
  | some record => record.bytes

/-- Every slot stores what the map says about its id, and the map says nothing
about ids without a slot. -/
structure Represents (build : Build) (layout : DbLayout)
    (contents : UInt16 → Option TableRecord) : Prop where
  stores : ∀ index < layout.entries,
    Stores build layout.store.cell (layout.directory index)
      (payloadOf (contents (layout.directory index).id))
  version_eq : ∀ index < layout.entries, ∀ record,
    contents (layout.directory index).id = some record →
      (layout.directory index).version = record.version
  absent : ∀ id, (∀ index < layout.entries, (layout.directory index).id ≠ id) → contents id = none

variable {build : Build} {entry : DbDirEntry} {layout other : DbLayout} {id : UInt16}
  {contents : UInt16 → Option TableRecord} {entries index : ℕ} {directory : ℕ → DbDirEntry}

theorem findIndex_spec (hfound : findIndex directory entries id = some index) :
    index < entries ∧ (directory index).id = id := by
  have hmem := mem_of_find?_eq_some hfound
  have hid := find?_some hfound
  exact ⟨mem_range.mp hmem, by simpa using hid⟩

theorem findIndex_eq_none (hnone : findIndex directory entries id = none)
    (hindex : index < entries) :
    (directory index).id ≠ id := by
  have habsent := find?_eq_none.mp hnone index (mem_range.mpr hindex)
  simpa using habsent

/-- With distinct ids the lookup finds the one entry of an id. -/
theorem findIndex_of_distinct
    (hdistinct : ∀ first < entries, ∀ second < entries,
      (directory first).id = (directory second).id → first = second) (hindex : index < entries) :
    findIndex directory entries (directory index).id = some index := by
  cases hfound : findIndex directory entries (directory index).id with
  | none => exact absurd rfl (findIndex_eq_none hfound hindex)
  | some found =>
    obtain ⟨hlt, hid⟩ := findIndex_spec hfound
    rw [hdistinct found hlt index hindex hid]

theorem findIndex_congr {left right : ℕ → DbDirEntry}
    (hagree : ∀ index < entries, (left index).id = (right index).id) (id : UInt16) :
    findIndex left entries id = findIndex right entries id := by
  have hlist : ∀ indices : List ℕ, (∀ index ∈ indices, index < entries) →
      indices.find? (fun index => (left index).id = id) =
        indices.find? (fun index => (right index).id = id) := by
    intro indices hindices
    induction indices with
    | nil => rfl
    | cons index indices ih =>
      have htail := ih fun other hother => hindices other (mem_cons_of_mem _ hother)
      have hhead := hagree index (hindices index mem_cons_self)
      simp [find?_cons, hhead, htail]
  exact hlist _ fun index hindex => mem_range.mp hindex

/-- Two engines whose directories in use and payload areas agree. -/
structure SameRecords (build : Build) (layout other : DbLayout) : Prop where
  capacity_eq : other.store.capacity = layout.store.capacity
  entries_eq : other.entries = layout.entries
  directory_eq : ∀ index < layout.entries, other.directory index = layout.directory index
  cell_eq : ∀ address, dbPayloadStart build ≤ address →
    other.store.cell address = layout.store.cell address

theorem Placed.of_sameRecords (hplaced : Placed build layout)
    (hsame : SameRecords build layout other) :
    Placed build other := by
  obtain ⟨hcapacity, hentries, hdirectory, -⟩ := hsame
  constructor
  · intro index hindex
    rw [hentries] at hindex
    rw [hdirectory index hindex]
    exact hplaced.start_le index hindex
  · intro index hindex
    rw [hentries] at hindex
    rw [hdirectory index hindex, hcapacity]
    exact hplaced.end_le index hindex
  · intro first hfirst second hsecond
    rw [hentries] at hfirst hsecond
    rw [hdirectory first hfirst, hdirectory second hsecond]
    exact hplaced.disjoint first hfirst second hsecond
  · intro first hfirst second hsecond
    rw [hentries] at hfirst hsecond
    rw [hdirectory first hfirst, hdirectory second hsecond]
    exact hplaced.distinct first hfirst second hsecond
  · intro index hindex
    rw [hentries] at hindex
    rw [hdirectory index hindex]
    exact hplaced.can_seal index hindex

theorem Serves.of_sameRecords {tables : List StructTables} (hserves : Serves build tables layout)
    (hsame : SameRecords build layout other) (hmounted : other.mounted = true)
    (hmirrored : Mirrored build other) : Serves build tables other where
  mounted := hmounted
  capacity_lt := hsame.capacity_eq ▸ hserves.capacity_lt
  mirrored := hmirrored
  placed := hserves.placed.of_sameRecords hsame
  entries_eq := hsame.entries_eq.trans hserves.entries_eq
  registered table htable := by
    obtain ⟨index, hindex, hdescribes⟩ := hserves.registered table htable
    exact ⟨index, hsame.entries_eq ▸ hindex, hsame.directory_eq index hindex ▸ hdescribes⟩
  described index hindex := by
    have hlt : index < layout.entries := hsame.entries_eq ▸ hindex
    rw [hsame.directory_eq index hlt]
    exact hserves.described index hlt

theorem Represents.of_sameRecords (hplaced : Placed build layout)
    (hrepresents : Represents build layout contents) (hsame : SameRecords build layout other) :
    Represents build other contents where
  stores index hindex := by
    have hlt : index < layout.entries := hsame.entries_eq ▸ hindex
    rw [hsame.directory_eq index hlt]
    refine (hrepresents.stores index hlt).of_cells fun address hlower _ =>
      hsame.cell_eq address ?_
    exact (hplaced.start_le index hlt).trans hlower
  version_eq index hindex := by
    have hlt : index < layout.entries := hsame.entries_eq ▸ hindex
    rw [hsame.directory_eq index hlt]
    exact hrepresents.version_eq index hlt
  absent id habsent := by
    refine hrepresents.absent id fun index hindex => ?_
    rw [← hsame.directory_eq index hindex]
    exact habsent index (hsame.entries_eq ▸ hindex)

theorem readRecord_of_represents (hmounted : layout.mounted = true) (hplaced : Placed build layout)
    (hrepresents : Represents build layout contents) (hindex : index < layout.entries)
    (cap : UInt16) (alloc : Bool) :
    readRecord build layout (layout.directory index).id cap alloc =
      expectedRead (layout.directory index)
        (payloadOf (contents (layout.directory index).id)) cap alloc := by
  have hfound : findEntry layout (layout.directory index).id = some index :=
    findIndex_of_distinct hplaced.distinct hindex
  simp only [readRecord, hmounted, hfound]
  exact readEntryRecord_of_stores (hrepresents.stores index hindex) (hplaced.end_le index hindex)
    cap alloc

/-- Engines that serve records with the same entries and payloads answer every
read alike, also for ids they do not hold. -/
theorem readRecord_congr {contents' : UInt16 → Option TableRecord}
    (hmounted : layout.mounted = true) (hmounted' : other.mounted = true)
    (hplaced : Placed build layout) (hplaced' : Placed build other)
    (hrepresents : Represents build layout contents)
    (hrepresents' : Represents build other contents') (hentries : other.entries = layout.entries)
    (hids : ∀ index < layout.entries, (other.directory index).id = (layout.directory index).id)
    (hcontents : payloadOf (contents' id) = payloadOf (contents id))
    (hentry : ∀ index < layout.entries, (layout.directory index).id = id →
      (other.directory index).sealed = (layout.directory index).sealed ∧
        (other.directory index).version = (layout.directory index).version) (cap : UInt16)
    (alloc : Bool) :
    readRecord build other id cap alloc = readRecord build layout id cap alloc := by
  cases hfound : findEntry layout id with
  | none =>
    have hfound' : findEntry other id = none := by
      unfold findEntry
      rw [hentries, findIndex_congr hids]
      exact hfound
    simp [readRecord, hmounted, hmounted', hfound, hfound']
  | some index =>
    obtain ⟨hindex, rfl⟩ := findIndex_spec hfound
    have hread := readRecord_of_represents hmounted hplaced hrepresents hindex cap alloc
    have hread' := readRecord_of_represents hmounted' hplaced' hrepresents'
      (hentries ▸ hindex) cap alloc
    rw [hids index hindex, hcontents] at hread'
    obtain ⟨hkind, hversion⟩ := hentry index hindex rfl
    rw [hread, hread']
    simp [expectedRead, hkind, hversion]

/-- An entry with the placement of another, whose record may differ. -/
structure SamePlacement (entry other : DbDirEntry) : Prop where
  id_eq : other.id = entry.id
  offset_eq : other.offset = entry.offset
  cap_eq : other.cap = entry.cap
  flags_eq : other.flags = entry.flags

theorem SamePlacement.sealed_eq {other : DbDirEntry} (hsame : SamePlacement entry other) :
    other.sealed = entry.sealed := by
  simp [DbDirEntry.sealed, hsame.flags_eq]

theorem samePlacement_update (hentry : SamePlacement (directory index) entry) (other : ℕ) :
    SamePlacement (directory other) (update directory index entry other) := by
  by_cases hother : other = index
  · subst hother
    rwa [update_self]
  · rw [update_of_ne hother]
    exact ⟨rfl, rfl, rfl, rfl⟩

theorem placed_withEntry (hplaced : Placed build layout)
    (hentry : SamePlacement (layout.directory index) entry) {cell : ℕ → UInt8} :
    Placed build (withEntry (withCells layout cell) index entry) := by
  have hsame := samePlacement_update hentry
  constructor
  · intro other hother
    simp only [withEntry, withCells_directory, (hsame other).offset_eq]
    exact hplaced.start_le other hother
  · intro other hother
    simp only [withEntry, withCells_directory, (hsame other).offset_eq, (hsame other).cap_eq]
    exact hplaced.end_le other hother
  · intro first hfirst second hsecond
    simp only [withEntry, withCells_directory, (hsame first).offset_eq, (hsame first).cap_eq,
      (hsame second).offset_eq, (hsame second).cap_eq]
    exact hplaced.disjoint first hfirst second hsecond
  · intro first hfirst second hsecond
    simp only [withEntry, withCells_directory, (hsame first).id_eq, (hsame second).id_eq]
    exact hplaced.distinct first hfirst second hsecond
  · intro other hother
    simp only [withEntry, withCells_directory, (hsame other).sealed_eq]
    exact hplaced.can_seal other hother

theorem serves_withEntry {tables : List StructTables} (hserves : Serves build tables layout)
    (hentry : SamePlacement (layout.directory index) entry) {cell : ℕ → UInt8}
    (hmirrored : Mirrored build (withEntry (withCells layout cell) index entry)) :
    Serves build tables (withEntry (withCells layout cell) index entry) where
  mounted := hserves.mounted
  capacity_lt := hserves.capacity_lt
  mirrored := hmirrored
  placed := placed_withEntry hserves.placed hentry
  entries_eq := hserves.entries_eq
  registered table htable := by
    obtain ⟨other, hother, hid, hcap, hkind⟩ := hserves.registered table htable
    have hsame := samePlacement_update hentry other
    exact ⟨other, hother, hsame.id_eq.trans hid, hsame.cap_eq.trans hcap,
      hsame.sealed_eq.trans hkind⟩
  described other hother := by
    obtain ⟨table, htable, hid, hcap, hkind⟩ := hserves.described other hother
    have hsame := samePlacement_update hentry other
    exact ⟨table, htable, hsame.id_eq.trans hid, hsame.cap_eq.trans hcap,
      hsame.sealed_eq.trans hkind⟩

/-- A change inside one slot changes the map at the id of that slot only. -/
theorem represents_withEntry (hplaced : Placed build layout)
    (hrepresents : Represents build layout contents) (hindex : index < layout.entries)
    (hentry : SamePlacement (layout.directory index) entry) {cell : ℕ → UInt8}
    (hcell : ∀ address, dbPayloadStart build ≤ address →
      address < (layout.directory index).offset.toNat ∨
        (layout.directory index).offset.toNat + (layout.directory index).cap.toNat ≤ address →
      cell address = layout.store.cell address) {record : Option TableRecord}
    (hstores : Stores build cell entry (payloadOf record))
    (hversion : ∀ written, record = some written → entry.version = written.version) :
    Represents build (withEntry (withCells layout cell) index entry)
      (update contents (layout.directory index).id record) := by
  have hother : ∀ other < layout.entries, other ≠ index →
      (layout.directory other).id ≠ (layout.directory index).id := fun other hlt hne heq =>
    hne (hplaced.distinct other hlt index hindex heq)
  constructor
  · intro other hlt
    by_cases hsame : other = index
    · subst hsame
      simp only [withEntry, update_self, hentry.id_eq]
      exact hstores
    · simp only [withEntry, withCells_directory, update_of_ne hsame,
        update_of_ne (hother other hlt hsame)]
      refine (hrepresents.stores other hlt).of_cells fun address hlower hupper =>
        hcell address ?_ ?_
      · exact (hplaced.start_le other hlt).trans hlower
      · have hdisjoint := hplaced.disjoint other hlt index hindex hsame
        omega
  · intro other hlt
    by_cases hsame : other = index
    · subst hsame
      simp only [withEntry, update_self, hentry.id_eq]
      exact hversion
    · simp only [withEntry, withCells_directory, update_of_ne hsame,
        update_of_ne (hother other hlt hsame)]
      exact hrepresents.version_eq other hlt
  · intro id habsent
    have hids : ∀ other < layout.entries, (layout.directory other).id ≠ id := by
      intro other hlt
      rw [← (samePlacement_update hentry other).id_eq]
      exact habsent other hlt
    rw [update_of_ne (hids index hindex).symm]
    exact hrepresents.absent id hids

end PdiStack.Serving
