import Mathlib
import PdiStack.Database.TableMap

/-!
# Migrating to another list of tables

A mount whose tables differ from the directory on the medium repacks the database: it
decides the new slots, lifts every record that changes its place through a buffer, and
lays them down again.

The new slots are pairwise disjoint, so that the ranges written are apart from each
other and from every record that stays (`lowerRecords_eq`, `spliceAll_moves_of_slot`).
`repack_spec` puts it together.
-/

namespace PdiStack.Migration

open FlatStore PdiTypes LayoutEngine Framing Records Serving Packing Mounting TableMap StateMachine
  List

def Fits (build : Build) (table : StructTables) (payload : List UInt8) : Prop :=
  payload.length + (if dbSeals build table then dbSealOverhead else 0) ≤
    (dbSlotFor build table).toNat

instance (build : Build) (table : StructTables) (payload : List UInt8) :
    Decidable (Fits build table payload) := inferInstanceAs (Decidable (_ ≤ _))

/-- The record of a table after a migration: the one it had, if it held any bytes
and they fit the new slot. -/
def carriedRecord (build : Build) (table : StructTables) (record : Option TableRecord) :
    Option TableRecord :=
  if payloadOf record ≠ [] ∧ Fits build table (payloadOf record) then record else none

def migrate (build : Build) (tables : List StructTables)
    (contents : UInt16 → Option TableRecord) (id : UInt16) : Option TableRecord :=
  match tables.find? fun table => table.tableId = id with
  | none => none
  | some table => carriedRecord build table (contents id)

variable {entry : DbDirEntry} {table : StructTables}

theorem find?_tableId {tables : List StructTables}
    (hnodup : (tables.map StructTables.tableId).Nodup) (htable : table ∈ tables) :
    (tables.find? fun other => other.tableId = table.tableId) = some table := by
  induction tables with
  | nil => simp at htable
  | cons first tables ih =>
    rw [map_cons, nodup_cons] at hnodup
    rcases mem_cons.mp htable with rfl | hmem
    · simp
    · have hne : first.tableId ≠ table.tableId := fun heq =>
        hnodup.1 (heq ▸ mem_map_of_mem hmem)
      rw [find?_cons_of_neg (by simpa using hne)]
      exact ih hnodup.2 hmem

theorem migrate_of_mem (build : Build) {tables : List StructTables}
    (hnodup : (tables.map StructTables.tableId).Nodup) (htable : table ∈ tables)
    (contents : UInt16 → Option TableRecord) :
    migrate build tables contents table.tableId =
      carriedRecord build table (contents table.tableId) := by
  simp [migrate, find?_tableId hnodup htable]

theorem storedLength_eq {build : Build} (hkind : entry.sealed = dbSeals build table)
    (payload : List UInt8) :
    storedLength entry payload =
      payload.length + if dbSeals build table then dbSealOverhead else 0 := by
  simp [storedLength, hkind]

theorem dbStoredBytes_toNat {build : Build} {cell : ℕ → UInt8} {payload : List UInt8}
    (hstores : Stores build cell entry payload) :
    (dbStoredBytes entry).toNat = if payload = [] then 0 else storedLength entry payload := by
  have hlen := hstores.len_eq
  by_cases hpayload : payload = []
  · have hzero : entry.len = 0 := UInt16.toNat.inj (by simpa [hpayload] using hlen)
    simp [dbStoredBytes, hzero, hpayload]
  have hpositive : entry.len ≠ 0 := by
    intro hzero
    apply hpayload
    simpa [hzero] using hlen.symm
  have hstored := hstores.stored_le hpayload
  have hcap := entry.cap.toNat_lt
  rw [dbStoredBytes, if_neg hpositive, if_neg hpayload]
  unfold storedLength at *
  split at hstored
  · next hsealed =>
    rw [if_pos hsealed, if_pos hsealed, UInt16.toNat_add]
    simp only [UInt16.toNat_ofNat'] at *
    omega
  · next hplain => rw [if_neg hplain, if_neg hplain, hlen, add_zero]

theorem dbStoredBytes_congr {other : DbDirEntry} (hlen : other.len = entry.len)
    (hkind : other.sealed = entry.sealed) : dbStoredBytes other = dbStoredBytes entry := by
  simp [dbStoredBytes, hlen, hkind]

/-- The record at an index of a packing was handed over by an old entry. -/
structure CarriedFrom (layout : DbLayout) (packing : Packing) (payload : List UInt8)
    (index origin : ℕ) : Prop where
  origin_lt : origin < layout.entries
  source_eq : packing.source index = (layout.directory origin).offset
  len_eq : (packing.directory index).len = (layout.directory origin).len
  crc_eq : (packing.directory index).crc = (layout.directory origin).crc
  version_eq : (packing.directory index).version = (layout.directory origin).version
  sealed_eq : (packing.directory index).sealed = (layout.directory origin).sealed
  nonempty : payload ≠ []
  fits : storedLength (layout.directory origin) payload ≤ (packing.directory index).cap.toNat

/-- Each record is sealed as the new registry wants its table to be. -/
def SealedAlike (build : Build) (registry : List StructTables) (layout : DbLayout) : Prop :=
  ∀ index < layout.entries, ∀ table ∈ registry, (layout.directory index).id = table.tableId →
    (layout.directory index).sealed = dbSeals build table

section

variable {build : Build} {tables registry : List StructTables} {layout : DbLayout}
  {contents : UInt16 → Option TableRecord} {packing : Packing}

/-- What the packing loop does with the record of a table: it is handed over exactly
when the map after the migration has it. -/
theorem packed_entry_cases (hrepresents : Represents build layout contents)
    (hkinds : SealedAlike build registry layout)
    (hpacked : PackedWith build layout.directory layout.entries registry packing)
    {index : ℕ} (htable : registry[index]? = some table) :
    ((packing.directory index).len = 0 ∧ packing.source index = 0 ∧
        carriedRecord build table (contents table.tableId) = none) ∨
      ∃ origin, (layout.directory origin).id = table.tableId ∧
        CarriedFrom layout packing (payloadOf (contents table.tableId)) index origin ∧
        carriedRecord build table (contents table.tableId) = contents table.tableId := by
  have hentry := hpacked.entry_eq index table htable
  generalize hempty : emptyEntry build table (slotStart build registry index) = empty at hentry
  have hid : empty.id = table.tableId := by rw [← hempty]; rfl
  have hcap : empty.cap = dbSlotFor build table := by rw [← hempty]; rfl
  have hlen : empty.len = 0 := by rw [← hempty]; rfl
  have hseals : empty.sealed = dbSeals build table := by
    rw [← hempty]
    exact sealed_emptyEntry build table _
  unfold carryRecord at hentry
  rw [hid] at hentry
  cases hfound : findIndex layout.directory layout.entries table.tableId with
  | none =>
    rw [hfound] at hentry
    obtain ⟨hdirectory, hsource⟩ := Prod.mk.inj hentry
    have hnone : contents table.tableId = none :=
      hrepresents.absent _ fun other hother => findIndex_eq_none hfound hother
    exact Or.inl ⟨by rw [hdirectory, hlen], hsource, by simp [hnone, carriedRecord]⟩
  | some origin =>
    obtain ⟨horigin, horiginId⟩ := findIndex_spec hfound
    have hstores := hrepresents.stores origin horigin
    rw [horiginId] at hstores
    have hkind := hkinds origin horigin table (mem_of_getElem? htable) horiginId
    have hbytes := dbStoredBytes_toNat hstores
    -- The test of the source is the condition of the map after the migration.
    have hiff : (dbStoredBytes (layout.directory origin) ≠ 0 ∧
        (layout.directory origin).sealed = empty.sealed ∧
        dbStoredBytes (layout.directory origin) ≤ empty.cap) ↔
        payloadOf (contents table.tableId) ≠ [] ∧
          Fits build table (payloadOf (contents table.tableId)) := by
      rw [hseals, hcap, UInt16.le_iff_toNat_le, hbytes, Fits, ← storedLength_eq hkind]
      by_cases hpayload : payloadOf (contents table.tableId) = []
      · rw [if_pos hpayload] at hbytes
        have hzero : dbStoredBytes (layout.directory origin) = 0 := UInt16.toNat.inj hbytes
        simp [hpayload, hzero]
      · rw [if_neg hpayload] at hbytes
        have hpositive : 0 < (payloadOf (contents table.tableId)).length :=
          length_pos_iff.mpr hpayload
        have hnonzero : dbStoredBytes (layout.directory origin) ≠ 0 := by
          intro hzero
          rw [hzero] at hbytes
          simp only [storedLength, UInt16.toNat_zero] at hbytes
          omega
        simp [hpayload, hnonzero, hkind]
    rw [hfound] at hentry
    simp only at hentry
    by_cases hcarried : payloadOf (contents table.tableId) ≠ [] ∧
        Fits build table (payloadOf (contents table.tableId))
    · rw [if_pos (hiff.mpr hcarried)] at hentry
      obtain ⟨hdirectory, hsource⟩ := Prod.mk.inj hentry
      refine Or.inr ⟨origin, horiginId, ?_, by rw [carriedRecord, if_pos hcarried]⟩
      refine ⟨horigin, hsource, ?_, ?_, ?_, ?_, hcarried.1, ?_⟩
      · rw [hdirectory]
      · rw [hdirectory]
      · rw [hdirectory]
      · rw [hdirectory, hkind, ← hseals]
        rfl
      · rw [hdirectory, storedLength_eq hkind]
        simp only [hcap]
        exact hcarried.2
    · rw [if_neg fun htest => hcarried (hiff.mp htest)] at hentry
      obtain ⟨hdirectory, hsource⟩ := Prod.mk.inj hentry
      exact Or.inl ⟨by rw [hdirectory, hlen], hsource, by rw [carriedRecord, if_neg hcarried]⟩

end

/-! ## Lifting and lowering -/

def storedAt (packing : Packing) (index : ℕ) : ℕ := (dbStoredBytes (packing.directory index)).toNat

def liftedBytes (cell : ℕ → UInt8) (packing : Packing) (index : ℕ) : List UInt8 :=
  slice cell (packing.source index).toNat (storedAt packing index)

def moveWrites (cell : ℕ → UInt8) (packing : Packing) (indices : List ℕ) : List (ℕ × List UInt8) :=
  indices.map fun index =>
    ((packing.directory index).offset.toNat, liftedBytes cell packing index)

theorem liftRecords_eq {store : Store UInt8} {packing : Packing} {indices : List ℕ}
    (hinside : ∀ index ∈ indices,
      (packing.source index).toNat + storedAt packing index ≤ store.capacity) :
    liftRecords store packing indices = indices.flatMap (liftedBytes store.cell packing) := by
  induction indices with
  | nil => rfl
  | cons index indices ih =>
    have hread := Store.read_of_le (hinside index mem_cons_self)
    rw [storedAt] at hread
    simp only [liftRecords, hread]
    rw [ih fun other hother => hinside other (mem_cons_of_mem _ hother)]
    rfl

/-- Laying the lifted bytes down again writes each record to its new place. -/
theorem lowerRecords_eq {cell : ℕ → UInt8} {packing : Packing} {indices : List ℕ} :
    ∀ store : Store UInt8,
    (∀ index ∈ indices,
      (packing.directory index).offset.toNat + storedAt packing index ≤ store.capacity) →
    lowerRecords packing indices (indices.flatMap (liftedBytes cell packing)) store =
      { store with cell := spliceAll store.cell (moveWrites cell packing indices) } := by
  induction indices with
  | nil => intro store _; rfl
  | cons index indices ih =>
    intro store hinside
    have hlength : (liftedBytes cell packing index).length = storedAt packing index := by
      simp [liftedBytes]
    have hwrite : (packing.directory index).offset.toNat +
        (liftedBytes cell packing index).length ≤ store.capacity := by
      rw [hlength]
      exact hinside index mem_cons_self
    simp only [lowerRecords, flatMap_cons]
    rw [show (dbStoredBytes (packing.directory index)).toNat =
      (liftedBytes cell packing index).length from hlength.symm, take_left, drop_left,
      Store.write_of_le hwrite]
    exact ih _ fun other hother => hinside other (mem_cons_of_mem _ hother)

section

variable {build : Build} {tables registry : List StructTables} {layout : DbLayout}
  {contents : UInt16 → Option TableRecord} {packing : Packing}

/-- The new directory over the old store, before anything is moved. -/
def packedLayout (layout : DbLayout) (packing : Packing) : DbLayout :=
  { layout with directory := packing.directory, entries := packing.entries }

variable {index : ℕ} (hserves : Serves build tables layout)
  (hrepresents : Represents build layout contents) (hkinds : SealedAlike build registry layout)
  (hpacked : PackedWith build layout.directory layout.entries registry packing)
  (hplaced : Placed build (packedLayout layout packing))
  (hranges : ∀ index ∈ packing.moved, index < packing.entries ∧
    storedAt packing index ≤ (packing.directory index).cap.toNat)

include hrepresents hkinds hpacked in
/-- Every moved record was handed over. -/
theorem carriedFrom_of_moved (hmoved : index ∈ packing.moved) :
    index < packing.entries ∧ ∃ origin id,
      (layout.directory origin).id = id ∧
      CarriedFrom layout packing (payloadOf (contents id)) index origin := by
  rw [Packing.moved, mem_filter, mem_range] at hmoved
  obtain ⟨hindex, hmoves⟩ := hmoved
  simp only [Packing.moves, decide_eq_true_eq] at hmoves
  obtain ⟨table, htable⟩ := hpacked.exists_table hindex
  refine ⟨hindex, ?_⟩
  rcases packed_entry_cases hrepresents hkinds hpacked htable with
    ⟨-, hsource, -⟩ | ⟨origin, hid, hcarried, -⟩
  · exact absurd hsource hmoves.1
  · exact ⟨origin, table.tableId, hid, hcarried⟩

/-- A record that was handed over takes as many bytes as before, inside its new
slot. -/
theorem CarriedFrom.storedAt_eq {payload : List UInt8} {origin : ℕ}
    (hcarried : CarriedFrom layout packing payload index origin)
    (hstores : Stores build layout.store.cell (layout.directory origin) payload) :
    storedAt packing index = storedLength (layout.directory origin) payload := by
  rw [storedAt, dbStoredBytes_congr hcarried.len_eq hcarried.sealed_eq,
    dbStoredBytes_toNat hstores, if_neg hcarried.nonempty]

include hserves hrepresents hkinds hpacked in
/-- What a migration needs to know about the records it moves: they come from inside
the store, go to their own slots, and are not empty. -/
theorem moved_ranges (hmoved : index ∈ packing.moved) :
    index < packing.entries ∧ 0 < storedAt packing index ∧
      storedAt packing index ≤ (packing.directory index).cap.toNat ∧
      (packing.source index).toNat + storedAt packing index ≤ layout.store.capacity := by
  obtain ⟨hindex, origin, id, hid, hcarried⟩ :=
    carriedFrom_of_moved hrepresents hkinds hpacked hmoved
  have hstores := hrepresents.stores origin hcarried.origin_lt
  rw [hid] at hstores
  have hstored := hcarried.storedAt_eq hstores
  have hfits := hcarried.fits
  have hslot := hstores.stored_le hcarried.nonempty
  have hend := hserves.placed.end_le origin hcarried.origin_lt
  have hpositive : 0 < (payloadOf (contents id)).length := length_pos_iff.mpr hcarried.nonempty
  have hlower : (payloadOf (contents id)).length ≤ storedAt packing index := by
    rw [hstored, storedLength]
    omega
  rw [hcarried.source_eq]
  refine ⟨hindex, by omega, by omega, by omega⟩

include hplaced hranges in
/-- The ranges that are written lie in different slots. -/
theorem moveWrites_apart {cell : ℕ → UInt8} :
    (moveWrites cell packing packing.moved).Pairwise Apart := by
  have hdistinct : packing.moved.Pairwise (· ≠ ·) := List.Pairwise.filter _ (nodup_range)
  rw [moveWrites, pairwise_map]
  refine hdistinct.imp_of_mem fun hfirst hsecond hne => ?_
  obtain ⟨hfirstLt, hfirstCap⟩ := hranges _ hfirst
  obtain ⟨hsecondLt, hsecondCap⟩ := hranges _ hsecond
  have hslots := hplaced.disjoint _ hfirstLt _ hsecondLt hne
  simp only [Apart, liftedBytes, length_slice]
  simp only [packedLayout] at hslots
  omega

include hplaced hranges in
/-- No moved record is written into the slot of another one. -/
theorem spliceAll_moves_of_slot (hindex : index < packing.entries) (hstays : index ∉ packing.moved)
    {address : ℕ}
    (hlower : (packing.directory index).offset.toNat ≤ address)
    (hupper : address < (packing.directory index).offset.toNat +
      (packing.directory index).cap.toNat) {cell : ℕ → UInt8} :
    spliceAll cell (moveWrites cell packing packing.moved) address = cell address := by
  refine spliceAll_of_outside cell fun write hwrite => ?_
  obtain ⟨other, hother, rfl⟩ := mem_map.mp hwrite
  obtain ⟨hotherLt, hotherCap⟩ := hranges other hother
  have hne : index ≠ other := fun heq => hstays (heq ▸ hother)
  have hslots := hplaced.disjoint index hindex other hotherLt hne
  simp only [liftedBytes, length_slice]
  simp only [packedLayout] at hslots
  omega

include hserves hrepresents hkinds hpacked hplaced in
/-- After the moves every record that was handed over lies at its new place. -/
theorem stores_after_moves (hindex : index < packing.entries)
    (htable : registry[index]? = some table) :
    Stores build (spliceAll layout.store.cell
        (moveWrites layout.store.cell packing packing.moved))
      (packing.directory index)
      (payloadOf (carriedRecord build table (contents table.tableId))) ∧
    ∀ record, carriedRecord build table (contents table.tableId) = some record →
      (packing.directory index).version = record.version := by
  have hranges : ∀ other ∈ packing.moved, other < packing.entries ∧
      storedAt packing other ≤ (packing.directory other).cap.toNat := fun other hother =>
    have hmoved := moved_ranges hserves hrepresents hkinds hpacked hother
    ⟨hmoved.1, hmoved.2.2.1⟩
  rcases packed_entry_cases hrepresents hkinds hpacked htable with
    ⟨hlen, -, hnone⟩ | ⟨origin, hid, hcarried, hrecord⟩
  · rw [hnone]
    exact ⟨Stores.empty hlen, fun _ hrecord => (nomatch hrecord)⟩
  have hstores := hrepresents.stores origin hcarried.origin_lt
  have hversion := hrepresents.version_eq origin hcarried.origin_lt
  rw [hid] at hstores hversion
  have hstored := hcarried.storedAt_eq hstores
  rw [hrecord]
  refine ⟨hstores.of_move hcarried.len_eq hcarried.crc_eq hcarried.sealed_eq hcarried.fits ?_,
    fun record hcontents => hcarried.version_eq.trans (hversion record hcontents)⟩
  rw [← hstored, ← hcarried.source_eq]
  by_cases hmoved : index ∈ packing.moved
  · have hwrite : ((packing.directory index).offset.toNat,
        liftedBytes layout.store.cell packing index) ∈
        moveWrites layout.store.cell packing packing.moved :=
      mem_map_of_mem hmoved
    have hslice := slice_spliceAll_of_mem layout.store.cell
      (moveWrites_apart hplaced hranges) hwrite
    simp only [liftedBytes, length_slice] at hslice
    exact hslice
  · -- The record stays: it was handed over, so its old and its new place are the same.
    have hstart := hserves.placed.start_le origin hcarried.origin_lt
    have hnonzero : packing.source index ≠ 0 := by
      rw [hcarried.source_eq]
      intro hzero
      rw [hzero] at hstart
      simp only [dbPayloadStart, dbDirStart, dbRegionStart, UInt16.toNat_zero] at hstart
      omega
    have hsame : packing.source index = (packing.directory index).offset := by
      by_contra hdifferent
      refine hmoved (mem_filter.mpr ⟨mem_range.mpr hindex, ?_⟩)
      simp [Packing.moves, hnonzero, hdifferent]
    rw [hsame]
    have hfits := hcarried.fits
    refine slice_congr fun address hlower hupper => ?_
    exact spliceAll_moves_of_slot hplaced hranges hindex hmoved hlower (by omega)

def movedCells (layout : DbLayout) (packing : Packing) : ℕ → UInt8 :=
  spliceAll layout.store.cell (moveWrites layout.store.cell packing packing.moved)

include hserves hrepresents hkinds hpacked hplaced in
/-- A complete packing is written back over the moved records, whether or not the
buffer was needed. -/
theorem repack_of_packed
    (hpack : packDirectory build layout layout.entries registry = (.ok, packing)) :
    repack build layout registry true =
      writeFraming (withCells (packedLayout layout packing) (movedCells layout packing)) := by
  have hranges := fun index hmoved =>
    @moved_ranges _ _ _ _ _ _ index hserves hrepresents hkinds hpacked hmoved
  have hlift : liftRecords layout.store packing packing.moved =
      packing.moved.flatMap (liftedBytes layout.store.cell packing) :=
    liftRecords_eq fun index hmoved => (hranges index hmoved).2.2.2
  have hlower : lowerRecords packing packing.moved
      (packing.moved.flatMap (liftedBytes layout.store.cell packing)) layout.store =
        { layout.store with cell := movedCells layout packing } := by
    refine lowerRecords_eq layout.store fun index hmoved => ?_
    obtain ⟨hindex, -, hcap, -⟩ := hranges index hmoved
    have hend := hplaced.end_le index hindex
    simp only [packedLayout] at hend
    omega
  simp only [repack, hpack, if_true, hlift, hlower]
  by_cases hcarried : packing.carried = 0
  · -- Moved records are not empty, so an empty buffer means that none was moved.
    have hnone : packing.moved = [] := by
      rw [eq_nil_iff_forall_not_mem]
      intro index hmoved
      have hpositive := (hranges index hmoved).2.1
      have hzero := List.sum_eq_zero_iff_forall_eq_nat.mp hcarried _ (mem_map_of_mem hmoved)
      rw [storedAt] at hpositive
      omega
    rw [if_neg (by simpa using hcarried), movedCells, hnone]
    rfl
  · rw [if_pos hcarried]
    rfl

variable (hnodup : (registry.map StructTables.tableId).Nodup)

include hserves hrepresents hkinds hnodup in
/-- A migration leaves an engine that serves the new tables and represents the old
map with the records that still fit. -/
theorem repack_spec (hcount : registry.length ≤ build.maxTables)
    {migrated : DbLayout} (hrepack : repack build layout registry true = (.ok, migrated)) :
    Serves build registry migrated ∧
      Represents build migrated (migrate build registry contents) := by
  rcases hpack : packDirectory build layout layout.entries registry with ⟨status, packing⟩
  have hok : status = .ok := by
    simp only [repack, hpack] at hrepack
    cases status with
    | ok => rfl
    | _ => cases hrepack
  subst hok
  obtain ⟨hpacked, hend⟩ := packTables_of_ok registry [] _ packing
    (packedWith_nil build layout layout.entries) (by simpa using hcount)
    hserves.mirrored.payload_le hpack
  rw [nil_append] at hpacked hend
  have hplaced : Placed build (packedLayout layout packing) :=
    placed_of_packed hpacked rfl rfl hend hserves.capacity_lt hnodup
  rw [repack_of_packed hserves hrepresents hkinds hpacked hplaced hpack] at hrepack
  obtain ⟨cell, hwrite, hmirrored, hkept⟩ :=
    writeFraming_spec (withCells (packedLayout layout packing) (movedCells layout packing))
      (hpacked.entries_eq.trans_le hcount) hserves.mirrored.payload_le
  rw [hwrite] at hrepack
  obtain ⟨-, rfl⟩ := Prod.mk.inj hrepack
  refine ⟨serves_of_packed hpacked rfl rfl hend hserves.capacity_lt hnodup hserves.mounted
    hmirrored, ?_⟩
  have hslot : ∀ index < packing.entries, ∃ table ∈ registry,
      (packing.directory index).id = table.tableId ∧ registry[index]? = some table := by
    intro index hindex
    obtain ⟨table, htable⟩ := hpacked.exists_table hindex
    exact ⟨table, mem_of_getElem? htable, (hpacked.describes htable).1, htable⟩
  constructor
  · intro index hindex
    obtain ⟨table, hmem, hid, htable⟩ := hslot index hindex
    have hstores := (stores_after_moves hserves hrepresents hkinds hpacked hplaced hindex
      htable).1
    simp only [withCells_directory, withCells_cell, packedLayout, hid,
      migrate_of_mem build hnodup hmem]
    refine hstores.of_cells fun address hlower _ => hkept address ?_
    exact (hplaced.start_le index hindex).trans hlower
  · intro index hindex
    obtain ⟨table, hmem, hid, htable⟩ := hslot index hindex
    simp only [withCells_directory, packedLayout, hid, migrate_of_mem build hnodup hmem]
    exact (stores_after_moves hserves hrepresents hkinds hpacked hplaced hindex htable).2
  · intro id habsent
    have hnone : (registry.find? fun table => table.tableId = id) = none := by
      rw [find?_eq_none]
      intro table hmem
      obtain ⟨index, hindex⟩ := mem_iff_getElem?.mp hmem
      have hlt : index < packing.entries := by
        rw [hpacked.entries_eq]
        exact (List.getElem?_eq_some_iff.mp hindex).1
      have hid := (hpacked.describes hindex).1
      have hne := habsent index hlt
      simp only [withCells_directory, packedLayout] at hne
      simpa [← hid] using hne
    simp [migrate, hnone]

/-! ## Mounting with another list -/

include hserves hkinds hnodup in
/-- A geometry that matches needs no migration: the directory already serves the new
tables, which are the old ones in some order. -/
theorem serves_of_geometryMatches (hmatches : geometryMatches build layout registry = true) :
    Serves build registry layout := by
  simp only [geometryMatches, decide_eq_true_eq, all_eq_true] at hmatches
  obtain ⟨hlength, hall⟩ := hmatches
  have hregistered : ∀ table ∈ registry, ∃ index < layout.entries,
      Describes build (layout.directory index) table := by
    intro table htable
    have hfound := hall table htable
    split at hfound
    · cases hfound
    · next index hindex =>
      obtain ⟨hlt, hid⟩ := findIndex_spec hindex
      exact ⟨index, hlt, hid, by simpa using hfound, hkinds index hlt table htable hid⟩
  refine ⟨hserves.mounted, hserves.capacity_lt, hserves.mirrored, hserves.placed, hlength.symm,
    hregistered, ?_⟩
  -- As many distinct ids as there are entries, all of them in the directory.
  have hsubset : registry.map StructTables.tableId ⊆
      (List.range layout.entries).map fun index => (layout.directory index).id := by
    intro id hid
    obtain ⟨table, htable, rfl⟩ := mem_map.mp hid
    obtain ⟨index, hlt, hindex, -⟩ := hregistered table htable
    exact mem_map.mpr ⟨index, mem_range.mpr hlt, hindex⟩
  have hperm := (subperm_of_subset hnodup hsubset).perm_of_length_le (by simp [hlength])
  intro index hindex
  have hmem : (layout.directory index).id ∈ registry.map StructTables.tableId :=
    hperm.mem_iff.mpr (mem_map.mpr ⟨index, mem_range.mpr hindex, rfl⟩)
  obtain ⟨table, htable, hid⟩ := mem_map.mp hmem
  obtain ⟨other, hother, hdescribes⟩ := hregistered table htable
  have hsame : other = index :=
    hserves.placed.distinct other hother index hindex (hdescribes.1.trans hid)
  exact ⟨table, htable, hsame ▸ hdescribes⟩

/-- Records that keep their slots all fit them. -/
theorem represents_migrate (hserves : Serves build registry layout)
    (hrepresents : Represents build layout contents)
    (hnodup : (registry.map StructTables.tableId).Nodup) :
    Represents build layout (migrate build registry contents) := by
  have hcarried : ∀ index < layout.entries,
      payloadOf (migrate build registry contents (layout.directory index).id) =
        payloadOf (contents (layout.directory index).id) ∧
      ∀ record, migrate build registry contents (layout.directory index).id = some record →
        contents (layout.directory index).id = some record := by
    intro index hindex
    obtain ⟨table, htable, hid, hcap, hkind⟩ := hserves.described index hindex
    have hstores := hrepresents.stores index hindex
    rw [hid, migrate_of_mem build hnodup htable, carriedRecord]
    rw [hid] at hstores
    by_cases hpayload : payloadOf (contents table.tableId) = []
    · rw [if_neg fun hcarry => hcarry.1 hpayload]
      exact ⟨hpayload.symm, fun _ hrecord => (nomatch hrecord)⟩
    · have hfits : Fits build table (payloadOf (contents table.tableId)) := by
        have hstored := hstores.stored_le hpayload
        rwa [storedLength_eq hkind, hcap] at hstored
      rw [if_pos ⟨hpayload, hfits⟩]
      exact ⟨rfl, fun _ hrecord => hrecord⟩
  constructor
  · intro index hindex
    rw [(hcarried index hindex).1]
    exact hrepresents.stores index hindex
  · intro index hindex record hrecord
    exact hrepresents.version_eq index hindex record ((hcarried index hindex).2 record hrecord)
  · intro id habsent
    have hnone : (registry.find? fun table => table.tableId = id) = none := by
      rw [find?_eq_none]
      intro table htable
      obtain ⟨index, hindex, hid, -⟩ := hserves.registered table htable
      simpa [← hid] using habsent index hindex
    simp [migrate, hnone]

include hserves hrepresents hnodup in
/-- Mounting the store of a serving engine with other tables, none of which changes
its kind, gives an engine that serves the new tables and represents the migrated
map. -/
theorem mount_migrates (hcount : registry.length ≤ build.maxTables)
    (hsecret : ∀ old ∈ tables, ∀ table ∈ registry, old.tableId = table.tableId →
      old.tableSecret = table.tableSecret)
    {migrated : DbLayout}
    (hmount : mount build (freshLayout layout.store) (some layout.store) registry true =
      (.ok, migrated)) :
    Serves build registry migrated ∧
      Represents build migrated (migrate build registry contents) := by
  obtain ⟨loaded, hsame, hmounted, hmirrored, heq⟩ :=
    mount_of_served hserves hrepresents registry true
  have hloaded := hserves.of_sameRecords hsame hmounted hmirrored
  have hcontents := hrepresents.of_sameRecords hserves.placed hsame
  have hkinds : SealedAlike build registry loaded := by
    intro index hindex table htable hid
    obtain ⟨old, hold, holdId, -, hkind⟩ := hloaded.described index hindex
    rw [hkind, dbSeals, dbSeals, hsecret old hold table htable (holdId.symm.trans hid)]
  rw [heq] at hmount
  split at hmount
  · next hmatches =>
    obtain ⟨-, rfl⟩ := Prod.mk.inj hmount
    have hregistry := serves_of_geometryMatches hloaded hkinds hnodup hmatches
    exact ⟨hregistry, represents_migrate hregistry hcontents hnodup⟩
  · exact repack_spec hloaded hcontents hkinds hnodup hcount hmount

end

theorem exists_record {record : Option TableRecord} (hpayload : payloadOf record ≠ []) :
    ∃ held, record = some held := by
  cases record with
  | none => exact absurd rfl hpayload
  | some held => exact ⟨held, rfl⟩

/-- Migration preserves data.  Take any state that a run under one list of tables
reaches from a store without a superblock, and mount it with any second list in
which no id changes its secret flag.  If that mount succeeds, every id of the second
list that held a record whose stored bytes fit its new slot reads exactly as before,
and every other id reads as empty. -/
theorem readRecord_after_migration (build : Build) (tables registry : List StructTables)
    (store : Store UInt8) (hnodup : (tables.map StructTables.tableId).Nodup)
    (hcount : tables.length ≤ build.maxTables)
    (hfits : slotsEnd build tables ≤ store.capacity) (hcapacity : store.capacity ≤ 65535)
    (hblank : (readSuperblock build (freshLayout store)).1 ≠ .ok) (bootAlloc : Bool)
    (operations : List Operation)
    (hregistryNodup : (registry.map StructTables.tableId).Nodup)
    (hregistryCount : registry.length ≤ build.maxTables)
    (hsecret : ∀ old ∈ tables, ∀ table ∈ registry, old.tableId = table.tableId →
      old.tableSecret = table.tableSecret) :
    ∃ booted history layout,
      mount build (freshLayout store) (some store) tables bootAlloc = (.ok, booted) ∧
      run (Operation.step build tables) operations booted = (history, layout) ∧
      ∀ migrated,
        mount build (freshLayout layout.store) (some layout.store) registry true = (.ok, migrated) →
        ∀ table ∈ registry, ∀ cap,
          if payloadOf (recordsOf history table.tableId) ≠ [] ∧
              Fits build table (payloadOf (recordsOf history table.tableId)) then
            readRecord build migrated table.tableId cap true =
              readRecord build layout table.tableId cap true
          else
            (readRecord build migrated table.tableId cap true).status = .ok ∧
              (readRecord build migrated table.tableId cap true).bytes = [] ∧
              (readRecord build migrated table.tableId cap true).len = 0 := by
  obtain ⟨booted, hboot, hserves, hempty⟩ := mount_blank hcount hnodup hfits
    (Nat.lt_succ_of_le hcapacity) hblank bootAlloc
  obtain ⟨hserved, hrepresents⟩ := run_serves hserves hempty operations
  refine ⟨booted, _, _, hboot, rfl, fun migrated hmount table htable cap => ?_⟩
  obtain ⟨hmigrated, hcontents⟩ :=
    mount_migrates hserved hrepresents hregistryNodup hregistryCount hsecret hmount
  have hrecord := migrate_of_mem build hregistryNodup htable
    (recordsOf (run (Operation.step build tables) operations booted).1)
  split
  · next hheld =>
    rw [carriedRecord, if_pos hheld] at hrecord
    obtain ⟨record, hsome⟩ := exists_record hheld.1
    rw [hsome] at hrecord
    rw [readRecord_of_record hserved hrepresents hsome,
      readRecord_of_record hmigrated hcontents hrecord]
  · next hlost =>
    rw [carriedRecord, if_neg hlost] at hrecord
    obtain ⟨version, hread, -⟩ := readRecord_of_serves hmigrated hcontents htable cap
    rw [hread, hrecord]
    simp [payloadOf]

def sampleRegistry : List StructTables :=
  [{ tableId := 4, tableSize := 24, tableVersion := 4, tableSecret := false },
    { tableId := 1, tableSize := 8, tableVersion := 2, tableSecret := true }]

def sampleOperations : List Operation :=
  [.writeRecord 1 { bytes := [4, 5, 6], length_lt := by decide } 5 true fun _ => 0,
    .writeRecord 4 { bytes := [8], length_lt := by decide } 3 true fun _ => 0]

def sampleRun := run (Operation.step sampleBuild sampleTables) sampleOperations
  (mount sampleBuild (freshLayout sampleStore) (some sampleStore) sampleTables true).2

/-- The two tables change places, one of them grows, and both records are read as
before. -/
theorem readRecord_after_migration_sample :
    ∃ migrated,
      mount sampleBuild (freshLayout sampleRun.2.store) (some sampleRun.2.store) sampleRegistry
        true = (.ok, migrated) ∧
      ∀ table ∈ sampleRegistry, ∀ cap,
        readRecord sampleBuild migrated table.tableId cap true =
          readRecord sampleBuild sampleRun.2 table.tableId cap true := by
  obtain ⟨booted, history, layout, hboot, hrun, hreads⟩ :=
    readRecord_after_migration sampleBuild sampleTables sampleRegistry sampleStore (by decide)
      (by decide) (by decide) (by decide) (by decide) true sampleOperations (by decide) (by decide)
      (by decide)
  obtain rfl := congrArg Prod.snd hboot
  obtain rfl : sampleRun.1 = history := congrArg Prod.fst hrun
  obtain rfl : sampleRun.2 = layout := congrArg Prod.snd hrun
  have hmount : (mount sampleBuild (freshLayout sampleRun.2.store) (some sampleRun.2.store)
      sampleRegistry true).1 = .ok := by decide +kernel
  have hcarried : ∀ table ∈ sampleRegistry, payloadOf (recordsOf sampleRun.1 table.tableId) ≠ [] ∧
      Fits sampleBuild table (payloadOf (recordsOf sampleRun.1 table.tableId)) := by decide +kernel
  rcases hmigrated : mount sampleBuild (freshLayout sampleRun.2.store) (some sampleRun.2.store)
    sampleRegistry true with ⟨status, migrated⟩
  rw [hmigrated] at hmount
  obtain rfl : status = .ok := hmount
  refine ⟨migrated, rfl, fun table htable cap => ?_⟩
  have hread := hreads migrated hmigrated table htable cap
  rwa [if_pos (hcarried table htable)] at hread

/-! ## A store of more than 65535 bytes

The directory keeps an offset in 16 bits, and the packing compares the full offset with
the capacity.  Where the second table grows to 65528 bytes, the offset of the third one
wraps to that of the first. -/

def wideBuild : Build := { sampleBuild with maxTables := 3, maxTables_le := by decide }

def wideStore : Store UInt8 := { capacity := 70000, cell := fun _ => 0xFF }

def wideTables (size : UInt16) : List StructTables :=
  [{ tableId := 1, tableSize := 8, tableVersion := 1, tableSecret := false },
    { tableId := 2, tableSize := size, tableVersion := 1, tableSecret := false },
    { tableId := 3, tableSize := 8, tableVersion := 1, tableSecret := false }]

def wideRun := run (Operation.step wideBuild (wideTables 16))
  [.writeRecord 1 { bytes := [4, 5, 6], length_lt := by decide } 5 true fun _ => 0,
    .writeRecord 3 { bytes := [7, 8, 9], length_lt := by decide } 6 true fun _ => 0]
  (mount wideBuild (freshLayout wideStore) (some wideStore) (wideTables 16) true).2

def wideMount := mount wideBuild (freshLayout wideRun.2.store) (some wideRun.2.store)
  (wideTables 65528) true

/-- The record of the third table moves onto that of the first one, which has stayed in
place and is not read any more. -/
theorem moved_record_overwrites :
    (mount wideBuild (freshLayout wideStore) (some wideStore) (wideTables 16) true).1 = .ok ∧
      wideMount.1 = .ok ∧
      readRecord wideBuild wideRun.2 1 8 true =
        { status := .ok, bytes := [4, 5, 6], len := 3, version := 5 } ∧
      (readRecord wideBuild wideMount.2 1 8 true).status = .crc := by
  decide +kernel

end PdiStack.Migration
