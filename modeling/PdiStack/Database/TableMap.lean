import PdiStack.Core.StateMachine
import PdiStack.Database.Mounting

/-!
# The engine as a map from table ids to records

A client of the engine sees a map: a write that succeeds sets the record of an id,
a clear removes it, and everything else leaves the map alone.  The engine is run
as a state machine over these operations, a reboot being one of them: a fresh
object mounts the store that the last one left behind.

`run_serves` is the simulation: after every run the engine serves its tables and
represents the map that the history of the run describes.
-/

namespace PdiStack.TableMap

open FlatStore PdiTypes LayoutEngine Framing Records Serving Packing Mounting StateMachine Function

/-- What a client can do with a mounted engine.  `alloc` is the outcome of the heap
allocation an operation makes, `draws` the words it takes from the random
generator. -/
inductive Operation where
  | writeRecord (id : UInt16) (payload : Payload) (version : UInt16) (alloc : Bool)
      (draws : Fin 4 → UInt32)
  | clearRecord (id : UInt16)
  | readRecord (id cap : UInt16) (alloc : Bool)
  | setFirmwareVersion (version : UInt32)
  | setLaunchYear (year : UInt8)
  | remount (alloc : Bool)

def Operation.step (build : Build) (tables : List StructTables) (layout : DbLayout) :
    Operation → PdiErr × DbLayout
  | .writeRecord id payload version alloc draws =>
    LayoutEngine.writeRecord build layout id payload version alloc draws
  | .clearRecord id => LayoutEngine.clearRecord layout id
  | .readRecord id cap alloc => ((LayoutEngine.readRecord build layout id cap alloc).status, layout)
  | .setFirmwareVersion version => (.ok, LayoutEngine.setFirmwareVersion layout version)
  | .setLaunchYear year => (.ok, LayoutEngine.setLaunchYear layout year)
  | .remount alloc => mount build (freshLayout layout.store) (some layout.store) tables alloc

def Operation.apply (contents : UInt16 → Option TableRecord) :
    Operation × PdiErr → UInt16 → Option TableRecord
  | (.writeRecord id payload version _ _, .ok) =>
    update contents id (some { bytes := payload.bytes, version := version })
  | (.clearRecord id, .ok) => update contents id none
  | _ => contents

def Operation.target : Operation → Option UInt16
  | .writeRecord id _ _ _ _ => some id
  | .clearRecord id => some id
  | .readRecord id _ _ => some id
  | _ => none

/-- An operation only changes the map at its own id. -/
theorem Operation.apply_of_target_ne {operation : Operation} {id : UInt16}
    (htarget : operation.target ≠ some id) (contents : UInt16 → Option TableRecord)
    (status : PdiErr) : Operation.apply contents (operation, status) id = contents id := by
  cases operation with
  | writeRecord other payload version alloc draws | clearRecord other =>
    have hne : id ≠ other := fun heq => htarget (congrArg some heq.symm)
    cases status with
    | ok => exact update_of_ne hne ..
    | _ => rfl
  | _ => rfl

/-- A write that does not succeed leaves the map alone. -/
theorem Operation.apply_of_not_ok {status : PdiErr} (hstatus : status ≠ .ok)
    {contents : UInt16 → Option TableRecord} {operation : Operation} :
    Operation.apply contents (operation, status) = contents := by
  cases operation with
  | writeRecord id payload version alloc draws | clearRecord id =>
    cases status with
    | ok => exact absurd rfl hstatus
    | _ => rfl
  | _ => rfl

/-- What an operation leaves alone for an id: the slots of the directory, and the
version of the entry with that id. -/
structure KeepsId (layout other : DbLayout) (id : UInt16) : Prop where
  entries_eq : other.entries = layout.entries
  placement : ∀ index < layout.entries,
    SamePlacement (layout.directory index) (other.directory index)
  version_eq : ∀ index < layout.entries, (layout.directory index).id = id →
    (other.directory index).version = (layout.directory index).version

theorem keepsId_of_sameRecords {build : Build} {layout other : DbLayout}
    (hsame : SameRecords build layout other) {id : UInt16} : KeepsId layout other id where
  entries_eq := hsame.entries_eq
  placement index hindex := by
    rw [hsame.directory_eq index hindex]
    exact ⟨rfl, rfl, rfl, rfl⟩
  version_eq index hindex _ := by rw [hsame.directory_eq index hindex]

theorem keepsId_withEntry {layout : DbLayout} {index : ℕ} {entry : DbDirEntry}
    (hentry : SamePlacement (layout.directory index) entry) {cell : ℕ → UInt8} {id : UInt16}
    (hid : (layout.directory index).id ≠ id) :
    KeepsId layout (withEntry (withCells layout cell) index entry) id where
  entries_eq := rfl
  placement other _ := samePlacement_update hentry other
  version_eq other _ hother := by
    have hne : other ≠ index := fun heq => hid (heq ▸ hother)
    exact congrArg DbDirEntry.version (update_of_ne hne ..)

/-- What one operation does, seen from an engine that represents a map. -/
structure StepSound (build : Build) (tables : List StructTables) (layout : DbLayout)
    (contents : UInt16 → Option TableRecord) (operation : Operation) : Prop where
  serves : Serves build tables (operation.step build tables layout).2
  represents : Represents build (operation.step build tables layout).2
    (Operation.apply contents (operation, (operation.step build tables layout).1))
  keeps : ∀ id, operation.target ≠ some id →
    KeepsId layout (operation.step build tables layout).2 id

section

variable {build : Build} {tables : List StructTables} {layout : DbLayout}
  {contents : UInt16 → Option TableRecord}

section

variable (hserves : Serves build tables layout)
include hserves

section

variable (hrepresents : Represents build layout contents)
include hrepresents

theorem stepSound_of_unchanged {operation : Operation} (status : PdiErr)
    (hstep : operation.step build tables layout = (status, layout))
    (happly : Operation.apply contents (operation, status) = contents) :
    StepSound build tables layout contents operation where
  serves := by rw [hstep]; exact hserves
  represents := by rw [hstep, happly]; exact hrepresents
  keeps id _ := by
    rw [hstep]
    exact ⟨rfl, fun _ _ => ⟨rfl, rfl, rfl, rfl⟩, fun _ _ _ => rfl⟩

/-- An operation that keeps every record. -/
theorem stepSound_of_sameRecords {operation : Operation} (status : PdiErr) {other : DbLayout}
    (hstep : operation.step build tables layout = (status, other))
    (happly : Operation.apply contents (operation, status) = contents)
    (hsame : SameRecords build layout other) (hother : Serves build tables other) :
    StepSound build tables layout contents operation where
  serves := by rw [hstep]; exact hother
  represents := by
    rw [hstep, happly]
    exact hrepresents.of_sameRecords hserves.placed hsame
  keeps id _ := by
    rw [hstep]
    exact keepsId_of_sameRecords hsame

/-- An operation that replaces the record of one slot. -/
theorem stepSound_of_entry {operation : Operation} {index : ℕ} (hindex : index < layout.entries)
    (entry : DbDirEntry) (record : Option TableRecord) {cell : ℕ → UInt8}
    (hstep : operation.step build tables layout =
      (.ok, withEntry (withCells layout cell) index entry))
    (hentry : SamePlacement (layout.directory index) entry)
    (hmirrored : Mirrored build (withEntry (withCells layout cell) index entry))
    (hcell : ∀ address, dbPayloadStart build ≤ address →
      address < (layout.directory index).offset.toNat ∨
        (layout.directory index).offset.toNat + (layout.directory index).cap.toNat ≤ address →
      cell address = layout.store.cell address)
    (hstores : Stores build cell entry (payloadOf record))
    (hversion : ∀ written, record = some written → entry.version = written.version)
    (happly : Operation.apply contents (operation, .ok) =
      update contents (layout.directory index).id record)
    (htarget : operation.target = some (layout.directory index).id) :
    StepSound build tables layout contents operation where
  serves := by
    rw [hstep]
    exact serves_withEntry hserves hentry hmirrored
  represents := by
    rw [hstep, happly]
    exact represents_withEntry hserves.placed hrepresents hindex hentry hcell hstores hversion
  keeps id hid := by
    rw [hstep]
    exact keepsId_withEntry hentry fun heq => hid (heq ▸ htarget)

end

/-- Writing an entry back after it and its slot have changed. -/
theorem writeEntry_withEntry {index : ℕ} (hindex : index < layout.entries) (entry : DbDirEntry)
    {cell : ℕ → UInt8}
    (hcell : ∀ address < dbPayloadStart build, cell address = layout.store.cell address) :
    ∃ written : ℕ → UInt8,
      writeEntry (withEntry (withCells layout cell) index entry) index =
        (.ok, withEntry (withCells layout written) index entry) ∧
      Mirrored build (withEntry (withCells layout written) index entry) ∧
      ∀ address, dbPayloadStart build ≤ address → written address = cell address := by
  have hlt : index < build.maxTables := hindex.trans_le hserves.mirrored.entries_le
  have hwrite := writeEntry_of_lt (withEntry (withCells layout cell) index entry) hlt
    hserves.mirrored.payload_le
  have hentry : (withEntry (withCells layout cell) index entry).directory index = entry :=
    update_self ..
  rw [hentry] at hwrite
  refine ⟨_, hwrite, ?_, fun address haddress => ?_⟩
  · exact mirrored_after_entry (hserves.mirrored.of_payload_change hcell) hindex entry
  · refine splice_of_ge _ _ ?_
    rw [length_dbPutEntry]
    exact (entry_address_le hlt).trans haddress

/-- One slot is set to a payload, and everything outside of it stays. -/
structure Sets (build : Build) (layout : DbLayout) (index : ℕ) (entry : DbDirEntry)
    (cell : ℕ → UInt8) (payload : List UInt8) : Prop where
  index_lt : index < layout.entries
  placement : SamePlacement (layout.directory index) entry
  mirrored : Mirrored build (withEntry (withCells layout cell) index entry)
  outside : ∀ address, dbPayloadStart build ≤ address →
    address < (layout.directory index).offset.toNat ∨
      (layout.directory index).offset.toNat + (layout.directory index).cap.toNat ≤ address →
    cell address = layout.store.cell address
  stores : Stores build cell entry payload

/-- A write either fails and changes nothing, or sets the slot of its id. -/
theorem writeRecord_cases (id : UInt16) (payload : Payload) (version : UInt16) (alloc : Bool)
    (draws : Fin 4 → UInt32) :
    (∃ status, status ≠ PdiErr.ok ∧
        LayoutEngine.writeRecord build layout id payload version alloc draws = (status, layout)) ∨
      ∃ index entry cell, (layout.directory index).id = id ∧
        LayoutEngine.writeRecord build layout id payload version alloc draws =
          (.ok, withEntry (withCells layout cell) index entry) ∧
        Sets build layout index entry cell payload.bytes ∧ entry.version = version := by
  have hplaced := hserves.placed
  cases hfound : findEntry layout id with
  | none =>
    exact .inl ⟨.notFound, by decide, by simp [LayoutEngine.writeRecord, hserves.mounted, hfound]⟩
  | some index =>
    obtain ⟨hindex, rfl⟩ := findIndex_spec hfound
    by_cases hfits : payload.bytes.length +
        (if (layout.directory index).sealed then dbSealOverhead else 0) >
          (layout.directory index).cap.toNat
    · exact .inl ⟨.noSpace, by decide,
        by simp [LayoutEngine.writeRecord, hserves.mounted, hfound, hfits]⟩
    rcases storePayload_spec (hplaced.can_seal index hindex) payload.length_lt
      (Nat.not_lt.mp hfits) (hplaced.end_le index hindex) alloc draws with
      ⟨status, hstatus, hfailed⟩ | ⟨cell, crc, hstored, hstores, hcell⟩
    · refine .inl ⟨status, hstatus, ?_⟩
      simp only [LayoutEngine.writeRecord, hserves.mounted, hfound, hfits, hfailed]
      cases status with
      | ok => exact absurd rfl hstatus
      | _ => rfl
    · -- The slot is written, what is left is to set the version and write the entry back.
      have hbelow : ∀ address < dbPayloadStart build,
          cell address = layout.store.cell address := fun address haddress =>
        hcell address (Or.inl (haddress.trans_le (hplaced.start_le index hindex)))
      obtain ⟨written, hwrite, hmirrored, hkept⟩ := writeEntry_withEntry hserves hindex
        { layout.directory index with
          len := UInt16.ofNat payload.bytes.length, crc := crc, version := version } hbelow
      refine .inr ⟨index, _, written, rfl, ?_, ⟨hindex, ?_, hmirrored, ?_, ?_⟩, rfl⟩
      · simp only [LayoutEngine.writeRecord, hserves.mounted, hfound, hfits, hstored, commitVersion]
        rw [← hwrite]
        simp [withEntry]
      · exact ⟨rfl, rfl, rfl, rfl⟩
      · intro address hstart houtside
        rw [hkept address hstart, hcell address houtside]
      · refine (hstores.of_version version).of_cells fun address hlower _ => hkept address ?_
        exact (hplaced.start_le index hindex).trans hlower

/-- A write sets the record of its id in the map, if it succeeds. -/
theorem stepSound_writeRecord (hrepresents : Represents build layout contents) {id : UInt16}
    {payload : Payload} {version : UInt16} {alloc : Bool} {draws : Fin 4 → UInt32} :
    StepSound build tables layout contents (.writeRecord id payload version alloc draws) := by
  obtain ⟨status, hstatus, hwrite⟩ | ⟨index, entry, cell, rfl, hwrite, hsets, hversion⟩ :=
    writeRecord_cases hserves id payload version alloc draws
  · exact stepSound_of_unchanged hserves hrepresents status hwrite
      (Operation.apply_of_not_ok hstatus)
  · refine stepSound_of_entry hserves hrepresents hsets.index_lt entry
      (some { bytes := payload.bytes, version := version }) hwrite hsets.placement hsets.mirrored
      hsets.outside hsets.stores ?_ rfl rfl
    rintro record ⟨⟩
    exact hversion

/-- A clear empties the slot of its id, or finds none. -/
theorem clearRecord_cases (id : UInt16) :
    LayoutEngine.clearRecord layout id = (.notFound, layout) ∨
      ∃ index entry cell, (layout.directory index).id = id ∧
        LayoutEngine.clearRecord layout id = (.ok, withEntry (withCells layout cell) index entry) ∧
        Sets build layout index entry cell [] := by
  cases hfound : findEntry layout id with
  | none => exact .inl (by simp [LayoutEngine.clearRecord, hserves.mounted, hfound])
  | some index =>
    obtain ⟨hindex, rfl⟩ := findIndex_spec hfound
    obtain ⟨written, hwrite, hmirrored, hkept⟩ := writeEntry_withEntry hserves hindex
      { layout.directory index with len := 0, crc := 0 } fun _ _ => rfl
    refine .inr ⟨index, _, written, rfl, ?_, ⟨hindex, ?_, hmirrored,
      fun address hstart _ => hkept address hstart, Stores.empty rfl⟩⟩
    · simp only [LayoutEngine.clearRecord, hfound]
      rw [if_pos hserves.mounted]
      exact hwrite
    · exact ⟨rfl, rfl, rfl, rfl⟩

/-- Clearing removes the record of an id, or fails when there is no such id. -/
theorem stepSound_clearRecord (hrepresents : Represents build layout contents) {id : UInt16} :
    StepSound build tables layout contents (.clearRecord id) := by
  obtain hnone | ⟨index, entry, cell, rfl, hclear, hsets⟩ := clearRecord_cases hserves id
  · exact stepSound_of_unchanged hserves hrepresents .notFound hnone rfl
  · exact stepSound_of_entry hserves hrepresents hsets.index_lt entry none hclear hsets.placement
      hsets.mirrored hsets.outside hsets.stores nofun rfl rfl

theorem writeSuperblock_keeps (other : DbLayout)
    (hother : other = { layout with firmware := other.firmware, year := other.year }) :
    SameRecords build layout (writeSuperblock other).2 ∧
      Serves build tables (writeSuperblock other).2 := by
  have hcapacity : other.store.capacity = layout.store.capacity := by rw [hother]
  have hcells : other.store.cell = layout.store.cell := by rw [hother]
  have hdirectory : other.directory = layout.directory := by rw [hother]
  have hentries : other.entries = layout.entries := by rw [hother]
  have hmounted : other.mounted = layout.mounted := by rw [hother]
  have hpayload : dbPayloadStart build ≤ other.store.capacity :=
    hcapacity ▸ hserves.mirrored.payload_le
  have hsame : SameRecords build layout (writeSuperblock other).2 := by
    rw [writeSuperblock_of_le other hpayload]
    refine ⟨hcapacity, hentries, fun index _ => congrFun hdirectory index, ?_⟩
    intro address haddress
    rw [withCells_cell, splice_of_ge, hcells]
    exact (dbDirStart_le_payloadStart build).trans haddress
  refine ⟨hsame, hserves.of_sameRecords hsame ?_ ?_⟩
  · rw [writeSuperblock_of_le other hpayload, withCells_mounted, hmounted]
    exact hserves.mounted
  · rw [writeSuperblock_of_le other hpayload]
    refine mirrored_after_superblock other (hentries ▸ hserves.mirrored.entries_le) hpayload ?_
    intro index hindex
    rw [hcells, hdirectory]
    exact hserves.mirrored.directory index (hentries ▸ hindex)

/-- Every operation keeps the engine serving its tables and moves the map as its
status says. -/
theorem stepSound (hrepresents : Represents build layout contents) (operation : Operation) :
    StepSound build tables layout contents operation := by
  cases operation with
  | writeRecord id payload version alloc draws =>
    exact stepSound_writeRecord hserves hrepresents
  | clearRecord id => exact stepSound_clearRecord hserves hrepresents
  | readRecord id cap alloc => exact stepSound_of_unchanged hserves hrepresents _ rfl rfl
  | setFirmwareVersion version =>
    by_cases hchanged : layout.mounted && layout.firmware != version
    · obtain ⟨hsame, hother⟩ := writeSuperblock_keeps hserves { layout with firmware := version } rfl
      refine stepSound_of_sameRecords hserves hrepresents .ok ?_ rfl hsame hother
      simp only [Operation.step, LayoutEngine.setFirmwareVersion, if_pos hchanged]
    · refine stepSound_of_unchanged hserves hrepresents .ok ?_ rfl
      simp only [Operation.step, LayoutEngine.setFirmwareVersion, if_neg hchanged]
  | setLaunchYear year =>
    by_cases hchanged : layout.mounted && layout.year != year
    · obtain ⟨hsame, hother⟩ := writeSuperblock_keeps hserves { layout with year := year } rfl
      refine stepSound_of_sameRecords hserves hrepresents .ok ?_ rfl hsame hother
      simp only [Operation.step, LayoutEngine.setLaunchYear, if_pos hchanged]
    · refine stepSound_of_unchanged hserves hrepresents .ok ?_ rfl
      simp only [Operation.step, LayoutEngine.setLaunchYear, if_neg hchanged]
  | remount alloc =>
    obtain ⟨loaded, hmount, hsame, hloaded⟩ := remount_of_served hserves hrepresents alloc
    exact stepSound_of_sameRecords hserves hrepresents .ok hmount rfl hsame hloaded

end

end

/-- The map that a history describes: for each id the last write that succeeded,
unless a clear came after it. -/
def recordsOf (history : List (Operation × PdiErr)) : UInt16 → Option TableRecord :=
  history.foldl Operation.apply fun _ => none

/-- After every run the engine serves its tables and represents the map that the
history of the run describes. -/
theorem run_serves {build : Build} {tables : List StructTables} {layout : DbLayout}
    (hserves : Serves build tables layout) (hempty : Represents build layout fun _ => none)
    (operations : List Operation) :
    Serves build tables (run (Operation.step build tables) operations layout).2 ∧
      Represents build (run (Operation.step build tables) operations layout).2
        (recordsOf (run (Operation.step build tables) operations layout).1) := by
  refine run_simulation Operation.apply (fun layout contents =>
    Serves build tables layout ∧ Represents build layout contents) ?_ operations
    ⟨hserves, hempty⟩
  rintro layout contents operation ⟨hlayout, hcontents⟩
  have hsound := stepSound hlayout hcontents operation
  exact ⟨hsound.serves, hsound.represents⟩

section

variable {build : Build} {tables : List StructTables} {layout : DbLayout}
  {contents : UInt16 → Option TableRecord} (hserves : Serves build tables layout)
  (hrepresents : Represents build layout contents)

include hserves hrepresents

/-- An operation does not change what is read for an id it is not on. -/
theorem readRecord_step {operation : Operation} {id : UInt16}
    (htarget : operation.target ≠ some id) {cap : UInt16} {alloc : Bool} :
    readRecord build (operation.step build tables layout).2 id cap alloc =
      readRecord build layout id cap alloc := by
  have hsound := stepSound hserves hrepresents operation
  have hkeeps := hsound.keeps id htarget
  refine readRecord_congr hserves.mounted hsound.serves.mounted hserves.placed
    hsound.serves.placed hrepresents hsound.represents hkeeps.entries_eq
    (fun index hindex => (hkeeps.placement index hindex).id_eq) ?_
    (fun index hindex hid =>
      ⟨(hkeeps.placement index hindex).sealed_eq, hkeeps.version_eq index hindex hid⟩) cap alloc
  rw [Operation.apply_of_target_ne htarget]

/-- Reading a served table: the beginning of the record of its id in the map. -/
theorem readRecord_of_serves {table : StructTables} (htable : table ∈ tables) (cap : UInt16) :
    ∃ version, readRecord build layout table.tableId cap true =
        { status := .ok
          bytes := (payloadOf (contents table.tableId)).take cap.toNat
          len := UInt16.ofNat (min (payloadOf (contents table.tableId)).length cap.toNat)
          version := version } ∧
      ∀ record, contents table.tableId = some record → version = record.version := by
  obtain ⟨index, hindex, hid, -⟩ := hserves.registered table htable
  have hread := readRecord_of_represents hserves.mounted hserves.placed hrepresents hindex cap true
  have hversion := hrepresents.version_eq index hindex
  rw [hid] at hread hversion
  refine ⟨(layout.directory index).version, ?_, hversion⟩
  rw [hread]
  simp [expectedRead]

theorem readRecord_of_record {id : UInt16} {record : TableRecord}
    (hrecord : contents id = some record) {cap : UInt16} :
    readRecord build layout id cap true =
      { status := .ok
        bytes := record.bytes.take cap.toNat
        len := UInt16.ofNat (min record.bytes.length cap.toNat)
        version := record.version } := by
  obtain ⟨index, hindex, rfl⟩ : ∃ index < layout.entries, (layout.directory index).id = id := by
    by_contra hnone
    have habsent := hrepresents.absent id fun index hindex hid => hnone ⟨index, hindex, hid⟩
    rw [hrecord] at habsent
    cases habsent
  rw [readRecord_of_represents hserves.mounted hserves.placed hrepresents hindex, hrecord]
  simp [expectedRead, payloadOf, hrepresents.version_eq index hindex record hrecord]

/-- A read without heap for its scratch either did not need one or says so. -/
theorem readRecord_without_heap {table : StructTables} (htable : table ∈ tables) {cap : UInt16} :
    readRecord build layout table.tableId cap false =
        readRecord build layout table.tableId cap true ∨
      readRecord build layout table.tableId cap false = { status := .noMem } := by
  obtain ⟨index, hindex, hid, -⟩ := hserves.registered table htable
  have hread := readRecord_of_represents hserves.mounted hserves.placed hrepresents hindex cap
  rw [← hid, hread, hread]
  by_cases hscratch : payloadOf (contents (layout.directory index).id) ≠ [] ∧
      (layout.directory index).sealed = true
  · right
    simp [expectedRead, hscratch]
  · left
    have hneither : ∀ alloc, ¬(payloadOf (contents (layout.directory index).id) ≠ [] ∧
        (layout.directory index).sealed = true ∧ alloc = false) :=
      fun alloc hall => hscratch ⟨hall.1, hall.2.1⟩
    rw [expectedRead, expectedRead, if_neg (hneither _), if_neg (hneither _)]

end

/-- A build with sealing whose cipher and mac do nothing, over an erased store of 256
bytes. -/
def sampleBuild : Build where
  maxTables := 2
  maxTables_le := by decide
  sealing := true
  cipher := fun _ block => block
  hmacSha256 := fun _ _ => List.replicate 32 0
  length_hmacSha256 := by simp
  dbKey := some (List.replicate 16 7)

def sampleStore : Store UInt8 := { capacity := 256, cell := fun _ => 0xFF }

def sampleTables : List StructTables :=
  [{ tableId := 1, tableSize := 8, tableVersion := 1, tableSecret := true },
    { tableId := 4, tableSize := 20, tableVersion := 3, tableSecret := false }]

end PdiStack.TableMap
