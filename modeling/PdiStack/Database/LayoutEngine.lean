import Mathlib
import PdiStack.Core.FlatStore
import PdiStack.Utility.PdiTypes
import PdiStack.Utility.Checksum
import PdiStack.Utility.Aes

/-!
# The database layout engine

`DbLayout` frames a superblock, a fixed directory and packed records over a flat store
of bytes.  Every record carries its length, version and checksum.  A record of a secret
table is sealed: a nonce, the ciphertext and a tag are stored in its place.

The object and its store are one record that each operation takes and returns.  The
outcome of an allocation and the random values drawn are arguments.  A flush is part of
the write before it and does not fail.
-/

namespace PdiStack.LayoutEngine

open FlatStore PdiTypes Checksum Aes Function

/-- What the engine is compiled with and linked against. -/
structure Build where
  maxTables : ℕ
  maxTables_le : maxTables ≤ 255
  sealing : Bool
  cipher : List UInt8 → List UInt8 → List UInt8
  hmacSha256 : List UInt8 → List UInt8 → List UInt8
  length_hmacSha256 : ∀ key message, (hmacSha256 key message).length = 32
  dbKey : Option (List UInt8)

structure StructTables where
  tableId : UInt16
  tableSize : UInt16
  tableVersion : UInt16
  tableSecret : Bool
deriving DecidableEq, Repr

/-- `db_dir_entry_t`: one record's placement and state, held in ram and mirrored
on media. -/
structure DbDirEntry where
  id : UInt16 := 0
  version : UInt16 := 0
  offset : UInt16 := 0
  cap : UInt16 := 0
  len : UInt16 := 0
  crc : UInt16 := 0
  flags : UInt8 := 0
deriving DecidableEq, Repr

def dbRegionStart : ℕ := 5

def dbSuperblockBytes : ℕ := 12

def dbDirEntryBytes : ℕ := 13

def dbDirStart : ℕ := dbRegionStart + dbSuperblockBytes

variable (build : Build) (layout : DbLayout) (entry : DbDirEntry)

def dbPayloadStart : ℕ := dbDirStart + dbDirEntryBytes * build.maxTables

def dbCrcWindowBytes : ℕ := 32

def dbSealChunkBytes : ℕ := 64

def dbSealIvBytes : ℕ := 16

def dbSealTagBytes : ℕ := 16

def dbSealOverhead : ℕ := dbSealIvBytes + dbSealTagBytes

def dbFormatVersion : UInt8 := 1

def dbMagic : List UInt8 := [0x50, 0x44, 0x42]

def dbEntryFlagSealed : UInt8 := 0x01

def dbPutU16 (value : UInt16) : List UInt8 :=
  [(value &&& 0xFF).toUInt8, ((value >>> 8) &&& 0xFF).toUInt8]

def dbGetU16 (buf : List UInt8) (position : ℕ) : UInt16 :=
  (buf.getD position 0).toUInt16 ||| ((buf.getD (position + 1) 0).toUInt16 <<< 8)

def dbPutU32 (value : UInt32) : List UInt8 :=
  [(value &&& 0xFF).toUInt8, ((value >>> 8) &&& 0xFF).toUInt8,
    ((value >>> 16) &&& 0xFF).toUInt8, ((value >>> 24) &&& 0xFF).toUInt8]

def dbGetU32 (buf : List UInt8) (position : ℕ) : UInt32 :=
  (buf.getD position 0).toUInt32 ||| ((buf.getD (position + 1) 0).toUInt32 <<< 8) |||
    ((buf.getD (position + 2) 0).toUInt32 <<< 16) |||
      ((buf.getD (position + 3) 0).toUInt32 <<< 24)

def dbPutEntry : List UInt8 :=
  dbPutU16 entry.id ++ dbPutU16 entry.version ++ dbPutU16 entry.offset ++ dbPutU16 entry.cap ++
    dbPutU16 entry.len ++ dbPutU16 entry.crc ++ [entry.flags]

def dbGetEntry (buf : List UInt8) : DbDirEntry where
  id := dbGetU16 buf 0
  version := dbGetU16 buf 2
  offset := dbGetU16 buf 4
  cap := dbGetU16 buf 6
  len := dbGetU16 buf 8
  crc := dbGetU16 buf 10
  flags := buf.getD 12 0

def dbSeals (table : StructTables) : Bool := build.sealing && table.tableSecret

def dbSlotFor (table : StructTables) : UInt16 :=
  if dbSeals build table then table.tableSize + UInt16.ofNat dbSealOverhead else table.tableSize

def DbDirEntry.sealed : Bool := entry.flags &&& dbEntryFlagSealed ≠ 0

def dbStoredBytes : UInt16 :=
  if entry.len = 0 then 0
  else if entry.sealed then entry.len + UInt16.ofNat dbSealOverhead else entry.len

/-- `DbLayout`, together with the bytes of the store it is bound to. -/
structure DbLayout where
  store : Store UInt8
  directory : ℕ → DbDirEntry := fun _ => {}
  firmware : UInt32 := 0
  entries : ℕ := 0
  year : UInt8 := 0
  mounted : Bool := false
  formatted : Bool := false

def findIndex (directory : ℕ → DbDirEntry) (entries : ℕ) (id : UInt16) : Option ℕ :=
  (List.range entries).find? fun index => (directory index).id = id

def findEntry (id : UInt16) : Option ℕ := findIndex layout.directory layout.entries id

def superblockHead : List UInt8 :=
  dbMagic ++ [dbFormatVersion] ++ dbPutU32 layout.firmware ++
    [layout.year, UInt8.ofNat layout.entries]

def writeSuperblock : PdiErr × DbLayout :=
  let head := superblockHead layout
  match layout.store.write dbRegionStart (head ++ dbPutU16 (crc16Ccitt head)) with
  | none => (.io, layout)
  | some store => (.ok, { layout with store := store })

/-- `read_superblock`.  The counters are taken into the object before the number
of entries is checked. -/
def readSuperblock : PdiErr × DbLayout :=
  match layout.store.read dbRegionStart dbSuperblockBytes with
  | none => (.io, layout)
  | some buf =>
    if buf.take 3 ≠ dbMagic then (.corrupt, layout)
    else if buf.getD 3 0 ≠ dbFormatVersion then (.notSupported, layout)
    else if dbGetU16 buf 10 ≠ crc16Ccitt (buf.take (dbSuperblockBytes - 2)) then (.crc, layout)
    else
      let layout := { layout with
        firmware := dbGetU32 buf 4
        year := buf.getD 8 0
        entries := (buf.getD 9 0).toNat }
      if layout.entries > build.maxTables then (.corrupt, layout) else (.ok, layout)

def writeEntry (index : ℕ) : PdiErr × DbLayout :=
  match layout.store.write (dbDirStart + index * dbDirEntryBytes)
      (dbPutEntry (layout.directory index)) with
  | none => (.io, layout)
  | some store => (.ok, { layout with store := store })

def writeEntries (layout : DbLayout) : ℕ → ℕ → PdiErr × DbLayout
  | _, 0 => (.ok, layout)
  | index, count + 1 =>
    match writeEntry layout index with
    | (.ok, layout) => writeEntries layout (index + 1) count
    | failed => failed

def readEntries (layout : DbLayout) : ℕ → ℕ → PdiErr × DbLayout
  | _, 0 => (.ok, layout)
  | index, count + 1 =>
    match layout.store.read (dbDirStart + index * dbDirEntryBytes) dbDirEntryBytes with
    | none => (.io, layout)
    | some buf =>
      let entry := dbGetEntry buf
      let layout := { layout with directory := update layout.directory index entry }
      if layout.store.capacity < entry.offset.toNat + entry.cap.toNat ∨ entry.cap < entry.len then
        (.corrupt, layout)
      else readEntries layout (index + 1) count

def readDirectory : PdiErr × DbLayout := readEntries layout 0 layout.entries

def geometryMatches (tables : List StructTables) : Bool :=
  tables.length = layout.entries ∧ tables.all fun table =>
    match findEntry layout table.tableId with
    | none => false
    | some index => (layout.directory index).cap = dbSlotFor build table

/-- A directory being packed: the entries placed so far, the offset each carried
record comes from (zero when none is carried) and the first free offset. -/
structure Packing where
  directory : ℕ → DbDirEntry
  source : ℕ → UInt16
  entries : ℕ
  offset : ℕ

def emptyEntry (table : StructTables) (offset : ℕ) : DbDirEntry where
  id := table.tableId
  version := table.tableVersion
  offset := UInt16.ofNat offset
  cap := dbSlotFor build table
  flags := if dbSeals build table then dbEntryFlagSealed else 0

/-- The inner loop of `repack`: the first old entry with the same id hands its
record over when it holds one of the same kind that still fits. -/
def carryRecord (old : ℕ → DbDirEntry) (oldEntries : ℕ) (entry : DbDirEntry) :
    DbDirEntry × UInt16 :=
  match findIndex old oldEntries entry.id with
  | none => (entry, 0)
  | some index =>
    let stored := dbStoredBytes (old index)
    if stored ≠ 0 ∧ (old index).sealed = entry.sealed ∧ stored ≤ entry.cap then
      ({ entry with
          len := (old index).len
          crc := (old index).crc
          version := (old index).version }, (old index).offset)
    else (entry, 0)

def packTable (old : ℕ → DbDirEntry) (oldEntries : ℕ) (packing : Packing)
    (table : StructTables) : Packing :=
  let (entry, source) := carryRecord old oldEntries (emptyEntry build table packing.offset)
  { directory := update packing.directory packing.entries entry
    source := update packing.source packing.entries source
    entries := packing.entries + 1
    offset := packing.offset + (dbSlotFor build table).toNat }

/-- The packing loop shared by `format` and `repack`, which stops at the first
table that does not fit the store. -/
def packTables (build : Build) (capacity : ℕ) (old : ℕ → DbDirEntry) (oldEntries : ℕ) :
    List StructTables → Packing → PdiErr × Packing
  | [], packing => (.ok, packing)
  | table :: tables, packing =>
    if packing.entries < build.maxTables then
      if capacity < packing.offset + (dbSlotFor build table).toNat then (.noSpace, packing)
      else packTables build capacity old oldEntries tables
        (packTable build old oldEntries packing table)
    else (.ok, packing)

def packDirectory (oldEntries : ℕ)
    (tables : List StructTables) : PdiErr × Packing :=
  packTables build layout.store.capacity layout.directory oldEntries tables
    { directory := layout.directory, source := fun _ => 0, entries := 0,
      offset := dbPayloadStart build }

def writeFraming : PdiErr × DbLayout :=
  match writeEntries layout 0 layout.entries with
  | (.ok, layout) => writeSuperblock layout
  | failed => failed

/-- `format`: every record starts out empty, so there is no old directory to hand
records over. -/
def format (tables : List StructTables) : PdiErr × DbLayout :=
  match packDirectory build layout 0 tables with
  | (.ok, packing) =>
    writeFraming { layout with directory := packing.directory, entries := packing.entries }
  | (err, packing) =>
    (err, { layout with directory := packing.directory, entries := packing.entries })

def Packing.moves (packing : Packing) (index : ℕ) : Bool :=
  packing.source index ≠ 0 ∧ packing.source index ≠ (packing.directory index).offset

def Packing.moved (packing : Packing) : List ℕ := (List.range packing.entries).filter packing.moves

/-- The first pass over the moved records: their bytes, one after the other, in
the buffer.  The result of a read is not looked at, and a failed read leaves the
zeros the buffer was allocated with. -/
def liftRecords (store : Store UInt8) (packing : Packing) : List ℕ → List UInt8
  | [] => []
  | index :: rest =>
    let stored := (dbStoredBytes (packing.directory index)).toNat
    (store.read (packing.source index).toNat stored).getD (List.replicate stored 0) ++
      liftRecords store packing rest

/-- The second pass over the moved records: each takes its bytes from the front of
what is left of the buffer.  The result of a write is not looked at. -/
def lowerRecords (packing : Packing) : List ℕ → List UInt8 → Store UInt8 → Store UInt8
  | [], _, store => store
  | index :: rest, scratch, store =>
    let stored := (dbStoredBytes (packing.directory index)).toNat
    lowerRecords packing rest (scratch.drop stored)
      ((store.write (packing.directory index).offset.toNat (scratch.take stored)).getD store)

/-- The bytes of all moved records, the size of the buffer `repack` asks for. -/
def Packing.carried (packing : Packing) : ℕ :=
  (packing.moved.map fun index => (dbStoredBytes (packing.directory index)).toNat).sum

def repack (tables : List StructTables) (alloc : Bool) : PdiErr × DbLayout :=
  match packDirectory build layout layout.entries tables with
  | (.ok, packing) =>
    let layout := { layout with directory := packing.directory, entries := packing.entries }
    if packing.carried ≠ 0 then
      if alloc then
        let scratch := liftRecords layout.store packing packing.moved
        writeFraming
          { layout with store := lowerRecords packing packing.moved scratch layout.store }
      else (.noMem, layout)
    else writeFraming layout
  | (err, packing) =>
    (err, { layout with directory := packing.directory, entries := packing.entries })

def mount (store : Option (Store UInt8))
    (tables : List StructTables) (alloc : Bool) : PdiErr × DbLayout :=
  match store with
  | none => (.nullPtr, { layout with mounted := false, formatted := false })
  | some store =>
    let layout := { layout with store := store, mounted := false, formatted := false }
    if dbPayloadStart build > store.capacity then (.noSpace, layout)
    else
      match readSuperblock build layout with
      | (.ok, layout) =>
        match readDirectory layout with
        | (.ok, layout) =>
          let layout := { layout with mounted := true }
          if geometryMatches build layout tables then (.ok, layout)
          else repack build layout tables alloc
        | (_, layout) => (.corrupt, layout)
      | (_, layout) =>
        match format build layout tables with
        | (.ok, layout) => (.ok, { layout with mounted := true, formatted := true })
        | failed => failed

/-- The loop of `verify_plain`: the checksum of the record, taken through a
window. -/
def crcWindows (store : Store UInt8) (offset len : ℕ) : Option UInt16 :=
  store.foldWindows dbCrcWindowBytes crc16CcittUpdate offset len len 0 0xFFFF

def verifyPlain : PdiErr :=
  match crcWindows layout.store entry.offset.toNat entry.len.toNat with
  | none => .io
  | some crc => if crc = entry.crc then .ok else .crc

def sealIv (draws : Fin 4 → UInt32) : List UInt8 :=
  dbPutU32 (draws 0) ++ dbPutU32 (draws 1) ++ dbPutU32 (draws 2) ++ dbPutU32 (draws 3)

/-- The loop of `seal_record`: encrypt what is left of the payload a chunk at a
time, write each chunk behind the last one and take it into the mac. -/
def sealChunks (build : Build) : ℕ → List UInt8 → ℕ → AesCtx → List UInt8 → Store UInt8 →
    PdiErr × List UInt8 × Store UInt8
  | 0, _, _, _, message, store => (.ok, message, store)
  | fuel + 1, payload, target, ctx, message, store =>
    if payload = [] then (.ok, message, store)
    else
      let (window, ctx) := aesCtrXcryptBuffer build.cipher ctx (payload.take dbSealChunkBytes)
      match store.write target window with
      | none => (.io, message, store)
      | some store =>
        sealChunks build fuel (payload.drop dbSealChunkBytes) (target + window.length) ctx
          (message ++ window) store

/-- `seal_record`: nonce, ciphertext and tag go into the slot, the length into the
directory entry. -/
def sealRecord (index : ℕ) (payload : List UInt8)
    (alloc : Bool) (draws : Fin 4 → UInt32) : PdiErr × DbLayout :=
  match build.dbKey with
  | none => (.notInitialized, layout)
  | some key =>
    if alloc then
      let entry := layout.directory index
      let iv := sealIv draws
      match layout.store.write entry.offset.toNat iv with
      | none => (.io, layout)
      | some store =>
        match sealChunks build payload.length payload (entry.offset.toNat + dbSealIvBytes)
            { key := key, iv := iv } iv store with
        | (.ok, message, store) =>
          match store.write (entry.offset.toNat + dbSealIvBytes + payload.length)
              ((build.hmacSha256 key message).take dbSealTagBytes) with
          | none => (.io, { layout with store := store })
          | some store =>
            (.ok, { layout with
              store := store
              directory := update layout.directory index
                { entry with len := UInt16.ofNat payload.length, crc := 0 } })
        | (err, _, store) => (err, { layout with store := store })
    else (.noMem, layout)

/-- The loop of `verify_sealed`: take the ciphertext into the mac behind the
nonce. -/
def macChunks (store : Store UInt8) (offset len : ℕ) (iv : List UInt8) : Option (List UInt8) :=
  store.foldWindows dbSealChunkBytes (· ++ ·) (offset + dbSealIvBytes) len len 0 iv

def verifySealed
    (expected : List UInt8) : PdiErr :=
  match build.dbKey with
  | none => .notInitialized
  | some key =>
    match layout.store.read entry.offset.toNat dbSealIvBytes with
    | none => .io
    | some iv =>
      match macChunks layout.store entry.offset.toNat entry.len.toNat iv with
      | none => .io
      | some message =>
        if (build.hmacSha256 key message).take dbSealTagBytes = expected then .ok else .crc

/-- `unseal_record`: check a sealed record's tag and decrypt the beginning of its
payload. -/
def unsealRecord (count : ℕ)
    (alloc : Bool) : PdiErr × List UInt8 :=
  match layout.store.read (entry.offset.toNat + dbSealIvBytes + entry.len.toNat)
      dbSealTagBytes with
  | none => (.io, [])
  | some storedTag =>
    if alloc then
      match verifySealed build layout entry storedTag with
      | .ok =>
        match layout.store.read entry.offset.toNat dbSealIvBytes,
            layout.store.read (entry.offset.toNat + dbSealIvBytes) count with
        | some iv, some buf =>
          (.ok, (aesCtrXcryptBuffer build.cipher { key := build.dbKey.getD [], iv := iv } buf).1)
        | _, _ => (.io, [])
      | err => (err, [])
    else (.noMem, [])

/-- What `read_record` hands back. -/
structure RecordRead where
  status : PdiErr
  bytes : List UInt8 := []
  len : UInt16 := 0
  version : UInt16 := 0
deriving DecidableEq, Repr

def readEntryRecord (cap : UInt16)
    (alloc : Bool) : RecordRead :=
  if entry.len = 0 then { status := .ok, version := entry.version }
  else
    let read := if entry.len > cap then cap else entry.len
    if build.sealing && entry.sealed then
      match unsealRecord build layout entry read.toNat alloc with
      | (.ok, bytes) => { status := .ok, bytes := bytes, len := read, version := entry.version }
      | (err, _) => { status := err }
    else
      match verifyPlain layout entry with
      | .ok =>
        match layout.store.read entry.offset.toNat read.toNat with
        | none => { status := .io }
        | some bytes => { status := .ok, bytes := bytes, len := read, version := entry.version }
      | err => { status := err }

def readRecord (id : UInt16) (cap : UInt16)
    (alloc : Bool) : RecordRead :=
  if layout.mounted then
    match findEntry layout id with
    | none => { status := .notFound }
    | some index => readEntryRecord build layout (layout.directory index) cap alloc
  else { status := .notInitialized }

/-- A buffer handed to `write_record`, whose length is a `uint16_t`. -/
structure Payload where
  bytes : List UInt8
  length_lt : bytes.length < 65536

/-- The payload part of `write_record`: seal the bytes, or write them as they are
with their checksum. -/
def storePayload (index : ℕ) (payload : List UInt8)
    (alloc : Bool) (draws : Fin 4 → UInt32) : PdiErr × DbLayout :=
  let entry := layout.directory index
  if build.sealing && entry.sealed then sealRecord build layout index payload alloc draws
  else
    match layout.store.write entry.offset.toNat payload with
    | none => (.io, layout)
    | some store =>
      (.ok, { layout with
        store := store
        directory := update layout.directory index
          { entry with len := UInt16.ofNat payload.length, crc := crc16Ccitt payload } })

def commitVersion (index : ℕ) (version : UInt16) : PdiErr × DbLayout :=
  let entry := { layout.directory index with version := version }
  writeEntry { layout with directory := update layout.directory index entry } index

def writeRecord (id : UInt16) (payload : Payload)
    (version : UInt16) (alloc : Bool) (draws : Fin 4 → UInt32) : PdiErr × DbLayout :=
  if layout.mounted then
    match findEntry layout id with
    | none => (.notFound, layout)
    | some index =>
      let entry := layout.directory index
      if payload.bytes.length + (if entry.sealed then dbSealOverhead else 0) > entry.cap.toNat then
        (.noSpace, layout)
      else
        match storePayload build layout index payload.bytes alloc draws with
        | (.ok, layout) => commitVersion layout index version
        | failed => failed
  else (.notInitialized, layout)

def clearRecord (id : UInt16) : PdiErr × DbLayout :=
  if layout.mounted then
    match findEntry layout id with
    | none => (.notFound, layout)
    | some index =>
      let entry := { layout.directory index with len := 0, crc := 0 }
      writeEntry { layout with directory := update layout.directory index entry } index
  else (.notInitialized, layout)

def setFirmwareVersion (version : UInt32) : DbLayout :=
  if layout.mounted && layout.firmware != version then
    (writeSuperblock { layout with firmware := version }).2
  else layout

def setLaunchYear (year : UInt8) : DbLayout :=
  if layout.mounted && layout.year != year then
    (writeSuperblock { layout with year := year }).2
  else layout

end PdiStack.LayoutEngine
