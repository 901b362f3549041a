import PdiStack.Database.SealedTables

/-!
# What a mount checks of a directory

The superblock has a checksum and the directory has none.  After a mount the slots should
lie in the payload area and apart from each other, with distinct ids and records that
fit.  `read_directory` looks at every entry by itself, and a directory that has the slot
sizes of the tables is not looked at again.  `mount_validates_iff` says for which stores
the outcome is sound.
-/

namespace PdiStack.DirectoryCheck

open FlatStore PdiTypes LayoutEngine Framing Records Serving Packing Mounting Migration TableMap
  StateMachine MountCases FailedMount TableRegistry SealedTables List Option

def InSlot (entry : DbDirEntry) (address : ℕ) : Prop :=
  entry.offset.toNat ≤ address ∧ address < entry.offset.toNat + entry.cap.toNat

def InEntry (index address : ℕ) : Prop :=
  dbDirStart + index * dbDirEntryBytes ≤ address ∧
    address < dbDirStart + index * dbDirEntryBytes + dbDirEntryBytes

/-- The slots lie in the payload area and share no byte. -/
structure SlotsApart (build : Build) (layout : DbLayout) : Prop where
  within : ∀ index < layout.entries, ∀ address, InSlot (layout.directory index) address →
    dbPayloadStart build ≤ address ∧ address < layout.store.capacity
  disjoint : ∀ first < layout.entries, ∀ second < layout.entries, first ≠ second →
    ∀ address, InSlot (layout.directory first) address → ¬ InSlot (layout.directory second) address

/-- The bytes of the record of an entry, its seal included, fit the slot. -/
def RecordFits (entry : DbDirEntry) : Prop :=
  entry.len ≠ 0 → entry.len.toNat + (if entry.sealed then dbSealOverhead else 0) ≤ entry.cap.toNat

/-- A directory that a write can trust. -/
structure ValidDirectory (build : Build) (layout : DbLayout) : Prop where
  apart : SlotsApart build layout
  distinct : ∀ first < layout.entries, ∀ second < layout.entries,
    (layout.directory first).id = (layout.directory second).id → first = second
  fits : ∀ index < layout.entries, RecordFits (layout.directory index)

variable (build : Build) (layout : DbLayout)

/-- A write to one id leaves the superblock, the other directory entries and the other
slots as they are. -/
def WriteConfined : Prop :=
  ∀ id payload version alloc draws index, findEntry layout id = some index →
    ∀ address, address < dbDirStart ∨
      (∃ other < layout.entries, other ≠ index ∧
        (InEntry other address ∨ InSlot (layout.directory other) address)) →
      (writeRecord build layout id payload version alloc draws).2.store.cell address =
        layout.store.cell address

/-! ## What a write touches -/

def SameOutside (start length : ℕ) (before after : Store UInt8) : Prop :=
  ∀ address, address < start ∨ start + length ≤ address → after.cell address = before.cell address

theorem sameOutside_write (start length : ℕ) {store after : Store UInt8} {target : ℕ}
    {values : List UInt8} (hstart : start ≤ target)
    (hlength : target + values.length ≤ start + length)
    (hwrite : store.write target values = some after) : SameOutside start length store after := by
  rw [Store.write, ite_none_right_eq_some] at hwrite
  obtain ⟨-, hwrite⟩ := hwrite
  cases hwrite
  rintro address (hbefore | hafter)
  · exact splice_of_lt _ _ (by omega)
  · exact splice_of_ge _ _ (by omega)

theorem SameOutside.trans {start length : ℕ} {first second third : Store UInt8}
    (hfirst : SameOutside start length first second)
    (hsecond : SameOutside start length second third) : SameOutside start length first third :=
  fun address haddress => (hsecond address haddress).trans (hfirst address haddress)

theorem SameOutside.refl (start length : ℕ) (store : Store UInt8) :
    SameOutside start length store store := fun _ _ => rfl

/-- The chunk loop of `seal_record` writes where the payload goes. -/
theorem sameOutside_sealChunks (start length fuel : ℕ) :
    ∀ (payload : List UInt8) (target : ℕ) (ctx : Aes.AesCtx) (message : List UInt8)
      (store : Store UInt8), start ≤ target → target + payload.length ≤ start + length →
      SameOutside start length store
        (sealChunks build fuel payload target ctx message store).2.2 := by
  induction fuel with
  | zero => exact fun _ _ _ _ store _ _ => .refl _ _ store
  | succ fuel ih =>
    intro payload target ctx message store hstart hlength
    rw [sealChunks]
    split
    · exact .refl _ _ store
    have hwindow : (Aes.aesCtrXcryptBuffer build.cipher ctx
        (payload.take dbSealChunkBytes)).1.length = min dbSealChunkBytes payload.length := by
      rw [Aes.length_aesCtrXcryptBuffer, length_take]
    dsimp only
    split
    · exact .refl _ _ store
    case h_2 after hwrite =>
      refine (sameOutside_write _ _ hstart (by omega) hwrite).trans (ih _ _ _ _ _ (by omega) ?_)
      rw [length_drop]
      omega

theorem sameOutside_sealRecord (index : ℕ)
    (payload : List UInt8) (alloc : Bool) (draws : Fin 4 → UInt32) :
    SameOutside (layout.directory index).offset.toNat (payload.length + dbSealOverhead)
      layout.store (sealRecord build layout index payload alloc draws).2.store := by
  have hoverhead : dbSealOverhead = dbSealIvBytes + dbSealTagBytes := rfl
  unfold sealRecord
  split
  · exact .refl _ _ _
  case h_2 key _ =>
  split
  case isFalse => exact .refl _ _ _
  dsimp only
  split
  · exact .refl _ _ _
  case h_2 nonced hnonce =>
    have hfirst := sameOutside_write (layout.directory index).offset.toNat
      (payload.length + dbSealOverhead) (le_refl _) (by rw [length_sealIv]; omega) hnonce
    have hchunks := sameOutside_sealChunks build (layout.directory index).offset.toNat
      (payload.length + dbSealOverhead) payload.length payload
      ((layout.directory index).offset.toNat + dbSealIvBytes)
      { key := key, iv := sealIv draws } (sealIv draws) nonced (Nat.le_add_right _ _) (by omega)
    split
    case h_1 message sealed hsealed =>
      rw [hsealed] at hchunks
      split
      · exact hfirst.trans hchunks
      case h_2 tagged htag =>
        refine (hfirst.trans hchunks).trans (sameOutside_write _ _ (by omega) ?_ htag)
        rw [← sealTag, length_sealTag]
        omega
    case h_2 status message sealed _ hsealed =>
      rw [hsealed] at hchunks
      exact hfirst.trans hchunks

/-- The payload part of a write stays in the slot of the entry. -/
theorem sameOutside_storePayload {layout : DbLayout} {index : ℕ}
    {payload : List UInt8}
    (hfits : payload.length + (if (layout.directory index).sealed then dbSealOverhead else 0) ≤
      (layout.directory index).cap.toNat) (alloc : Bool) (draws : Fin 4 → UInt32) :
    SameOutside (layout.directory index).offset.toNat (layout.directory index).cap.toNat
      layout.store (storePayload build layout index payload alloc draws).2.store := by
  unfold storePayload
  dsimp only
  split
  case isTrue hsealed =>
    rw [Bool.and_eq_true] at hsealed
    rw [hsealed.2, if_pos rfl] at hfits
    have hsealing := sameOutside_sealRecord build layout index payload alloc draws
    intro address haddress
    exact hsealing address (by omega)
  case isFalse =>
    split
    · exact .refl _ _ _
    case h_2 written hwrite => exact sameOutside_write _ _ (le_refl _) (by omega) hwrite

/-- Writing an entry back stays in its region of the directory. -/
theorem writeEntry_outside {index address : ℕ}
    (houtside : ¬ InEntry index address) :
    (writeEntry layout index).2.store.cell address = layout.store.cell address := by
  unfold writeEntry
  split
  · rfl
  case h_2 written hwrite =>
    apply sameOutside_write _ dbDirEntryBytes (le_refl _)
      (by rw [length_dbPutEntry]) hwrite
    rw [InEntry] at houtside
    omega

/-- A write touches the slot and the directory entry of its id, and nothing else. -/
theorem writeRecord_outside {id : UInt16} (payload : Payload)
    (version : UInt16) (alloc : Bool) (draws : Fin 4 → UInt32) {index address : ℕ}
    (hfound : findEntry layout id = some index)
    (hslot : ¬ InSlot (layout.directory index) address) (hentry : ¬ InEntry index address) :
    (writeRecord build layout id payload version alloc draws).2.store.cell address =
      layout.store.cell address := by
  unfold writeRecord
  split
  case isFalse => rfl
  rw [hfound]
  dsimp only
  by_cases hroom : payload.bytes.length +
      (if (layout.directory index).sealed then dbSealOverhead else 0) >
        (layout.directory index).cap.toNat
  · rw [if_pos hroom]
  rw [if_neg hroom]
  have hstored := sameOutside_storePayload build (Nat.not_lt.mp hroom) alloc draws
    address (by rw [InSlot] at hslot; omega)
  split
  case h_1 stored hstore =>
    rw [hstore] at hstored
    exact (writeEntry_outside _ hentry).trans hstored
  · exact hstored

/-! ## Writes in slots that are apart -/

theorem inSlot_iff_of_samePlacement {entry other : DbDirEntry} (hsame : SamePlacement entry other)
    (address : ℕ) : InSlot other address ↔ InSlot entry address := by
  rw [InSlot, InSlot, hsame.offset_eq, hsame.cap_eq]

theorem SlotsApart.of_sameSlots {build : Build} {layout other : DbLayout}
    (hapart : SlotsApart build layout) (hsame : SameSlots layout other) :
    SlotsApart build other where
  within index hindex address haddress := by
    rw [hsame.entries_eq] at hindex
    rw [inSlot_iff_of_samePlacement (hsame.placement index)] at haddress
    rw [hsame.capacity_eq]
    exact hapart.within index hindex address haddress
  disjoint first hfirst second hsecond hne address := by
    rw [hsame.entries_eq] at hfirst hsecond
    rw [inSlot_iff_of_samePlacement (hsame.placement first),
      inSlot_iff_of_samePlacement (hsame.placement second)]
    exact hapart.disjoint first hfirst second hsecond hne address

/-- Entries of the directory lie before the payload area. -/
theorem lt_payloadStart_of_inEntry {build : Build} {index address : ℕ}
    (hindex : index < build.maxTables) (haddress : InEntry index address) :
    address < dbPayloadStart build :=
  haddress.2.trans_le (entry_address_le hindex)

def StaysConfined (tables : List StructTables) (layout : DbLayout) : Prop :=
  ∀ operations : List Operation, (∀ operation ∈ operations, IsCall operation) →
    WriteConfined build (run (Operation.step build tables) operations layout).2

section

variable {build : Build} {layout : DbLayout} (hentries : layout.entries ≤ build.maxTables)
  (hapart : SlotsApart build layout)

include hentries hapart

theorem writeConfined_of_apart : WriteConfined build layout := by
  intro id payload version alloc draws index hfound address hother
  obtain ⟨hindex, -⟩ := findIndex_spec hfound
  have hstart := dbDirStart_le_payloadStart build
  apply writeRecord_outside build layout payload version alloc draws hfound
  · -- The slot is in the payload area and meets no other slot.
    intro hslot
    have hpayload := (hapart.within index hindex address hslot).1
    rcases hother with hbefore | ⟨other, hlt, hne, hentry | hshared⟩
    · omega
    · have hregion := lt_payloadStart_of_inEntry (hlt.trans_le hentries) hentry
      omega
    · exact hapart.disjoint index hindex other hlt (Ne.symm hne) address hslot hshared
  · intro hregion
    have hpayload := lt_payloadStart_of_inEntry (hindex.trans_le hentries) hregion
    rcases hother with hbefore | ⟨other, hlt, hne, hentry | hshared⟩
    · have hlower := hregion.1
      omega
    · have hregions := hregion
      rw [InEntry] at hregions hentry
      rcases Nat.lt_or_gt_of_ne hne with hless | hgreater
      · have hspace := entry_address_lt hless
        omega
      · have hspace := entry_address_lt hgreater
        omega
    · have hslot := (hapart.within other hlt address hshared).1
      omega

theorem staysConfined_of_apart {tables : List StructTables} :
    StaysConfined build tables layout := by
  intro operations hcalls
  have hsame := @sameSlots_run build tables layout _ hcalls
  exact writeConfined_of_apart (hsame.entries_eq.trans_le hentries) (hapart.of_sameSlots hsame)

end

/-! ## A directory that is kept -/

/-- What a directory with the right slot sizes has to bring along. -/
structure StoredSound (build : Build) (loaded : DbLayout) : Prop where
  start_le : ∀ index < loaded.entries, (loaded.directory index).cap ≠ 0 →
    dbPayloadStart build ≤ (loaded.directory index).offset.toNat
  disjoint : ∀ first < loaded.entries, ∀ second < loaded.entries, first ≠ second →
    ∀ address, InSlot (loaded.directory first) address → ¬ InSlot (loaded.directory second) address
  sealed_fits : ∀ index < loaded.entries, (loaded.directory index).sealed = true →
    RecordFits (loaded.directory index)

/-- As many tables as entries, each with an entry of its own, make the ids of the
directory distinct. -/
theorem distinct_of_geometryMatches {build : Build} {loaded : DbLayout}
    {tables : List StructTables} (hnodup : (tables.map StructTables.tableId).Nodup)
    (hgeometry : geometryMatches build loaded tables = true) :
    ∀ first < loaded.entries, ∀ second < loaded.entries,
      (loaded.directory first).id = (loaded.directory second).id → first = second := by
  have hlength : tables.length = loaded.entries := by
    rw [geometryMatches, decide_eq_true_eq] at hgeometry
    exact hgeometry.1
  let ids := (range loaded.entries).map fun index => (loaded.directory index).id
  have hsubset : tables.map StructTables.tableId ⊆ ids := by
    intro id hid
    obtain ⟨table, htable, rfl⟩ := mem_map.mp hid
    obtain ⟨index, hfound, -⟩ := exists_entry_of_geometryMatches hgeometry htable
    obtain ⟨hindex, hsame⟩ := findIndex_spec hfound
    exact mem_map.mpr ⟨index, mem_range.mpr hindex, hsame⟩
  have hperm : (tables.map StructTables.tableId).Perm ids := by
    apply (subperm_of_subset hnodup hsubset).perm_of_length_le
    simp [ids, hlength]
  have hids : ids.Nodup := hperm.nodup_iff.mp hnodup
  intro first hfirst second hsecond hsame
  have hbound : first < ids.length := by simpa [ids] using hfirst
  apply (getElem?_inj hbound hids).mp
  simp [ids, getElem?_range hfirst, getElem?_range hsecond, hsame]

theorem valid_loaded_iff {build : Build} {store : Store UInt8} {loaded : DbLayout}
    {tables : List StructTables} (hloaded : Loaded build store loaded)
    (hnodup : (tables.map StructTables.tableId).Nodup)
    (hgeometry : geometryMatches build loaded tables = true) :
    ValidDirectory build loaded ↔ StoredSound build loaded := by
  constructor
  · intro hvalid
    refine ⟨fun index hindex hcap => ?_, hvalid.apart.disjoint, fun index hindex _ =>
      hvalid.fits index hindex⟩
    have hpositive : 0 < (loaded.directory index).cap.toNat :=
      pos_of_ne_zero fun hzero => hcap (UInt16.toNat_inj.mp hzero)
    exact (hvalid.apart.within index hindex _ ⟨le_refl _, by omega⟩).1
  · intro hsound
    refine ⟨⟨fun index hindex address haddress => ?_, hsound.disjoint⟩,
      distinct_of_geometryMatches hnodup hgeometry, fun index hindex => ?_⟩
    · have hcap : (loaded.directory index).cap ≠ 0 := by
        intro hzero
        rw [InSlot, hzero] at haddress
        have hnone : (0 : UInt16).toNat = 0 := rfl
        omega
      have hstart := hsound.start_le index hindex hcap
      have hend := (hloaded.inside index hindex).1
      rw [hloaded.store_eq]
      rw [InSlot] at haddress
      omega
    · cases hsealed : (loaded.directory index).sealed with
      | true => exact hsound.sealed_fits index hindex hsealed
      | false =>
        intro _
        rw [hsealed]
        exact UInt16.le_iff_toNat_le.mp (hloaded.inside index hindex).2

/-! ## A directory that is laid out afresh -/

/-- What a repack needs: no slot begins where a field of 16 bits does not reach, and
no sealed record is so long that its size with the seal wraps around and seems to
fit. -/
structure PackSound (build : Build) (loaded : DbLayout) (tables : List StructTables) : Prop where
  start_lt : ∀ index table, tables[index]? = some table → dbSlotFor build table ≠ 0 →
    slotStart build tables index < 65536
  carried_fits : ∀ table ∈ tables, dbSeals build table = true →
    ∀ index, findEntry loaded table.tableId = some index → (loaded.directory index).sealed = true →
      (loaded.directory index).len.toNat + dbSealOverhead ≤ 65536 ∨
        (dbSlotFor build table).toNat + 65536 < (loaded.directory index).len.toNat + dbSealOverhead

/-- The size of a sealed record as the code computes it. -/
theorem toNat_dbStoredBytes_sealed {entry : DbDirEntry} (hsealed : entry.sealed = true)
    (hlen : entry.len ≠ 0) :
    (dbStoredBytes entry).toNat = (entry.len.toNat + dbSealOverhead) % 65536 := by
  rw [dbStoredBytes, if_neg hlen, if_pos hsealed]
  rfl

/-- The record that a slot takes over fits it, unless its size wraps around. -/
theorem recordFits_carryRecord_iff {loaded : DbLayout} {table : StructTables}
    {offset : ℕ} :
    RecordFits (carryRecord loaded.directory loaded.entries (emptyEntry build table offset)).1 ↔
      (dbSeals build table = true → ∀ index, findEntry loaded table.tableId = some index →
        (loaded.directory index).sealed = true →
        (loaded.directory index).len.toNat + dbSealOverhead ≤ 65536 ∨
          (dbSlotFor build table).toNat + 65536 <
            (loaded.directory index).len.toNat + dbSealOverhead) := by
  have hkind := sealed_emptyEntry build table offset
  have hsmall := (dbSlotFor build table).toNat_lt
  have hempty : RecordFits (emptyEntry build table offset) := fun hlen => absurd rfl hlen
  unfold carryRecord
  rw [show (emptyEntry build table offset).id = table.tableId from rfl,
    show findIndex loaded.directory loaded.entries table.tableId =
      findEntry loaded table.tableId from rfl]
  cases hfound : findEntry loaded table.tableId with
  | none => exact iff_of_true hempty fun _ index hindex => by cases hindex
  | some index =>
    simp only [some.injEq, forall_eq']
    generalize loaded.directory index = entry
    have hlen_lt := entry.len.toNat_lt
    have hoverhead : dbSealOverhead = 32 := rfl
    have hzero : (0 : UInt16).toNat = 0 := rfl
    by_cases hcarried : dbStoredBytes entry ≠ 0 ∧
        entry.sealed = (emptyEntry build table offset).sealed ∧
        dbStoredBytes entry ≤ (emptyEntry build table offset).cap
    · rw [if_pos hcarried]
      obtain ⟨hstored, hsame, hfits⟩ := hcarried
      have hlen : entry.len ≠ 0 := by
        intro hnone
        rw [dbStoredBytes, if_pos hnone] at hstored
        exact hstored rfl
      have hfits' : (dbStoredBytes entry).toNat ≤
          (dbSlotFor build table).toNat := UInt16.le_iff_toNat_le.mp hfits
      rw [hkind] at hsame
      have hrecord : ∀ carried : DbDirEntry, carried.len = entry.len →
          carried.cap = dbSlotFor build table → carried.sealed = dbSeals build table →
          (RecordFits carried ↔ entry.len.toNat +
            (if dbSeals build table then dbSealOverhead else 0) ≤
              (dbSlotFor build table).toNat) := by
        intro carried hcarriedLen hcarriedCap hcarriedKind
        rw [RecordFits, hcarriedLen, hcarriedCap, hcarriedKind]
        exact ⟨fun hroom => hroom hlen, fun hroom _ => hroom⟩
      rw [hrecord _ (by rfl) (by rfl) (by exact hkind)]
      cases hseals : dbSeals build table with
      | false =>
        refine iff_of_true ?_ fun hsealed => by cases hsealed
        rw [hseals] at hsame
        rw [dbStoredBytes, if_neg hlen, hsame] at hfits'
        exact hfits'
      | true =>
        rw [hseals] at hsame
        have hsize := toNat_dbStoredBytes_sealed hsame hlen
        have hnonzero : (dbStoredBytes entry).toNat ≠ 0 := fun hnone =>
          hstored (UInt16.toNat_inj.mp hnone)
        rw [if_pos rfl]
        constructor
        · intro hroom _ _
          omega
        · intro hbound
          have hcases := hbound rfl hsame
          omega
    · rw [if_neg hcarried]
      refine iff_of_true hempty fun hseals hsealed => ?_
      by_cases hlen : entry.len = 0
      · rw [hlen]
        omega
      have hsize := toNat_dbStoredBytes_sealed hsealed hlen
      by_cases hnone : dbStoredBytes entry = 0
      · rw [hnone] at hsize
        omega
      · have hlarge : ¬ dbStoredBytes entry ≤ (emptyEntry build table offset).cap := fun hfits =>
          hcarried ⟨hnone, by rw [hsealed, hkind, hseals], hfits⟩
        rw [UInt16.le_iff_toNat_le] at hlarge
        dsimp only [emptyEntry] at hlarge
        omega

section Packed

variable {build : Build} {loaded layout : DbLayout} {tables : List StructTables}
  {packing : Packing}

section

variable (hpacked : PackedWith build loaded.directory loaded.entries tables packing)
include hpacked

/-- Where the slot of a table is, as the field of 16 bits says it. -/
theorem inSlot_packed_iff {index : ℕ} {table : StructTables} (htable : tables[index]? = some table)
    (address : ℕ) : InSlot (packing.directory index) address ↔
      slotStart build tables index % 65536 ≤ address ∧
        address < slotStart build tables index % 65536 + (dbSlotFor build table).toNat := by
  have hplacement := hpacked.placement htable
  have hoffset : (packing.directory index).offset.toNat = slotStart build tables index % 65536 := by
    rw [hplacement.offset_eq]
    exact UInt16.toNat_ofNat'
  rw [InSlot, hoffset, hplacement.cap_eq]
  rfl

theorem slotsApart_of_starts (hdirectory : layout.directory = packing.directory)
    (hentries : layout.entries = packing.entries)
    (hend : slotsEnd build tables ≤ layout.store.capacity)
    (hstarts : ∀ index table, tables[index]? = some table → dbSlotFor build table ≠ 0 →
      slotStart build tables index < 65536) :
    SlotsApart build layout := by
  -- A slot with a byte in it lies where its table was placed.
  have hslot : ∀ index < layout.entries, ∀ address, InSlot (layout.directory index) address →
      ∃ table, tables[index]? = some table ∧ slotStart build tables index ≤ address ∧
        address < slotStart build tables index + (dbSlotFor build table).toNat := by
    intro index hindex address haddress
    obtain ⟨table, htable⟩ := hpacked.exists_table (hentries ▸ hindex)
    rw [hdirectory, inSlot_packed_iff hpacked htable] at haddress
    have hsize : dbSlotFor build table ≠ 0 := by
      intro hzero
      have hnone : (0 : UInt16).toNat = 0 := rfl
      rw [hzero] at haddress
      omega
    rw [Nat.mod_eq_of_lt (hstarts index table htable hsize)] at haddress
    exact ⟨table, htable, haddress⟩
  constructor
  · intro index hindex address haddress
    obtain ⟨table, htable, hlower, hupper⟩ := hslot index hindex address haddress
    have hstart := start_le_rangeStart (dbPayloadStart build) (slotSizes build tables) index
    have hlast := rangeStart_add_le (dbPayloadStart build) (getElem?_slotSizes build htable)
    rw [slotStart] at hlower hupper
    rw [slotsEnd] at hend
    omega
  · intro first hfirst second hsecond hne address hinFirst hinSecond
    obtain ⟨table, htable, hlower, hupper⟩ := hslot first hfirst address hinFirst
    obtain ⟨table', htable', hlower', hupper'⟩ := hslot second hsecond address hinSecond
    rw [slotStart] at hlower hupper hlower' hupper'
    rcases Nat.lt_or_gt_of_ne hne with hless | hgreater
    · have hapart := rangeStart_disjoint (dbPayloadStart build) hless
        (getElem?_slotSizes build htable)
      omega
    · have hapart := rangeStart_disjoint (dbPayloadStart build) hgreater
        (getElem?_slotSizes build htable')
      omega

/-- The first slot that begins beyond 65535 wraps onto one before it, or out of the
payload area. -/
theorem starts_of_slotsApart (hdirectory : layout.directory = packing.directory)
    (hentries : layout.entries = packing.entries) (hapart : SlotsApart build layout) :
    ∀ index table, tables[index]? = some table → dbSlotFor build table ≠ 0 →
      slotStart build tables index < 65536 := by
  intro index
  induction index using Nat.strong_induction_on with
  | _ index ih =>
    intro table htable hsize
    by_contra hbeyond
    have hpositive : 0 < (dbSlotFor build table).toNat :=
      pos_of_ne_zero fun hzero => hsize (UInt16.toNat_inj.mp hzero)
    have hindex : ∀ other placed, tables[other]? = some placed → other < layout.entries := by
      intro other placed hplaced
      rw [hentries, hpacked.entries_eq]
      exact (List.getElem?_eq_some_iff.mp hplaced).1
    -- The address where the wrapped slot begins.
    have hin : InSlot (layout.directory index) (slotStart build tables index % 65536) := by
      rw [hdirectory, inSlot_packed_iff hpacked htable]
      omega
    have hlower := (hapart.within index (hindex index table htable) _ hin).1
    have hupper : slotStart build tables index % 65536 <
        rangeStart (dbPayloadStart build) (slotSizes build tables) index := by
      rw [← slotStart]
      omega
    obtain ⟨other, size, hother, hsizes, hrange, hrange'⟩ := exists_range_of_lt hlower hupper
    obtain ⟨placed, hplaced, rfl⟩ : ∃ placed, tables[other]? = some placed ∧
        (dbSlotFor build placed).toNat = size := by
      rw [slotSizes, getElem?_map, map_eq_some_iff] at hsizes
      exact hsizes
    have hnonempty : dbSlotFor build placed ≠ 0 := by
      intro hzero
      have hnone : (0 : UInt16).toNat = 0 := rfl
      rw [hzero] at hrange'
      omega
    have hstart := ih other hother placed hplaced hnonempty
    apply hapart.disjoint index (hindex index table htable) other (hindex other placed hplaced)
      (Nat.ne_of_gt hother) _ hin
    rw [hdirectory, inSlot_packed_iff hpacked hplaced, Nat.mod_eq_of_lt hstart]
    exact ⟨hrange, hrange'⟩

theorem valid_packed_iff (hnodup : (tables.map StructTables.tableId).Nodup)
    (hdirectory : layout.directory = packing.directory)
    (hentries : layout.entries = packing.entries)
    (hend : slotsEnd build tables ≤ layout.store.capacity) :
    ValidDirectory build layout ↔ PackSound build loaded tables := by
  have hfits : ∀ index table, tables[index]? = some table →
      (RecordFits (layout.directory index) ↔ (dbSeals build table = true →
        ∀ other, findEntry loaded table.tableId = some other →
          (loaded.directory other).sealed = true →
          (loaded.directory other).len.toNat + dbSealOverhead ≤ 65536 ∨
            (dbSlotFor build table).toNat + 65536 <
              (loaded.directory other).len.toNat + dbSealOverhead)) := by
    intro index table htable
    have hentry := congrArg Prod.fst (hpacked.entry_eq index table htable)
    rw [hdirectory, ← recordFits_carryRecord_iff build, ← hentry]
  constructor
  · intro hvalid
    refine ⟨starts_of_slotsApart hpacked hdirectory hentries hvalid.apart,
      fun table htable => ?_⟩
    obtain ⟨index, hindex⟩ := mem_iff_getElem?.mp htable
    apply (hfits index table hindex).mp
    apply hvalid.fits
    rw [hentries, hpacked.entries_eq]
    exact (List.getElem?_eq_some_iff.mp hindex).1
  · intro hsound
    refine ⟨slotsApart_of_starts hpacked hdirectory hentries hend hsound.start_lt, ?_,
      fun index hindex => ?_⟩
    · exact distinct_of_packed hpacked hnodup hdirectory hentries
    · obtain ⟨table, htable⟩ := hpacked.exists_table (hentries ▸ hindex)
      exact (hfits index table htable).mpr
        (hsound.carried_fits table (mem_of_getElem? htable))

end

end Packed

/-! ## Mounting -/

/-- A store whose directory is sound for a list of tables: as it stands if it has the
slot sizes of the tables, and for a repack otherwise. -/
def SoundFor (build : Build) (object : DbLayout) (store : Store UInt8)
    (tables : List StructTables) : Prop :=
  ∀ loaded, loadStore build object store = some loaded →
    if geometryMatches build loaded tables then StoredSound build loaded
    else PackSound build loaded tables

/-- A mount that does not format leaves a directory that writes can trust, and writes
that stay in it, exactly when the directory on the store was sound. -/
theorem mount_validates_iff (build : Build) (object : DbLayout) (store : Store UInt8)
    (tables : List StructTables) (alloc : Bool) (hregistered : Registered build tables)
    (mounted : DbLayout)
    (hmount : mount build object (some store) tables alloc = (.ok, mounted))
    (hkept : mounted.formatted = false) :
    (ValidDirectory build mounted ∧ StaysConfined build tables mounted) ↔
      SoundFor build object store tables := by
  have hplacedTables : placedTables build tables = tables := take_of_length_le hregistered.length_le
  have hconfined : mounted.entries ≤ build.maxTables →
      ((ValidDirectory build mounted ∧ StaysConfined build tables mounted) ↔
        ValidDirectory build mounted) := fun hentries =>
    ⟨And.left, fun hvalid => ⟨hvalid, staysConfined_of_apart hentries hvalid.apart⟩⟩
  rcases mount_ok_cases hmount with ⟨-, hformatted, -⟩ | ⟨layout, hload, hends⟩
  · cases hkept.symm.trans hformatted
  have hloaded := loaded_of_loadStore hload
  have hsound : SoundFor build object store tables ↔
      if geometryMatches build layout tables then StoredSound build layout
      else PackSound build layout tables := by
    refine ⟨fun hall => hall layout hload, fun hthis other hother => ?_⟩
    rw [hload] at hother
    cases hother
    exact hthis
  rcases hends with ⟨hgeometry, rfl⟩ | ⟨hgeometry, packing, cell, hpacked, hend, rfl⟩
  · rw [hsound, hgeometry, hconfined hloaded.entries_le]
    exact valid_loaded_iff hloaded hregistered.nodup hgeometry
  · rw [hplacedTables] at hpacked hend
    have hentries : packing.entries ≤ build.maxTables :=
      hpacked.entries_eq.trans_le hregistered.length_le
    rw [hsound, hgeometry, hconfined hentries]
    exact valid_packed_iff hpacked hregistered.nodup rfl rfl hend

def remounted : PdiErr × DbLayout :=
  mount sampleBuild (freshLayout servedStore) (some servedStore) sampleTables true

theorem remounted_validates :
    (ValidDirectory sampleBuild remounted.2 ∧ StaysConfined sampleBuild sampleTables remounted.2) ↔
      SoundFor sampleBuild (freshLayout servedStore) servedStore sampleTables := by
  have hstatus : remounted.1 = .ok := by decide +kernel
  have hmount : remounted = (.ok, remounted.2) := by
    rw [← hstatus]
  exact mount_validates_iff sampleBuild (freshLayout servedStore) servedStore sampleTables true
    (by decide) remounted.2 hmount (by decide +kernel)

/-- That store with one byte lost: the offset of the second slot reads zero. -/
def rottedStore : Store UInt8 where
  capacity := servedStore.capacity
  cell := Function.update servedStore.cell 34 0

def rotted : PdiErr × DbLayout :=
  mount sampleBuild (freshLayout rottedStore) (some rottedStore) sampleTables true

def strayRecord : Payload := { bytes := replicate 17 9, length_lt := by decide }

/-- The mount takes the rotted directory, and a write to the second table goes over the
superblock. -/
theorem rotted_directory_mounts :
    rotted.1 = .ok ∧ rotted.2.formatted = false ∧ Registered sampleBuild sampleTables ∧
      ¬ ValidDirectory sampleBuild rotted.2 ∧
      (LayoutEngine.writeRecord sampleBuild rotted.2 4 strayRecord 3 true
        fun _ => 0).2.store.cell 5 ≠ rotted.2.store.cell 5 := by
  refine ⟨by decide +kernel, by decide +kernel, by decide, fun hvalid => ?_, by decide +kernel⟩
  have hentries : rotted.2.entries = 2 := by decide +kernel
  have hslot : InSlot (rotted.2.directory 1) 5 := by
    have hoffset : (rotted.2.directory 1).offset = 0 := by decide +kernel
    have hcap : (rotted.2.directory 1).cap = 20 := by decide +kernel
    rw [InSlot, hoffset, hcap]
    decide
  have hstart := (hvalid.apart.within 1 (by omega) 5 hslot).1
  have hpayload : dbPayloadStart sampleBuild = 43 := rfl
  omega

end PdiStack.DirectoryCheck
